import Microlab.Assembly
import Microlab.Proofs.Instruction

/-!
# Assembling one source below another

The encoding of a line depends on that line only. So the code of two sources, one below the
other, is the code of the first and behind it that of the second, and the listing of the
second is the same as before, only further down. The carriage return that a last line may
end in belongs to the line or to its end, depending on what follows; it is a blank, and
blanks at the end of a line do not count.
-/

namespace Microlab

open Text

/-! ## Lines -/

namespace Instruction

/-- A blank behind a line is part of its comment, if it has one. -/
theorem words_code_append_blank {b : Char} (hb : isBlank b = true) (cs : List Char) :
    words (code (cs ++ [b])) = words (code cs) := by
  have hsemi : b ≠ ';' := by
    rintro rfl
    exact absurd hb (by decide)
  have hslash : b ≠ '/' := by
    rintro rfl
    exact absurd hb (by decide)
  -- the comment of the longer line starts where that of the line does
  have hcode : code (cs ++ [b]) = code cs ∨ code (cs ++ [b]) = code cs ++ [b] := by
    induction cs using code.induct with
    | case1 => exact Or.inr (code_cons_eq_self hsemi hslash rfl)
    | case2 | case3 => exact Or.inl rfl
    | case4 c cs hc hcs ih =>
        have hcomment : ¬ (c = '/' ∧ cs.head? = some '/') := by
          rintro ⟨rfl, hhead⟩
          obtain ⟨rest, rfl⟩ := List.head?_eq_some_iff.mp hhead
          exact hcs rest rfl rfl
        have hcomment' : ¬ (c = '/' ∧ (cs ++ [b]).head? = some '/') := by
          rintro ⟨rfl, hhead⟩
          cases cs with
          | nil => exact hslash (Option.some.inj hhead)
          | cons d cs => exact hcomment ⟨rfl, hhead⟩
        rw [List.cons_append, code_cons hc hcomment, code_cons hc hcomment', List.cons_append,
          List.cons.injEq, List.cons.injEq]
        simpa using ih
  rcases hcode with h | h
  · rw [h]
  · rw [h, words_append_cons hb]
    exact List.append_nil _

theorem parse?_dropReturn (cs : List Char) :
    parse? (String.ofList (dropReturn cs)) = parse? (String.ofList cs) := by
  unfold dropReturn
  split
  · next h =>
    obtain ⟨init, rfl⟩ := List.getLast?_eq_some_iff.mp h
    unfold parse?
    rw [List.dropLast_concat, String.toList_ofList, String.toList_ofList,
      words_code_append_blank (by decide)]
  · rfl

end Instruction

namespace SourceLine

/-- The line of a source that starts `d` lines further down. -/
def shifted (d : Nat) (l : SourceLine) : SourceLine := { l with number := l.number + d }

theorem ofLines_append (n : Nat) (texts more : List String) :
    ofLines n (texts ++ more) = ofLines n texts ++ ofLines (n + texts.length) more := by
  induction texts generalizing n with
  | nil => rfl
  | cons text texts ih =>
      rw [List.cons_append, ofLines, ofLines, ih, List.length_cons, Nat.add_right_comm,
        Nat.add_assoc]
      cases Instruction.parse? text <;> rfl

theorem ofLines_shifted (n d : Nat) (texts : List String) :
    ofLines (n + d) texts = (ofLines n texts).map (shifted d) := by
  induction texts generalizing n with
  | nil => rfl
  | cons text texts ih =>
      rw [ofLines, ofLines, Nat.add_right_comm, ih]
      cases Instruction.parse? text <;> rfl

theorem ofLines_cons_congr {n : Nat} {texts more : List String} (text : String)
    (h : ofLines (n + 1) texts = ofLines (n + 1) more) :
    ofLines n (text :: texts) = ofLines n (text :: more) := by
  unfold ofLines
  rw [h]

/-- The last piece is read alike whether or not a line end is behind it. -/
theorem ofLines_dropReturn (n : Nat) (pieces : List (List Char)) :
    ofLines n ((pieces.map dropReturn).map String.ofList)
      = ofLines n ((endLines pieces).map String.ofList) := by
  induction pieces generalizing n with
  | nil => rfl
  | cons piece pieces ih =>
      cases pieces with
      | nil =>
          rw [endLines]
          split
          · next hempty =>
            obtain rfl := List.isEmpty_iff.mp hempty
            rfl
          · simp only [List.map_cons, List.map_nil, ofLines, Instruction.parse?_dropReturn]
      | cons next pieces =>
          rw [endLines.eq_3 piece (next :: pieces) (List.cons_ne_nil _ _)]
          exact ofLines_cons_congr _ (ih (n + 1))

theorem parse_below (s t : String) :
    parse (s ++ "\n" ++ t)
      = parse s ++ (parse t).map (shifted (1 + s.toList.count '\n')) := by
  unfold parse
  rw [lines_below, ofLines_append, ofLines_dropReturn, ofLines_shifted, List.length_map,
    List.length_map, length_splitOn]
  rfl

end SourceLine

/-! ## Assemblies -/

/-- The instruction of a source that starts `d` lines and `n` bytes further down. -/
def Encoded.shifted (d n : Nat) (e : Encoded) : Encoded :=
  { e with source := e.source.shifted d, address := e.address + n }

def AssemblyError.shifted (d : Nat) (e : AssemblyError) : AssemblyError :=
  { e with source := e.source.shifted d }

namespace Assembly

def append (a b : Assembly) : Assembly :=
  ⟨a.instructions ++ b.instructions, a.errors ++ b.errors⟩

/-- All of the assembly, `d` lines and `n` bytes further down. -/
def shifted (d n : Nat) (a : Assembly) : Assembly :=
  ⟨a.instructions.map (.shifted d n), a.errors.map (.shifted d)⟩

theorem bytes_append (a b : Assembly) : (a.append b).bytes = a.bytes ++ b.bytes :=
  List.flatMap_append

theorem bytes_shifted (d n : Nat) (a : Assembly) : (a.shifted d n).bytes = a.bytes := by
  unfold bytes shifted
  rw [List.flatMap_map]
  rfl

variable {arch : Arch}

theorem ofLines_append (start : Nat) (ks ls : List SourceLine) :
    ofLines arch start (ks ++ ls) = (ofLines arch start ks).append
      (ofLines arch (start + (ofLines arch start ks).bytes.length) ls) := by
  induction ks generalizing start with
  | nil => rfl
  | cons k ks ih =>
      rw [List.cons_append, ofLines, ofLines]
      cases arch.encode k.instruction with
      | ok code =>
          dsimp only
          rw [ih]
          simp only [append, Assembly.bytes, List.flatMap_cons, List.length_append, Nat.add_assoc,
            List.cons_append]
      | error reason =>
          dsimp only
          rw [ih]
          rfl

theorem ofLines_shifted (start d n : Nat) (ls : List SourceLine) :
    ofLines arch (start + n) (ls.map (SourceLine.shifted d))
      = (ofLines arch start ls).shifted d n := by
  induction ls generalizing start with
  | nil => rfl
  | cons l ls ih =>
      have hcode : arch.encode (l.shifted d).instruction = arch.encode l.instruction := rfl
      rw [List.map_cons, ofLines, ofLines, hcode]
      cases arch.encode l.instruction with
      | ok code =>
          dsimp only
          rw [Nat.add_right_comm, ih]
          rfl
      | error reason =>
          dsimp only
          rw [ih]
          rfl

theorem assemble_below (arch : Arch) (s t : String) :
    assemble arch (s ++ "\n" ++ t) =
      (assemble arch s).append ((assemble arch t).shifted (1 + s.toList.count '\n')
        (assemble arch s).bytes.length) := by
  unfold assemble
  rw [SourceLine.parse_below, ofLines_append, ofLines_shifted]

end Assembly

/-- **Assembly is compositional.** Whatever two sources hold and however the first one ends,
one below the other they are assembled to the code of the first and behind it the code of
the second. Instructions and errors are those of the first and then those of the second;
these stand lower by the lines of the first, one more than it has newlines, and their
addresses are higher by its bytes. -/
theorem assemble_compositional (arch : Arch) (s t : String) :
    let a := assemble arch s
    let b := assemble arch t
    let both := assemble arch (s ++ "\n" ++ t)
    let d := 1 + s.toList.count '\n'
    both.bytes = a.bytes ++ b.bytes ∧
    both.instructions = a.instructions ++ b.instructions.map (fun e =>
      ⟨⟨e.source.number + d, e.source.instruction⟩, e.address + a.bytes.length, e.bytes⟩) ∧
    both.errors = a.errors ++ b.errors.map (fun e =>
      ⟨⟨e.source.number + d, e.source.instruction⟩, e.reason⟩) := by
  intro a b both d
  have hboth : both = a.append (b.shifted d a.bytes.length) := Assembly.assemble_below arch s t
  rw [hboth, Assembly.bytes_append, Assembly.bytes_shifted]
  exact ⟨rfl, rfl, rfl⟩

example : (assemble .i8086 ("NOP\r" ++ "\n" ++ "FROB\nHLT")).errors.map AssemblyError.message
    = ["line 2: FROB: unknown instruction"] := by
  decide +kernel

end Microlab
