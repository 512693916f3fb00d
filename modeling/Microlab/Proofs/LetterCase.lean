import Microlab.Assembly
import Microlab.Cpu
import Microlab.Proofs.I8051.Operation
import Microlab.Proofs.I8086.Operation
import Microlab.Proofs.Text.Capitals

/-!
# Letter case and blanks

What an instruction means is settled by its folded form: mnemonic and operands in
capitals, the operands without the blanks around them. Folding changes neither the code of
an instruction nor what it does. And since reading a source folds what it finds in
capitals, a source in other letters is assembled to the same code at the same addresses.
-/

namespace Microlab

open Text

/-! ## Folded instructions -/

namespace Instruction

/-- The instructions differ at most in the case of letters and in the blanks around
operands. -/
structure Alike (i j : Instruction) : Prop where
  mnemonic : sameLetters i.mnemonic j.mnemonic = true
  operands : List.Forall₂ (fun x y => sameLetters (trimmed x) (trimmed y) = true)
    i.operands j.operands

/-- The instruction with its mnemonic and its operands folded. -/
def folded (i : Instruction) : Instruction :=
  ⟨capitals i.mnemonic, i.operands.map Text.folded⟩

theorem alike_iff {i j : Instruction} : i.Alike j ↔ i.folded = j.folded := by
  have hoperands :
      List.Forall₂ (fun x y => sameLetters (trimmed x) (trimmed y) = true) i.operands j.operands
        ↔ i.operands.map Text.folded = j.operands.map Text.folded := by
    rw [← List.forall₂_eq_eq_eq, List.forall₂_map_left_iff, List.forall₂_map_right_iff]
    simp only [sameLetters_iff_capitals, folded_eq_capitals]
  constructor
  · intro h
    unfold folded
    rw [sameLetters_iff_capitals.mp h.mnemonic, hoperands.mp h.operands]
  · intro h
    obtain ⟨hmnemonic, hargs⟩ := Instruction.mk.inj h
    exact ⟨sameLetters_iff_capitals.mpr hmnemonic, hoperands.mpr hargs⟩

theorem ofName?_folded (i : Instruction) :
    Mnemonic.ofName? i.folded.mnemonic = Mnemonic.ofName? i.mnemonic := by
  apply Mnemonic.ofName?_congr
  show upper (capitals i.mnemonic).toList = _
  rw [toList_capitals, upper_upper]

end Instruction

theorem Pattern.bindAll?_folded (arch : Arch) (ps : List Pattern) (operands : List String) :
    bindAll? arch ps (operands.map folded) = bindAll? arch ps operands := by
  induction ps generalizing operands with
  | nil => cases operands <;> rfl
  | cons p ps ih =>
      cases operands with
      | nil => rfl
      | cons operand operands =>
          rw [List.map_cons, bindAll?, bindAll?, bind?_folded, ih]

theorem Arch.encode_folded (arch : Arch) (i : Instruction) :
    arch.encode i.folded = arch.encode i := by
  have hcandidates : arch.candidates i.folded = arch.candidates i := by
    unfold candidates opcodesOf
    rw [i.ofName?_folded]
    simp only [Instruction.folded, Pattern.bindAll?_folded]
  unfold encode select?
  rw [hcandidates]

theorem SameOperand.of_folded (arch : Arch) (operands : List String) :
    List.Forall₂ (SameOperand arch) (operands.map folded) operands := by
  rw [List.forall₂_map_left_iff, List.forall₂_same]
  intro x _
  left
  rw [← String.toList_inj, toList_folded, toList_folded, trim_upper_trim, upper_upper]

theorem SameOperand.refl (arch : Arch) (operands : List String) :
    List.Forall₂ (SameOperand arch) operands operands :=
  List.forall₂_same.mpr fun _ _ => Or.inl rfl

theorem I8086.Machine.execute_folded (m : Machine) (i : Instruction) :
    (m.execute i.folded).1 = (m.execute i).1 := by
  cases hname : Mnemonic.ofName? i.mnemonic with
  | none =>
      rw [execute_fst, execute_fst]
      unfold Operation.resolve resolveBy
      rw [i.ofName?_folded, hname]
  | some k =>
      -- both do what the principal name of the mnemonic does
      have hprincipal := k.principal.ofName?_name
      have hfolded := i.ofName?_folded.trans hname
      have h : (m.execute i.folded).1 = (m.execute ⟨k.principal.name, i.operands⟩).1 :=
        m.execute_congr hfolded hprincipal (SameOperand.of_folded .i8086 i.operands)
      have h' : (m.execute i).1 = (m.execute ⟨k.principal.name, i.operands⟩).1 :=
        m.execute_congr hname hprincipal (SameOperand.refl .i8086 i.operands)
      rw [h, h']

theorem I8051.Machine.execute_folded (m : Machine) (i : Instruction) :
    (m.execute i.folded).1 = (m.execute i).1 := by
  cases hname : Mnemonic.ofName? i.mnemonic with
  | none =>
      rw [execute_fst, execute_fst]
      unfold Operation.resolve resolveBy
      rw [i.ofName?_folded, hname]
  | some k =>
      exact m.execute_congr (i.ofName?_folded.trans hname) hname
        (SameOperand.of_folded .i8051 i.operands)

theorem Cpu.execute_folded {a : Arch} (m : Cpu a) (i : Instruction) :
    (m.execute i.folded).1 = (m.execute i).1 := by
  cases a with
  | i8086 => exact I8086.Machine.execute_folded m i
  | i8051 => exact I8051.Machine.execute_folded m i

namespace Instruction.Alike

variable {i j : Instruction}

theorem encode_eq (h : i.Alike j) (arch : Arch) : arch.encode i = arch.encode j := by
  rw [← arch.encode_folded i, alike_iff.mp h, arch.encode_folded]

theorem execute_eq (h : i.Alike j) {a : Arch} (m : Cpu a) :
    (m.execute i).1 = (m.execute j).1 := by
  rw [← m.execute_folded i, alike_iff.mp h, m.execute_folded]

end Instruction.Alike

/-! ## Reading a source in capitals -/

namespace Instruction

theorem code_upper (cs : List Char) : code (upper cs) = upper (code cs) := by
  induction cs using code.induct with
  | case1 => rfl
  | case2 => rfl
  | case3 => rfl
  | case4 c cs hsemi hslash ih =>
      rw [code.eq_4 c cs hsemi hslash, upper_cons, upper_cons, ← ih]
      refine code.eq_4 c.toUpper (upper cs) ?_ ?_
      · exact mt (toUpper_eq_iff (by decide) c).mp hsemi
      · intro tail hc htail
        have hhead : cs.head? = some '/' := by
          rw [← head?_upper_eq_some_iff (by decide), htail, List.head?_cons]
        obtain ⟨rest, hrest⟩ := List.head?_eq_some_iff.mp hhead
        exact hslash rest ((toUpper_eq_iff (by decide) c).mp hc) hrest

theorem splitOperands_upper (ws : List (List Char)) :
    splitOperands (ws.map upper) = (splitOperands ws).map upper := by
  unfold splitOperands
  rw [intercalate_upper rfl, splitOn_upper (by decide), List.map_map, ← filter_nonempty_upper,
    List.map_map]
  congr 2
  funext cs
  exact (upper_trim cs).symm

theorem trim_of_mem_splitOperands {ws : List (List Char)} {cs : List Char}
    (h : cs ∈ splitOperands ws) : trim cs = cs := by
  obtain ⟨piece, -, rfl⟩ := List.mem_map.mp (List.mem_filter.mp h).1
  exact trim_trim piece

/-- A line in capitals holds the same instruction, folded. Its operands have lost their
blanks already. -/
theorem parse?_capitals (line : String) : parse? (capitals line) = (parse? line).map folded := by
  unfold parse?
  rw [toList_capitals, code_upper, words_upper]
  cases words (code line.toList) with
  | nil => rfl
  | cons mnemonic rest =>
      have hoperands : ((splitOperands rest).map upper).map String.ofList
          = ((splitOperands rest).map String.ofList).map Text.folded := by
        rw [List.map_map, List.map_map]
        refine List.map_congr_left fun cs hcs => ?_
        unfold Text.folded
        simp only [Function.comp_apply, String.toList_ofList, trim_of_mem_splitOperands hcs]
      rw [List.map_cons]
      simp only [Option.map_some, folded, capitals_ofList, upper_upper, splitOperands_upper,
        hoperands]

end Instruction

namespace SourceLine

def folded (l : SourceLine) : SourceLine := { l with instruction := l.instruction.folded }

theorem ofLines_capitals (n : Nat) (texts : List String) :
    ofLines n (texts.map capitals) = (ofLines n texts).map folded := by
  induction texts generalizing n with
  | nil => rfl
  | cons text texts ih =>
      rw [List.map_cons, ofLines, ofLines, Instruction.parse?_capitals, ih]
      cases Instruction.parse? text <;> rfl

theorem parse_capitals (source : String) :
    parse (capitals source) = (parse source).map folded := by
  unfold parse
  rw [lines_capitals, ofLines_capitals]

end SourceLine

/-! ## Assembling a source in capitals -/

def Encoded.folded (e : Encoded) : Encoded := { e with source := e.source.folded }

def AssemblyError.folded (e : AssemblyError) : AssemblyError :=
  { e with source := e.source.folded }

namespace Assembly

/-- The same code at the same addresses and the same errors, for folded lines. -/
def folded (a : Assembly) : Assembly :=
  ⟨a.instructions.map Encoded.folded, a.errors.map AssemblyError.folded⟩

theorem ofLines_folded (arch : Arch) (address : Nat) (lines : List SourceLine) :
    ofLines arch address (lines.map SourceLine.folded) = (ofLines arch address lines).folded := by
  induction lines generalizing address with
  | nil => rfl
  | cons line lines ih =>
      have hcode : arch.encode line.folded.instruction = arch.encode line.instruction :=
        arch.encode_folded line.instruction
      rw [List.map_cons, ofLines, ofLines, hcode]
      cases arch.encode line.instruction with
      | ok code =>
          dsimp only
          rw [ih]
          rfl
      | error reason =>
          dsimp only
          rw [ih]
          rfl

theorem assemble_capitals (arch : Arch) (source : String) :
    assemble arch (capitals source) = (assemble arch source).folded := by
  unfold assemble
  rw [SourceLine.parse_capitals, ofLines_folded]

theorem folded_assemble_congr (arch : Arch) {source source' : String}
    (h : sameLetters source source' = true) :
    (assemble arch source).folded = (assemble arch source').folded := by
  rw [← assemble_capitals, sameLetters_iff_capitals.mp h, assemble_capitals]

theorem bytes_folded (a : Assembly) : a.folded.bytes = a.bytes := by
  unfold bytes folded
  rw [List.flatMap_map]
  rfl

theorem bytes_assemble_congr (arch : Arch) {source source' : String}
    (h : sameLetters source source' = true) :
    (assemble arch source).bytes = (assemble arch source').bytes := by
  rw [← bytes_folded, folded_assemble_congr arch h, bytes_folded]

end Assembly

end Microlab
