import Mathlib.Data.List.Chain
import Microlab.Assembly

/-!
# The layout of assembled code

Every instruction of a source is either laid out or reported, in the order of the
lines. What is laid out lies without gaps from address zero on, so that an
instruction's address says where its bytes are found in the code.
-/

namespace Microlab

/-! ## Numbered lines -/

namespace SourceLine

theorem le_number_of_mem_ofLines {texts : List String} {n : Nat} {l : SourceLine}
    (h : l ∈ ofLines n texts) : n ≤ l.number := by
  induction texts generalizing n with
  | nil => simp [ofLines] at h
  | cons text texts ih =>
      unfold ofLines at h
      split at h
      · exact Nat.le_of_succ_le (ih h)
      · rcases List.mem_cons.mp h with rfl | h
        · exact Nat.le_refl n
        · exact Nat.le_of_succ_le (ih h)

/-- The order of the lines. -/
def Precedes (k l : SourceLine) : Prop := k.number < l.number

theorem pairwise_precedes_ofLines (n : Nat) (texts : List String) :
    (ofLines n texts).Pairwise Precedes := by
  induction texts generalizing n with
  | nil => exact List.Pairwise.nil
  | cons text texts ih =>
      unfold ofLines
      split
      · exact ih (n + 1)
      · exact List.pairwise_cons.mpr ⟨fun _ hl => le_number_of_mem_ofLines hl, ih (n + 1)⟩

theorem pairwise_precedes_parse (source : String) : (parse source).Pairwise Precedes :=
  pairwise_precedes_ofLines 1 _

/-- Two lists of lines, woven together by the numbers of the lines. -/
def interleave (ks ls : List SourceLine) : List SourceLine :=
  ks.merge ls fun k l => k.number ≤ l.number

theorem interleave_cons_left {l : SourceLine} {ks ls : List SourceLine}
    (h : ∀ k ∈ ls, l.Precedes k) : interleave (l :: ks) ls = l :: interleave ks ls := by
  cases ls with
  | nil => simp [interleave]
  | cons k ls =>
      have hk : l.number ≤ k.number := Nat.le_of_lt (h k List.mem_cons_self)
      exact List.cons_merge_cons_pos _ _ _ (decide_eq_true hk)

theorem interleave_cons_right {l : SourceLine} {ks ls : List SourceLine}
    (h : ∀ k ∈ ks, l.Precedes k) : interleave ks (l :: ls) = l :: interleave ks ls := by
  cases ks with
  | nil => simp [interleave]
  | cons k ks =>
      have hk : ¬ k.number ≤ l.number := Nat.not_le_of_lt (h k List.mem_cons_self)
      exact List.cons_merge_cons_neg _ _ _ (by simpa using hk)

theorem mem_interleave {l : SourceLine} {ks ls : List SourceLine} :
    l ∈ interleave ks ls ↔ l ∈ ks ∨ l ∈ ls :=
  List.mem_merge

end SourceLine

/-! ## Laid out lines -/

namespace Assembly

variable {arch : Arch} {start : Nat} {lines : List SourceLine} {a : Assembly}

/-- The lines that are laid out and those that are reported, by their numbers. -/
def interleaved (a : Assembly) : List SourceLine :=
  SourceLine.interleave (a.instructions.map Encoded.source) (a.errors.map AssemblyError.source)

/-- One instruction ends where the other starts. -/
def Adjoins (e f : Encoded) : Prop := f.address = e.address + e.bytes.length

/-- The assembly has each of the lines once, with what encoding the line alone gives,
and its instructions lie side by side from the start address on. -/
structure LaysOut (arch : Arch) (start : Nat) (lines : List SourceLine) (a : Assembly) :
    Prop where
  interleaved : a.interleaved = lines
  encoded : ∀ e ∈ a.instructions, arch.encode e.source.instruction = .ok e.bytes
  refused : ∀ e ∈ a.errors, arch.encode e.source.instruction = .error e.reason
  first : ∀ e ∈ a.instructions.head?, e.address = start
  adjoins : a.instructions.IsChain Adjoins

theorem bytes_cons (e : Encoded) (es : List Encoded) (errors : List AssemblyError) :
    (⟨e :: es, errors⟩ : Assembly).bytes = e.bytes ++ (⟨es, errors⟩ : Assembly).bytes :=
  List.flatMap_cons

namespace LaysOut

theorem nil (arch : Arch) (start : Nat) : LaysOut arch start [] ⟨[], []⟩ where
  interleaved := List.nil_merge _
  encoded := by simp
  refused := by simp
  first := by simp
  adjoins := List.IsChain.nil

theorem source_mem_of_mem_errors (h : LaysOut arch start lines a) {e : AssemblyError}
    (he : e ∈ a.errors) : e.source ∈ lines := by
  rw [← h.interleaved]
  exact SourceLine.mem_interleave.mpr (Or.inr (List.mem_map_of_mem he))

theorem source_mem_of_mem_instructions (h : LaysOut arch start lines a) {e : Encoded}
    (he : e ∈ a.instructions) : e.source ∈ lines := by
  rw [← h.interleaved]
  exact SourceLine.mem_interleave.mpr (Or.inl (List.mem_map_of_mem he))

/-- A line that has an encoding goes in front of the lines behind its bytes. -/
theorem cons_encoded {line : SourceLine} {code : List Byte}
    (h : LaysOut arch (start + code.length) lines a) (hline : ∀ l ∈ lines, line.Precedes l)
    (hcode : arch.encode line.instruction = .ok code) :
    LaysOut arch start (line :: lines)
      { a with instructions := ⟨line, start, code⟩ :: a.instructions } where
  interleaved := by
    have herrors : ∀ l ∈ a.errors.map AssemblyError.source, line.Precedes l := by
      intro l hl
      obtain ⟨e, he, rfl⟩ := List.mem_map.mp hl
      exact hline _ (h.source_mem_of_mem_errors he)
    exact (SourceLine.interleave_cons_left herrors).trans (congrArg (line :: ·) h.interleaved)
  encoded := List.forall_mem_cons.mpr ⟨hcode, h.encoded⟩
  refused := h.refused
  first := by simp
  adjoins := List.isChain_cons.mpr ⟨h.first, h.adjoins⟩

/-- A line that has none is reported, and moves nothing. -/
theorem cons_refused {line : SourceLine} {reason : EncodeError}
    (h : LaysOut arch start lines a) (hline : ∀ l ∈ lines, line.Precedes l)
    (hreason : arch.encode line.instruction = .error reason) :
    LaysOut arch start (line :: lines) { a with errors := ⟨line, reason⟩ :: a.errors } where
  interleaved := by
    have hinstructions : ∀ l ∈ a.instructions.map Encoded.source, line.Precedes l := by
      intro l hl
      obtain ⟨e, he, rfl⟩ := List.mem_map.mp hl
      exact hline _ (h.source_mem_of_mem_instructions he)
    exact (SourceLine.interleave_cons_right hinstructions).trans
      (congrArg (line :: ·) h.interleaved)
  encoded := h.encoded
  refused := List.forall_mem_cons.mpr ⟨hreason, h.refused⟩
  first := h.first
  adjoins := h.adjoins

/-- The address of an instruction counts the bytes in front of it. -/
theorem address_eq (h : LaysOut arch start lines a) {front back : List Encoded} {e : Encoded}
    (hsplit : a.instructions = front ++ e :: back) :
    e.address = start + (front.flatMap Encoded.bytes).length := by
  have hfirst := h.first
  have hadjoins := h.adjoins
  rw [hsplit] at hfirst hadjoins
  clear h hsplit
  induction front generalizing start with
  | nil => simpa using hfirst e rfl
  | cons f front ih =>
      have hf : f.address = start := hfirst f rfl
      obtain ⟨hnext, hrest⟩ := List.isChain_cons.mp hadjoins
      have he := ih hnext hrest
      rw [he, hf, List.flatMap_cons, List.length_append, Nat.add_assoc]

/-- An instruction's bytes are found at its address. -/
theorem take_drop_bytes (h : LaysOut arch 0 lines a) {e : Encoded} (he : e ∈ a.instructions) :
    (a.bytes.drop e.address).take e.bytes.length = e.bytes := by
  obtain ⟨front, back, hsplit⟩ := List.append_of_mem he
  have haddress : e.address = (front.flatMap Encoded.bytes).length :=
    (h.address_eq hsplit).trans (Nat.zero_add _)
  have hbytes : a.bytes =
      front.flatMap Encoded.bytes ++ (e.bytes ++ back.flatMap Encoded.bytes) := by
    unfold Assembly.bytes
    rw [hsplit, List.flatMap_append, List.flatMap_cons]
  rw [haddress, hbytes, List.drop_left, List.take_left]

end LaysOut

theorem laysOut_ofLines (arch : Arch) (start : Nat) {lines : List SourceLine}
    (h : lines.Pairwise SourceLine.Precedes) :
    LaysOut arch start lines (ofLines arch start lines) := by
  induction lines generalizing start with
  | nil => exact LaysOut.nil arch start
  | cons line lines ih =>
      obtain ⟨hline, hlines⟩ := List.pairwise_cons.mp h
      unfold ofLines
      split
      · next code hcode => exact (ih _ hlines).cons_encoded hline hcode
      · next reason hreason => exact (ih _ hlines).cons_refused hline hreason

/-! ## One pass over the lines -/

/-- What a pass over the lines has when it stands between two of them: the next free
address, the code so far, and the lines laid out and reported so far. -/
structure Pass where
  address : Nat
  code : List Byte
  instructions : List Encoded
  errors : List AssemblyError
  deriving DecidableEq, Repr

namespace Pass

def initial : Pass := ⟨0, [], [], []⟩

/-- Takes one more line. -/
def line (arch : Arch) (p : Pass) (l : SourceLine) : Pass :=
  match arch.encode l.instruction with
  | .ok bytes =>
    { p with
      address := p.address + bytes.length
      code := p.code ++ bytes
      instructions := p.instructions ++ [⟨l, p.address, bytes⟩] }
  | .error reason => { p with errors := p.errors ++ [⟨l, reason⟩] }

/-- Puts the rest of an assembly behind what the pass has. -/
def append (p : Pass) (a : Assembly) : Pass :=
  ⟨p.address + a.bytes.length, p.code ++ a.bytes, p.instructions ++ a.instructions,
    p.errors ++ a.errors⟩

/-- What a pass goes on to find is what is laid out from its address on. -/
theorem foldl_line (arch : Arch) (p : Pass) (lines : List SourceLine) :
    lines.foldl (line arch) p = p.append (ofLines arch p.address lines) := by
  induction lines generalizing p with
  | nil => simp [append, ofLines, Assembly.bytes]
  | cons l lines ih =>
      rw [List.foldl_cons, ih]
      cases hcode : arch.encode l.instruction with
      | ok code => simp [line, append, ofLines, hcode, bytes_cons, Nat.add_assoc]
      | error reason => simp [line, append, ofLines, hcode, Assembly.bytes]

end Pass

end Assembly

/-- **Layout loses and repeats nothing.** The lines that are laid out and those that are
reported are, by their numbers, the lines of the source, and the numbers increase. A line
is laid out with the bytes, and reported with the text and the reason, that the line alone
has. The first address is zero and each next one lies behind the bytes before it; the code
is the bytes one after the other, so that each instruction's bytes are found at its
address. The pass that keeps a free address and the code so far comes to the same. -/
theorem assemble_layout (arch : Arch) (source : String) :
    let a := assemble arch source
    (SourceLine.parse source).Pairwise (fun k l => k.number < l.number) ∧
    (a.instructions.map Encoded.source).merge (a.errors.map AssemblyError.source)
      (fun k l => k.number ≤ l.number) = SourceLine.parse source ∧
    (∀ e ∈ a.errors, e.text = e.source.instruction.render ∧
      arch.encode e.source.instruction = .error e.reason) ∧
    (∀ e ∈ a.instructions, arch.encode e.source.instruction = .ok e.bytes) ∧
    (∀ e ∈ a.instructions.head?, e.address = 0) ∧
    a.instructions.IsChain (fun e f => f.address = e.address + e.bytes.length) ∧
    a.bytes = (a.instructions.map Encoded.bytes).flatten ∧
    (∀ e ∈ a.instructions, (a.bytes.drop e.address).take e.bytes.length = e.bytes) ∧
    (SourceLine.parse source).foldl (Assembly.Pass.line arch) .initial =
      ⟨a.bytes.length, a.bytes, a.instructions, a.errors⟩ := by
  intro a
  have hnumbers := SourceLine.pairwise_precedes_parse source
  have hlayout : a.LaysOut arch 0 (SourceLine.parse source) :=
    Assembly.laysOut_ofLines arch 0 hnumbers
  refine ⟨hnumbers, hlayout.interleaved, fun e he => ⟨rfl, hlayout.refused e he⟩,
    hlayout.encoded, hlayout.first, hlayout.adjoins, ?_, fun e he => hlayout.take_drop_bytes he,
    ?_⟩
  · exact List.flatMap_def
  · rw [Assembly.Pass.foldl_line]
    simp [Assembly.Pass.append, Assembly.Pass.initial, a, assemble]

/-- Between two instructions stands a line that is none: the second instruction is found
right behind the first, and the line is reported with its number. -/
theorem assemble_layout_unknown :
    let a := assemble .i8086 "NOP\nFROB AX\n\nMOV AX, 1"
    let mov : Encoded := ⟨⟨4, "MOV", ["AX", "1"]⟩, 1, [0xB8, 1, 0]⟩
    let frob : AssemblyError := ⟨⟨2, "FROB", ["AX"]⟩, .unknownInstruction⟩
    mov ∈ a.instructions ∧ frob ∈ a.errors ∧
    Arch.encode .i8086 ⟨"MOV", ["AX", "1"]⟩ = .ok [0xB8, 1, 0] ∧
    frob.text = "FROB AX" ∧
    Arch.encode .i8086 ⟨"FROB", ["AX"]⟩ = .error .unknownInstruction ∧
    (a.bytes.drop 1).take 3 = [0xB8, 1, 0] := by
  intro a mov frob
  have hmov : mov ∈ a.instructions := by decide +kernel
  have hfrob : frob ∈ a.errors := by decide +kernel
  obtain ⟨-, -, hrefused, hencoded, -, -, -, hfound, -⟩ :=
    assemble_layout .i8086 "NOP\nFROB AX\n\nMOV AX, 1"
  exact ⟨hmov, hfrob, hencoded mov hmov, (hrefused frob hfrob).1, (hrefused frob hfrob).2,
    hfound mov hmov⟩

end Microlab
