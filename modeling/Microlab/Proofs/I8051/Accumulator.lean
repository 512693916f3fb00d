import Microlab.Proofs.I8051.Operand

/-!
# The names of the accumulator

`ACC` is another name of the accumulator. In a jump neither name is looked up, and the two
instructions that know the accumulator by its letter do not know it by the longer name.
Everywhere else one name may stand for the other.
-/

namespace Microlab.I8051

open Text

/-- The operand is the word, in any letter case and with any blanks around it. -/
def Spells (x word : String) : Prop := sameLetters word (trimmed x) = true

instance (x word : String) : Decidable (Spells x word) := inferInstanceAs (Decidable (_ = true))

/-- The operands are the same, or they are the accumulator under its two names. -/
def Renames (x y : String) : Prop := x = y ∨ Spells x "A" ∧ Spells y "ACC"

/-- The first instruction clears or complements the accumulator, and so would the second but
for the name it uses. -/
def Overlooks (i j : Instruction) : Prop :=
  i.NamesAny bitMnemonics ∧
    ∃ x y, i.operands = [x] ∧ j.operands = [y] ∧ Spells x "A" ∧ Spells y "ACC"

/-! ## The names stand for each other -/

theorem sameLetters_of_spells {x word : String} (h : Spells x word) (other : String) :
    sameLetters (trimmed x) other = sameLetters word other := by
  rw [sameLetters_comm, ← sameLetters_congr (sameLetters_iff.mp h) other, sameLetters_comm]

namespace Interchangeable

variable {x y z : String}

theorem refl (x : String) : Interchangeable x x where
  register := rfl
  source := rfl
  pointer := rfl
  word := fun _ _ => rfl
  indirect := Iff.rfl

theorem symm (h : Interchangeable x y) : Interchangeable y x where
  register := h.register.symm
  source := h.source.symm
  pointer := h.pointer.symm
  word := fun word hword => (h.word word hword).symm
  indirect := h.indirect.symm

theorem trans (hxy : Interchangeable x y) (hyz : Interchangeable y z) : Interchangeable x z where
  register := hxy.register.trans hyz.register
  source := hxy.source.trans hyz.source
  pointer := hxy.pointer.trans hyz.pointer
  word := fun word hword => (hxy.word word hword).trans (hyz.word word hword)
  indirect := hxy.indirect.trans hyz.indirect

theorem of_spells {word : String} (h : Spells x word) :
    Interchangeable (trimmed x) (trimmed word) :=
  (SameMeaning.of_sameOperand (.inl (Pattern.folded_eq_of_sameLetters h).symm)).interchangeable

theorem accumulator : Interchangeable "A" "ACC" where
  register := by decide
  source := by decide +kernel
  pointer := by decide
  word := by decide
  indirect := by decide

theorem of_renames (h : Renames x y) : Interchangeable (trimmed x) (trimmed y) := by
  rcases h with rfl | ⟨hx, hy⟩
  · exact refl _
  · have ha : trimmed "A" = "A" := by decide
    have hacc : trimmed "ACC" = "ACC" := by decide
    have hletter := of_spells hx
    have hname := of_spells hy
    rw [ha] at hletter
    rw [hacc] at hname
    exact (hletter.trans accumulator).trans hname.symm

end Interchangeable

namespace Operation

variable {i j : Instruction} {k : Mnemonic}

theorem resolveKnown_bit_of_length (hk : k ∈ bitMnemonics) (h : i.operands.length ≠ 1) :
    resolveKnown k i = .error (.operandCount 1) := by
  cases k with
  | clr => exact resolveClear_eq_error_iff.mpr (.inl ⟨h, rfl⟩)
  | cpl => exact resolveComplement_eq_error_iff.mpr (.inl ⟨h, rfl⟩)
  | _ => exact absurd hk (by decide)

theorem exists_asked_of_spells_letter {x : String} (hk : k ∈ bitMnemonics)
    (hi : i.operands = [x]) (hx : Spells x "A") : ∃ op, asked (resolveKnown k i) = some op := by
  have hargs : i.arguments = [trimmed x] := congrArg (List.map trimmed) hi
  have hletter : sameLetters (trimmed x) "A" = true :=
    (sameLetters_of_spells hx "A").trans (by decide)
  cases k with
  | clr | cpl =>
      exact ⟨_, Instruction.one_bind_eq_some_iff.mpr
        ⟨_, hargs, asked_ite_word.mpr (.inl ⟨hletter, rfl⟩)⟩⟩
  | _ => exact absurd hk (by decide)

theorem resolveKnown_of_spells_name {y : String} (hk : k ∈ bitMnemonics)
    (hj : j.operands = [y]) (hy : Spells y "ACC") :
    resolveKnown k j = .error (.bitOperand k (trimmed y)) := by
  have hargs : j.arguments = [trimmed y] := congrArg (List.map trimmed) hj
  have hletter : sameLetters (trimmed y) "A" = false :=
    (sameLetters_of_spells hy "A").trans (by decide)
  have hcarry : sameLetters (trimmed y) "C" = false :=
    (sameLetters_of_spells hy "C").trans (by decide)
  cases k with
  | clr => exact resolveClear_eq_error_iff.mpr (.inr ⟨_, hargs, hletter, hcarry, rfl⟩)
  | cpl => exact resolveComplement_eq_error_iff.mpr (.inr ⟨_, hargs, hletter, hcarry, rfl⟩)
  | _ => exact absurd hk (by decide)

/-- The two instructions that look for the letter need the very operands. -/
theorem resolveKnown_bit_congr (hk : k ∈ bitMnemonics) (hmnemonic : i.mnemonic = j.mnemonic)
    (hnames : List.Forall₂ Renames i.operands j.operands)
    (hsame : ∀ x y, i.operands = [x] → j.operands = [y] → ¬ (Spells x "A" ∧ Spells y "ACC")) :
    resolveKnown k i = resolveKnown k j := by
  by_cases hone : i.operands.length = 1
  · obtain ⟨x, hx⟩ := List.length_eq_one_iff.mp hone
    obtain ⟨y, hy⟩ := List.length_eq_one_iff.mp (hnames.length_eq ▸ hone)
    have hxy : Renames x y := by
      rw [hx, hy] at hnames
      exact (List.forall₂_cons.mp hnames).1
    obtain rfl := hxy.resolve_right (hsame x y hx hy)
    have hij : i = j := congrArg₂ Instruction.mk hmnemonic (hx.trans hy.symm)
    rw [hij]
  · rw [resolveKnown_bit_of_length hk hone,
      resolveKnown_bit_of_length hk (hnames.length_eq ▸ hone)]

/-- Under its other name, the accumulator is the same to any other instruction. -/
theorem asked_resolve_congr (hmnemonic : i.mnemonic = j.mnemonic)
    (hnames : List.Forall₂ Renames i.operands j.operands) (hjump : ¬ i.NamesAny jumpMnemonics)
    (hover : ¬ Overlooks i j) : asked (resolve i) = asked (resolve j) := by
  by_cases hsome : ∃ k, i.Names k
  · obtain ⟨k, hi⟩ := hsome
    rw [resolve, resolve, resolveBy_of_names hi, resolveBy_of_names (hi.congr hmnemonic)]
    by_cases hk : k ∈ bitMnemonics
    · rw [resolveKnown_bit_congr hk hmnemonic hnames]
      exact fun x y hx hy hspells => hover ⟨⟨k, hk, hi⟩, x, y, hx, hy, hspells⟩
    · have hinterchangeable : List.Forall₂ Interchangeable i.arguments j.arguments :=
        Instruction.forall₂_arguments hnames fun _ _ => Interchangeable.of_renames
      have hboth : k ∉ bitMnemonics ++ jumpMnemonics := by
        rw [List.mem_append, not_or]
        exact ⟨hk, fun h => hjump ⟨k, h, hi⟩⟩
      exact resolveKnown_congr_of_interchangeable hinterchangeable hboth
  · have hi : ∀ k, ¬ i.Names k := fun k hi => hsome ⟨k, hi⟩
    have hj : ∀ k, ¬ j.Names k := fun k hj => hi k (hj.congr hmnemonic.symm)
    rw [resolve, resolve, resolveBy_of_not_names hi, resolveBy_of_not_names hj]

end Operation

namespace Machine

/-- **`ACC` names the accumulator.** Wherever operands of an instruction other than a jump are
`A`, some or all of them may be spelled `ACC`: in every state, one instruction is accepted if
the other is, and the machine is the same after both. There is one exception. The instructions
that clear and complement the accumulator are accepted with `A` in every state, and with `ACC`
they are refused in every state and change nothing. -/
theorem accumulator_names (m : Machine) (i j : Instruction)
    (hmnemonic : i.mnemonic = j.mnemonic)
    (hnames : List.Forall₂ Renames i.operands j.operands) (hjump : ¬ i.NamesAny jumpMnemonics) :
    (¬ Overlooks i j →
      ((∃ r, m.attempt i = .error r) ↔ ∃ r, m.attempt j = .error r) ∧
        (m.execute i).1 = (m.execute j).1) ∧
    (Overlooks i j →
      (∀ r, m.attempt i ≠ .error r) ∧
        (∃ k x, m.attempt j = .error (.bitOperand k x)) ∧ (m.execute j).1 = m) := by
  constructor
  · intro hover
    have hasked := Operation.asked_resolve_congr hmnemonic hnames hjump hover
    refine ⟨?_, by rw [execute_fst, execute_fst, hasked]⟩
    refine (Step.exists_attempt_error_iff (Handler.handle_eq i)).trans ?_
    rw [hasked]
    exact (Step.exists_attempt_error_iff (Handler.handle_eq j)).symm
  · rintro ⟨⟨k, hk, hi⟩, x, y, hx, hy, hletter, hname⟩
    obtain ⟨op, hop⟩ := Operation.exists_asked_of_spells_letter hk hx hletter
    have hresolve : Operation.resolve j = .error (.bitOperand k (trimmed y)) := by
      rw [Operation.resolve, resolveBy_of_names (hi.congr hmnemonic)]
      exact Operation.resolveKnown_of_spells_name hk hy hname
    have hrefused : m.attempt j = .error (.bitOperand k (trimmed y)) :=
      (Step.attempt_eq_error_iff (Handler.handle_eq j)).mpr hresolve
    have hsame : m.execute j = (m, _) :=
      Step.execute_of_attempt_error (Handler.handle_eq j) hrefused
    refine ⟨fun r hr => ?_, ⟨k, _, hrefused⟩, by rw [hsame]⟩
    have hnone := (Step.exists_attempt_error_iff (Handler.handle_eq i)).mp ⟨r, hr⟩
    rw [Operation.resolve, resolveBy_of_names hi, hop] at hnone
    cases hnone

theorem accumulator_names_external :
    let m := Machine.initial
    (m.execute ⟨"MOVX", ["a", "@DPTR"]⟩).1 = (m.execute ⟨"MOVX", [" Acc", "@DPTR"]⟩).1 ∧
      (m.execute ⟨"CPL", ["ACC"]⟩).1 = m := by
  intro m
  have hboth : List.Forall₂ Renames ["a", "@DPTR"] [" Acc", "@DPTR"] :=
    .cons (.inr (by decide)) (.cons (.inl rfl) .nil)
  have hone : List.Forall₂ Renames ["A"] ["ACC"] := .cons (.inr (by decide)) .nil
  have hload := accumulator_names m ⟨"MOVX", ["a", "@DPTR"]⟩ ⟨"MOVX", [" Acc", "@DPTR"]⟩ rfl
    hboth (by decide)
  have hflip := accumulator_names m ⟨"CPL", ["A"]⟩ ⟨"CPL", ["ACC"]⟩ rfl hone (by decide)
  exact ⟨(hload.1 fun h => absurd h.1 (by decide)).2,
    (hflip.2 ⟨by decide, "A", "ACC", rfl, rfl, by decide⟩).2.2⟩

/-- With the accumulator at five, one spelling clears it and the other does not. -/
theorem clears_letter_only :
    let m := (Machine.initial.execute ⟨"MOV", ["ACC", "#5"]⟩).1
    m.a = 5 ∧ (m.execute ⟨"CLR", ["A"]⟩).1.a = 0 ∧ (m.execute ⟨"CLR", ["ACC"]⟩).1.a = 5 ∧
      (m.execute ⟨"CLR", ["ACC"]⟩).2 = "CLR ACC: unsupported operand" := by
  decide +kernel

end Machine

end Microlab.I8051
