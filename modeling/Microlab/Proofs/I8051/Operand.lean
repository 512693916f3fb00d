import Microlab.Proofs.I8051.Effect

/-!
# What the 8051 takes an operand for

As on the 8086, an operand is looked up among the names first and jumps do not look. But the
registers are not all the names there are: the carry flag and the register pair are known
only to the instructions that are made for them, and to any other they are numbers.
-/

namespace Microlab.I8051

open Text

/-- What an operation takes one of its operands for. -/
inductive Operand where
  | register (r : Register)
  | pointer (p : Pointer)
  | carry
  | pair
  | number (w : Word)
  | target (w : Word)
  deriving DecidableEq, Repr

def Source.operand : Source → Operand
  | register r => .register r
  | literal w => .number w

/-- The operands of an operation, in the order of the instruction. That of a rotation may be
left out. -/
def Operation.operands : Operation → List Operand
  | move d s | logic _ d s => [.register d, s.operand]
  | fetch d p => [.register d, .pointer p]
  | store p s => [.pointer p, s.operand]
  | add _ s | subtract s => [.register .a, s.operand]
  | increment d | decrement d => [.register d]
  | rotate _ | clear | complement => [.register .a]
  | multiply | divide => [.pair]
  | clearCarry | setCarry | complementCarry => [.carry]
  | jump w | branch _ w => [.target w]
  | idle | halt => []

/-- In the instruction, the text is taken for the operand. -/
inductive TakenFor (i : Instruction) (x : String) : Operand → Prop where
  | register {r : Register} (hi : ¬ i.NamesAny jumpMnemonics) (h : Register.ofName? x = some r) :
      TakenFor i x (.register r)
  | pointer {p : Pointer} (hi : ¬ i.NamesAny jumpMnemonics) (h : Pointer.ofOperand? x = some p) :
      TakenFor i x (.pointer p)
  | carry (hi : ¬ i.NamesAny jumpMnemonics) (h : sameLetters x "C" = true) : TakenFor i x .carry
  | pair (hi : ¬ i.NamesAny jumpMnemonics) (h : sameLetters x "AB" = true) : TakenFor i x .pair
  | number (hi : ¬ i.NamesAny jumpMnemonics) (h : Register.ofName? x = none) :
      TakenFor i x (.number (Arch.i8051.literalOrZero x))
  | target (hi : i.NamesAny jumpMnemonics) : TakenFor i x (.target (Arch.i8051.literalOrZero x))

variable {i : Instruction} {op : Operation} {n : Nat} {x : String} {o : Operand}

theorem TakenFor.ofOperand (hi : ¬ i.NamesAny jumpMnemonics) (x : String) :
    TakenFor i x (Source.ofOperand x).operand := by
  unfold Source.ofOperand
  cases h : Register.ofName? x with
  | none => exact .number hi h
  | some r => exact .register hi h

theorem Register.ofName?_of_letter (h : sameLetters x "A" = true) : ofName? x = some .a := by
  rw [← ofName?_folded x, folded_congr (sameLetters_iff.mp h), ofName?_folded]
  decide

namespace Operation

theorem takenFor_of_asked_external (hi : ¬ i.NamesAny jumpMnemonics)
    (h : asked (resolveExternal i) = some op) :
    List.Forall₂ (TakenFor i) i.arguments op.operands := by
  obtain ⟨d, s, hargs, h⟩ := Instruction.two_bind_eq_some_iff.mp h
  rw [hargs]
  dsimp only at h
  split at h
  · next hs _ =>
    obtain ⟨r, hd, h⟩ := lookup_bind_eq_some_iff.mp h
    cases h
    exact .cons (.register hi hd) (.cons (.pointer hi hs) .nil)
  · next _ hd =>
    cases h
    exact .cons (.pointer hi hd) (.cons (.ofOperand hi s) .nil)
  · next hs _ =>
    split at h
    · next hd =>
      cases h
      exact .cons (.register hi hd) (.cons (.pointer hi hs) .nil)
    · cases h
  · next hd =>
    split at h
    · next hs =>
      cases h
      exact .cons (.pointer hi hd) (.cons (.register hi hs) .nil)
    · cases h
  · cases h

theorem takenFor_of_asked_pair {k : Mnemonic} (hi : ¬ i.NamesAny jumpMnemonics) {next : Operation}
    (h : asked (resolvePair next k i) = some op) (hnext : next.operands = [.pair]) :
    List.Forall₂ (TakenFor i) i.arguments op.operands := by
  unfold resolvePair at h
  split at h
  · next x hargs =>
    split at h
    · next hx =>
      cases h
      rw [hargs, hnext]
      exact .cons (.pair hi hx) .nil
    · cases h
  · cases h

theorem takenFor_of_asked_rotate {r : Rotation} {k : Mnemonic} (hi : ¬ i.NamesAny jumpMnemonics)
    (h : asked (resolveRotate r k i) = some op) (hsome : i.arguments ≠ []) :
    List.Forall₂ (TakenFor i) i.arguments op.operands := by
  unfold resolveRotate at h
  dsimp only at h
  split at h
  · next hnone => exact absurd hnone hsome
  · next x hargs =>
    split at h
    · next hx =>
      cases h
      rw [hargs]
      exact .cons (.register hi hx) .nil
    · cases h
  · cases h

/-- An accepted instruction takes each of its operands for one of the operation, or looks at
none. -/
theorem takenFor_of_asked (h : asked (resolve i) = some op) (hsome : i.arguments ≠ []) :
    op.operands = [] ∨ List.Forall₂ (TakenFor i) i.arguments op.operands := by
  obtain ⟨m, hi, h⟩ := exists_names_of_asked h
  cases m with
  | mov =>
      have hjump : ¬ i.NamesAny jumpMnemonics := hi.not_any (by decide)
      obtain ⟨d, s, hargs, h⟩ := Instruction.two_bind_eq_some_iff.mp h
      obtain ⟨r, hd, h⟩ := lookup_bind_eq_some_iff.mp h
      split at h
      · cases h
      · cases h
        rw [hargs]
        exact Or.inr (.cons (.register hjump hd) (.cons (.ofOperand hjump s) .nil))
  | movx => exact Or.inr (takenFor_of_asked_external (hi.not_any (by decide)) h)
  | add | addc | subb =>
      have hjump : ¬ i.NamesAny jumpMnemonics := hi.not_any (by decide)
      obtain ⟨d, s, hargs, hd, rfl⟩ := exists_of_asked_sum h
      rw [hargs]
      exact Or.inr (.cons (.register hjump hd) (.cons (.ofOperand hjump s) .nil))
  | inc | dec =>
      have hjump : ¬ i.NamesAny jumpMnemonics := hi.not_any (by decide)
      obtain ⟨d, r, hargs, hd, rfl⟩ := exists_of_asked_step h
      rw [hargs]
      exact Or.inr (.cons (.register hjump hd) .nil)
  | mul | div => exact Or.inr (takenFor_of_asked_pair (hi.not_any (by decide)) h rfl)
  | anl | orl | xrl =>
      have hjump : ¬ i.NamesAny jumpMnemonics := hi.not_any (by decide)
      obtain ⟨d, s, r, hargs, hd, rfl⟩ := exists_of_asked_logic h
      rw [hargs]
      exact Or.inr (.cons (.register hjump hd) (.cons (.ofOperand hjump s) .nil))
  | rl | rr | rlc | rrc | swap =>
      exact Or.inr (takenFor_of_asked_rotate (hi.not_any (by decide)) h hsome)
  | clr | cpl =>
      have hjump : ¬ i.NamesAny jumpMnemonics := hi.not_any (by decide)
      obtain ⟨x, hargs, h⟩ := Instruction.one_bind_eq_some_iff.mp h
      rw [hargs]
      rcases asked_ite_word.mp h with ⟨hx, rfl⟩ | ⟨-, h⟩
      · exact Or.inr (.cons (.register hjump (Register.ofName?_of_letter hx)) .nil)
      · rcases asked_ite_word.mp h with ⟨hx, rfl⟩ | ⟨-, h⟩
        · exact Or.inr (.cons (.carry hjump hx) .nil)
        · cases h
  | setb =>
      have hjump : ¬ i.NamesAny jumpMnemonics := hi.not_any (by decide)
      obtain ⟨x, hargs, h⟩ := Instruction.one_bind_eq_some_iff.mp h
      rw [hargs]
      rcases asked_ite_word.mp h with ⟨hx, rfl⟩ | ⟨-, h⟩
      · exact Or.inr (.cons (.carry hjump hx) .nil)
      · cases h
  | sjmp | ljmp | jz | jnz | jc | jnc =>
      obtain ⟨x, hargs, h⟩ := Instruction.one_bind_eq_some_iff.mp h
      cases h
      rw [hargs]
      exact Or.inr (.cons (.target ⟨_, by decide, hi⟩) .nil)
  | nop | hlt =>
      cases h
      exact .inl rfl
  | _ => cases h

end Operation

/-! ## Names as operands -/

/-- What points into external memory is no keyword. -/
theorem isKeyword_of_pointer {p : Pointer} (h : Pointer.ofOperand? (trimmed x) = some p) :
    Arch.i8051.isKeyword x = false := by
  unfold Pointer.ofOperand? named? at h
  obtain ⟨row, hfind, -⟩ := Option.map_eq_some_iff.mp h
  have hspell : sameLetters row.1 (trimmed x) = true := by
    simpa only using List.find?_some hfind
  rw [← Arch.isKeyword_folded, ← Pattern.folded_eq_of_sameLetters hspell, Arch.isKeyword_folded]
  have hnone : ∀ row ∈ [("@DPTR", Pointer.dptr), ("@R0", .r0), ("@R1", .r1)],
      Arch.i8051.isKeyword row.1 = false := by
    decide
  exact hnone row (List.mem_of_find?_eq_some hfind)

/-- The operand is the one of this name. Numbers have none. -/
def Operand.IsNamed (x : String) : Operand → Prop
  | register r => Register.ofName? x = some r
  | carry => sameLetters (trimmed x) "C" = true
  | pair => sameLetters (trimmed x) "AB" = true
  | pointer _ | number _ | target _ => False

/-- A number is the second of two operands. -/
theorem Operation.eq_one_of_number {w : Word} (h : op.operands[n]? = some (.number w)) :
    n = 1 := by
  match n with
  | 0 => cases op <;> simp [operands] at h
  | 1 => rfl
  | n + 2 => cases op <;> simp [operands] at h

/-- The carry flag and the register pair stand alone. -/
theorem Operation.eq_zero_of_word (ho : o = .carry ∨ o = .pair) (h : op.operands[n]? = some o) :
    n = 0 := by
  match n with
  | 0 => rfl
  | 1 =>
      have hsource : ∀ s : Source, s.operand ≠ o := by
        rintro (r | w) <;> rcases ho with rfl | rfl <;> simp [Source.operand]
      rcases ho with rfl | rfl <;> cases op <;> simp [operands, hsource] at h
  | n + 2 => cases op <;> simp [operands] at h

namespace Machine

/-- The instruction is accepted, and the keyword among its operands is what it names, if it
is looked at. But in a jump it is read as a number, and so is, as the second operand, a keyword
that is no register. -/
def TakesKeyword (m : Machine) (i : Instruction) (n : Nat) (x : String) : Prop :=
  ∃ op, (Handler.handle i).Runs i.mnemonic m (m.apply op).1 ∧ (op.operands = [] ∨
    if i.NamesAny jumpMnemonics then op.operands[n]? = some (.target (Arch.i8051.literalOrZero x))
    else if n = 1 ∧ Register.ofName? x = none then
      op.operands[n]? = some (.number (Arch.i8051.literalOrZero x))
    else ∃ o, op.operands[n]? = some o ∧ o.IsNamed x)

theorem refused_or_takesKeyword (m : Machine) (hx : i.operands[n]? = some x)
    (hkeyword : Arch.i8051.isKeyword x = true) :
    ((∃ r, m.attempt i = .error r) ∧ (m.execute i).1 = m) ∨ m.TakesKeyword i n x := by
  refine (Step.refused_or_runs (Handler.handle_eq i) m i.mnemonic).imp_right ?_
  rintro ⟨op, hasked, hruns⟩
  have hargument := Instruction.arguments_getElem? hx
  have hsome : i.arguments ≠ [] := by
    intro hnil
    rw [hnil] at hargument
    cases hargument
  refine ⟨op, hruns, (Operation.takenFor_of_asked hasked hsome).imp_right fun htaken => ?_⟩
  obtain ⟨o, ho, hxo⟩ := exists_getElem?_of_forall₂ htaken hargument
  cases hxo with
  | register hi h =>
      rw [Register.ofName?_trimmed] at h
      rw [if_neg hi, if_neg (by simp [h])]
      exact ⟨_, ho, h⟩
  | pointer hi h =>
      have hnone := isKeyword_of_pointer h
      cases hnone.symm.trans hkeyword
  | carry hi h =>
      have hn : n = 0 := Operation.eq_zero_of_word (.inl rfl) ho
      rw [if_neg hi, if_neg (by simp [hn])]
      exact ⟨_, ho, h⟩
  | pair hi h =>
      have hn : n = 0 := Operation.eq_zero_of_word (.inr rfl) ho
      rw [if_neg hi, if_neg (by simp [hn])]
      exact ⟨_, ho, h⟩
  | number hi h =>
      rw [Register.ofName?_trimmed] at h
      rw [if_neg hi, if_pos ⟨Operation.eq_one_of_number ho, h⟩, ho, Arch.literalOrZero_trimmed]
  | target hi =>
      rw [if_pos hi, ho, Arch.literalOrZero_trimmed]

end Machine

end Microlab.I8051
