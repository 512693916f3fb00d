import Microlab.Proofs.I8086.Effect

/-!
# What the 8086 takes an operand for

An operand is looked up among the register names first, and only what is no name is read as
a number. Jumps are the exception: they read their target as a number at once, without a
look at the names.
-/

namespace Microlab.I8086

open Text

/-- What an operation takes one of its operands for. -/
inductive Operand where
  | register (r : Register)
  | number (w : Word)
  | target (w : Word)
  deriving DecidableEq, Repr

def Source.operand : Source → Operand
  | register r => .register r
  | literal w => .number w

/-- The operands of an operation, in the order of the instruction. -/
def Operation.operands : Operation → List Operand
  | move d s | arithmetic _ d s => [.register d, s.operand]
  | compare l r => [l.operand, r.operand]
  | increment d | decrement d | complement d | negate d => [.register d]
  | push r | pop r => [.register (.word r)]
  | jump w | branch _ w => [.target w]
  | idle | halt => []

/-- In the instruction, the text is taken for the operand. -/
inductive TakenFor (i : Instruction) (x : String) : Operand → Prop where
  | register {r : Register} (hi : ¬ i.NamesAny jumpMnemonics) (h : Register.ofName? x = some r) :
      TakenFor i x (.register r)
  | number (hi : ¬ i.NamesAny jumpMnemonics) (h : Register.ofName? x = none) :
      TakenFor i x (.number (Arch.i8086.literalOrZero x))
  | target (hi : i.NamesAny jumpMnemonics) : TakenFor i x (.target (Arch.i8086.literalOrZero x))

variable {i : Instruction} {op : Operation} {n : Nat} {x : String} {o : Operand}

theorem TakenFor.ofOperand (hi : ¬ i.NamesAny jumpMnemonics) (x : String) :
    TakenFor i x (Source.ofOperand x).operand := by
  unfold Source.ofOperand
  cases h : Register.ofName? x with
  | none => exact .number hi h
  | some r => exact .register hi h

/-- An accepted instruction takes each of its operands for one of the operation, or looks at
none. -/
theorem Operation.takenFor_of_asked (h : asked (resolve i) = some op) :
    op.operands = [] ∨ List.Forall₂ (TakenFor i) i.arguments op.operands := by
  obtain ⟨m, hi, h⟩ := exists_names_of_asked h
  cases m with
  | mov | add | sub | and | or | xor =>
      have hjump : ¬ i.NamesAny jumpMnemonics := hi.not_any (by decide)
      obtain ⟨d, s, hargs, h⟩ := Instruction.two_bind_eq_some_iff.mp h
      obtain ⟨r, hd, h⟩ := lookup_bind_eq_some_iff.mp h
      cases h
      rw [hargs]
      exact Or.inr (.cons (.register hjump hd) (.cons (.ofOperand hjump s) .nil))
  | cmp =>
      have hjump : ¬ i.NamesAny jumpMnemonics := hi.not_any (by decide)
      obtain ⟨l, r, hargs, h⟩ := Instruction.two_bind_eq_some_iff.mp h
      cases h
      rw [hargs]
      exact Or.inr (.cons (.ofOperand hjump l) (.cons (.ofOperand hjump r) .nil))
  | inc | dec | not | neg =>
      have hjump : ¬ i.NamesAny jumpMnemonics := hi.not_any (by decide)
      obtain ⟨d, r, hargs, hd, rfl⟩ := asked_unary h
      rw [hargs]
      exact Or.inr (.cons (.register hjump hd) .nil)
  | push | pop =>
      have hjump : ¬ i.NamesAny jumpMnemonics := hi.not_any (by decide)
      obtain ⟨d, hargs, h⟩ := Instruction.one_bind_eq_some_iff.mp h
      obtain ⟨r, hd, h⟩ := wordRegister_bind_eq_some_iff.mp h
      cases h
      rw [hargs]
      exact Or.inr (.cons (.register hjump hd) .nil)
  | jmp | je | jz | jne | jnz | jc | jnc =>
      obtain ⟨t, hargs, h⟩ := Instruction.one_bind_eq_some_iff.mp h
      cases h
      rw [hargs]
      exact Or.inr (.cons (.target ⟨_, by decide, hi⟩) .nil)
  | nop | hlt =>
      cases h
      exact Or.inl rfl
  | _ => cases h

/-! ## Names as operands -/

namespace Machine

variable {m : Machine}

/-- The instruction is accepted, and the keyword among its operands is the register of this
name, if it is looked at. But in a jump it is read as a number. -/
def TakesKeyword (m : Machine) (i : Instruction) (n : Nat) (x : String) : Prop :=
  ∃ op, (Handler.handle i).Runs i.mnemonic m (m.apply op).1 ∧ (op.operands = [] ∨
    if i.NamesAny jumpMnemonics then op.operands[n]? = some (.target (Arch.i8086.literalOrZero x))
    else ∃ r, Register.ofName? x = some r ∧ op.operands[n]? = some (.register r))

theorem refused_or_takesKeyword (m : Machine) (hx : i.operands[n]? = some x)
    (hkeyword : Arch.i8086.isKeyword x = true) :
    ((∃ r, m.attempt i = .error r) ∧ (m.execute i).1 = m) ∨ m.TakesKeyword i n x := by
  refine (Step.refused_or_runs (Handler.handle_eq i) m i.mnemonic).imp_right ?_
  rintro ⟨op, hasked, hruns⟩
  refine ⟨op, hruns, (Operation.takenFor_of_asked hasked).imp_right fun htaken => ?_⟩
  obtain ⟨o, ho, hxo⟩ := exists_getElem?_of_forall₂ htaken (Instruction.arguments_getElem? hx)
  cases hxo with
  | register hi h =>
      rw [Register.ofName?_trimmed] at h
      rw [if_neg hi]
      exact ⟨_, h, ho⟩
  | number hi h =>
      rw [Register.ofName?_trimmed] at h
      rw [Arch.isKeyword_i8086, h] at hkeyword
      cases hkeyword
  | target hi =>
      rw [if_pos hi, ho, Arch.literalOrZero_trimmed]

end Machine

end Microlab.I8086
