import Microlab.Proofs.I8086.Refusal

/-!
# What an 8086 instruction leaves alone

Apart from the stack instructions, an instruction writes to one register at most, which its
first operand names, and to the instruction pointer. All other registers and the memory are
as before. A refused instruction writes nothing.
-/

namespace Microlab.I8086

/-- The word that the register is or lies in. -/
def Register.home : Register → WordRegister
  | .word r => r
  | .byte r => r.parent

theorem Registers.getWord_set_of_ne (rs : Registers) {r : Register} {s : WordRegister}
    (h : r.home ≠ s) (w : Word) : (rs.set r w).getWord s = rs.getWord s := by
  cases r with
  | word r => exact (getWord_setWord rs r s w).trans (if_neg (Ne.symm h))
  | byte r => exact (getWord_setWord rs r.parent s _).trans (if_neg (Ne.symm h))

/-- The register that an instruction names as its destination. Comparisons, jumps and the
stack instructions have none. -/
def destination? (i : Instruction) : Option Register :=
  match Mnemonic.ofName? i.mnemonic, i.arguments with
  | some m, [d] => if m ∈ unaryMnemonics then Register.ofName? d else none
  | some m, [d, _] => if m ∈ binaryMnemonics then Register.ofName? d else none
  | _, _ => none

section

variable {i : Instruction} {m : Mnemonic} (hi : i.Names m)

include hi

theorem destination?_of_unary {d : String} (hm : m ∈ unaryMnemonics) (hargs : i.arguments = [d]) :
    destination? i = Register.ofName? d := by
  unfold destination?
  rw [Instruction.ofName?_eq_some_iff.mpr hi, hargs]
  exact if_pos hm

theorem destination?_of_binary {d s : String} (hm : m ∈ binaryMnemonics)
    (hargs : i.arguments = [d, s]) : destination? i = Register.ofName? d := by
  unfold destination?
  rw [Instruction.ofName?_eq_some_iff.mpr hi, hargs]
  exact if_pos hm

theorem destination?_eq_none (hunary : m ∉ unaryMnemonics) (hbinary : m ∉ binaryMnemonics) :
    destination? i = none := by
  unfold destination?
  rw [Instruction.ofName?_eq_some_iff.mpr hi]
  match i.arguments with
  | [] | _ :: _ :: _ :: _ => rfl
  | [_] => exact if_neg hunary
  | [_, _] => exact if_neg hbinary

end

namespace Operation

/-- The register that the operation computes. -/
def destination? : Operation → Option Register
  | move d _ | arithmetic _ d _ | increment d | decrement d | complement d | negate d => some d
  | _ => none

def usesStack : Operation → Bool
  | push _ | pop _ => true
  | _ => false

variable {i : Instruction} {op : Operation}

/-! ## What each way of resolving finds -/

theorem wordRegister_bind_eq_some_iff {m : Mnemonic} {x : String}
    {f : WordRegister → Except Refusal Resolved} :
    asked (wordRegister m x >>= f) = some op ↔
      ∃ r, Register.ofName? x = some (.word r) ∧ asked (f r) = some op := by
  rw [lookup_bind_eq_some_iff]
  rcases Register.ofName? x with _ | r | b <;> simp [Register.word?]

/-- The operation computes the register that the instruction names, and only the stack
instructions ask for the stack. -/
theorem destination?_of_asked (hpush : ¬ i.Names .push) (hpop : ¬ i.Names .pop)
    (h : asked (resolve i) = some op) :
    op.destination? = I8086.destination? i ∧ op.usesStack = false := by
  obtain ⟨m, hi, h⟩ := exists_names_of_asked h
  cases m with
  | mov | add | sub | and | or | xor =>
      obtain ⟨d, s, hargs, h⟩ := Instruction.two_bind_eq_some_iff.mp h
      obtain ⟨r, hd, h⟩ := lookup_bind_eq_some_iff.mp h
      cases h
      rw [destination?_of_binary hi (by decide) hargs, hd]
      exact ⟨rfl, rfl⟩
  | inc | dec | not | neg =>
      obtain ⟨d, hargs, h⟩ := Instruction.one_bind_eq_some_iff.mp h
      obtain ⟨r, hd, h⟩ := lookup_bind_eq_some_iff.mp h
      cases h
      rw [destination?_of_unary hi (by decide) hargs, hd]
      exact ⟨rfl, rfl⟩
  | cmp =>
      obtain ⟨d, s, hargs, h⟩ := Instruction.two_bind_eq_some_iff.mp h
      cases h
      rw [destination?_eq_none hi (by decide) (by decide)]
      exact ⟨rfl, rfl⟩
  | jmp | je | jz | jne | jnz | jc | jnc =>
      obtain ⟨d, hargs, h⟩ := Instruction.one_bind_eq_some_iff.mp h
      cases h
      rw [destination?_eq_none hi (by decide) (by decide)]
      exact ⟨rfl, rfl⟩
  | nop | hlt =>
      cases h
      rw [destination?_eq_none hi (by decide) (by decide)]
      exact ⟨rfl, rfl⟩
  | push => exact absurd hi hpush
  | pop => exact absurd hi hpop
  | _ => cases h

end Operation

namespace Machine

variable {m : Machine} {i : Instruction}

theorem apply_memory {op : Operation} (hstack : op.usesStack = false) :
    (m.apply op).1.memory = m.memory := by
  cases op with
  | push | pop => cases hstack
  | branch condition target =>
      unfold apply
      dsimp only
      split <;> rfl
  | _ => rfl

/-- An operation writes to its destination and perhaps moves the instruction pointer. -/
theorem getWord_apply {op : Operation} {s : WordRegister} (hstack : op.usesStack = false)
    (hip : s ≠ .ip) (hs : ∀ d, op.destination? = some d → d.home ≠ s) :
    (m.apply op).1.registers.getWord s = m.registers.getWord s := by
  have hjump : ∀ target : Word, (m.jump target).registers.getWord s = m.registers.getWord s :=
    fun target => (m.registers.getWord_setWord .ip s target).trans (if_neg hip)
  cases op with
  | move d | arithmetic _ d | increment d | decrement d | complement d | negate d =>
      exact m.registers.getWord_set_of_ne (hs d rfl) _
  | compare | idle | halt => rfl
  | jump target => exact hjump target
  | branch condition target =>
      unfold apply
      dsimp only
      split
      · exact hjump target
      · rfl
  | push | pop => cases hstack

/-- What an instruction is not about it leaves alone. -/
theorem execute_frame (hpush : ¬ i.Names .push) (hpop : ¬ i.Names .pop) :
    (m.execute i).1.memory = m.memory ∧
      ∀ s, s ≠ .ip → (∀ d, destination? i = some d → d.home ≠ s) →
        (m.execute i).1.registers.getWord s = m.registers.getWord s := by
  rw [execute_fst]
  cases h : asked (Operation.resolve i) with
  | none => exact ⟨rfl, fun s _ _ => rfl⟩
  | some op =>
      obtain ⟨hdest, hstack⟩ := Operation.destination?_of_asked hpush hpop h
      refine ⟨apply_memory hstack, ?_⟩
      intro s hip hs
      exact getWord_apply hstack hip fun d hd => hs d (hdest ▸ hd)

end Machine

end Microlab.I8086
