import Microlab.Proofs.I8086.Operation

/-!
# What the 8086 refuses

The rules of refusal, read off an instruction alone: its mnemonic, the number of its
operands, and what their names stand for. Looking for an operation fails exactly where a
rule applies, and with the reason of that rule.
-/

namespace Microlab.I8086

/-! ## Mnemonics by what they ask for -/

/-- One register is changed. -/
def unaryMnemonics : List Mnemonic := [.inc, .dec, .not, .neg]

/-- A register is changed by a second operand. -/
def binaryMnemonics : List Mnemonic := [.mov, .add, .sub, .and, .or, .xor]

def stackMnemonics : List Mnemonic := [.push, .pop]

def jumpMnemonics : List Mnemonic := [.jmp, .je, .jz, .jne, .jnz, .jc, .jnc]

def oneOperandMnemonics : List Mnemonic := unaryMnemonics ++ stackMnemonics ++ jumpMnemonics

def twoOperandMnemonics : List Mnemonic := .cmp :: binaryMnemonics

/-- All that runs. `NOP` and `HLT` look at no operand. -/
def runnableMnemonics : List Mnemonic :=
  oneOperandMnemonics ++ twoOperandMnemonics ++ [.nop, .hlt]

/-- The rules of refusal. -/
inductive Refuses (i : Instruction) : Refusal → Prop where
  | unknown (h : ∀ m ∈ runnableMnemonics, ¬ i.Names m) : Refuses i .unknownInstruction
  | notOne {m : Mnemonic} (hm : m ∈ oneOperandMnemonics) (hi : i.Names m)
      (hcount : i.operands.length ≠ 1) : Refuses i (.operandCount 1)
  | notTwo {m : Mnemonic} (hm : m ∈ twoOperandMnemonics) (hi : i.Names m)
      (hcount : i.operands.length ≠ 2) : Refuses i (.operandCount 2)
  | unaryDestination {m : Mnemonic} {d : String} (hm : m ∈ unaryMnemonics) (hi : i.Names m)
      (hargs : i.arguments = [d]) (hd : Register.ofName? d = none) :
      Refuses i (.destination d)
  | binaryDestination {m : Mnemonic} {d s : String} (hm : m ∈ binaryMnemonics) (hi : i.Names m)
      (hargs : i.arguments = [d, s]) (hd : Register.ofName? d = none) :
      Refuses i (.destination d)
  | notWordRegister {m : Mnemonic} {d : String} (hm : m ∈ stackMnemonics) (hi : i.Names m)
      (hargs : i.arguments = [d]) (hd : ∀ r, Register.ofName? d ≠ some (.word r)) :
      Refuses i (.wordRegister m d)

/-- What number an operand is does not matter to the rules. -/
theorem Refuses.congr {i i' : Instruction} {r : Refusal} (hr : Refuses i r)
    (hm : ∀ m, i.Names m ↔ i'.Names m)
    (h : List.Forall₂ (fun x y => Register.ofName? x = Register.ofName? y)
      i.arguments i'.arguments) : ∃ r', Refuses i' r' := by
  have hlen := Instruction.length_operands_of_forall₂ h
  cases hr with
  | unknown hr => exact ⟨_, .unknown fun m hmem hi => hr m hmem ((hm m).mpr hi)⟩
  | notOne hmem hi hcount => exact ⟨_, .notOne hmem ((hm _).mp hi) (hlen ▸ hcount)⟩
  | notTwo hmem hi hcount => exact ⟨_, .notTwo hmem ((hm _).mp hi) (hlen ▸ hcount)⟩
  | unaryDestination hmem hi hargs hd =>
      obtain ⟨d', hargs', hdd⟩ := Instruction.exists_argument_of_forall₂ h hargs
      exact ⟨_, .unaryDestination hmem ((hm _).mp hi) hargs' (hdd ▸ hd)⟩
  | binaryDestination hmem hi hargs hd =>
      obtain ⟨d', s', hargs', hdd, -⟩ := Instruction.exists_arguments_of_forall₂ h hargs
      exact ⟨_, .binaryDestination hmem ((hm _).mp hi) hargs' (hdd ▸ hd)⟩
  | notWordRegister hmem hi hargs hd =>
      obtain ⟨d', hargs', hdd⟩ := Instruction.exists_argument_of_forall₂ h hargs
      exact ⟨_, .notWordRegister hmem ((hm _).mp hi) hargs' (hdd ▸ hd)⟩

namespace Operation

variable {i : Instruction} {r : Refusal}

/-! ## When each way of resolving fails -/

theorem wordRegister_bind_eq_error_iff {m : Mnemonic} {x : String}
    {f : WordRegister → Except Refusal Resolved} :
    (wordRegister m x >>= f) = .error r ↔
      ((∀ w, Register.ofName? x ≠ some (.word w)) ∧ r = .wordRegister m x) ∨
        ∃ w, Register.ofName? x = some (.word w) ∧ f w = .error r := by
  rw [lookup_bind_eq_error_iff]
  rcases Register.ofName? x with _ | w | b <;> simp [Register.word?]

theorem resolveMove_eq_error_iff :
    resolveMove i = .error r ↔
      (i.operands.length ≠ 2 ∧ r = .operandCount 2) ∨
        ∃ d s, i.arguments = [d, s] ∧ Register.ofName? d = none ∧ r = .destination d := by
  unfold resolveMove
  rw [Instruction.two_bind_eq_error_iff]
  simp [lookup_bind_eq_error_iff, pure, Except.pure]

theorem resolveArithmetic_eq_error_iff (op : Arithmetic) :
    resolveArithmetic op i = .error r ↔
      (i.operands.length ≠ 2 ∧ r = .operandCount 2) ∨
        ∃ d s, i.arguments = [d, s] ∧ Register.ofName? d = none ∧ r = .destination d := by
  unfold resolveArithmetic
  rw [Instruction.two_bind_eq_error_iff]
  simp [lookup_bind_eq_error_iff, pure, Except.pure]

theorem resolveCompare_eq_error_iff :
    resolveCompare i = .error r ↔ i.operands.length ≠ 2 ∧ r = .operandCount 2 := by
  unfold resolveCompare
  rw [Instruction.two_bind_eq_error_iff]
  simp [pure, Except.pure]

theorem resolveUnary_eq_error_iff (op : Register → Operation) (name : String) :
    resolveUnary op name i = .error r ↔
      (i.operands.length ≠ 1 ∧ r = .operandCount 1) ∨
        ∃ d, i.arguments = [d] ∧ Register.ofName? d = none ∧ r = .destination d := by
  unfold resolveUnary
  rw [Instruction.one_bind_eq_error_iff]
  simp [lookup_bind_eq_error_iff, pure, Except.pure]

theorem resolveStack_eq_error_iff (op : WordRegister → Operation) (m : Mnemonic) :
    resolveStack op m i = .error r ↔
      (i.operands.length ≠ 1 ∧ r = .operandCount 1) ∨
        ∃ d, i.arguments = [d] ∧ (∀ w, Register.ofName? d ≠ some (.word w)) ∧
          r = .wordRegister m d := by
  unfold resolveStack
  rw [Instruction.one_bind_eq_error_iff]
  simp [wordRegister_bind_eq_error_iff, pure, Except.pure]

/-! ## Failures and rules -/

variable {m : Mnemonic}

theorem resolveKnown_of_not_runnable (hm : m ∉ runnableMnemonics) :
    resolveKnown m i = .error .unknownInstruction := by
  cases m with
  | inc | dec | not | neg | push | pop | jmp | je | jz | jne | jnz | jc | jnc
  | mov | add | sub | and | or | xor | cmp | nop | hlt => exact absurd (by decide) hm
  | _ => rfl

/-- A failure is covered by a rule. -/
theorem refuses_of_resolveKnown (hi : i.Names m) (h : resolveKnown m i = .error r) :
    Refuses i r := by
  cases m with
  | mov =>
      rcases resolveMove_eq_error_iff.mp h with ⟨hcount, rfl⟩ | ⟨d, s, hargs, hd, rfl⟩
      · exact .notTwo (by decide) hi hcount
      · exact .binaryDestination (by decide) hi hargs hd
  | add | sub | and | or | xor =>
      rcases (resolveArithmetic_eq_error_iff _).mp h with
        ⟨hcount, rfl⟩ | ⟨d, s, hargs, hd, rfl⟩
      · exact .notTwo (by decide) hi hcount
      · exact .binaryDestination (by decide) hi hargs hd
  | cmp =>
      obtain ⟨hcount, rfl⟩ := resolveCompare_eq_error_iff.mp h
      exact .notTwo (by decide) hi hcount
  | inc | dec | not | neg =>
      rcases (resolveUnary_eq_error_iff _ _).mp h with ⟨hcount, rfl⟩ | ⟨d, hargs, hd, rfl⟩
      · exact .notOne (by decide) hi hcount
      · exact .unaryDestination (by decide) hi hargs hd
  | push | pop =>
      rcases (resolveStack_eq_error_iff _ _).mp h with ⟨hcount, rfl⟩ | ⟨d, hargs, hd, rfl⟩
      · exact .notOne (by decide) hi hcount
      · exact .notWordRegister (by decide) hi hargs hd
  | jmp | je | jz | jne | jnz | jc | jnc =>
      obtain ⟨hcount, rfl⟩ := resolveTarget_eq_error_iff.mp h
      exact .notOne (by decide) hi hcount
  | nop | hlt => cases h
  | _ =>
      cases h
      refine .unknown ?_
      intro k hk hik
      cases hi.unique hik
      exact absurd hk (by decide)

/-- Where a rule applies, there is no operation. -/
theorem resolve_of_refuses (h : Refuses i r) : resolve i = .error r := by
  unfold resolve
  cases h with
  | unknown h => exact resolveBy_of_unknown (fun _ => resolveKnown_of_not_runnable) h
  | @notOne m hm hi hcount =>
      rw [resolveBy_of_names hi]
      cases m with
      | inc | dec | not | neg => exact (resolveUnary_eq_error_iff _ _).mpr (.inl ⟨hcount, rfl⟩)
      | push | pop => exact (resolveStack_eq_error_iff _ _).mpr (.inl ⟨hcount, rfl⟩)
      | jmp | je | jz | jne | jnz | jc | jnc =>
          exact resolveTarget_eq_error_iff.mpr ⟨hcount, rfl⟩
      | _ => exact absurd hm (by decide)
  | @notTwo m hm hi hcount =>
      rw [resolveBy_of_names hi]
      cases m with
      | mov => exact resolveMove_eq_error_iff.mpr (.inl ⟨hcount, rfl⟩)
      | add | sub | and | or | xor =>
          exact (resolveArithmetic_eq_error_iff _).mpr (.inl ⟨hcount, rfl⟩)
      | cmp => exact resolveCompare_eq_error_iff.mpr ⟨hcount, rfl⟩
      | _ => exact absurd hm (by decide)
  | @unaryDestination m d hm hi hargs hd =>
      rw [resolveBy_of_names hi]
      cases m with
      | inc | dec | not | neg =>
          exact (resolveUnary_eq_error_iff _ _).mpr (.inr ⟨d, hargs, hd, rfl⟩)
      | _ => exact absurd hm (by decide)
  | @binaryDestination m d s hm hi hargs hd =>
      rw [resolveBy_of_names hi]
      cases m with
      | mov => exact resolveMove_eq_error_iff.mpr (.inr ⟨d, s, hargs, hd, rfl⟩)
      | add | sub | and | or | xor =>
          exact (resolveArithmetic_eq_error_iff _).mpr (.inr ⟨d, s, hargs, hd, rfl⟩)
      | _ => exact absurd hm (by decide)
  | @notWordRegister m d hm hi hargs hd =>
      rw [resolveBy_of_names hi]
      cases m with
      | push | pop => exact (resolveStack_eq_error_iff _ _).mpr (.inr ⟨d, hargs, hd, rfl⟩)
      | _ => exact absurd hm (by decide)

/-- An instruction asks for no operation exactly if a rule refuses it. -/
theorem resolve_eq_error_iff : resolve i = .error r ↔ Refuses i r :=
  resolveBy_eq_error_iff (fun _ => refuses_of_resolveKnown)
    (fun hnone => .unknown fun m _ => hnone m) resolve_of_refuses

end Operation

end Microlab.I8086
