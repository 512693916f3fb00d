import Microlab.Proofs.I8086.Handler

/-!
# What an 8086 instruction asks for

The operation depends on what the operands mean and not on how they are spelled, so
instructions whose operands say the same ask for the same operation.
-/

namespace Microlab.I8086

open Text

/-- The arguments mean the same register, if any, and the same number. -/
structure SameMeaning (x y : String) : Prop where
  register : Register.ofName? x = Register.ofName? y
  literal : Arch.i8086.literalOrZero x = Arch.i8086.literalOrZero y

theorem bind?_registerName (f : Field) :
    ∀ row ∈ WordRegister.all.map (fun r => (r.name, Register.word r))
      ++ ByteRegister.all.map (fun r => (r.name, Register.byte r)),
      f.bind? .i8086 row.1 = none := by
  have hname : ∀ f ∈ Field.all,
      ∀ row ∈ WordRegister.all.map (fun r => (r.name, Register.word r))
        ++ ByteRegister.all.map (fun r => (r.name, Register.byte r)),
      f.bind? .i8086 row.1 = none := by
    decide +kernel
  exact hname f f.mem_all

/-- Numbers are no names. -/
theorem Register.ofName?_of_field {f : Field} {x : String} {v : Int}
    (h : f.bind? .i8086 x = some v) : Register.ofName? (trimmed x) = none := by
  unfold ofName?
  rw [trimmed_trimmed]
  exact SameName.named?_eq_none h (bind?_registerName f)

theorem Register.ofName?_congr {x y : String} (h : SameName .i8086 x y) :
    Register.ofName? (trimmed x) = Register.ofName? (trimmed y) := by
  unfold ofName?
  rw [trimmed_trimmed, trimmed_trimmed]
  exact h.named?_eq fun row hrow f => bind?_registerName f row hrow

theorem SameMeaning.of_sameOperand {x y : String} (h : SameOperand .i8086 x y) :
    SameMeaning (trimmed x) (trimmed y) where
  register := Register.ofName?_congr h.sameName
  literal := Arch.literalOrZero_congr h

namespace Operation

variable {i i' : Instruction} {x y : String}

theorem source_congr (h : SameMeaning x y) : Source.ofOperand x = Source.ofOperand y := by
  unfold Source.ofOperand
  rw [h.register, h.literal]

theorem wordRegister_bind_congr (h : SameMeaning x y) {m : Mnemonic}
    {f g : WordRegister → Except Refusal Resolved} (hfg : ∀ r, asked (f r) = asked (g r)) :
    asked (wordRegister m x >>= f) = asked (wordRegister m y >>= g) := by
  refine lookup_bind_congr ?_ hfg
  rw [h.register]

/-! ## One lemma for each way of resolving -/

section

variable (h : List.Forall₂ SameMeaning i.arguments i'.arguments)

include h

theorem resolveMove_congr : asked (resolveMove i) = asked (resolveMove i') := by
  apply Instruction.two_bind_congr h
  intro x y x' y' hx hy
  apply lookup_bind_congr hx.register
  intro r
  rw [source_congr hy]
  rfl

theorem resolveArithmetic_congr (op : Arithmetic) :
    asked (resolveArithmetic op i) = asked (resolveArithmetic op i') := by
  apply Instruction.two_bind_congr h
  intro x y x' y' hx hy
  apply lookup_bind_congr hx.register
  intro r
  rw [source_congr hy]
  rfl

theorem resolveCompare_congr : asked (resolveCompare i) = asked (resolveCompare i') := by
  apply Instruction.two_bind_congr h
  intro x y x' y' hx hy
  simp only [source_congr hx, source_congr hy]
  rfl

theorem resolveUnary_congr (op : Register → Operation) (name name' : String) :
    asked (resolveUnary op name i) = asked (resolveUnary op name' i') := by
  apply Instruction.one_bind_congr h
  intro x x' hx
  exact lookup_bind_congr hx.register fun r => rfl

theorem resolveStack_congr (op : WordRegister → Operation) (m : Mnemonic) :
    asked (resolveStack op m i) = asked (resolveStack op m i') := by
  apply Instruction.one_bind_congr h
  intro x x' hx
  exact wordRegister_bind_congr hx fun r => rfl

/-- The two names of a jump stand for one operation. -/
theorem resolveKnown_congr (m : Mnemonic) :
    asked (resolveKnown m i) = asked (resolveKnown m.principal i') := by
  cases m with
  | mov => exact resolveMove_congr h
  | add | sub | and | or | xor => exact resolveArithmetic_congr h _
  | cmp => exact resolveCompare_congr h
  | inc | dec | not | neg => exact resolveUnary_congr h _ _ _
  | push | pop => exact resolveStack_congr h _ _
  | jmp | je | jz | jne | jnz | jc | jnc =>
      exact resolveTarget_congr h fun _ _ => SameMeaning.literal
  | _ => rfl

end

end Operation

theorem Machine.execute_fst (m : Machine) (i : Instruction) :
    (m.execute i).1 = (asked (Operation.resolve i)).elim m fun op => (m.apply op).1 :=
  Step.execute_fst (Handler.handle_eq i) m i.mnemonic

/-- Instructions of one mnemonic, or of two names of it, do the same if their operands say
the same. -/
theorem Machine.execute_congr (m : Machine) {i i' : Instruction} {k : Mnemonic}
    (hi : Mnemonic.ofName? i.mnemonic = some k)
    (hi' : Mnemonic.ofName? i'.mnemonic = some k.principal)
    (h : List.Forall₂ (SameOperand .i8086) i.operands i'.operands) :
    (m.execute i).1 = (m.execute i').1 := by
  have hargs : List.Forall₂ SameMeaning i.arguments i'.arguments :=
    Instruction.forall₂_arguments h fun x y hxy => SameMeaning.of_sameOperand hxy
  rw [execute_fst, execute_fst, Operation.resolve, Operation.resolve,
    resolveBy_of_names (Instruction.ofName?_eq_some_iff.mp hi),
    resolveBy_of_names (Instruction.ofName?_eq_some_iff.mp hi'),
    Operation.resolveKnown_congr hargs]

end Microlab.I8086
