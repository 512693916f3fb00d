import Microlab.Proofs.I8051.Handler

/-!
# What an 8051 instruction asks for

As on the 8086, operands that say the same ask for the same operation. Here an operand
may also be a pointer, a flag or the register pair.
-/

namespace Microlab.I8051

open Text

/-- The arguments are found alike wherever a name is looked up. -/
structure SameLookup (x y : String) : Prop where
  register : Register.ofName? x = Register.ofName? y
  pointer : Pointer.ofOperand? x = Pointer.ofOperand? y
  word : ∀ word ∈ ["A", "C", "AB"], sameLetters x word = sameLetters y word
  indirect : x.toList.head? = some '@' ↔ y.toList.head? = some '@'

/-- The arguments mean the same wherever one is looked up. -/
structure SameMeaning (x y : String) : Prop extends SameLookup x y where
  literal : Arch.i8051.literalOrZero x = Arch.i8051.literalOrZero y

/-- The arguments may stand for each other wherever they are not read as numbers at once and
the accumulator is not known by its letter. -/
structure Interchangeable (x y : String) : Prop where
  register : Register.ofName? x = Register.ofName? y
  source : Source.ofOperand x = Source.ofOperand y
  pointer : Pointer.ofOperand? x = Pointer.ofOperand? y
  word : ∀ word ∈ ["C", "AB"], sameLetters x word = sameLetters y word
  indirect : x.toList.head? = some '@' ↔ y.toList.head? = some '@'

theorem SameMeaning.interchangeable {x y : String} (h : SameMeaning x y) :
    Interchangeable x y where
  register := h.register
  source := by
    unfold Source.ofOperand
    rw [h.register, h.literal]
  pointer := h.pointer
  word := fun word hword => h.word word (List.mem_cons_of_mem _ hword)
  indirect := h.indirect

/-! ## Names are no numbers -/

theorem bind?_registerName (f : Field) :
    ∀ row ∈ Register.names, f.bind? .i8051 row.1 = none := by
  have hname : ∀ f ∈ Field.all, ∀ row ∈ Register.names, f.bind? .i8051 row.1 = none := by
    decide +kernel
  exact hname f f.mem_all

theorem bind?_pointerName (f : Field) :
    ∀ row ∈ [("@DPTR", Pointer.dptr), ("@R0", .r0), ("@R1", .r1)],
      f.bind? .i8051 row.1 = none := by
  have hname : ∀ f ∈ Field.all, ∀ row ∈ [("@DPTR", Pointer.dptr), ("@R0", .r0), ("@R1", .r1)],
      f.bind? .i8051 row.1 = none := by
    decide +kernel
  exact hname f f.mem_all

theorem bind?_word (f : Field) : ∀ word ∈ ["A", "C", "AB"], f.bind? .i8051 word = none := by
  have hname : ∀ f ∈ Field.all, ∀ word ∈ ["A", "C", "AB"], f.bind? .i8051 word = none := by
    decide +kernel
  exact hname f f.mem_all

section

variable {f : Field} {x : String} {v : Int} (h : f.bind? .i8051 x = some v)

include h

theorem Register.ofName?_of_field : Register.ofName? (trimmed x) = none := by
  rw [ofName?_trimmed, ofName?_eq]
  exact SameName.named?_eq_none h (bind?_registerName f)

theorem head?_ne_at_of_field : (trimmed x).toList.head? ≠ some '@' := by
  rw [toList_trimmed]
  exact Literal.head?_ne_at_of_parseOperand? (Field.literal?_of_bind? h)

/-- The processor takes the number that the field stores, modulo the word. -/
theorem Source.ofOperand_of_field :
    Source.ofOperand (trimmed x) = .literal (BitVec.ofInt 16 v) := by
  unfold ofOperand
  rw [Register.ofName?_of_field h, Arch.literalOrZero_trimmed, Arch.literalOrZero_eq,
    Field.literal?_of_bind? h]
  rfl

end

/-! ## Operands that say the same -/

theorem SameLookup.of_sameName {x y : String} (h : SameName .i8051 x y) :
    SameLookup (trimmed x) (trimmed y) where
  register := by
    rw [Register.ofName?_trimmed, Register.ofName?_trimmed, Register.ofName?_eq,
      Register.ofName?_eq]
    exact h.named?_eq fun row hrow f => bind?_registerName f row hrow
  pointer := h.named?_eq fun row hrow f => bind?_pointerName f row hrow
  word := by
    intro word hword
    rw [sameLetters_comm, h.sameLetters_eq fun f => bind?_word f word hword, sameLetters_comm]
  indirect := by
    rw [toList_trimmed, toList_trimmed]
    exact h.head?_at_iff

theorem SameMeaning.of_sameOperand {x y : String} (h : SameOperand .i8051 x y) :
    SameMeaning (trimmed x) (trimmed y) where
  toSameLookup := .of_sameName h.sameName
  literal := Arch.literalOrZero_congr h

namespace Operation

variable {i i' : Instruction} {x y : String}

/-! ## One lemma for each way of resolving -/

section

variable (h : List.Forall₂ Interchangeable i.arguments i'.arguments)

include h

theorem resolveMove_congr : asked (resolveMove i) = asked (resolveMove i') := by
  apply Instruction.two_bind_congr h
  intro x y x' y' hx hy
  apply lookup_bind_congr hx.register
  intro r
  by_cases hat : y.toList.head? = some '@'
  · rw [if_pos hat, if_pos (hy.indirect.mp hat)]
    rfl
  · rw [if_neg hat, if_neg (fun h => hat (hy.indirect.mpr h)), hy.source]
    rfl

theorem resolveExternal_congr : asked (resolveExternal i) = asked (resolveExternal i') := by
  apply Instruction.two_bind_congr h
  intro x y x' y' hx hy
  simp only [hx.pointer, hy.pointer, hx.register, hy.register, hy.source]
  match Pointer.ofOperand? y', Pointer.ofOperand? x' with
  | none, none => rfl
  | some p, some q => cases p <;> cases q <;> rfl
  | some .dptr, none => exact lookup_bind_congr hx.register fun r => rfl
  | none, some .dptr => exact asked_ok _ _ _
  | some .r0, none | some .r1, none =>
      dsimp only
      split
      · exact asked_ok _ _ _
      · rfl
  | none, some .r0 | none, some .r1 =>
      dsimp only
      split
      · exact asked_ok _ _ _
      · rfl

theorem resolveSum_congr (op : Source → Operation) (name name' : String) :
    asked (resolveSum op name i) = asked (resolveSum op name' i') := by
  apply Instruction.two_bind_congr h
  intro x y x' y' hx hy
  simp only [hx.register, hy.source]
  split <;> rfl

theorem resolveStep_congr (op : Register → Operation) :
    asked (resolveStep op i) = asked (resolveStep op i') := by
  apply Instruction.one_bind_congr h
  intro x x' hx
  exact lookup_bind_congr hx.register fun r => rfl

theorem resolvePair_congr (op : Operation) (m : Mnemonic) :
    asked (resolvePair op m i) = asked (resolvePair op m i') := by
  unfold resolvePair
  match i.arguments, i'.arguments, h with
  | [], [], _ => rfl
  | [x], [x'], .cons hx _ =>
      simp only [hx.word "AB" (by decide)]
  | _ :: _ :: _, _ :: _ :: _, _ => rfl

theorem resolveLogic_congr (op : Logic) :
    asked (resolveLogic op i) = asked (resolveLogic op i') := by
  apply Instruction.two_bind_congr h
  intro x y x' y' hx hy
  apply lookup_bind_congr hx.register
  intro r
  rw [hy.source]
  rfl

theorem resolveRotate_congr (r : Rotation) (m : Mnemonic) :
    asked (resolveRotate r m i) = asked (resolveRotate r m i') := by
  unfold resolveRotate
  match i.arguments, i'.arguments, h with
  | [], [], _ => rfl
  | [x], [x'], .cons hx _ => simp only [hx.register]
  | _ :: _ :: _, _ :: _ :: _, _ => rfl

theorem resolveSet_congr : asked (resolveSet i) = asked (resolveSet i') := by
  apply Instruction.one_bind_congr h
  intro x x' hx
  simp only [hx.word "C" (by decide)]
  split <;> rfl

/-- Only jumps and the two instructions that look for the letter need more. -/
theorem resolveKnown_congr_of_interchangeable {m : Mnemonic}
    (hm : m ∉ [.clr, .cpl, .sjmp, .ljmp, .jz, .jnz, .jc, .jnc]) :
    asked (resolveKnown m i) = asked (resolveKnown m i') := by
  cases m with
  | mov => exact resolveMove_congr h
  | movx => exact resolveExternal_congr h
  | add | addc | subb => exact resolveSum_congr h _ _ _
  | inc | dec => exact resolveStep_congr h _
  | mul | div => exact resolvePair_congr h _ _
  | anl | orl | xrl => exact resolveLogic_congr h _
  | rl | rr | rlc | rrc | swap => exact resolveRotate_congr h _ _
  | setb => exact resolveSet_congr h
  | clr | cpl | sjmp | ljmp | jz | jnz | jc | jnc => exact absurd (by decide) hm
  | _ => rfl

end

section

variable (h : List.Forall₂ SameMeaning i.arguments i'.arguments)

include h

theorem resolveClear_congr : asked (resolveClear i) = asked (resolveClear i') := by
  apply Instruction.one_bind_congr h
  intro x x' hx
  simp only [hx.word "A" (by decide), hx.word "C" (by decide)]
  split
  · rfl
  · split <;> rfl

theorem resolveComplement_congr :
    asked (resolveComplement i) = asked (resolveComplement i') := by
  apply Instruction.one_bind_congr h
  intro x x' hx
  simp only [hx.word "A" (by decide), hx.word "C" (by decide)]
  split
  · rfl
  · split <;> rfl

/-- Instructions of one mnemonic ask for the same operation if their operands mean the same. -/
theorem resolveKnown_congr (m : Mnemonic) :
    asked (resolveKnown m i) = asked (resolveKnown m i') := by
  cases m with
  | clr => exact resolveClear_congr h
  | cpl => exact resolveComplement_congr h
  | sjmp | ljmp | jz | jnz | jc | jnc =>
      exact resolveTarget_congr h fun _ _ => SameMeaning.literal
  | _ =>
      exact resolveKnown_congr_of_interchangeable
        (h.imp fun _ _ => SameMeaning.interchangeable) (by decide)

end

end Operation

theorem Machine.execute_fst (m : Machine) (i : Instruction) :
    (m.execute i).1 = (asked (Operation.resolve i)).elim m fun op => (m.apply op).1 :=
  Step.execute_fst (Handler.handle_eq i) m i.mnemonic

/-- Instructions of one mnemonic do the same if their operands say the same. -/
theorem Machine.execute_congr (m : Machine) {i i' : Instruction} {k : Mnemonic}
    (hi : Mnemonic.ofName? i.mnemonic = some k) (hi' : Mnemonic.ofName? i'.mnemonic = some k)
    (h : List.Forall₂ (SameOperand .i8051) i.operands i'.operands) :
    (m.execute i).1 = (m.execute i').1 := by
  have hargs : List.Forall₂ SameMeaning i.arguments i'.arguments :=
    Instruction.forall₂_arguments h fun x y hxy => SameMeaning.of_sameOperand hxy
  rw [execute_fst, execute_fst, Operation.resolve, Operation.resolve,
    resolveBy_of_names (Instruction.ofName?_eq_some_iff.mp hi),
    resolveBy_of_names (Instruction.ofName?_eq_some_iff.mp hi'),
    Operation.resolveKnown_congr hargs]

end Microlab.I8051
