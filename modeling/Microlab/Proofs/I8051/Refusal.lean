import Microlab.Proofs.I8051.Operation

/-!
# What the 8051 refuses

As on the 8086, the rules of refusal look at the instruction alone. They name more than
registers: pointers to external memory, the accumulator where nothing else will do, the
carry flag and the register pair.
-/

namespace Microlab.I8051

open Text

/-! ## Mnemonics by what they ask for -/

/-- One register is changed. -/
def unaryMnemonics : List Mnemonic := [.inc, .dec]

/-- Any register is changed by a second operand. -/
def binaryMnemonics : List Mnemonic := [.mov, .anl, .orl, .xrl]

/-- The accumulator is changed by a second operand. -/
def sumMnemonics : List Mnemonic := [.add, .addc, .subb]

def productMnemonics : List Mnemonic := [.mul, .div]

def rotationMnemonics : List Mnemonic := [.rl, .rr, .rlc, .rrc, .swap]

/-- The accumulator or the carry flag is cleared or complemented. -/
def bitMnemonics : List Mnemonic := [.clr, .cpl]

def jumpMnemonics : List Mnemonic := [.sjmp, .ljmp, .jz, .jnz, .jc, .jnc]

def oneOperandMnemonics : List Mnemonic :=
  unaryMnemonics ++ bitMnemonics ++ [.setb] ++ jumpMnemonics

def twoOperandMnemonics : List Mnemonic := binaryMnemonics ++ [.movx] ++ sumMnemonics

/-- All that runs. `NOP` and `HLT` look at no operand. -/
def runnableMnemonics : List Mnemonic :=
  oneOperandMnemonics ++ twoOperandMnemonics ++ productMnemonics ++ rotationMnemonics
    ++ [.nop, .hlt]

/-- One operand points into external memory, and the other does not: through `DPTR` it may
be anything, through `R0` and `R1` it is the accumulator. -/
def Transfers (pointed other : String) : Prop :=
  ∃ p, Pointer.ofOperand? pointed = some p ∧ Pointer.ofOperand? other = none ∧
    (p = .dptr ∨ Register.ofName? other = some .a)

/-- The rules of refusal. -/
inductive Refuses (i : Instruction) : Refusal → Prop where
  | unknown (h : ∀ m ∈ runnableMnemonics, ¬ i.Names m) : Refuses i .unknownInstruction
  | notOne {m : Mnemonic} (hm : m ∈ oneOperandMnemonics) (hi : i.Names m)
      (hcount : i.operands.length ≠ 1) : Refuses i (.operandCount 1)
  | notTwo {m : Mnemonic} (hm : m ∈ twoOperandMnemonics) (hi : i.Names m)
      (hcount : i.operands.length ≠ 2) : Refuses i (.operandCount 2)
  | unaryDestination {m : Mnemonic} {d : String} (hm : m ∈ unaryMnemonics) (hi : i.Names m)
      (hargs : i.arguments = [d]) (hd : Register.ofName? d = none) :
      Refuses i (.destination d)
  | binaryDestination {m : Mnemonic} {d s : String} (hm : m ∈ binaryMnemonics)
      (hi : i.Names m) (hargs : i.arguments = [d, s]) (hd : Register.ofName? d = none) :
      Refuses i (.destination d)
  | indirectSource {d s : String} (hi : i.Names .mov) (hargs : i.arguments = [d, s])
      (hd : Register.ofName? d ≠ none) (hs : s.toList.head? = some '@') :
      Refuses i (.indirectSource d s)
  | notTransfer {d s : String} (hi : i.Names .movx) (hargs : i.arguments = [d, s])
      (hload : ¬ Transfers s d) (hstore : ¬ Transfers d s) : Refuses i .addressingMode
  | loadDestination {d s : String} (hi : i.Names .movx) (hargs : i.arguments = [d, s])
      (hs : Pointer.ofOperand? s = some .dptr) (hp : Pointer.ofOperand? d = none)
      (hd : Register.ofName? d = none) : Refuses i (.destination d)
  | sumDestination {m : Mnemonic} {d s : String} (hm : m ∈ sumMnemonics) (hi : i.Names m)
      (hargs : i.arguments = [d, s]) (hd : Register.ofName? d ≠ some .a) :
      Refuses i .accumulatorDestination
  | notPair {m : Mnemonic} (hm : m ∈ productMnemonics) (hi : i.Names m)
      (hargs : ∀ x, i.arguments = [x] → sameLetters x "AB" = false) : Refuses i .pairOperand
  | notAccumulator {m : Mnemonic} (hm : m ∈ rotationMnemonics) (hi : i.Names m)
      (hnone : i.arguments ≠ [])
      (hargs : ∀ x, i.arguments = [x] → Register.ofName? x ≠ some .a) :
      Refuses i .accumulatorOperand
  | notBit {m : Mnemonic} {x : String} (hm : m ∈ bitMnemonics) (hi : i.Names m)
      (hargs : i.arguments = [x]) (ha : sameLetters x "A" = false)
      (hc : sameLetters x "C" = false) : Refuses i (.bitOperand m x)
  | notCarry {x : String} (hi : i.Names .setb) (hargs : i.arguments = [x])
      (hc : sameLetters x "C" = false) : Refuses i (.bitOperand .setb x)

theorem Transfers.congr {x y x' y' : String} (hx : SameLookup x x') (hy : SameLookup y y')
    (h : Transfers x' y') : Transfers x y := by
  obtain ⟨p, hp, hnone, hother⟩ := h
  rw [← hx.pointer] at hp
  rw [← hy.pointer] at hnone
  rw [← hy.register] at hother
  exact ⟨p, hp, hnone, hother⟩

/-- What number an operand is does not matter to the rules. -/
theorem Refuses.congr {i i' : Instruction} {r : Refusal} (hr : Refuses i r)
    (hm : ∀ m, i.Names m ↔ i'.Names m)
    (h : List.Forall₂ SameLookup i.arguments i'.arguments) : ∃ r', Refuses i' r' := by
  have hlen := Instruction.length_operands_of_forall₂ h
  have hone := fun {x} => Instruction.exists_argument_of_forall₂ (x := x) h
  have htwo := fun {x y} => Instruction.exists_arguments_of_forall₂ (x := x) (y := y) h
  have hback := fun {x} => Instruction.exists_argument_of_forall₂ (x := x) h.flip
  cases hr with
  | unknown hr => exact ⟨_, .unknown fun m hmem hi => hr m hmem ((hm m).mpr hi)⟩
  | notOne hmem hi hcount => exact ⟨_, .notOne hmem ((hm _).mp hi) (hlen ▸ hcount)⟩
  | notTwo hmem hi hcount => exact ⟨_, .notTwo hmem ((hm _).mp hi) (hlen ▸ hcount)⟩
  | unaryDestination hmem hi hargs hd =>
      obtain ⟨d', hargs', hdd⟩ := hone hargs
      exact ⟨_, .unaryDestination hmem ((hm _).mp hi) hargs' (hdd.register ▸ hd)⟩
  | binaryDestination hmem hi hargs hd =>
      obtain ⟨d', s', hargs', hdd, -⟩ := htwo hargs
      exact ⟨_, .binaryDestination hmem ((hm _).mp hi) hargs' (hdd.register ▸ hd)⟩
  | indirectSource hi hargs hd hs =>
      obtain ⟨d', s', hargs', hdd, hss⟩ := htwo hargs
      exact ⟨_, .indirectSource ((hm _).mp hi) hargs' (hdd.register ▸ hd) (hss.indirect.mp hs)⟩
  | notTransfer hi hargs hload hstore =>
      obtain ⟨d', s', hargs', hdd, hss⟩ := htwo hargs
      exact ⟨_, .notTransfer ((hm _).mp hi) hargs' (fun h => hload (h.congr hss hdd))
        (fun h => hstore (h.congr hdd hss))⟩
  | loadDestination hi hargs hs hp hd =>
      obtain ⟨d', s', hargs', hdd, hss⟩ := htwo hargs
      exact ⟨_, .loadDestination ((hm _).mp hi) hargs' (hss.pointer ▸ hs) (hdd.pointer ▸ hp)
        (hdd.register ▸ hd)⟩
  | sumDestination hmem hi hargs hd =>
      obtain ⟨d', s', hargs', hdd, -⟩ := htwo hargs
      exact ⟨_, .sumDestination hmem ((hm _).mp hi) hargs' (hdd.register ▸ hd)⟩
  | notPair hmem hi hargs =>
      refine ⟨_, .notPair hmem ((hm _).mp hi) ?_⟩
      intro x' hargs'
      obtain ⟨x, hx, hxx⟩ := hback hargs'
      exact hxx.word "AB" (by decide) ▸ hargs x hx
  | notAccumulator hmem hi hnone hargs =>
      refine ⟨_, .notAccumulator hmem ((hm _).mp hi) ?_ ?_⟩
      · intro hnil
        rw [hnil, List.forall₂_nil_right_iff] at h
        exact hnone h
      · intro x' hargs'
        obtain ⟨x, hx, hxx⟩ := hback hargs'
        exact hxx.register ▸ hargs x hx
  | notBit hmem hi hargs ha hc =>
      obtain ⟨x', hargs', hxx⟩ := hone hargs
      exact ⟨_, .notBit hmem ((hm _).mp hi) hargs' (hxx.word "A" (by decide) ▸ ha)
        (hxx.word "C" (by decide) ▸ hc)⟩
  | notCarry hi hargs hc =>
      obtain ⟨x', hargs', hxx⟩ := hone hargs
      exact ⟨_, .notCarry ((hm _).mp hi) hargs' (hxx.word "C" (by decide) ▸ hc)⟩

namespace Operation

variable {i : Instruction} {r : Refusal}

/-! ## When each way of resolving fails -/

theorem resolveMove_eq_error_iff :
    resolveMove i = .error r ↔
      (i.operands.length ≠ 2 ∧ r = .operandCount 2) ∨
        ∃ d s, i.arguments = [d, s] ∧
          ((Register.ofName? d = none ∧ r = .destination d) ∨
            Register.ofName? d ≠ none ∧ s.toList.head? = some '@' ∧
              r = .indirectSource d s) := by
  unfold resolveMove
  rw [Instruction.two_bind_eq_error_iff]
  refine or_congr_right (exists₂_congr fun d s => and_congr_right fun _ => ?_)
  show (destination d >>= _) = _ ↔ _
  rw [lookup_bind_eq_error_iff]
  refine or_congr_right ?_
  by_cases hs : s.toList.head? = some '@'
  · simp only [if_pos hs]
    show (∃ reg, Register.ofName? d = some reg ∧ Except.error _ = Except.error r) ↔ _
    simp [hs, Option.ne_none_iff_exists', eq_comm (b := r)]
  · simp [hs, pure, Except.pure]

theorem resolveExternal_eq_error_iff :
    resolveExternal i = .error r ↔
      (i.operands.length ≠ 2 ∧ r = .operandCount 2) ∨
        ∃ d s, i.arguments = [d, s] ∧
          ((¬ Transfers s d ∧ ¬ Transfers d s ∧ r = .addressingMode) ∨
            Pointer.ofOperand? s = some .dptr ∧ Pointer.ofOperand? d = none ∧
              Register.ofName? d = none ∧ r = .destination d) := by
  unfold resolveExternal
  rw [Instruction.two_bind_eq_error_iff]
  refine or_congr_right (exists₂_congr fun d s => and_congr_right fun _ => ?_)
  unfold Transfers
  dsimp only
  -- which operand points where decides between the modes
  rcases Pointer.ofOperand? s with _ | _ | _ | _ <;>
    rcases Pointer.ofOperand? d with _ | _ | _ | _ <;>
    simp [Refusal.throw_eq_error_iff, Refusal.ite_ok_eq_error_iff,
      lookup_bind_eq_error_iff, pure, Except.pure]

theorem resolveSum_eq_error_iff (op : Source → Operation) (name : String) :
    resolveSum op name i = .error r ↔
      (i.operands.length ≠ 2 ∧ r = .operandCount 2) ∨
        ∃ d s, i.arguments = [d, s] ∧ Register.ofName? d ≠ some .a ∧
          r = .accumulatorDestination := by
  unfold resolveSum
  rw [Instruction.two_bind_eq_error_iff]
  simp only [pure, Except.pure, Refusal.ite_ok_eq_error_iff, Refusal.throw_eq_error_iff, ne_eq]

theorem resolveStep_eq_error_iff (op : Register → Operation) :
    resolveStep op i = .error r ↔
      (i.operands.length ≠ 1 ∧ r = .operandCount 1) ∨
        ∃ d, i.arguments = [d] ∧ Register.ofName? d = none ∧ r = .destination d := by
  unfold resolveStep
  rw [Instruction.one_bind_eq_error_iff]
  simp [lookup_bind_eq_error_iff, pure, Except.pure]

theorem resolvePair_eq_error_iff (op : Operation) (m : Mnemonic) :
    resolvePair op m i = .error r ↔
      (∀ x, i.arguments = [x] → sameLetters x "AB" = false) ∧ r = .pairOperand := by
  unfold resolvePair
  match i.arguments with
  | [] | _ :: _ :: _ => simp [eq_comm (b := r)]
  | [x] => cases h : sameLetters x "AB" <;> simp [h, eq_comm (b := r)]

theorem resolveLogic_eq_error_iff (op : Logic) :
    resolveLogic op i = .error r ↔
      (i.operands.length ≠ 2 ∧ r = .operandCount 2) ∨
        ∃ d s, i.arguments = [d, s] ∧ Register.ofName? d = none ∧ r = .destination d := by
  unfold resolveLogic
  rw [Instruction.two_bind_eq_error_iff]
  simp [lookup_bind_eq_error_iff, pure, Except.pure]

theorem resolveRotate_eq_error_iff (rot : Rotation) (m : Mnemonic) :
    resolveRotate rot m i = .error r ↔
      i.arguments ≠ [] ∧ (∀ x, i.arguments = [x] → Register.ofName? x ≠ some .a) ∧
        r = .accumulatorOperand := by
  unfold resolveRotate
  match i.arguments with
  | [] | _ :: _ :: _ => simp [eq_comm (b := r)]
  | [x] => by_cases h : Register.ofName? x = some .a <;> simp [h, eq_comm (b := r)]

theorem resolveClear_eq_error_iff :
    resolveClear i = .error r ↔
      (i.operands.length ≠ 1 ∧ r = .operandCount 1) ∨
        ∃ x, i.arguments = [x] ∧ sameLetters x "A" = false ∧ sameLetters x "C" = false ∧
          r = .bitOperand .clr x := by
  unfold resolveClear
  rw [Instruction.one_bind_eq_error_iff]
  simp only [pure, Except.pure, Refusal.ite_ok_eq_error_iff, Refusal.throw_eq_error_iff,
    Bool.not_eq_true]

theorem resolveSet_eq_error_iff :
    resolveSet i = .error r ↔
      (i.operands.length ≠ 1 ∧ r = .operandCount 1) ∨
        ∃ x, i.arguments = [x] ∧ sameLetters x "C" = false ∧ r = .bitOperand .setb x := by
  unfold resolveSet
  rw [Instruction.one_bind_eq_error_iff]
  simp only [pure, Except.pure, Refusal.ite_ok_eq_error_iff, Refusal.throw_eq_error_iff,
    Bool.not_eq_true]

theorem resolveComplement_eq_error_iff :
    resolveComplement i = .error r ↔
      (i.operands.length ≠ 1 ∧ r = .operandCount 1) ∨
        ∃ x, i.arguments = [x] ∧ sameLetters x "A" = false ∧ sameLetters x "C" = false ∧
          r = .bitOperand .cpl x := by
  unfold resolveComplement
  rw [Instruction.one_bind_eq_error_iff]
  simp only [pure, Except.pure, Refusal.ite_ok_eq_error_iff, Refusal.throw_eq_error_iff,
    Bool.not_eq_true]

/-! ## Failures and rules -/

variable {m : Mnemonic}

theorem resolveKnown_of_not_runnable (hm : m ∉ runnableMnemonics) :
    resolveKnown m i = .error .unknownInstruction := by
  cases m with
  | mov | movx | add | addc | subb | inc | dec | mul | div | anl | orl | xrl | rl | rr | rlc
  | rrc | swap | clr | setb | cpl | sjmp | ljmp | jz | jnz | jc | jnc | nop | hlt =>
      exact absurd (by decide) hm
  | _ => rfl

/-- A failure is covered by a rule. -/
theorem refuses_of_resolveKnown (hi : i.Names m) (h : resolveKnown m i = .error r) :
    Refuses i r := by
  cases m with
  | mov =>
      rcases resolveMove_eq_error_iff.mp h with
        ⟨hcount, rfl⟩ | ⟨d, s, hargs, ⟨hd, rfl⟩ | ⟨hd, hs, rfl⟩⟩
      · exact .notTwo (by decide) hi hcount
      · exact .binaryDestination (by decide) hi hargs hd
      · exact .indirectSource hi hargs hd hs
  | movx =>
      rcases resolveExternal_eq_error_iff.mp h with
        ⟨hcount, rfl⟩ | ⟨d, s, hargs, ⟨hload, hstore, rfl⟩ | ⟨hs, hp, hd, rfl⟩⟩
      · exact .notTwo (by decide) hi hcount
      · exact .notTransfer hi hargs hload hstore
      · exact .loadDestination hi hargs hs hp hd
  | add | addc | subb =>
      rcases (resolveSum_eq_error_iff _ _).mp h with ⟨hcount, rfl⟩ | ⟨d, s, hargs, hd, rfl⟩
      · exact .notTwo (by decide) hi hcount
      · exact .sumDestination (by decide) hi hargs hd
  | inc | dec =>
      rcases (resolveStep_eq_error_iff _).mp h with ⟨hcount, rfl⟩ | ⟨d, hargs, hd, rfl⟩
      · exact .notOne (by decide) hi hcount
      · exact .unaryDestination (by decide) hi hargs hd
  | mul | div =>
      obtain ⟨hargs, rfl⟩ := (resolvePair_eq_error_iff _ _).mp h
      exact .notPair (by decide) hi hargs
  | anl | orl | xrl =>
      rcases (resolveLogic_eq_error_iff _).mp h with ⟨hcount, rfl⟩ | ⟨d, s, hargs, hd, rfl⟩
      · exact .notTwo (by decide) hi hcount
      · exact .binaryDestination (by decide) hi hargs hd
  | rl | rr | rlc | rrc | swap =>
      obtain ⟨hnone, hargs, rfl⟩ := (resolveRotate_eq_error_iff _ _).mp h
      exact .notAccumulator (by decide) hi hnone hargs
  | clr =>
      rcases resolveClear_eq_error_iff.mp h with ⟨hcount, rfl⟩ | ⟨x, hargs, ha, hc, rfl⟩
      · exact .notOne (by decide) hi hcount
      · exact .notBit (by decide) hi hargs ha hc
  | setb =>
      rcases resolveSet_eq_error_iff.mp h with ⟨hcount, rfl⟩ | ⟨x, hargs, hc, rfl⟩
      · exact .notOne (by decide) hi hcount
      · exact .notCarry hi hargs hc
  | cpl =>
      rcases resolveComplement_eq_error_iff.mp h with ⟨hcount, rfl⟩ | ⟨x, hargs, ha, hc, rfl⟩
      · exact .notOne (by decide) hi hcount
      · exact .notBit (by decide) hi hargs ha hc
  | sjmp | ljmp | jz | jnz | jc | jnc =>
      obtain ⟨hcount, rfl⟩ := resolveTarget_eq_error_iff.mp h
      exact .notOne (by decide) hi hcount
  | nop | hlt => cases h
  | _ =>
      cases h
      refine .unknown ?_
      intro k hk hik
      cases hi.unique hik
      exact absurd hk (by decide)

/-- Where a rule applies, there is no operation. -/
theorem resolve_of_refuses (h : Refuses i r) : resolve i = .error r := by
  unfold resolve
  cases h with
  | unknown h => exact resolveBy_of_unknown (fun _ => resolveKnown_of_not_runnable) h
  | @notOne m hm hi hcount =>
      rw [resolveBy_of_names hi]
      cases m with
      | inc | dec => exact (resolveStep_eq_error_iff _).mpr (.inl ⟨hcount, rfl⟩)
      | clr => exact resolveClear_eq_error_iff.mpr (.inl ⟨hcount, rfl⟩)
      | setb => exact resolveSet_eq_error_iff.mpr (.inl ⟨hcount, rfl⟩)
      | cpl => exact resolveComplement_eq_error_iff.mpr (.inl ⟨hcount, rfl⟩)
      | sjmp | ljmp | jz | jnz | jc | jnc =>
          exact resolveTarget_eq_error_iff.mpr ⟨hcount, rfl⟩
      | _ => exact absurd hm (by decide)
  | @notTwo m hm hi hcount =>
      rw [resolveBy_of_names hi]
      cases m with
      | mov => exact resolveMove_eq_error_iff.mpr (.inl ⟨hcount, rfl⟩)
      | movx => exact resolveExternal_eq_error_iff.mpr (.inl ⟨hcount, rfl⟩)
      | add | addc | subb => exact (resolveSum_eq_error_iff _ _).mpr (.inl ⟨hcount, rfl⟩)
      | anl | orl | xrl => exact (resolveLogic_eq_error_iff _).mpr (.inl ⟨hcount, rfl⟩)
      | _ => exact absurd hm (by decide)
  | @unaryDestination m d hm hi hargs hd =>
      rw [resolveBy_of_names hi]
      cases m with
      | inc | dec => exact (resolveStep_eq_error_iff _).mpr (.inr ⟨d, hargs, hd, rfl⟩)
      | _ => exact absurd hm (by decide)
  | @binaryDestination m d s hm hi hargs hd =>
      rw [resolveBy_of_names hi]
      cases m with
      | mov => exact resolveMove_eq_error_iff.mpr (.inr ⟨d, s, hargs, .inl ⟨hd, rfl⟩⟩)
      | anl | orl | xrl => exact (resolveLogic_eq_error_iff _).mpr (.inr ⟨d, s, hargs, hd, rfl⟩)
      | _ => exact absurd hm (by decide)
  | @indirectSource d s hi hargs hd hs =>
      rw [resolveBy_of_names hi]
      exact resolveMove_eq_error_iff.mpr (.inr ⟨d, s, hargs, .inr ⟨hd, hs, rfl⟩⟩)
  | @notTransfer d s hi hargs hload hstore =>
      rw [resolveBy_of_names hi]
      exact resolveExternal_eq_error_iff.mpr (.inr ⟨d, s, hargs, .inl ⟨hload, hstore, rfl⟩⟩)
  | @loadDestination d s hi hargs hs hp hd =>
      rw [resolveBy_of_names hi]
      exact resolveExternal_eq_error_iff.mpr (.inr ⟨d, s, hargs, .inr ⟨hs, hp, hd, rfl⟩⟩)
  | @sumDestination m d s hm hi hargs hd =>
      rw [resolveBy_of_names hi]
      cases m with
      | add | addc | subb =>
          exact (resolveSum_eq_error_iff _ _).mpr (.inr ⟨d, s, hargs, hd, rfl⟩)
      | _ => exact absurd hm (by decide)
  | @notPair m hm hi hargs =>
      rw [resolveBy_of_names hi]
      cases m with
      | mul | div => exact (resolvePair_eq_error_iff _ _).mpr ⟨hargs, rfl⟩
      | _ => exact absurd hm (by decide)
  | @notAccumulator m hm hi hnone hargs =>
      rw [resolveBy_of_names hi]
      cases m with
      | rl | rr | rlc | rrc | swap =>
          exact (resolveRotate_eq_error_iff _ _).mpr ⟨hnone, hargs, rfl⟩
      | _ => exact absurd hm (by decide)
  | @notBit m x hm hi hargs ha hc =>
      rw [resolveBy_of_names hi]
      cases m with
      | clr => exact resolveClear_eq_error_iff.mpr (.inr ⟨x, hargs, ha, hc, rfl⟩)
      | cpl => exact resolveComplement_eq_error_iff.mpr (.inr ⟨x, hargs, ha, hc, rfl⟩)
      | _ => exact absurd hm (by decide)
  | @notCarry x hi hargs hc =>
      rw [resolveBy_of_names hi]
      exact resolveSet_eq_error_iff.mpr (.inr ⟨x, hargs, hc, rfl⟩)

/-- An instruction asks for no operation exactly if a rule refuses it. -/
theorem resolve_eq_error_iff : resolve i = .error r ↔ Refuses i r :=
  resolveBy_eq_error_iff (fun _ => refuses_of_resolveKnown)
    (fun hnone => .unknown fun m _ => hnone m) resolve_of_refuses

end Operation

end Microlab.I8051
