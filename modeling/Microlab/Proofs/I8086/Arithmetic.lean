import Microlab.Proofs.I8086.Flags
import Microlab.Proofs.I8086.Frame
import Microlab.Proofs.Word

/-!
# Arithmetic of the 8086

An instruction computes with the numbers that its operands stand for, as far as the width
of its operands reaches. What it stores and the flags that it sets are those of the whole
numbers.
-/

namespace Microlab.I8086

/-! ## Operands -/

/-- The number that an operand stands for: what is in the register that it names, or else
what it spells, or zero. -/
def Machine.operand (m : Machine) (x : String) : Int :=
  match Register.ofName? x with
  | some r => (m.registers.get r).toNat
  | none => (Arch.i8086.literal? x).getD 0

/-- Eight bits are computed with if every operand names a byte register, and else sixteen. -/
def operandBits (xs : List String) : Nat :=
  if xs.all fun x => (Register.ofName? x).map Register.width = some .byte then 8 else 16

theorem bits_operandWidth (xs : List String) : (operandWidth xs).bits = operandBits xs := by
  unfold operandWidth operandBits
  simp only [isSome_half?]
  split <;> rfl

theorem bits_commonWidth (x y : String) :
    (commonWidth (Source.ofOperand x).width (Source.ofOperand y).width).bits
      = operandBits [x, y] := by
  rw [← operandWidth_pair, bits_operandWidth]

theorem bits_width {x : String} {r : Register} (hx : Register.ofName? x = some r) :
    r.width.bits = operandBits [x] := by
  rw [← bits_operandWidth, operandWidth_of_ofName? hx]

theorem le_operandBits (xs : List String) : 8 ≤ operandBits xs := by
  unfold operandBits
  split <;> decide

theorem operandBits_le (xs : List String) : operandBits xs ≤ 16 := by
  unfold operandBits
  split <;> decide

/-- What is computed is at least as wide as the registers that are computed with. -/
theorem bits_width_le {x : String} {r : Register} {xs : List String} (hmem : x ∈ xs)
    (hx : Register.ofName? x = some r) : r.width.bits ≤ operandBits xs := by
  cases r with
  | byte r => exact le_operandBits xs
  | word r =>
      unfold operandBits
      rw [if_neg]
      · exact Nat.le_refl 16
      · intro hall
        have hbyte := List.all_eq_true.mp hall x hmem
        rw [hx] at hbyte
        exact absurd hbyte (by simp [Register.width])

/-- Sources hold what the bits of a word keep of a number. -/
theorem Machine.setWidth_read (m : Machine) (x : String) {w : Nat} (hw : w ≤ 16) :
    (m.read (Source.ofOperand x)).setWidth w = BitVec.ofInt w (m.operand x) := by
  unfold operand Source.ofOperand
  cases Register.ofName? x with
  | some r =>
      rw [BitVec.ofInt_natCast, BitVec.ofNat_toNat]
      rfl
  | none =>
      dsimp only
      rw [read, Arch.i8086.setWidth_literalOrZero x hw]

/-! ## Registers -/

namespace Registers

theorem getByte_setByte (rs : Registers) (r : ByteRegister) (b : Byte) :
    (rs.setByte r b).getByte r = b := by
  unfold getByte setByte
  rw [getWord_setWord, if_pos rfl]
  cases r.isHigh with
  | true => exact Word.high_ofHalves b _
  | false => exact Word.low_ofHalves _ b

theorem toNat_get_set (rs : Registers) (r : Register) (w : Word) :
    ((rs.set r w).get r).toNat = w.toNat % 2 ^ r.width.bits := by
  cases r with
  | word r =>
      show ((rs.setWord r w).getWord r).toNat = w.toNat % 2 ^ 16
      rw [getWord_setWord, if_pos rfl, Nat.mod_eq_of_lt w.isLt]
  | byte r =>
      show (((rs.setByte r (Word.low w)).getByte r).setWidth 16).toNat = w.toNat % 2 ^ 8
      rw [getByte_setByte, BitVec.toNat_setWidth_of_le (by decide)]
      exact Word.toNat_low w

end Registers

/-! ## Computing -/

theorem Arithmetic.evalAt_exact (op : Arithmetic) (width : Width) (f : Flags) (x y : Word) :
    let a := x.setWidth width.bits
    let b := y.setWidth width.bits
    (op.evalAt width f x y).1
        = (BitVec.ofInt width.bits (op.result a.toNat b.toNat)).setWidth 16 ∧
      op.Sets f a b (op.evalAt width f x y).2 := by
  intro a b
  have hwidth : 4 < width.bits := by cases width <;> decide
  rw [evalAt_eq]
  exact ⟨congrArg (BitVec.setWidth 16) (op.eval_fst f a b), op.eval_snd f a b hwidth⟩

namespace Machine

variable {m next : Machine} {i : Instruction} {trace : String}

/-- The register has what its own width keeps of the number. -/
def Holds (m : Machine) (r : Register) (v : Int) : Prop :=
  (m.registers.get r).toNat = reduced r.width.bits v

theorem holds_write (m : Machine) {r : Register} {w : Nat} (hr : r.width.bits ≤ w) (hw : w ≤ 16)
    (v : Int) : (m.write r ((BitVec.ofInt w v).setWidth 16)).Holds r v := by
  show ((m.registers.set r _).get r).toNat = _
  rw [Registers.toNat_get_set, BitVec.toNat_setWidth_of_le hw, ← BitVec.toNat_setWidth,
    setWidth_ofInt hr, toNat_ofInt]

/-- Two operands are computed with at their common width. -/
theorem compute_exact (m : Machine) (op : Arithmetic) (x y : String) :
    let w := operandBits [x, y]
    let a : BitVec w := .ofInt w (m.operand x)
    let b : BitVec w := .ofInt w (m.operand y)
    (m.compute op (.ofOperand x) (.ofOperand y)).1
        = (BitVec.ofInt w (op.result a.toNat b.toNat)).setWidth 16 ∧
      op.Sets m.flags a b (m.compute op (.ofOperand x) (.ofOperand y)).2 := by
  have hle := operandBits_le [x, y]
  have h := op.evalAt_exact (commonWidth (Source.ofOperand x).width (Source.ofOperand y).width)
    m.flags (m.read (.ofOperand x)) (m.read (.ofOperand y))
  rw [bits_commonWidth, setWidth_read m x hle, setWidth_read m y hle] at h
  exact h

theorem setWidth_get (m : Machine) {x : String} {r : Register}
    (hx : Register.ofName? x = some r) (w : Nat) :
    (m.registers.get r).setWidth w = BitVec.ofInt w (m.operand x) := by
  unfold operand
  rw [hx, BitVec.ofInt_natCast, BitVec.ofNat_toNat]

/-- What a handler reads of an operand is the number as far as the width reaches. -/
theorem toNat_readAt (m : Machine) (xs : List String) (x : String) :
    (m.readAt (operandWidth xs) x).toNat =
      (BitVec.ofInt (operandBits xs) (m.operand x)).toNat := by
  rw [readAt_eq, Width.toNat_widened, setWidth_read m x (operandWidth xs).bits_le,
    bits_operandWidth]

theorem toNat_lt {w : Nat} (hw : w ≤ 16) (a : BitVec w) : a.toNat < 2 ^ 16 :=
  Nat.lt_of_lt_of_le a.isLt (Nat.pow_le_pow_right (by decide) hw)

/-- A result is stored, and then the flags are set. -/
theorem stores_exact {op : Arithmetic} {w : Nat} {a b : BitVec w} {r : Register} {value : Word}
    {before after : Flags} (hr : r.width.bits ≤ w) (hw : w ≤ 16)
    (hvalue : value = (BitVec.ofInt w (op.result a.toNat b.toNat)).setWidth 16)
    (hflags : op.Sets before a b after) :
    let next := { m with flags := after }.write r value
    next.Holds r (op.result a.toNat b.toNat) ∧ op.Sets before a b next.flags := by
  intro next
  refine ⟨?_, hflags⟩
  subst hvalue
  exact holds_write _ hr hw _

theorem apply_arithmetic_eq (m : Machine) (op : Arithmetic) (r : Register) (source : Source) :
    (m.apply (.arithmetic op r source)).1 =
      { m with flags := (m.compute op (.register r) source).2 }.write r
        (m.compute op (.register r) source).1 :=
  rfl

theorem step_eq (m : Machine) (op : Arithmetic) (r : Register) :
    (m.step op r).1 =
      { m with flags := { (op.evalAt r.width m.flags (m.registers.get r) 1).2 with
        carry := m.flags.carry } }.write r
          (op.evalAt r.width m.flags (m.registers.get r) 1).1 :=
  rfl

theorem apply_negate_eq (m : Machine) (r : Register) :
    (m.apply (.negate r)).1 =
      { m with flags := (Arithmetic.sub.evalAt r.width m.flags 0 (m.registers.get r)).2 }.write r
        (Arithmetic.sub.evalAt r.width m.flags 0 (m.registers.get r)).1 :=
  rfl

theorem apply_arithmetic (m : Machine) (op : Arithmetic) {d : String} {r : Register}
    (hd : Register.ofName? d = some r) (s : String) :
    let w := operandBits [d, s]
    let a : BitVec w := .ofInt w (m.operand d)
    let b : BitVec w := .ofInt w (m.operand s)
    let u := m.readAt (operandWidth [d, s]) d
    let v := m.readAt (operandWidth [d, s]) s
    let next := (m.apply (.arithmetic op r (.ofOperand s))).1
    next.Holds r (op.result a.toNat b.toNat) ∧ op.Sets m.flags a b next.flags ∧
      u.toNat = a.toNat ∧ v.toNat = b.toNat ∧ u.toNat + v.toNat < 2 ^ 32 := by
  intro w a b u v
  have hle := operandBits_le [d, s]
  have ha := toNat_lt hle a
  have hb := toNat_lt hle b
  have hu : u.toNat = a.toNat := m.toNat_readAt [d, s] d
  have hv : v.toNat = b.toNat := m.toNat_readAt [d, s] s
  obtain ⟨hvalue, hflags⟩ := m.compute_exact op d s
  rw [Source.ofOperand_of_ofName? hd] at hvalue hflags
  obtain ⟨hholds, hsets⟩ :=
    stores_exact (m := m) (bits_width_le List.mem_cons_self hd) hle hvalue hflags
  rw [apply_arithmetic_eq]
  exact ⟨hholds, hsets, hu, hv, by omega⟩

/-- A comparison stores nothing, and sets the flags of a difference. -/
theorem apply_compare (m : Machine) (x y : String) :
    let w := operandBits [x, y]
    let a : BitVec w := .ofInt w (m.operand x)
    let b : BitVec w := .ofInt w (m.operand y)
    let next := (m.apply (.compare (.ofOperand x) (.ofOperand y))).1
    next.registers = m.registers ∧ Arithmetic.sub.Sets m.flags a b next.flags := by
  intro w a b
  obtain ⟨-, hflags⟩ := m.compute_exact .sub x y
  rw [apply_compare_eq]
  generalize m.compute .sub (.ofOperand x) (.ofOperand y) = result at hflags ⊢
  exact ⟨rfl, hflags⟩

/-- A step counts by one, and keeps the carry. -/
theorem step_exact (m : Machine) (op : Arithmetic) {d : String} {r : Register}
    (hd : Register.ofName? d = some r) :
    let w := operandBits [d]
    let a : BitVec w := .ofInt w (m.operand d)
    let u := m.readAt (operandWidth [d]) d
    let next := (m.step op r).1
    next.Holds r (op.result a.toNat 1) ∧ u.toNat = a.toNat ∧ u.toNat + 1 < 2 ^ 32 ∧
      ∃ f, op.Sets m.flags a 1 f ∧ next.flags = { f with carry := m.flags.carry } := by
  intro w a u
  have hle := operandBits_le [d]
  have ha := toNat_lt hle a
  have hu : u.toNat = a.toNat := m.toNat_readAt [d] d
  obtain ⟨hvalue, hflags⟩ := op.evalAt_exact r.width m.flags (m.registers.get r) 1
  rw [bits_width hd, setWidth_get m hd] at hvalue hflags
  have hpos : 1 < 2 ^ w :=
    Nat.one_lt_two_pow (Nat.ne_of_gt (Nat.lt_of_lt_of_le (by decide) (le_operandBits [d])))
  have hnat : (1 : BitVec w).toNat = 1 := BitVec.toNat_ofNat 1 w ▸ Nat.mod_eq_of_lt hpos
  have hone : (1 : Word).setWidth w = 1 := by
    apply BitVec.eq_of_toNat_eq
    rw [hnat, BitVec.toNat_setWidth]
    exact Nat.mod_eq_of_lt hpos
  rw [hone] at hvalue hflags
  rw [hnat] at hvalue
  rw [step_eq, hvalue]
  exact ⟨holds_write _ (bits_width_le List.mem_cons_self hd) hle _, hu, by omega, _, hflags, rfl⟩

theorem apply_negate (m : Machine) {d : String} {r : Register}
    (hd : Register.ofName? d = some r) :
    let w := operandBits [d]
    let a : BitVec w := .ofInt w (m.operand d)
    let next := (m.apply (.negate r)).1
    next.Holds r (Arithmetic.sub.result 0 a.toNat) ∧
      Arithmetic.sub.Sets m.flags 0 a next.flags := by
  intro w a
  have hle := operandBits_le [d]
  obtain ⟨hvalue, hflags⟩ :=
    Arithmetic.sub.evalAt_exact r.width m.flags 0 (m.registers.get r)
  rw [bits_width hd, setWidth_get m hd] at hvalue hflags
  have hzero : (0 : Word).setWidth w = 0 := BitVec.setWidth_zero w 16
  have hnat : (0 : BitVec w).toNat = 0 := BitVec.toNat_zero
  rw [hzero] at hvalue hflags
  obtain ⟨hholds, hsets⟩ :=
    stores_exact (m := m) (bits_width_le List.mem_cons_self hd) hle hvalue hflags
  rw [hnat] at hholds
  rw [apply_negate_eq]
  exact ⟨hholds, hsets⟩

end Machine

/-! ## Instructions -/

/-- The instruction of an operation with two operands. -/
def Arithmetic.mnemonic : Arithmetic → Mnemonic
  | add => .add
  | sub => .sub
  | and => .and
  | or => .or
  | xor => .xor

/-- The instruction that counts up or down by one. -/
def Arithmetic.stepMnemonic? : Arithmetic → Option Mnemonic
  | add => some .inc
  | sub => some .dec
  | and | or | xor => none

namespace Operation

variable {i : Instruction} {asks : Operation}

theorem asked_arithmetic {op : Arithmetic} (hi : i.Names op.mnemonic)
    (h : asked (resolve i) = some asks) :
    ∃ d s r, i.arguments = [d, s] ∧ Register.ofName? d = some r ∧
      asks = .arithmetic op r (.ofOperand s) := by
  rw [resolve, resolveBy_of_names hi] at h
  have hresolve : asked (resolveArithmetic op i) = some asks := by
    cases op <;> exact h
  obtain ⟨d, s, hargs, h⟩ := Instruction.two_bind_eq_some_iff.mp hresolve
  obtain ⟨r, hd, h⟩ := lookup_bind_eq_some_iff.mp h
  cases h
  exact ⟨d, s, r, hargs, hd, rfl⟩

theorem asked_compare (hi : i.Names .cmp) (h : asked (resolve i) = some asks) :
    ∃ x y, i.arguments = [x, y] ∧ asks = .compare (.ofOperand x) (.ofOperand y) := by
  rw [resolve, resolveBy_of_names hi] at h
  obtain ⟨x, y, hargs, h⟩ := Instruction.two_bind_eq_some_iff.mp h
  cases h
  exact ⟨x, y, hargs, rfl⟩

theorem asked_unary {op : Register → Operation} {name : String}
    (h : asked (resolveUnary op name i) = some asks) :
    ∃ d r, i.arguments = [d] ∧ Register.ofName? d = some r ∧ asks = op r := by
  obtain ⟨d, hargs, h⟩ := Instruction.one_bind_eq_some_iff.mp h
  obtain ⟨r, hd, h⟩ := lookup_bind_eq_some_iff.mp h
  cases h
  exact ⟨d, r, hargs, hd, rfl⟩

theorem asked_step {op : Arithmetic} {k : Mnemonic} (hk : op.stepMnemonic? = some k)
    (hi : i.Names k) (h : asked (resolve i) = some asks) :
    ∃ d r, i.arguments = [d] ∧ Register.ofName? d = some r ∧
      ∀ m : Machine, m.apply asks = m.step op r := by
  rw [resolve, resolveBy_of_names hi] at h
  cases op with
  | add =>
      obtain rfl := Option.some.inj hk
      obtain ⟨d, r, hargs, hd, rfl⟩ := asked_unary h
      exact ⟨d, r, hargs, hd, fun m => rfl⟩
  | sub =>
      obtain rfl := Option.some.inj hk
      obtain ⟨d, r, hargs, hd, rfl⟩ := asked_unary h
      exact ⟨d, r, hargs, hd, fun m => rfl⟩
  | and | or | xor => cases hk

end Operation

namespace Machine

/-- **Arithmetic is exact.** An accepted instruction computes with what the bits of its
operands keep of the numbers that these stand for. Its destination has the whole result as
far as its own width reaches, and the flags say of whole numbers where the result leaves the
range of the bits. The numbers that a handler reads into thirty-two bits and adds there are
these, and their sum does not overflow. A comparison stores nothing and sets the flags that the
subtraction would. Counting by one keeps the carry, and a negation subtracts from zero. -/
theorem arithmetic_exact {m next : Machine} {i : Instruction} {trace : String}
    (hran : m.attempt i = .ok (next, trace)) :
    (∀ op : Arithmetic, i.Names op.mnemonic → ∃ d s r,
      i.arguments = [d, s] ∧ Register.ofName? d = some r ∧
      let w := operandBits [d, s]
      let a : BitVec w := .ofInt w (m.operand d)
      let b : BitVec w := .ofInt w (m.operand s)
      let u := m.readAt (operandWidth [d, s]) d
      let v := m.readAt (operandWidth [d, s]) s
      next.Holds r (op.result a.toNat b.toNat) ∧ op.Sets m.flags a b next.flags ∧
        u.toNat = a.toNat ∧ v.toNat = b.toNat ∧ u.toNat + v.toNat < 2 ^ 32) ∧
    (i.Names .cmp → ∃ x y, i.arguments = [x, y] ∧
      let w := operandBits [x, y]
      let a : BitVec w := .ofInt w (m.operand x)
      let b : BitVec w := .ofInt w (m.operand y)
      next.registers = m.registers ∧ Arithmetic.sub.Sets m.flags a b next.flags) ∧
    (∀ (op : Arithmetic) (k : Mnemonic), op.stepMnemonic? = some k → i.Names k → ∃ d r,
      i.arguments = [d] ∧ Register.ofName? d = some r ∧
      let w := operandBits [d]
      let a : BitVec w := .ofInt w (m.operand d)
      let u := m.readAt (operandWidth [d]) d
      next.Holds r (op.result a.toNat 1) ∧ u.toNat = a.toNat ∧ u.toNat + 1 < 2 ^ 32 ∧
        ∃ f, op.Sets m.flags a 1 f ∧ next.flags = { f with carry := m.flags.carry }) ∧
    (i.Names .neg → ∃ d r, i.arguments = [d] ∧ Register.ofName? d = some r ∧
      let w := operandBits [d]
      let a : BitVec w := .ofInt w (m.operand d)
      next.Holds r (Arithmetic.sub.result 0 a.toNat) ∧
        Arithmetic.sub.Sets m.flags 0 a next.flags) ∧
    ∀ j next' trace', i.Names .cmp → j.Names .sub → j.arguments = i.arguments →
      m.attempt j = .ok (next', trace') → next.flags = next'.flags := by
  obtain ⟨asks, hasks, rfl⟩ := Step.exists_asked_of_attempt (Handler.handle_eq i) hran
  refine ⟨?_, ?_, ?_, ?_, ?_⟩
  · intro op hi
    obtain ⟨d, s, r, hargs, hd, rfl⟩ := Operation.asked_arithmetic hi hasks
    exact ⟨d, s, r, hargs, hd, m.apply_arithmetic op hd s⟩
  · intro hi
    obtain ⟨x, y, hargs, rfl⟩ := Operation.asked_compare hi hasks
    exact ⟨x, y, hargs, m.apply_compare x y⟩
  · intro op k hk hi
    obtain ⟨d, r, hargs, hd, happly⟩ := Operation.asked_step hk hi hasks
    rw [happly]
    exact ⟨d, r, hargs, hd, m.step_exact op hd⟩
  · intro hi
    rw [Operation.resolve, resolveBy_of_names hi] at hasks
    obtain ⟨d, r, hargs, hd, rfl⟩ := Operation.asked_unary hasks
    exact ⟨d, r, hargs, hd, m.apply_negate hd⟩
  · intro j next' trace' hi hj hsame hran'
    have hsub : j.Names Arithmetic.sub.mnemonic := hj
    obtain ⟨asks', hasks', rfl⟩ := Step.exists_asked_of_attempt (Handler.handle_eq j) hran'
    obtain ⟨x, y, hargs, rfl⟩ := Operation.asked_compare hi hasks
    obtain ⟨d, s, r, hargs', hd, rfl⟩ := Operation.asked_arithmetic hsub hasks'
    rw [hargs, hargs'] at hsame
    obtain ⟨rfl, rfl⟩ : d = x ∧ s = y := by simpa using hsame
    rw [apply_compare_eq, apply_arithmetic_eq, Source.ofOperand_of_ofName? hd]
    rfl

/-- With a literal the sum is one of words, of which the byte register takes the low half.
There is a carry into the fifth bit, and none out of the word. -/
theorem arithmetic_exact_mixed :
    let m : Machine := { Machine.initial with registers := { Registers.zero with ax := 0x01FF } }
    let i : Instruction := ⟨"add", [" al", "1FFH"]⟩
    ∃ next trace, i.Names .add ∧ m.attempt i = .ok (next, trace) ∧
      next.Holds (.byte .al) (255 + 511) ∧ next.flags.carry = false ∧
      next.flags.auxiliary = true := by
  intro m i
  have hi : i.Names Arithmetic.add.mnemonic :=
    Instruction.ofName?_eq_some_iff.mp (by decide +kernel)
  have hasks : asked (Operation.resolve i)
      = some (.arithmetic .add (.byte .al) (.literal 0x1FF)) := by decide +kernel
  obtain ⟨trace, hran⟩ := Step.exists_attempt_of_asked (Handler.handle_eq _) hasks m
  refine ⟨_, trace, hi, hran, ?_⟩
  obtain ⟨hsum, -⟩ := arithmetic_exact hran
  obtain ⟨d, s, r, hargs, hd, hholds, hsets, -⟩ := hsum .add hi
  have hwords : i.arguments = ["al", "1FFH"] := by decide +kernel
  obtain ⟨rfl, rfl⟩ : d = "al" ∧ s = "1FFH" := by simpa using hargs.symm.trans hwords
  obtain rfl : r = .byte .al := Option.some.inj (hd.symm.trans (by decide +kernel))
  refine ⟨?_, ?_, ?_⟩
  · have hexact : Arithmetic.add.result
        (BitVec.ofInt (operandBits ["al", "1FFH"]) (m.operand "al")).toNat
        (BitVec.ofInt (operandBits ["al", "1FFH"]) (m.operand "1FFH")).toNat = 255 + 511 := by
      decide +kernel
    exact hexact ▸ hholds
  · exact Bool.eq_false_iff.mpr fun hcarry => absurd (hsets.carry.mp hcarry) (by decide +kernel)
  · exact hsets.auxiliary.mpr (by decide +kernel)

end Machine

end Microlab.I8086
