import Microlab.Proofs.I8051.Parity
import Microlab.Proofs.I8051.Sum
import Microlab.Proofs.Word

/-!
# Arithmetic of the 8051

Sums and differences go to the accumulator and take the carry in. Counting and logic work on
any register, at its own width; the status word is written bit by bit, but for the parity
bit, which stays that of the accumulator. Products and quotients fill `A` and `B`.
-/

namespace Microlab.I8051

/-! ## Operands -/

/-- The number that an operand stands for: what is in the register that it names, or else
what it spells, or zero. -/
def Machine.operand (m : Machine) (x : String) : Int :=
  match Register.ofName? x with
  | some r => (m.get r).toNat
  | none => (Arch.i8051.literal? x).getD 0

/-- Sources hold what the bits of a word keep of a number. -/
theorem Machine.setWidth_read (m : Machine) (x : String) {w : Nat} (hw : w ≤ 16) :
    (m.read (Source.ofOperand x)).setWidth w = BitVec.ofInt w (m.operand x) := by
  unfold operand Source.ofOperand
  cases Register.ofName? x with
  | some r =>
      rw [BitVec.ofInt_natCast, BitVec.ofNat_toNat]
      rfl
  | none =>
      dsimp only
      rw [read, Arch.i8051.setWidth_literalOrZero x hw]

/-! ## Results -/

/-- The accumulator has the sum with the carry, as far as a byte reaches. The flags are those
of the whole numbers. -/
structure Machine.Adds (m : Machine) (v : Byte) (c : Nat) (next : Machine) : Prop where
  value : next.a.toNat = (m.a.toNat + v.toNat + c) % 256
  carry : next.psw.carry = true ↔ 256 ≤ m.a.toNat + v.toNat + c
  auxiliary : next.psw.auxiliary = true ↔ 16 ≤ m.a.toNat % 16 + v.toNat % 16 + c
  overflow : next.psw.overflow = true ↔ ¬ FitsSigned 8 (m.a.toInt + v.toInt + c)

/-- The accumulator has the difference without the carry. The carries are borrows. -/
structure Machine.Subtracts (m : Machine) (v : Byte) (c : Nat) (next : Machine) : Prop where
  value : (next.a.toNat : Int) = ((m.a.toNat : Int) - v.toNat - c) % 256
  carry : next.psw.carry = true ↔ m.a.toNat < v.toNat + c
  auxiliary : next.psw.auxiliary = true ↔ m.a.toNat % 16 < v.toNat % 16 + c
  overflow : next.psw.overflow = true ↔ ¬ FitsSigned 8 (m.a.toInt - v.toInt - c)

/-- The register has what its own width keeps of the number. The halves of `DPTR` stay apart.
The flags stay, but for the parity bit, which is that of the accumulator; the status word
takes all other bits from the number. -/
structure Machine.Writes (m : Machine) (r : Register) (v : Int) (next : Machine) : Prop where
  value : r ≠ .psw → (next.get r).toNat = reduced r.width.bits v
  accumulator : r ≠ .a → next.a = m.a
  high : r = .dpl → Word.high next.dptr = Word.high m.dptr
  low : r = .dph → Word.low next.dptr = Word.low m.dptr
  flags : r ≠ .psw → next.psw = { m.psw with parity := next.psw.parity }
  status : r = .psw → next.psw = { Status.ofByte (BitVec.ofInt 8 v) with
    parity := next.psw.parity }
  parity : r = .a ∨ r = .psw → (next.psw.parity = true ↔ Odd (ones next.a))

/-- The bits of two numbers, one by one. -/
def Logic.result (op : Logic) (a b : Nat) : Nat :=
  match op with
  | and => a &&& b
  | or => a ||| b
  | xor => a ^^^ b

theorem Logic.eval_eq (op : Logic) {n : Nat} (x y : BitVec n) :
    op.eval x y = BitVec.ofInt n (op.result x.toNat y.toNat) := by
  cases op with
  | and =>
      rw [eval, result, ← BitVec.toNat_and]
      exact (ofInt_toNat _).symm
  | or =>
      rw [eval, result, ← BitVec.toNat_or]
      exact (ofInt_toNat _).symm
  | xor =>
      rw [eval, result, ← BitVec.toNat_xor]
      exact (ofInt_toNat _).symm

namespace Machine

variable (m : Machine)

theorem adds_sum (v : Byte) (carry : Bool) :
    m.Adds v carry.toNat (m.sum (.ofAdd m.a v carry)).1 where
  value := by
    have hexact := Sum.ofAdd_exact m.a v carry
    have hvalue := (Sum.ofAdd m.a v carry).value.isLt
    show (Sum.ofAdd m.a v carry).value.toNat = _
    omega
  carry := Sum.carry_ofAdd_iff m.a v carry
  auxiliary := Sum.auxiliary_ofAdd_iff m.a v carry
  overflow := Sum.overflow_ofAdd_iff m.a v carry

theorem subtracts_sum (v : Byte) (carry : Bool) :
    m.Subtracts v carry.toNat (m.sum (.ofSub m.a v carry)).1 where
  value := by
    have hexact := Sum.ofSub_exact m.a v carry
    have hvalue := (Sum.ofSub m.a v carry).value.isLt
    show ((Sum.ofSub m.a v carry).value.toNat : Int) = _
    omega
  carry := Sum.carry_ofSub_iff m.a v carry
  auxiliary := Sum.auxiliary_ofSub_iff m.a v carry
  overflow := Sum.overflow_ofSub_iff m.a v carry

theorem adds_apply (withCarry : Bool) (s : String) :
    m.Adds (.ofInt 8 (m.operand s)) (withCarry && m.psw.carry).toNat
      (m.apply (.add withCarry (.ofOperand s))).1 := by
  rw [← m.setWidth_read s (by decide)]
  exact m.adds_sum _ _

theorem subtracts_apply (s : String) :
    m.Subtracts (.ofInt 8 (m.operand s)) m.psw.carry.toNat
      (m.apply (.subtract (.ofOperand s))).1 := by
  rw [← m.setWidth_read s (by decide)]
  exact m.subtracts_sum _ _

theorem toNat_widened_low (w : Word) : ((Word.low w).setWidth 16).toNat = w.toNat % 2 ^ 8 := by
  rw [BitVec.toNat_setWidth_of_le (by decide)]
  exact Word.toNat_low w

theorem toNat_get_set {r : Register} (hr : r ≠ .psw) (w : Word) :
    ((m.set r w).get r).toNat = w.toNat % 2 ^ r.width.bits := by
  cases r with
  | psw => exact absurd rfl hr
  | a | b | pc | sp => exact toNat_widened_low w
  | dptr => exact (Nat.mod_eq_of_lt w.isLt).symm
  | dpl =>
      show ((Word.low (Word.withLow m.dptr (Word.low w))).setWidth 16).toNat = _
      rw [Word.withLow, Word.low_ofHalves]
      exact toNat_widened_low w
  | dph =>
      show ((Word.high (Word.withHigh m.dptr (Word.low w))).setWidth 16).toNat = _
      rw [Word.withHigh, Word.high_ofHalves]
      exact toNat_widened_low w
  | bank i =>
      have hget : (m.bank.set i (Word.low w)).get i = Word.low w :=
        Vector.getElem_set_self i.isLt
      show (((m.bank.set i (Word.low w)).get i).setWidth 16).toNat = _
      rw [hget]
      exact toNat_widened_low w
  | ioPort i =>
      have hget : (m.ports.set i (Word.low w)).get i = Word.low w :=
        Vector.getElem_set_self i.isLt
      show (((m.ports.set i (Word.low w)).get i).setWidth 16).toNat = _
      rw [hget]
      exact toNat_widened_low w

theorem writes_set {r : Register} {w : Word} {v : Int}
    (h : w.setWidth r.width.bits = BitVec.ofInt r.width.bits v) : m.Writes r v (m.set r w) where
  value := by
    intro hr
    rw [m.toNat_get_set hr, ← toNat_ofInt, ← h, BitVec.toNat_setWidth]
  accumulator := by
    intro hr
    cases r with
    | a => exact absurd rfl hr
    | _ => rfl
  high := by
    rintro rfl
    exact Word.high_ofHalves _ _
  low := by
    rintro rfl
    exact Word.low_ofHalves _ _
  flags := by
    intro hr
    cases r with
    | psw => exact absurd rfl hr
    | _ => rfl
  status := by
    rintro rfl
    have hlow : Word.low w = BitVec.ofInt 8 v := h
    rw [← hlow]
    rfl
  parity := by
    rintro (rfl | rfl)
    · exact oddOnes_iff _
    · exact oddOnes_iff _

theorem toNat_product (a b : Byte) :
    (a.setWidth 16 * b.setWidth 16).toNat = a.toNat * b.toNat := by
  have hle : a.toNat * b.toNat ≤ 255 * 255 :=
    Nat.mul_le_mul (Nat.le_of_lt_succ a.isLt) (Nat.le_of_lt_succ b.isLt)
  rw [BitVec.toNat_mul, BitVec.toNat_setWidth_of_le (by decide),
    BitVec.toNat_setWidth_of_le (by decide)]
  exact Nat.mod_eq_of_lt (Nat.lt_of_le_of_lt hle (by decide))

theorem multiply_exact :
    256 * m.multiply.1.b.toNat + m.multiply.1.a.toNat = m.a.toNat * m.b.toNat ∧
      m.multiply.1.psw.carry = false ∧
      (m.multiply.1.psw.overflow = true ↔ 255 < m.a.toNat * m.b.toNat) := by
  have ha : m.multiply.1.a = Word.low (m.a.setWidth 16 * m.b.setWidth 16) := rfl
  have hb : m.multiply.1.b = Word.high (m.a.setWidth 16 * m.b.setWidth 16) := rfl
  have hoverflow : m.multiply.1.psw.overflow = decide (m.multiply.1.b ≠ 0) := rfl
  have hzero : m.multiply.1.b = 0 ↔ m.multiply.1.b.toNat = 0 := BitVec.toNat_inj.symm
  rw [hoverflow, decide_eq_true_iff, Ne, hzero, ha, hb, Word.toNat_low, Word.toNat_high,
    toNat_product]
  exact ⟨Nat.div_add_mod _ _, rfl, by omega⟩

theorem divide_of_zero (h : m.b = 0) :
    m.divide.1 = { m with psw := { m.psw with overflow := true } } := by
  unfold divide
  dsimp only
  rw [if_pos h]

theorem divide_exact (h : m.b ≠ 0) :
    m.divide.1.a.toNat * m.b.toNat + m.divide.1.b.toNat = m.a.toNat ∧
      m.divide.1.b.toNat < m.b.toNat ∧
      m.divide.1.psw.carry = false ∧ m.divide.1.psw.overflow = false := by
  have hpos : 0 < m.b.toNat := Nat.pos_of_ne_zero fun hzero => h (BitVec.eq_of_toNat_eq hzero)
  unfold divide
  dsimp only
  rw [if_neg h]
  refine ⟨?_, ?_, rfl, rfl⟩
  · show (m.a / m.b).toNat * m.b.toNat + (m.a % m.b).toNat = m.a.toNat
    rw [BitVec.toNat_udiv, BitVec.toNat_umod, Nat.mul_comm]
    exact Nat.div_add_mod _ _
  · show (m.a % m.b).toNat < m.b.toNat
    rw [BitVec.toNat_umod]
    exact Nat.mod_lt _ hpos

/-! ## Counting and logic -/

theorem setWidth_narrow (r : Register) (w : Word) :
    (narrow r w).setWidth r.width.bits = w.setWidth r.width.bits := by
  unfold narrow
  cases r.width with
  | byte => exact Word.low_setWidth (Word.low w)
  | word => rfl

variable {m} {d : String} {r : Register} (hd : Register.ofName? d = some r)

include hd

theorem operand_eq : m.operand d = (m.get r).toNat := by
  unfold operand
  rw [hd]

theorem writes_increment : m.Writes r (m.operand d + 1) (m.apply (.increment r)).1 := by
  apply writes_set
  have hsum : m.get r + 1 = BitVec.ofInt 16 ((m.get r).toNat + 1) := (ofInt_sum _ _).symm
  rw [setWidth_narrow, operand_eq hd, hsum, setWidth_ofInt (r.width.bits_le)]

theorem writes_decrement : m.Writes r (m.operand d - 1) (m.apply (.decrement r)).1 := by
  apply writes_set
  have hdifference : m.get r - 1 = BitVec.ofInt 16 ((m.get r).toNat - 1) :=
    (ofInt_difference _ _).symm
  rw [setWidth_narrow, operand_eq hd, hdifference, setWidth_ofInt (r.width.bits_le)]

theorem writes_logic (op : Logic) (s : String) :
    m.Writes r (op.result (reduced r.width.bits (m.operand d)) (reduced r.width.bits (m.operand s)))
      (m.apply (.logic op r (.ofOperand s))).1 := by
  apply writes_set
  have hleft : (m.get r).setWidth r.width.bits = BitVec.ofInt r.width.bits (m.operand d) := by
    rw [operand_eq hd, BitVec.ofInt_natCast, BitVec.ofNat_toNat]
  rw [Logic.setWidth_eval, hleft, m.setWidth_read s (r.width.bits_le), Logic.eval_eq, toNat_ofInt,
    toNat_ofInt]

end Machine

/-- The instruction of an operation on bits. -/
def Logic.mnemonic : Logic → Mnemonic
  | and => .anl
  | or => .orl
  | xor => .xrl

namespace Operation

variable {i : Instruction} {asks : Operation}

theorem exists_of_asked_sum {op : Source → Operation} {name : String}
    (h : asked (resolveSum op name i) = some asks) :
    ∃ d s, i.arguments = [d, s] ∧ Register.ofName? d = some .a ∧ asks = op (.ofOperand s) := by
  obtain ⟨d, s, hargs, h⟩ := Instruction.two_bind_eq_some_iff.mp h
  dsimp only at h
  by_cases hd : Register.ofName? d = some .a
  · rw [if_pos hd] at h
    cases h
    exact ⟨d, s, hargs, hd, rfl⟩
  · rw [if_neg hd] at h
    cases h

theorem exists_of_asked_step {op : Register → Operation}
    (h : asked (resolveStep op i) = some asks) :
    ∃ d r, i.arguments = [d] ∧ Register.ofName? d = some r ∧ asks = op r := by
  obtain ⟨d, hargs, h⟩ := Instruction.one_bind_eq_some_iff.mp h
  obtain ⟨r, hd, h⟩ := lookup_bind_eq_some_iff.mp h
  cases h
  exact ⟨d, r, hargs, hd, rfl⟩

theorem eq_of_asked_pair {op : Operation} {k : Mnemonic}
    (h : asked (resolvePair op k i) = some asks) : asks = op := by
  unfold resolvePair at h
  split at h
  · split at h
    · cases h
      rfl
    · cases h
  · cases h

theorem exists_of_asked_logic {op : Logic} (h : asked (resolveLogic op i) = some asks) :
    ∃ d s r, i.arguments = [d, s] ∧ Register.ofName? d = some r ∧
      asks = .logic op r (.ofOperand s) := by
  obtain ⟨d, s, hargs, h⟩ := Instruction.two_bind_eq_some_iff.mp h
  obtain ⟨r, hd, h⟩ := lookup_bind_eq_some_iff.mp h
  cases h
  exact ⟨d, s, r, hargs, hd, rfl⟩

end Operation

namespace Machine

variable {m next : Machine} {i : Instruction} {trace : String}

/-- **Bytes are computed with exactly.** Sums and differences in the accumulator are those of
whole numbers, with the carry that goes in; carry, auxiliary carry and overflow say where
they leave a byte, its low half and the signed bytes. Counting and logic store in any
register what its width keeps of the whole result, and change no flag but parity, unless
they write the status word itself. A product and a quotient with its rest are those of the
numbers in `A` and `B`, and a division by zero sets overflow and changes nothing else. -/
theorem computes_exactly (hran : m.attempt i = .ok (next, trace)) :
    (i.Names .add → ∃ d s, i.arguments = [d, s] ∧ Register.ofName? d = some .a ∧
      m.Adds (.ofInt 8 (m.operand s)) 0 next) ∧
    (i.Names .addc → ∃ d s, i.arguments = [d, s] ∧ Register.ofName? d = some .a ∧
      m.Adds (.ofInt 8 (m.operand s)) m.psw.carry.toNat next) ∧
    (i.Names .subb → ∃ d s, i.arguments = [d, s] ∧ Register.ofName? d = some .a ∧
      m.Subtracts (.ofInt 8 (m.operand s)) m.psw.carry.toNat next) ∧
    (i.Names .inc → ∃ d r, i.arguments = [d] ∧ Register.ofName? d = some r ∧
      m.Writes r (m.operand d + 1) next) ∧
    (i.Names .dec → ∃ d r, i.arguments = [d] ∧ Register.ofName? d = some r ∧
      m.Writes r (m.operand d - 1) next) ∧
    (i.Names .mul →
      256 * next.b.toNat + next.a.toNat = m.a.toNat * m.b.toNat ∧ next.psw.carry = false ∧
      (next.psw.overflow = true ↔ 255 < m.a.toNat * m.b.toNat)) ∧
    (i.Names .div → m.b ≠ 0 →
      next.a.toNat * m.b.toNat + next.b.toNat = m.a.toNat ∧ next.b.toNat < m.b.toNat ∧
      next.psw.carry = false ∧ next.psw.overflow = false) ∧
    (i.Names .div → m.b = 0 → next = { m with psw := { m.psw with overflow := true } }) ∧
    ∀ op : Logic, i.Names op.mnemonic → ∃ d s r,
      i.arguments = [d, s] ∧ Register.ofName? d = some r ∧
      let w := r.width.bits
      m.Writes r (op.result (reduced w (m.operand d)) (reduced w (m.operand s))) next := by
  obtain ⟨asks, hasks, rfl⟩ := Step.exists_asked_of_attempt (Handler.handle_eq i) hran
  have hresolve : ∀ k, i.Names k → asked (Operation.resolveKnown k i) = some asks := by
    intro k hi
    rwa [Operation.resolve, resolveBy_of_names hi] at hasks
  refine ⟨?_, ?_, ?_, ?_, ?_, ?_, ?_, ?_, ?_⟩
  · intro hi
    obtain ⟨d, s, hargs, hd, rfl⟩ := Operation.exists_of_asked_sum (hresolve _ hi)
    exact ⟨d, s, hargs, hd, m.adds_apply false s⟩
  · intro hi
    obtain ⟨d, s, hargs, hd, rfl⟩ := Operation.exists_of_asked_sum (hresolve _ hi)
    exact ⟨d, s, hargs, hd, m.adds_apply true s⟩
  · intro hi
    obtain ⟨d, s, hargs, hd, rfl⟩ := Operation.exists_of_asked_sum (hresolve _ hi)
    exact ⟨d, s, hargs, hd, m.subtracts_apply s⟩
  · intro hi
    obtain ⟨d, r, hargs, hd, rfl⟩ := Operation.exists_of_asked_step (hresolve _ hi)
    exact ⟨d, r, hargs, hd, writes_increment hd⟩
  · intro hi
    obtain ⟨d, r, hargs, hd, rfl⟩ := Operation.exists_of_asked_step (hresolve _ hi)
    exact ⟨d, r, hargs, hd, writes_decrement hd⟩
  · intro hi
    obtain rfl := Operation.eq_of_asked_pair (hresolve _ hi)
    exact m.multiply_exact
  · intro hi hb
    obtain rfl := Operation.eq_of_asked_pair (hresolve _ hi)
    exact m.divide_exact hb
  · intro hi hb
    obtain rfl := Operation.eq_of_asked_pair (hresolve _ hi)
    exact m.divide_of_zero hb
  · intro op hi
    have hlogic : asked (Operation.resolveLogic op i) = some asks := by
      cases op <;> exact hresolve _ hi
    obtain ⟨d, s, r, hargs, hd, rfl⟩ := Operation.exists_of_asked_logic hlogic
    exact ⟨d, s, r, hargs, hd, writes_logic hd op s⟩

/-- At one value the borrow makes the low half and the byte overflow and the signed result
just fits. The low half of `DPTR` wraps without a carry into the high half. -/
theorem computes_exactly_wrapped :
    let m : Machine := { Machine.initial with
      a := 0x7F, dptr := 0x12FF, psw := { Status.clear with carry := true } }
    let i : Instruction := ⟨"SUBB", ["A", "#0FFH"]⟩
    let j : Instruction := ⟨"inc", ["DPL"]⟩
    (∃ next trace, i.Names .subb ∧ m.attempt i = .ok (next, trace) ∧
      next.a.toNat = 0x7F ∧ next.psw.carry = true ∧ next.psw.auxiliary = true ∧
      next.psw.overflow = false) ∧
    ∃ next trace, j.Names .inc ∧ m.attempt j = .ok (next, trace) ∧
      (next.get .dpl).toNat = 0 ∧ Word.high next.dptr = 0x12 := by
  intro m i j
  constructor
  · have hi : i.Names .subb := Instruction.ofName?_eq_some_iff.mp (by decide +kernel)
    have hasks : asked (Operation.resolve i) = some (.subtract (.literal 0xFF)) := by
      decide +kernel
    obtain ⟨trace, hran⟩ := Step.exists_attempt_of_asked (Handler.handle_eq _) hasks m
    obtain ⟨-, -, hsub, -⟩ := computes_exactly hran
    obtain ⟨d, s, hargs, -, hvalue, hcarry, hauxiliary, hoverflow⟩ := hsub hi
    have hwords : i.arguments = ["A", "#0FFH"] := by decide +kernel
    obtain ⟨rfl, rfl⟩ : d = "A" ∧ s = "#0FFH" := by simpa using hargs.symm.trans hwords
    have hv : (BitVec.ofInt 8 (m.operand "#0FFH") : Byte) = 0xFF := by decide +kernel
    rw [hv] at hvalue hcarry hauxiliary hoverflow
    have hfits : FitsSigned 8 (m.a.toInt - (0xFF : Byte).toInt - m.psw.carry.toNat) :=
      ⟨by decide, by decide⟩
    exact ⟨_, trace, hi, hran, Int.ofNat.inj hvalue, hcarry.mpr (by decide),
      hauxiliary.mpr (by decide), Bool.eq_false_iff.mpr fun h => hoverflow.mp h hfits⟩
  · have hj : j.Names .inc := Instruction.ofName?_eq_some_iff.mp (by decide +kernel)
    have hasks : asked (Operation.resolve j) = some (.increment .dpl) := by
      decide +kernel
    obtain ⟨trace, hran⟩ := Step.exists_attempt_of_asked (Handler.handle_eq _) hasks m
    obtain ⟨-, -, -, hinc, -⟩ := computes_exactly hran
    obtain ⟨d, r, hargs, hd, hwrites⟩ := hinc hj
    have hwords : j.arguments = ["DPL"] := by decide +kernel
    obtain rfl : d = "DPL" := by simpa using hargs.symm.trans hwords
    obtain rfl : r = .dpl := Option.some.inj (hd.symm.trans (by decide +kernel))
    have hoperand : m.operand "DPL" = 0xFF := by decide +kernel
    have hvalue := hwrites.value nofun
    rw [hoperand] at hvalue
    have hhigh : Word.high m.dptr = 0x12 := by decide
    exact ⟨_, trace, hj, hran, hvalue, (hwrites.high rfl).trans hhigh⟩

end Machine

end Microlab.I8051
