import Microlab.I8086.Flags
import Microlab.Proofs.WholeNumber
import Mathlib.Algebra.Ring.Parity
import Mathlib.Data.Finset.Card
import Mathlib.Data.Finset.Range

/-!
# Flags of the 8086

Carry, auxiliary carry and overflow say of a sum or difference of whole numbers where it
leaves the range that the bits can hold. The other flags describe the bits that are left of
it.
-/

namespace Microlab.I8086

/-- How many of the eight low bits are set. -/
def lowOnes (n : Nat) : Nat := Finset.card {k ∈ Finset.range 8 | n.testBit k = true}

theorem lowByteOnes_eq (n : Nat) : lowByteOnes n = lowOnes n := by
  unfold lowByteOnes
  rw [List.countP_eq_length_filter]
  show _ = ((List.range 8).filter fun k => decide (n.testBit k = true)).length
  simp

namespace Flags

/-- Zero, sign and even parity of what so many bits keep of a number. -/
structure Describes (w : Nat) (before : Flags) (v : Int) (after : Flags) : Prop where
  zero : after.zero = true ↔ reduced w v = 0
  sign : after.sign = true ↔ 2 ^ (w - 1) ≤ reduced w v
  parity : after.parity = true ↔ Even (lowOnes (reduced w v))
  trap : after.trap = before.trap
  interrupt : after.interrupt = before.interrupt
  direction : after.direction = before.direction

structure OfSum {w : Nat} (before : Flags) (a b : BitVec w) (after : Flags) : Prop
    extends Describes w before (a.toNat + b.toNat) after where
  carry : after.carry = true ↔ 2 ^ w ≤ a.toNat + b.toNat
  auxiliary : after.auxiliary = true ↔ 16 ≤ a.toNat % 16 + b.toNat % 16
  overflow : after.overflow = true ↔ ¬ FitsSigned w (a.toInt + b.toInt)

/-- The carries are borrows. -/
structure OfDifference {w : Nat} (before : Flags) (a b : BitVec w) (after : Flags) : Prop
    extends Describes w before (a.toNat - b.toNat) after where
  carry : after.carry = true ↔ a.toNat < b.toNat
  auxiliary : after.auxiliary = true ↔ a.toNat % 16 < b.toNat % 16
  overflow : after.overflow = true ↔ ¬ FitsSigned w (a.toInt - b.toInt)

/-- Logic carries nothing, and leaves the auxiliary carry alone. -/
structure OfLogic (w : Nat) (before : Flags) (v : Int) (after : Flags) : Prop
    extends Describes w before v after where
  carry : after.carry = false
  auxiliary : after.auxiliary = before.auxiliary
  overflow : after.overflow = false

variable {w : Nat}

theorem describes_describe (f : Flags) (v : Int) (carry auxiliary overflow : Bool) :
    Describes w f v { f.describe (BitVec.ofInt w v) with
      carry := carry, auxiliary := auxiliary, overflow := overflow } where
  zero := by
    unfold describe
    rw [decide_eq_true_iff, ← BitVec.toNat_inj, toNat_ofInt]
    rfl
  sign := by
    unfold describe
    rw [BitVec.msb_eq_decide, decide_eq_true_iff, toNat_ofInt]
  parity := by
    unfold describe
    rw [decide_eq_true_iff, toNat_ofInt, lowByteOnes_eq, Nat.even_iff]
  trap := rfl
  interrupt := rfl
  direction := rfl

end Flags

namespace Sum

variable {w : Nat} (a b : BitVec w)

theorem carry_ofAdd_iff : (ofAdd a b).carry = true ↔ 2 ^ w ≤ a.toNat + b.toNat := by
  have ha := a.isLt
  have hb := b.isLt
  have hpow : 2 ^ (w + 1) = 2 * 2 ^ w := Nat.pow_succ'
  unfold ofAdd
  rw [BitVec.msb_eq_decide, decide_eq_true_iff, BitVec.toNat_add,
    BitVec.toNat_setWidth_of_le (Nat.le_succ w), BitVec.toNat_setWidth_of_le (Nat.le_succ w),
    Nat.mod_eq_of_lt (by omega), Nat.add_sub_cancel]

theorem carry_ofSub_iff : (ofSub a b).carry = true ↔ a.toNat < b.toNat := by
  have ha := a.isLt
  have hb := b.isLt
  have hpow : 2 ^ (w + 1) = 2 * 2 ^ w := Nat.pow_succ'
  unfold ofSub
  rw [BitVec.msb_eq_decide, decide_eq_true_iff, BitVec.toNat_sub,
    BitVec.toNat_setWidth_of_le (Nat.le_succ w), BitVec.toNat_setWidth_of_le (Nat.le_succ w),
    Nat.add_sub_cancel]
  have hcases := mod_cases (show 2 ^ (w + 1) - b.toNat + a.toNat < 2 * 2 ^ (w + 1) by omega)
  omega

/-- The fifth bit of a sum is that of the operands unless there is a carry into it. -/
theorem auxiliary_ofAdd_iff (hw : 4 < w) :
    (ofAdd a b).auxiliary = true ↔ 16 ≤ a.toNat % 16 + b.toNat % 16 := by
  have hbit : (ofAdd a b).auxiliary = BitVec.carry 4 a b false := by
    unfold ofAdd
    rw [BitVec.getLsbD_xor, BitVec.getLsbD_xor, BitVec.getLsbD_add hw]
    cases a.getLsbD 4 <;> cases b.getLsbD 4 <;> simp
  rw [hbit, BitVec.carry, decide_eq_true_iff]
  rfl

/-- A borrow is a carry of the sum that gives the first operand back. -/
theorem auxiliary_ofSub_iff (hw : 4 < w) :
    (ofSub a b).auxiliary = true ↔ a.toNat % 16 < b.toNat % 16 := by
  have hsame : (ofAdd (a - b) b).auxiliary = (ofSub a b).auxiliary := by
    unfold ofAdd ofSub
    dsimp only
    rw [BitVec.sub_add_cancel, BitVec.xor_comm, BitVec.xor_comm (a - b) b, ← BitVec.xor_assoc]
  have hback : ((a - b).toNat + b.toNat) % 2 ^ w = a.toNat := by
    rw [← BitVec.toNat_add, BitVec.sub_add_cancel]
  have hcases := mod_cases (show (a - b).toNat + b.toNat < 2 * 2 ^ w by omega)
  obtain ⟨q, hq⟩ : 2 ^ 4 ∣ 2 ^ w := Nat.pow_dvd_pow 2 (Nat.le_of_lt hw)
  rw [← hsame, auxiliary_ofAdd_iff (a - b) b hw]
  omega

theorem overflow_ofAdd_iff (hw : 0 < w) :
    (ofAdd a b).overflow = true ↔ ¬ FitsSigned w (a.toInt + b.toInt) := by
  have h := overflow_sum_iff (r := a + b) (c := 0) hw (Nat.zero_le 1) (BitVec.toNat_add a b).symm
  rwa [Int.natCast_zero, Int.add_zero] at h

theorem overflow_ofSub_iff (hw : 0 < w) :
    (ofSub a b).overflow = true ↔ ¬ FitsSigned w (a.toInt - b.toInt) := by
  have hback : ((a - b).toNat + b.toNat + 0) % 2 ^ w = a.toNat := by
    rw [Nat.add_zero, ← BitVec.toNat_add, BitVec.sub_add_cancel]
  have h := overflow_difference_iff (c := 0) hw (Nat.zero_le 1) hback
  rwa [Int.natCast_zero, Int.sub_zero] at h

end Sum

namespace Arithmetic

variable {w : Nat}

/-- The result as a whole number. -/
def result (op : Arithmetic) (a b : Nat) : Int :=
  match op with
  | add => a + b
  | sub => a - b
  | and => (a &&& b : Nat)
  | or => (a ||| b : Nat)
  | xor => (a ^^^ b : Nat)

/-- The flags that the operation leaves behind. -/
def Sets (op : Arithmetic) (before : Flags) (a b : BitVec w) (after : Flags) : Prop :=
  match op with
  | add => before.OfSum a b after
  | sub => before.OfDifference a b after
  | and | or | xor => before.OfLogic w (op.result a.toNat b.toNat) after

variable (op : Arithmetic) (f : Flags) (a b : BitVec w)

/-- Bits are computed with as the whole numbers are, up to what the bits keep. -/
theorem eval_fst : (op.eval f a b).1 = BitVec.ofInt w (op.result a.toNat b.toNat) := by
  cases op with
  | add => exact (ofInt_sum a b).symm
  | sub => exact (ofInt_difference a b).symm
  | and =>
      rw [result, ← BitVec.toNat_and, ofInt_toNat]
      rfl
  | or =>
      rw [result, ← BitVec.toNat_or, ofInt_toNat]
      rfl
  | xor =>
      rw [result, ← BitVec.toNat_xor, ofInt_toNat]
      rfl

theorem eval_snd (hw : 4 < w) : op.Sets f a b (op.eval f a b).2 := by
  have hvalue := op.eval_fst f a b
  have hdescribes := f.describes_describe (w := w) (op.result a.toNat b.toNat)
  rw [← hvalue] at hdescribes
  cases op with
  | add =>
      exact ⟨hdescribes _ _ _, Sum.carry_ofAdd_iff a b, Sum.auxiliary_ofAdd_iff a b hw,
        Sum.overflow_ofAdd_iff a b (by omega)⟩
  | sub =>
      exact ⟨hdescribes _ _ _, Sum.carry_ofSub_iff a b, Sum.auxiliary_ofSub_iff a b hw,
        Sum.overflow_ofSub_iff a b (by omega)⟩
  | and | or | xor => exact ⟨hdescribes false f.auxiliary false, rfl, rfl, rfl⟩

end Arithmetic

end Microlab.I8086
