import Microlab.I8051.Status
import Microlab.Proofs.WholeNumber

/-!
# Sums of bytes

The value and the carry of a sum or difference are together exact: a carry stands for the
256 that the value lacks, and a borrow for the 256 that it has too much. The auxiliary carry
says the same of the low halves, and overflow that the signed result is no signed byte.
-/

namespace Microlab.I8051.Sum

theorem toNat_setWidth_ofBool (carry : Bool) {w : Nat} (hw : 0 < w) :
    ((BitVec.ofBool carry).setWidth w).toNat = carry.toNat := by
  have hlt : carry.toNat < 2 ^ w :=
    Nat.lt_of_le_of_lt (Bool.toNat_le carry) (Nat.one_lt_two_pow (Nat.ne_of_gt hw))
  rw [BitVec.toNat_setWidth, BitVec.toNat_ofBool, Nat.mod_eq_of_lt hlt]

theorem ofAdd_exact (a b : Byte) (carry : Bool) :
    (ofAdd a b carry).value.toNat + 256 * (ofAdd a b carry).carry.toNat
      = a.toNat + b.toNat + carry.toNat := by
  have ha := a.isLt
  have hb := b.isLt
  have hc := Bool.toNat_le carry
  have hvalue : (ofAdd a b carry).value.toNat = (a.toNat + b.toNat + carry.toNat) % 256 := by
    simp only [ofAdd, BitVec.toNat_add, toNat_setWidth_ofBool carry (show 0 < 8 by decide)]
    omega
  have hcarry : (ofAdd a b carry).carry = decide (256 ≤ a.toNat + b.toNat + carry.toNat) := by
    simp only [ofAdd, BitVec.msb_eq_decide, BitVec.toNat_add, BitVec.toNat_setWidth,
      toNat_setWidth_ofBool carry (show 0 < 9 by decide)]
    congr 1
    apply propext
    omega
  rw [hvalue, hcarry]
  by_cases h : 256 ≤ a.toNat + b.toNat + carry.toNat
  · simp only [h, decide_true, Bool.toNat_true]
    omega
  · simp only [h, decide_false, Bool.toNat_false]
    omega

theorem ofSub_exact (a b : Byte) (carry : Bool) :
    (ofSub a b carry).value.toNat + b.toNat + carry.toNat
      = a.toNat + 256 * (ofSub a b carry).carry.toNat := by
  have ha := a.isLt
  have hb := b.isLt
  have hc := Bool.toNat_le carry
  have hvalue : (ofSub a b carry).value.toNat
      = (a.toNat + 512 - (b.toNat + carry.toNat)) % 256 := by
    simp only [ofSub, BitVec.toNat_sub, toNat_setWidth_ofBool carry (show 0 < 8 by decide)]
    omega
  have hcarry : (ofSub a b carry).carry = decide (a.toNat < b.toNat + carry.toNat) := by
    simp only [ofSub, BitVec.msb_eq_decide, BitVec.toNat_sub, BitVec.toNat_setWidth,
      toNat_setWidth_ofBool carry (show 0 < 9 by decide)]
    congr 1
    apply propext
    omega
  rw [hvalue, hcarry]
  by_cases h : a.toNat < b.toNat + carry.toNat
  · simp only [h, decide_true, Bool.toNat_true]
    omega
  · simp only [h, decide_false, Bool.toNat_false]
    omega

/-! ## The flags of a sum or difference -/

variable (a b : Byte) (carry : Bool)

theorem carry_ofAdd_iff :
    (ofAdd a b carry).carry = true ↔ 256 ≤ a.toNat + b.toNat + carry.toNat := by
  have hexact := ofAdd_exact a b carry
  have hvalue := (ofAdd a b carry).value.isLt
  have hle := Bool.toNat_le (ofAdd a b carry).carry
  rw [← Bool.toNat_eq_one]
  omega

theorem carry_ofSub_iff :
    (ofSub a b carry).carry = true ↔ a.toNat < b.toNat + carry.toNat := by
  have hexact := ofSub_exact a b carry
  have hvalue := (ofSub a b carry).value.isLt
  have ha := a.isLt
  have hle := Bool.toNat_le (ofSub a b carry).carry
  rw [← Bool.toNat_eq_one]
  omega

theorem toNat_setWidth_low (x : Byte) : ((x.setWidth 4).setWidth 5).toNat = x.toNat % 16 := by
  rw [BitVec.toNat_setWidth_of_le (by decide), BitVec.toNat_setWidth]

theorem auxiliary_ofAdd_iff :
    (ofAdd a b carry).auxiliary = true ↔
      16 ≤ a.toNat % 16 + b.toNat % 16 + carry.toNat := by
  have hc := Bool.toNat_le carry
  simp only [ofAdd, BitVec.msb_eq_decide, decide_eq_true_iff, BitVec.toNat_add,
    toNat_setWidth_low, toNat_setWidth_ofBool carry (show 0 < 5 by decide)]
  omega

theorem auxiliary_ofSub_iff :
    (ofSub a b carry).auxiliary = true ↔
      a.toNat % 16 < b.toNat % 16 + carry.toNat := by
  have hc := Bool.toNat_le carry
  simp only [ofSub, BitVec.msb_eq_decide, decide_eq_true_iff, BitVec.toNat_sub,
    toNat_setWidth_low, toNat_setWidth_ofBool carry (show 0 < 5 by decide)]
  omega

theorem overflow_ofAdd_iff :
    (ofAdd a b carry).overflow = true ↔
      ¬ FitsSigned 8 (a.toInt + b.toInt + carry.toNat) := by
  have hexact := ofAdd_exact a b carry
  have hvalue := (ofAdd a b carry).value.isLt
  have hwrap : (a.toNat + b.toNat + carry.toNat) % 2 ^ 8 = (ofAdd a b carry).value.toNat := by
    omega
  exact overflow_sum_iff (by decide) (Bool.toNat_le carry) hwrap

theorem overflow_ofSub_iff :
    (ofSub a b carry).overflow = true ↔
      ¬ FitsSigned 8 (a.toInt - b.toInt - carry.toNat) := by
  have hexact := ofSub_exact a b carry
  have ha := a.isLt
  have hwrap : ((ofSub a b carry).value.toNat + b.toNat + carry.toNat) % 2 ^ 8 = a.toNat := by
    omega
  exact overflow_difference_iff (by decide) (Bool.toNat_le carry) hwrap

end Microlab.I8051.Sum
