import Microlab.Word
import Mathlib.Algebra.Group.Int.Defs
import Mathlib.Algebra.Group.Nat.Defs
import Mathlib.Tactic.Common

/-!
# Whole numbers in bits

So many bits hold a whole number up to multiples of a power of two. Both processors find
overflow by comparing signs: a sum overflows if its sign is that of neither operand, and a
difference if the operands' signs differ and its own is not that of the first. This says
exactly that the sum or difference of the signed numbers, with the carry that goes in, is
none that the bits can hold.
-/

namespace Microlab

/-- What so many bits keep of a number. -/
def reduced (w : Nat) (v : Int) : Nat := (v % 2 ^ w).toNat

/-- The number is one that so many bits with a sign can hold. -/
def FitsSigned (w : Nat) (v : Int) : Prop := -2 ^ (w - 1) ≤ v ∧ v < 2 ^ (w - 1)

variable {w : Nat}

theorem natCast_two_pow (hw : 0 < w) : ((2 ^ w : Nat) : Int) = 2 * 2 ^ (w - 1) := by
  rw [Int.natCast_pow, Int.mul_comm]
  show (2 : Int) ^ w = 2 ^ (w - 1) * 2
  rw [← Int.pow_succ, Nat.succ_eq_add_one, Nat.sub_one_add_one (Nat.ne_of_gt hw)]

theorem toNat_ofInt (w : Nat) (v : Int) : (BitVec.ofInt w v).toNat = reduced w v := by
  rw [BitVec.toNat_ofInt, Int.natCast_pow]
  rfl

/-- Fewer bits keep the same of a number as of what more bits have kept. -/
theorem setWidth_ofInt {n : Nat} (h : n ≤ w) (v : Int) :
    (BitVec.ofInt w v).setWidth n = BitVec.ofInt n v := by
  apply BitVec.eq_of_toNat_eq
  have hdvd : ((2 ^ n : Nat) : Int) ∣ (2 ^ w : Nat) :=
    Int.natCast_dvd_natCast.mpr (Nat.pow_dvd_pow 2 h)
  have hpos : (0 : Int) < (2 ^ w : Nat) := Int.natCast_pos.mpr (Nat.two_pow_pos w)
  rw [BitVec.toNat_setWidth, BitVec.toNat_ofInt, BitVec.toNat_ofInt,
    ← Int.emod_emod_of_dvd v hdvd,
    Int.toNat_emod (Int.emod_nonneg v (Int.ne_of_gt hpos)) (Int.natCast_nonneg _)]
  rfl

theorem ofInt_toNat (a : BitVec w) : BitVec.ofInt w a.toNat = a := by
  rw [BitVec.ofInt_natCast, BitVec.ofNat_toNat, BitVec.setWidth_eq]

theorem ofInt_sum (a b : BitVec w) : BitVec.ofInt w (a.toNat + b.toNat) = a + b := by
  rw [BitVec.ofInt_add, ofInt_toNat, ofInt_toNat]

theorem ofInt_difference (a b : BitVec w) : BitVec.ofInt w (a.toNat - b.toNat) = a - b := by
  have h := BitVec.ofInt_add (n := w) ((a.toNat : Int) - b.toNat) b.toNat
  rw [Int.sub_add_cancel, ofInt_toNat, ofInt_toNat] at h
  exact BitVec.eq_sub_iff_add_eq.mpr h.symm

/-! ## Signs -/

/-- A number with a sign is the plain number, or that less the `2 ^ w` which its sign bit
takes away. -/
theorem toInt_cases (hw : 0 < w) (x : BitVec w) :
    x.msb = false ∧ x.toInt = x.toNat ∧ (x.toNat : Int) < 2 ^ (w - 1) ∨
      x.msb = true ∧ x.toInt = x.toNat - 2 * 2 ^ (w - 1) ∧ (2 : Int) ^ (w - 1) ≤ x.toNat ∧
        (x.toNat : Int) < 2 * 2 ^ (w - 1) := by
  have hlt := x.isLt
  have hcast : ((2 ^ (w - 1) : Nat) : Int) = 2 ^ (w - 1) := Int.natCast_pow 2 (w - 1)
  have hpow := natCast_two_pow hw
  rw [BitVec.toInt_eq_msb_cond, BitVec.msb_eq_decide]
  by_cases h : 2 ^ (w - 1) ≤ x.toNat
  · right
    simp only [h, decide_true, if_true, hpow, true_and]
    omega
  · left
    simp only [h, decide_false, Bool.false_eq_true, if_false, true_and]
    omega

/-- A number that wraps at most once. -/
theorem mod_cases {n size : Nat} (h : n < 2 * size) : n = n % size ∨ n = n % size + size := by
  by_cases hlt : n < size
  · exact Or.inl (Nat.mod_eq_of_lt hlt).symm
  · right
    rw [Nat.mod_eq_sub_mod (Nat.le_of_not_lt hlt), Nat.mod_eq_of_lt (by omega)]
    omega

section

variable {x y z : BitVec w} {c : Nat} (hw : 0 < w) (hc : c ≤ 1)
  (hsum : (x.toNat + y.toNat + c) % 2 ^ w = z.toNat)

include hw hc hsum

theorem wraps_once :
    (x.toNat : Int) + y.toNat + c = z.toNat ∨
      (x.toNat : Int) + y.toNat + c = z.toNat + 2 * 2 ^ (w - 1) := by
  have hx := x.isLt
  have hy := y.isLt
  rw [← natCast_two_pow hw, ← hsum]
  have hcases := mod_cases (show x.toNat + y.toNat + c < 2 * 2 ^ w by omega)
  omega

/-- A sum whose sign is that of neither operand is out of range, and so is the difference
that gives the first operand back. -/
theorem overflow_iff :
    (((x ^^^ z) &&& (y ^^^ z)).msb = true ↔ ¬ FitsSigned w (x.toInt + y.toInt + c)) ∧
      (((x ^^^ z) &&& (y ^^^ z)).msb = true ↔ ¬ FitsSigned w (z.toInt - y.toInt - c)) := by
  have hwrap := wraps_once hw hc hsum
  rw [BitVec.msb_and, BitVec.msb_xor, BitVec.msb_xor]
  unfold FitsSigned
  -- the signs decide whether the numbers wrap, and then everything is linear
  obtain ⟨hsx, htx, hnx⟩ | ⟨hsx, htx, hnx, hlx⟩ := toInt_cases hw x <;>
  obtain ⟨hsy, hty, hny⟩ | ⟨hsy, hty, hny, hly⟩ := toInt_cases hw y <;>
  obtain ⟨hsz, htz, hnz⟩ | ⟨hsz, htz, hnz, hlz⟩ := toInt_cases hw z <;>
  rw [hsx, hsy, hsz, htx, hty, htz] <;> simp <;> omega

end

variable {a b r : BitVec w} {c : Nat}

theorem overflow_sum_iff (hw : 0 < w) (hc : c ≤ 1)
    (hr : (a.toNat + b.toNat + c) % 2 ^ w = r.toNat) :
    ((a ^^^ r) &&& (b ^^^ r)).msb = true ↔ ¬ FitsSigned w (a.toInt + b.toInt + c) :=
  (overflow_iff hw hc hr).1

theorem overflow_difference_iff (hw : 0 < w) (hc : c ≤ 1)
    (hr : (r.toNat + b.toNat + c) % 2 ^ w = a.toNat) :
    ((a ^^^ b) &&& (a ^^^ r)).msb = true ↔ ¬ FitsSigned w (a.toInt - b.toInt - c) := by
  rw [BitVec.and_comm, BitVec.xor_comm a r, BitVec.xor_comm a b]
  exact (overflow_iff hw hc hr).2

end Microlab
