import Microlab.Word
import Mathlib.Algebra.Group.Nat.Defs
import Mathlib.Tactic.Common

/-!
# Words, their halves and their widths

A word and the two bytes it is split into say the same, in either byte order. A byte or a
word may be kept in thirty-two bits, and is what a mask leaves of them.
-/

namespace Microlab

/-- A bit is tested by masking all others out. -/
theorem and_twoPow_ne_zero_iff {n k : Nat} (hk : k < n) (v : BitVec n) :
    v &&& BitVec.twoPow n k ≠ 0 ↔ v.getLsbD k = true := by
  rw [BitVec.and_twoPow]
  cases v.getLsbD k with
  | false => simp
  | true =>
      have hpow : BitVec.twoPow n k ≠ 0 := by
        intro h
        have hbit := congrArg (fun v : BitVec n => v.getLsbD k) h
        simp [hk] at hbit
      simpa using hpow

theorem setWidth_sub {n k : Nat} (h : k ≤ n) (a b : BitVec n) :
    (a - b).setWidth k = a.setWidth k - b.setWidth k := by
  have hback : (a - b).setWidth k + b.setWidth k = a.setWidth k := by
    rw [← BitVec.setWidth_add _ _ h, BitVec.sub_add_cancel]
  exact BitVec.eq_sub_iff_add_eq.mpr hback

namespace Width

variable {w : Width}

theorem bits_le (w : Width) : w.bits ≤ 16 := by cases w <;> decide

theorem toNat_mask (w : Width) : w.mask.toNat = 2 ^ w.bits - 1 := by cases w <;> rfl

theorem and_mask (w : Width) (v : BitVec 32) :
    v &&& w.mask = (v.setWidth w.bits).setWidth 32 := by
  have hle := w.bits_le
  apply BitVec.eq_of_toNat_eq
  rw [BitVec.toNat_and, toNat_mask, Nat.and_two_pow_sub_one_eq_mod,
    BitVec.toNat_setWidth_of_le (by omega), BitVec.toNat_setWidth]

theorem narrow_widened (v : BitVec w.bits) : (v.setWidth 32).setWidth w.bits = v := by
  have hle := w.bits_le
  rw [BitVec.setWidth_setWidth_of_le _ (by omega), BitVec.setWidth_eq]

theorem toNat_widened (v : BitVec w.bits) : (v.setWidth 32).toNat = v.toNat := by
  have hle := w.bits_le
  exact BitVec.toNat_setWidth_of_le (by omega)

theorem widened_word (v : BitVec w.bits) : (v.setWidth 16).setWidth 32 = v.setWidth 32 := by
  have hle := w.bits_le
  apply BitVec.eq_of_toNat_eq
  rw [toNat_widened, BitVec.toNat_setWidth_of_le (by decide), BitVec.toNat_setWidth_of_le hle]

theorem widened_and_mask (v : BitVec w.bits) : v.setWidth 32 &&& w.mask = v.setWidth 32 := by
  rw [w.and_mask, narrow_widened]

theorem widened_and_sign_iff (v : BitVec w.bits) :
    v.setWidth 32 &&& w.sign ≠ 0 ↔ v.msb = true := by
  have hsign : w.sign = BitVec.twoPow 32 (w.bits - 1) := by cases w <;> rfl
  have hbits : 0 < w.bits := by cases w <;> decide
  have hle := w.bits_le
  rw [hsign, and_twoPow_ne_zero_iff (by omega), BitVec.msb_eq_getLsbD_last,
    BitVec.getLsbD_setWidth]
  simp
  omega

theorem widened_and_sixteen_iff (v : BitVec w.bits) :
    v.setWidth 32 &&& 0x10 ≠ 0 ↔ v.getLsbD 4 = true := by
  have hbit : (0x10 : BitVec 32) = BitVec.twoPow 32 4 := rfl
  rw [hbit, and_twoPow_ne_zero_iff (by decide), BitVec.getLsbD_setWidth]
  simp

end Width

namespace Word

theorem toNat_ofHalves (high low : Byte) :
    (ofHalves high low).toNat = high.toNat * 256 + low.toNat := by
  unfold ofHalves
  rw [BitVec.toNat_append, ← Nat.shiftLeft_add_eq_or_of_lt low.isLt, Nat.shiftLeft_eq]

theorem toNat_low (w : Word) : w.low.toNat = w.toNat % 256 := by
  simp [low]

theorem toNat_high (w : Word) : w.high.toNat = w.toNat / 256 := by
  unfold high
  rw [BitVec.extractLsb'_toNat, Nat.shiftRight_eq_div_pow]
  omega

@[simp]
theorem ofHalves_high_low (w : Word) : ofHalves w.high w.low = w := by
  apply BitVec.eq_of_toNat_eq
  rw [toNat_ofHalves, toNat_low, toNat_high]
  omega

@[simp]
theorem high_ofHalves (high low : Byte) : (ofHalves high low).high = high := by
  apply BitVec.eq_of_toNat_eq
  rw [toNat_high, toNat_ofHalves]
  omega

@[simp]
theorem low_ofHalves (high low : Byte) : (ofHalves high low).low = low := by
  apply BitVec.eq_of_toNat_eq
  rw [toNat_low, toNat_ofHalves]
  omega

@[simp]
theorem low_setWidth (b : Byte) : low (b.setWidth 16) = b := by
  apply BitVec.eq_of_toNat_eq
  rw [toNat_low, BitVec.toNat_setWidth]
  omega

theorem setWidth_extended (w : Word) : (w.setWidth 32).setWidth 16 = w := by
  rw [BitVec.setWidth_setWidth_of_le w (by decide), BitVec.setWidth_eq]

theorem truncate_extended (w : Word) : (w.setWidth 32).setWidth 8 = low w :=
  BitVec.setWidth_setWidth_of_le w (by decide)

theorem toNat_extended (w : Word) : (w.setWidth 32).toNat = w.toNat :=
  BitVec.toNat_setWidth_of_le (by decide)

theorem low_truncated (v : BitVec 32) : low (v.setWidth 16) = v.setWidth 8 :=
  BitVec.setWidth_setWidth_of_le v (by decide)

theorem high_truncated (v : BitVec 32) : high (v.setWidth 16) = v.extractLsb' 8 8 := by
  apply BitVec.eq_of_toNat_eq
  rw [toNat_high, BitVec.toNat_setWidth, BitVec.extractLsb'_toNat, Nat.shiftRight_eq_div_pow]
  omega

/-- The low half of a number modulo the word is the number modulo the byte. -/
theorem low_ofInt (v : Int) : low (BitVec.ofInt 16 v) = BitVec.ofInt 8 v := by
  apply BitVec.eq_of_toNat_eq
  rw [toNat_low, BitVec.toNat_ofInt, BitVec.toNat_ofInt]
  omega

end Word

namespace ByteOrder

theorem exists_split (order : ByteOrder) (w : Word) :
    ∃ a b, order.split w = [a, b] ∧ order.join a b = w := by
  cases order with
  | little => exact ⟨w.low, w.high, rfl, Word.ofHalves_high_low w⟩
  | big => exact ⟨w.high, w.low, rfl, Word.ofHalves_high_low w⟩

theorem split_join (order : ByteOrder) (a b : Byte) : order.split (order.join a b) = [a, b] := by
  cases order with
  | little => simp [split, join]
  | big => simp [split, join]

end ByteOrder

end Microlab
