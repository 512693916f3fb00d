import Microlab.Memory
import Microlab.Proofs.Word
import Mathlib.Algebra.Group.Nat.Defs
import Mathlib.Tactic.Common

/-!
# What memory holds

A memory of `2 ^ n` bytes looks at the low `n` bits of an address only. A read finds the
byte last written to an address with these bits, so a block that is no longer than the
memory is read back as it was stored, and the bytes at all other addresses stay as they
were.
-/

namespace Microlab.Memory

variable {n : Nat}

/-! ## Addresses -/

theorem setWidth_succ_eq_iff {a b : Address} :
    a.setWidth (n + 1) = b.setWidth (n + 1) ↔
      a.getLsbD n = b.getLsbD n ∧ a.setWidth n = b.setWidth n := by
  constructor
  · intro h
    constructor
    · have hbit := congrArg (BitVec.getLsbD · n) h
      simpa [BitVec.getLsbD_setWidth] using hbit
    · have hlow := congrArg (BitVec.setWidth n) h
      simpa using hlow
  · rintro ⟨hbit, hlow⟩
    rw [BitVec.setWidth_succ, BitVec.setWidth_succ, hbit, hlow]

/-- Addresses less than the memory's size apart are different places. -/
theorem setWidth_add_ne (hn : n ≤ 32) (a : Address) {i : Nat} (hi : 0 < i) (hlt : i < 2 ^ n) :
    (a + BitVec.ofNat 32 i).setWidth n ≠ a.setWidth n := by
  intro h
  rw [BitVec.setWidth_add _ _ hn, BitVec.add_right_eq_self] at h
  have hzero := congrArg BitVec.toNat h
  rw [BitVec.toNat_setWidth, BitVec.toNat_ofNat,
    Nat.mod_mod_of_dvd _ (Nat.pow_dvd_pow 2 hn), Nat.mod_eq_of_lt hlt] at hzero
  exact absurd hzero (Nat.ne_of_gt hi)

/-! ## Bytes -/

/-- A byte is read from the place it was last written to. -/
theorem read_write (m : Memory n) (a b : Address) (v : Byte) :
    (m.write a v).read b = if a.setWidth n = b.setWidth n then v else m.read b := by
  induction m with
  | cell c =>
      have hsame : a.setWidth 0 = b.setWidth 0 := BitVec.eq_of_zero_length rfl
      rw [if_pos hsame]
      rfl
  | @fork n low high ihlow ihhigh =>
      simp only [setWidth_succ_eq_iff]
      unfold write
      -- the top bit of each address chooses a half
      cases ha : a.getLsbD n <;> cases hb : b.getLsbD n <;>
        simp [read, hb, ihlow, ihhigh]

theorem read_write_of_eq {m : Memory n} {a b : Address} (v : Byte)
    (h : a.setWidth n = b.setWidth n) : (m.write a v).read b = v := by
  rw [read_write, if_pos h]

theorem read_write_of_ne {m : Memory n} {a b : Address} (v : Byte)
    (h : a.setWidth n ≠ b.setWidth n) : (m.write a v).read b = m.read b := by
  rw [read_write, if_neg h]

theorem read_congr (m : Memory n) {a b : Address} (h : a.setWidth n = b.setWidth n) :
    m.read a = m.read b := by
  induction m with
  | cell c => rfl
  | @fork n low high ihlow ihhigh =>
      obtain ⟨hbit, hlow⟩ := setWidth_succ_eq_iff.mp h
      unfold read
      rw [hbit, ihlow hlow, ihhigh hlow]

theorem write_congr (m : Memory n) {a b : Address} (h : a.setWidth n = b.setWidth n)
    (v : Byte) : m.write a v = m.write b v := by
  induction m with
  | cell c => rfl
  | @fork n low high ihlow ihhigh =>
      obtain ⟨hbit, hlow⟩ := setWidth_succ_eq_iff.mp h
      unfold write
      rw [hbit, ihlow hlow, ihhigh hlow]

/-! ## Blank memory -/

theorem read_blank (n : Nat) (a : Address) : (blank n).read a = 0 := by
  induction n with
  | zero => rfl
  | succ n ih =>
      show (if a.getLsbD n then (blank n).read a else (blank n).read a) = 0
      rw [ih, ite_self]

/-- No byte is forgotten: what is left is the memory of a new machine. -/
theorem clear_eq_blank (m : Memory n) : m.clear = blank n := by
  induction m with
  | cell c => rfl
  | @fork n low high ihlow ihhigh =>
      show fork low.clear high.clear = fork (blank n) (blank n)
      rw [ihlow, ihhigh]

/-! ## Blocks -/

theorem load_congr (m : Memory n) (hn : n ≤ 32) {a b : Address}
    (h : a.setWidth n = b.setWidth n) (bytes : List Byte) : m.load a bytes = m.load b bytes := by
  induction bytes generalizing m a b with
  | nil => rfl
  | cons v bytes ih =>
      have hnext : (a + 1).setWidth n = (b + 1).setWidth n := by
        rw [BitVec.setWidth_add _ _ hn, BitVec.setWidth_add _ _ hn, h]
      show (m.write a v).load (a + 1) bytes = (m.write b v).load (b + 1) bytes
      rw [write_congr m h v, ih _ hnext]

theorem add_ofNat_succ (a : Address) (i : Nat) :
    a + BitVec.ofNat 32 (i + 1) = a + 1 + BitVec.ofNat 32 i := by
  rw [Nat.add_comm, BitVec.ofNat_add, ← BitVec.add_assoc]
  rfl

theorem read_load_of_ne (m : Memory n) {a b : Address} {bytes : List Byte}
    (h : ∀ i < bytes.length, (a + BitVec.ofNat 32 i).setWidth n ≠ b.setWidth n) :
    (m.load a bytes).read b = m.read b := by
  induction bytes generalizing m a with
  | nil => rfl
  | cons v bytes ih =>
      have hfirst : a.setWidth n ≠ b.setWidth n := by
        have := h 0 (by simp)
        rwa [BitVec.add_zero] at this
      have hrest : ∀ i < bytes.length,
          (a + 1 + BitVec.ofNat 32 i).setWidth n ≠ b.setWidth n := by
        intro i hi
        rw [← add_ofNat_succ]
        exact h (i + 1) (by simpa using hi)
      show ((m.write a v).load (a + 1) bytes).read b = _
      rw [ih _ hrest, read_write_of_ne v hfirst]

/-- A block that does not wrap onto itself is read back byte by byte. -/
theorem read_load (m : Memory n) (hn : n ≤ 32) (a : Address) {bytes : List Byte}
    (hsize : bytes.length ≤ 2 ^ n) {i : Nat} (hi : i < bytes.length) :
    (m.load a bytes).read (a + BitVec.ofNat 32 i) = bytes[i] := by
  induction bytes generalizing m a i with
  | nil => simp at hi
  | cons v bytes ih =>
      rw [List.length_cons] at hsize hi
      show ((m.write a v).load (a + 1) bytes).read _ = _
      cases i with
      | zero =>
          -- the bytes behind the first one do not reach it again
          have hlater : ∀ k < bytes.length,
              (a + 1 + BitVec.ofNat 32 k).setWidth n ≠ a.setWidth n := by
            intro k hk
            rw [← add_ofNat_succ]
            exact setWidth_add_ne hn a (Nat.succ_pos k) (by omega)
          rw [BitVec.add_zero, read_load_of_ne _ hlater, read_write_of_eq v rfl]
          rfl
      | succ k =>
          rw [add_ofNat_succ, ih _ _ (by omega) (by omega)]
          rfl

/-! ## Words -/

/-- The two bytes of a word are different places. -/
theorem setWidth_add_one_ne (hpos : 0 < n) (hn : n ≤ 32) (a : Address) :
    (a + 1).setWidth n ≠ a.setWidth n :=
  setWidth_add_ne hn a Nat.one_pos (Nat.one_lt_two_pow (Nat.ne_of_gt hpos))

theorem readWord_writeWord (m : Memory n) (hpos : 0 < n) (hn : n ≤ 32) (a : Address)
    (w : Word) : (m.writeWord a w).readWord a = w := by
  unfold readWord writeWord
  rw [read_write_of_eq _ rfl, read_write_of_ne _ (setWidth_add_one_ne hpos hn a),
    read_write_of_eq _ rfl, Word.ofHalves_high_low]

theorem read_writeWord_of_ne (m : Memory n) {a b : Address} (w : Word)
    (hlow : a.setWidth n ≠ b.setWidth n) (hhigh : (a + 1).setWidth n ≠ b.setWidth n) :
    (m.writeWord a w).read b = m.read b := by
  unfold writeWord
  rw [read_write_of_ne _ hhigh, read_write_of_ne _ hlow]

theorem readWord_eq_of_read_eq {m m' : Memory n} {a : Address} (hlow : m.read a = m'.read a)
    (hhigh : m.read (a + 1) = m'.read (a + 1)) : m.readWord a = m'.readWord a := by
  unfold readWord
  rw [hlow, hhigh]

end Microlab.Memory
