import Microlab.Image
import Mathlib.Algebra.Group.Nat.Defs
import Mathlib.Tactic.Common

/-!
# Windows of an image

An image that ends below the top of the address space has its end there as a plain number.
Its windows are then the parts of its bytes between plain offsets. The end of an image whose
last byte is the last of the space wraps to zero, and such an image has no windows at all.
-/

namespace Microlab.Image

variable {base : Address} {file : List Byte}

/-- All of a file is mapped unless something is skipped or left out. -/
theorem load_all (file : List Byte) (base : Address) : load file base 0 none = .ok ⟨base, file⟩ :=
  rfl

/-- A part that lies in the file is mapped. -/
theorem load_part {skip length : Nat} (h : skip + length ≤ file.length) :
    load file base skip (some length) = .ok ⟨base, (file.drop skip).take length⟩ := by
  have hskip : ¬ file.length < skip := by omega
  have hlength : ¬ (file.drop skip).length < length := by
    rw [List.length_drop]
    omega
  unfold load
  rw [if_neg hskip]
  exact if_neg hlength

section

variable {bytes : List Byte} (hspace : base.toNat + bytes.length < 2 ^ 32)

include hspace

theorem toNat_stop : (stop ⟨base, bytes⟩).toNat = base.toNat + bytes.length := by
  show (base + BitVec.ofNat 32 bytes.length).toNat = _
  rw [BitVec.toNat_add, BitVec.toNat_ofNat]
  omega

theorem contains_iff {address : Address} :
    contains ⟨base, bytes⟩ address = true ↔
      base.toNat ≤ address.toNat ∧ address.toNat < base.toNat + bytes.length := by
  unfold contains
  rw [decide_eq_true_eq, BitVec.le_def, BitVec.lt_def, toNat_stop hspace]

/-- A window inside the image has the bytes between its ends. A last address past the end
of the image counts as the end. -/
theorem window?_eq {first last : Address} {start stop : Nat}
    (hfirst : first.toNat = base.toNat + start)
    (hlast : min last.toNat (base.toNat + bytes.length) = base.toNat + stop)
    (hle : start ≤ stop) (hstart : start < bytes.length) :
    window? ⟨base, bytes⟩ first last = some ((bytes.take stop).drop start) := by
  have hinside : contains ⟨base, bytes⟩ first = true := (contains_iff hspace).mpr (by omega)
  have horder : ¬ last < first := by
    rw [BitVec.lt_def]
    omega
  have hbase := base.isLt
  have hend : ((if last ≤ Image.stop ⟨base, bytes⟩ then last else Image.stop ⟨base, bytes⟩)
      - base).toNat = stop := by
    have hstop := toNat_stop hspace
    split
    · next hbelow =>
      rw [BitVec.le_def] at hbelow
      rw [BitVec.toNat_sub]
      omega
    · next habove =>
      rw [BitVec.le_def] at habove
      rw [BitVec.toNat_sub]
      omega
  have hbegin : (first - base).toNat = start := by
    rw [BitVec.toNat_sub]
    omega
  unfold window?
  rw [if_neg (by simp [horder, hinside])]
  dsimp only
  rw [hend, hbegin]

/-- From its first address to any at or past its end, an image that is not empty is its own
window. -/
theorem window?_all {last : Address} (hpos : 0 < bytes.length)
    (hlast : base.toNat + bytes.length ≤ last.toNat) :
    window? ⟨base, bytes⟩ base last = some bytes := by
  rw [window?_eq hspace (Nat.add_zero _).symm (Nat.min_eq_right hlast) (Nat.zero_le _) hpos,
    List.take_length, List.drop_zero]

end

/-! ## Up to the top of the address space -/

section

variable {m : Image}

theorem window?_eq_none_iff {first last : Address} :
    m.window? first last = none ↔ ¬ (first ≤ last ∧ m.contains first = true) := by
  have hrefused : (last < first ∨ (!m.contains first) = true) ↔
      ¬ (first ≤ last ∧ m.contains first = true) := by
    rw [not_and_or, BitVec.not_le, Bool.not_eq_true', Bool.not_eq_true]
  unfold window?
  split
  · next h => exact iff_of_true rfl (hrefused.mp h)
  · next h => exact iff_of_false nofun fun hnone => h (hrefused.mpr hnone)

variable (hspace : m.base.toNat + m.bytes.length ≤ 2 ^ 32)

include hspace

theorem contains_iff_of_le (address : Address) :
    m.contains address = true ↔
      m.base.toNat ≤ address.toNat ∧ address.toNat < m.base.toNat + m.bytes.length ∧
        m.base.toNat + m.bytes.length < 2 ^ 32 := by
  rcases Nat.lt_or_eq_of_le hspace with hbelow | htop
  · rw [contains_iff hbelow]
    exact and_congr_right fun _ => (and_iff_left hbelow).symm
  · have hstop : m.stop.toNat = 0 := by
      unfold stop
      rw [BitVec.toNat_add, BitVec.toNat_ofNat, Nat.add_mod_mod, htop]
      rfl
    unfold contains
    rw [decide_eq_true_eq, BitVec.lt_def, hstop]
    omega

/-- **Windows are exact below the top of the address space.** An image holds the addresses
from its base up to its base plus its length, unless that is the size of the space: then it
holds none. There is a window from each address that it holds to each that is not smaller.
The window has the bytes between the two as plain numbers, the second clipped to the end of
the image; neither of the offsets is taken below the base, and both lie in the bytes. -/
theorem window?_exact :
    (∀ address, m.contains address = true ↔
      m.base.toNat ≤ address.toNat ∧ address.toNat < m.base.toNat + m.bytes.length ∧
        m.base.toNat + m.bytes.length < 2 ^ 32) ∧
    ∀ first last,
      (m.window? first last ≠ none ↔ first ≤ last ∧ m.contains first = true) ∧
      (first ≤ last → m.contains first = true →
        let start := first.toNat - m.base.toNat
        let stop := min last.toNat (m.base.toNat + m.bytes.length) - m.base.toNat
        m.window? first last = some ((m.bytes.take stop).drop start) ∧
        m.base ≤ first ∧ (m.base ≤ if last ≤ m.stop then last else m.stop) ∧
        start ≤ stop ∧ stop ≤ m.bytes.length) := by
  refine ⟨contains_iff_of_le hspace, ?_⟩
  intro first last
  constructor
  · rw [Ne, window?_eq_none_iff, not_not]
  · intro horder hinside start stop
    obtain ⟨hbase, hfirst, hbelow⟩ := (contains_iff_of_le hspace first).mp hinside
    rw [BitVec.le_def] at horder
    have hstart : first.toNat = m.base.toNat + start := by omega
    have hstop : min last.toNat (m.base.toNat + m.bytes.length) = m.base.toNat + stop := by omega
    have hle : start ≤ stop := by omega
    refine ⟨window?_eq hbelow hstart hstop hle (by omega), hbase, ?_, hle, by omega⟩
    split
    · exact Nat.le_trans hbase horder
    · rw [BitVec.le_def, toNat_stop hbelow]
      exact Nat.le_add_right _ _

end

/-- The last byte but one of the address space can be reached: the window is clipped in
front of the last one. -/
theorem window?_exact_clipped :
    let m : Image := ⟨0xFFFFFFFC, [0x11, 0x22, 0x33]⟩
    m.contains 0xFFFFFFFE = true ∧ m.contains 0xFFFFFFFF = false ∧
      m.window? 0xFFFFFFFD 0xFFFFFFFF = some [0x22, 0x33] := by
  intro m
  have hspace : m.base.toNat + m.bytes.length ≤ 2 ^ 32 := by decide
  obtain ⟨hcontains, hwindow⟩ := window?_exact hspace
  have hinside : m.contains 0xFFFFFFFD = true := (hcontains _).mpr (by decide)
  have hend : ¬ (0xFFFFFFFF : Address).toNat < m.base.toNat + m.bytes.length := by decide
  refine ⟨(hcontains _).mpr (by decide), ?_, ?_⟩
  · rw [Bool.eq_false_iff]
    exact fun h => hend ((hcontains _).mp h).2.1
  · obtain ⟨hbytes, -⟩ := (hwindow 0xFFFFFFFD 0xFFFFFFFF).2 (by decide) hinside
    exact hbytes.trans (by decide)

/-- An image whose last byte is the last of the address space holds neither of its bytes. -/
theorem not_contains_top :
    let m : Image := ⟨0xFFFFFFFE, [0xAA, 0xBB]⟩
    m.base.toNat + m.bytes.length = 2 ^ 32 ∧ m.contains 0xFFFFFFFE = false ∧
      m.window? 0xFFFFFFFE 0xFFFFFFFF = none := by
  decide

end Microlab.Image
