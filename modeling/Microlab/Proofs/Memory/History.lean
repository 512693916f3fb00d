import Microlab.Memory.Action
import Microlab.Proofs.Memory
import Mathlib.Data.List.Induction

/-!
# Memory as a function of its history

A memory of `2 ^ n` bytes is a row of bytes, and an access masks its address to a
position in the row. Every access other than clearing comes down to single bytes, each
with a whole number for its place: the bytes of a block or of a word stand behind each
other, however far they reach. What a read finds is the last byte whose place leaves the
rest of the address modulo `2 ^ n`, and this takes the wrapping of the addresses and the
masking of each access together.
-/

namespace Microlab.Memory

variable {n : Nat}

/-! ## The row of bytes -/

def bytes {n : Nat} : Memory n → List Byte
  | cell b => [b]
  | fork low high => low.bytes ++ high.bytes

/-- What an address is masked with. -/
def mask (n : Nat) : Address := BitVec.ofNat 32 (2 ^ n - 1)

theorem toNat_and_mask (hn : n ≤ 32) (a : Address) :
    (a &&& mask n).toNat = a.toNat % 2 ^ n := by
  have hfits : 2 ^ n - 1 < 2 ^ 32 :=
    Nat.lt_of_lt_of_le (Nat.sub_one_lt_of_lt (Nat.two_pow_pos n))
      (Nat.pow_le_pow_right Nat.two_pos hn)
  unfold mask
  rw [BitVec.toNat_and, BitVec.toNat_ofNat, Nat.mod_eq_of_lt hfits,
    Nat.and_two_pow_sub_one_eq_mod]

/-- The top bit of a position says in which half it lies. -/
theorem toNat_mod_succ (a : Address) :
    a.toNat % 2 ^ (n + 1) = a.toNat % 2 ^ n + if a.getLsbD n then 2 ^ n else 0 := by
  rw [Nat.mod_pow_succ, ← Nat.toNat_testBit, ← BitVec.getLsbD]
  cases a.getLsbD n <;> simp

theorem length_bytes (m : Memory n) : m.bytes.length = 2 ^ n := by
  induction m with
  | cell b => rfl
  | @fork n low high ihlow ihhigh =>
      unfold bytes
      rw [List.length_append, ihlow, ihhigh, Nat.pow_succ, Nat.mul_two]

theorem bytes_getElem? (m : Memory n) (a : Address) :
    m.bytes[a.toNat % 2 ^ n]? = some (m.read a) := by
  induction m with
  | cell b =>
      rw [Nat.pow_zero, Nat.mod_one]
      rfl
  | @fork n low high ihlow ihhigh =>
      have hlt : a.toNat % 2 ^ n < 2 ^ n := Nat.mod_lt _ (Nat.two_pow_pos n)
      unfold bytes read
      rw [toNat_mod_succ, List.getElem?_append, length_bytes]
      cases a.getLsbD n with
      | false => simpa [hlt] using ihlow
      | true => simpa [Nat.not_lt.mpr (Nat.le_add_left (2 ^ n) _)] using ihhigh

theorem bytes_write (m : Memory n) (a : Address) (v : Byte) :
    (m.write a v).bytes = m.bytes.set (a.toNat % 2 ^ n) v := by
  induction m with
  | cell b =>
      rw [Nat.pow_zero, Nat.mod_one]
      rfl
  | @fork n low high ihlow ihhigh =>
      have hlt : a.toNat % 2 ^ n < 2 ^ n := Nat.mod_lt _ (Nat.two_pow_pos n)
      rw [toNat_mod_succ]
      unfold bytes write
      rw [List.set_append, length_bytes]
      cases a.getLsbD n with
      | false => simp [hlt, ihlow]
      | true => simp [Nat.not_lt.mpr (Nat.le_add_left (2 ^ n) _), ihhigh]

theorem eq_of_bytes_eq {m m' : Memory n} (h : m.bytes = m'.bytes) : m = m' := by
  induction m with
  | cell b =>
      cases m' with
      | cell b' => rw [List.singleton_inj.mp h]
  | @fork n low high ihlow ihhigh =>
      cases m' with
      | fork low' high' =>
          obtain ⟨hlow, hhigh⟩ := List.append_inj h (by rw [length_bytes, length_bytes])
          rw [ihlow hlow, ihhigh hhigh]

/-! ## Bytes and their places -/

/-- A byte with its place. Places do not wrap. -/
abbrev Stored := Byte × Nat

/-- The bytes that an access stores, in the order in which it stores them. -/
def Action.stores : Action → List Stored
  | .write a b => [b].zipIdx a.toNat
  | .writeWord a w => [Word.low w, Word.high w].zipIdx a.toNat
  | .load a bytes => bytes.zipIdx a.toNat
  | .clear => []

def store (m : Memory n) (s : Stored) : Memory n := m.write (BitVec.ofNat 32 s.2) s.1

def storeAll (m : Memory n) (stores : List Stored) : Memory n := stores.foldl store m

/-- The last of the bytes whose place is congruent to the given one. -/
def lastAt (n : Nat) (stores : List Stored) (place : Nat) : Option Byte :=
  (stores.filter fun s => s.2 % 2 ^ n = place % 2 ^ n).getLast?.map Prod.fst

theorem storeAll_concat (m : Memory n) (stores : List Stored) (s : Stored) :
    m.storeAll (stores ++ [s]) = (m.storeAll stores).store s := by
  unfold storeAll
  rw [List.foldl_append]
  rfl

theorem lastAt_concat (stores : List Stored) (s : Stored) (place : Nat) :
    lastAt n (stores ++ [s]) place =
      if s.2 % 2 ^ n = place % 2 ^ n then some s.1 else lastAt n stores place := by
  unfold lastAt
  rw [List.filter_append]
  by_cases h : s.2 % 2 ^ n = place % 2 ^ n <;> simp [h]

theorem setWidth_ofNat_eq_iff (hn : n ≤ 32) (place : Nat) (a : Address) :
    (BitVec.ofNat 32 place).setWidth n = a.setWidth n ↔ place % 2 ^ n = a.toNat % 2 ^ n := by
  rw [← BitVec.toNat_inj, BitVec.toNat_setWidth, BitVec.toNat_setWidth, BitVec.toNat_ofNat,
    Nat.mod_mod_of_dvd _ (Nat.pow_dvd_pow 2 hn)]

theorem read_storeAll (hn : n ≤ 32) (m : Memory n) (stores : List Stored) (a : Address) :
    (m.storeAll stores).read a = (lastAt n stores a.toNat).getD (m.read a) := by
  induction stores using List.reverseRecOn with
  | nil => rfl
  | append_singleton stores s ih =>
      rw [storeAll_concat, lastAt_concat]
      unfold store
      rw [read_write, ih]
      simp only [setWidth_ofNat_eq_iff hn]
      split <;> rfl

theorem storeAll_zipIdx (m : Memory n) (bytes : List Byte) (place : Nat) :
    m.storeAll (bytes.zipIdx place) = m.load (BitVec.ofNat 32 place) bytes := by
  induction bytes generalizing m place with
  | nil => rfl
  | cons b bytes ih =>
      rw [List.zipIdx_cons]
      show (m.store (b, place)).storeAll (bytes.zipIdx (place + 1)) = _
      rw [ih, BitVec.ofNat_add]
      rfl

/-- Accesses other than clearing are blocks of bytes. -/
theorem perform_eq_storeAll (m : Memory n) {act : Action} (h : act ≠ .clear) :
    m.perform act = m.storeAll act.stores := by
  cases act with
  | clear => exact absurd rfl h
  | write a b | writeWord a w | load a bytes =>
      unfold Action.stores
      rw [storeAll_zipIdx, BitVec.ofNat_toNat, BitVec.setWidth_eq]
      rfl

/-! ## Writes apart from each other -/

/-- No place of the one list is congruent to one of the other. -/
def Apart (n : Nat) (first second : List Stored) : Prop :=
  ∀ s ∈ first, ∀ t ∈ second, s.2 % 2 ^ n ≠ t.2 % 2 ^ n

theorem write_comm (m : Memory n) {a b : Address} (h : a.toNat % 2 ^ n ≠ b.toNat % 2 ^ n)
    (v w : Byte) : (m.write a v).write b w = (m.write b w).write a v := by
  apply eq_of_bytes_eq
  rw [bytes_write, bytes_write, bytes_write, bytes_write, List.set_comm v w h]

theorem store_comm (hn : n ≤ 32) (m : Memory n) {s t : Stored}
    (h : s.2 % 2 ^ n ≠ t.2 % 2 ^ n) : (m.store s).store t = (m.store t).store s := by
  apply write_comm
  rwa [BitVec.toNat_ofNat, BitVec.toNat_ofNat, Nat.mod_mod_of_dvd _ (Nat.pow_dvd_pow 2 hn),
    Nat.mod_mod_of_dvd _ (Nat.pow_dvd_pow 2 hn)]

theorem storeAll_store_comm (hn : n ≤ 32) (m : Memory n) {stores : List Stored} {t : Stored}
    (h : ∀ s ∈ stores, s.2 % 2 ^ n ≠ t.2 % 2 ^ n) :
    (m.storeAll stores).store t = (m.store t).storeAll stores := by
  induction stores generalizing m with
  | nil => rfl
  | cons s stores ih =>
      obtain ⟨hs, hstores⟩ := List.forall_mem_cons.mp h
      show ((m.store s).storeAll stores).store t = ((m.store t).store s).storeAll stores
      rw [ih _ hstores, store_comm hn m hs]

theorem storeAll_comm (hn : n ≤ 32) (m : Memory n) {first second : List Stored}
    (h : Apart n first second) :
    (m.storeAll first).storeAll second = (m.storeAll second).storeAll first := by
  induction second generalizing m with
  | nil => rfl
  | cons t second ih =>
      have ht : ∀ s ∈ first, s.2 % 2 ^ n ≠ t.2 % 2 ^ n :=
        fun s hs => h s hs t List.mem_cons_self
      have hsecond : Apart n first second :=
        fun s hs t' ht' => h s hs t' (List.mem_cons_of_mem t ht')
      show ((m.storeAll first).store t).storeAll second =
        ((m.store t).storeAll second).storeAll first
      rw [storeAll_store_comm hn m ht, ih _ hsecond]

/-- Accesses that store nowhere at the same place can change places. -/
theorem perform_comm (hn : n ≤ 32) (m : Memory n) {x y : Action} (hx : x ≠ .clear)
    (hy : y ≠ .clear) (h : Apart n x.stores y.stores) :
    (m.perform x).perform y = (m.perform y).perform x := by
  rw [perform_eq_storeAll _ hx, perform_eq_storeAll _ hy, perform_eq_storeAll _ hy,
    perform_eq_storeAll _ hx, storeAll_comm hn m h]

/-! ## Histories -/

/-- The bytes that count after an access, from those that counted before it. -/
def Action.follow (stores : List Stored) : Action → List Stored
  | .clear => []
  | act => stores ++ act.stores

/-- The bytes stored since the memory was last cleared. -/
def stored (actions : List Action) : List Stored := actions.foldl Action.follow []

theorem performAll_concat (m : Memory n) (actions : List Action) (act : Action) :
    m.performAll (actions ++ [act]) = (m.performAll actions).perform act := by
  unfold performAll
  rw [List.foldl_append]
  rfl

theorem stored_concat (actions : List Action) (act : Action) :
    stored (actions ++ [act]) = act.follow (stored actions) := by
  unfold stored
  rw [List.foldl_append]
  rfl

theorem performAll_blank (actions : List Action) :
    (blank n).performAll actions = (blank n).storeAll (stored actions) := by
  induction actions using List.reverseRecOn with
  | nil => rfl
  | append_singleton actions act ih =>
      rw [performAll_concat, stored_concat, ih]
      by_cases hclear : act = .clear
      · rw [hclear]
        exact clear_eq_blank _
      · have hfollow : act.follow (stored actions) = stored actions ++ act.stores := by
          cases act with
          | clear => exact absurd rfl hclear
          | write | writeWord | load => rfl
        rw [perform_eq_storeAll _ hclear, hfollow]
        unfold storeAll
        rw [List.foldl_append]

/-- What a history leaves at an address is the last byte stored there, or zero. -/
theorem read_performAll_blank (hn : n ≤ 32) (actions : List Action) (a : Address) :
    ((blank n).performAll actions).read a = (lastAt n (stored actions) a.toNat).getD 0 := by
  rw [performAll_blank, read_storeAll hn, read_blank]

/-- **A memory is a function on addresses modulo its size.** Whatever the accesses have
been, an address is masked to a position that the row of bytes has, where one byte is read
or replaced; the size stays; the byte read is the last one stored at a congruent place since
the last clearing; a word is read back from where it was written, and writes that share no
place commute. -/
theorem performAll_blank_modular (hpos : 0 < n) (hn : n ≤ 32) (actions : List Action) :
    let m := (blank n).performAll actions
    (m.size = 2 ^ n ∧ m.bytes.length = m.size) ∧
      (∀ a, (a &&& mask n).toNat < m.size ∧ m.bytes[(a &&& mask n).toNat]? = some (m.read a)) ∧
      (∀ a v, (m.write a v).bytes = m.bytes.set (a &&& mask n).toNat v) ∧
      (∀ a, m.read a = (lastAt n (stored actions) a.toNat).getD 0) ∧
      (∀ a w, (m.writeWord a w).readWord a = w) ∧
      ∀ x y : Action, x ≠ .clear → y ≠ .clear → Apart n x.stores y.stores →
        (m.perform x).perform y = (m.perform y).perform x := by
  intro m
  have hsize : m.size = 2 ^ n := Nat.one_shiftLeft n
  refine ⟨⟨hsize, by rw [hsize, length_bytes]⟩, ?_, ?_, ?_, ?_, ?_⟩
  · intro a
    rw [toNat_and_mask hn, hsize]
    exact ⟨Nat.mod_lt _ (Nat.two_pow_pos n), bytes_getElem? m a⟩
  · intro a v
    rw [toNat_and_mask hn, bytes_write]
  · exact read_performAll_blank hn actions
  · exact readWord_writeWord m hpos hn
  · intro x y hx hy h
    exact perform_comm hn m hx hy h

/-- Two bytes that a block leaves behind when it wraps onto itself, at the top of the
addresses, after a memory was cleared. -/
theorem performAll_blank_modular_wrapped :
    let m := (blank 4).performAll
      [.write 3 0xFF, .clear, .load 0xFFFFFFFE ((List.range 18).map (BitVec.ofNat 8)),
        .writeWord 0xFFFFFFFF 0xABCD]
    m.read 0xE = 16 ∧ m.read 0xF = 0xCD ∧ m.read 0 = 0xAB ∧ m.read 3 = 5 := by
  have hread := (performAll_blank_modular (n := 4) (by decide) (by decide)
    [.write 3 0xFF, .clear, .load 0xFFFFFFFE ((List.range 18).map (BitVec.ofNat 8)),
      .writeWord 0xFFFFFFFF 0xABCD]).2.2.2.1
  exact ⟨by rw [hread]; decide +kernel, by rw [hread]; decide +kernel,
    by rw [hread]; decide +kernel, by rw [hread]; decide +kernel⟩

end Microlab.Memory
