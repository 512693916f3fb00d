import Microlab.I8051.Action
import Microlab.Proofs.I8051.Effect

/-!
# Registers of the 8051 by name

A name means one register, and some registers have bits in common. The law of reading after
writing lists these, the parity bit among them: it is recomputed from the accumulator when
either is written.
-/

namespace Microlab.I8051

open Text

/-- The names of a register, in capitals. -/
def Register.spellings : Register → List String
  | a => ["A", "ACC"]
  | b => ["B"]
  | bank i => [String.ofList ['R', Nat.digitChar i]]
  | dptr => ["DPTR"]
  | dpl => ["DPL"]
  | dph => ["DPH"]
  | pc => ["PC"]
  | sp => ["SP"]
  | psw => ["PSW"]
  | ioPort i => [String.ofList ['P', Nat.digitChar i]]

theorem Register.mem_names {r : Register} : ∀ name ∈ r.spellings, (name, r) ∈ names := by
  cases r with
  | bank i =>
      revert i
      decide +kernel
  | ioPort i =>
      revert i
      decide +kernel
  | _ => decide +kernel

theorem Register.ofName?_eq_some_iff {s : String} {r : Register} :
    ofName? s = some r ↔ folded s ∈ r.spellings := by
  have hrows : names.Pairwise fun p q => upper p.1.toList ≠ upper q.1.toList := by
    decide +kernel
  have hnames : ∀ row ∈ names, upper row.1.toList = row.1.toList ∧ row.1 ∈ row.2.spellings := by
    decide +kernel
  rw [ofName?_eq, named?_eq_some_iff hrows, toList_trimmed, ← toList_folded]
  constructor
  · rintro ⟨row, hrow, hs, rfl⟩
    obtain ⟨hupper, hmem⟩ := hnames row hrow
    rw [hupper] at hs
    rwa [String.toList_inj.mp hs]
  · intro h
    have hrow := mem_names (folded s) h
    exact ⟨_, hrow, (hnames _ hrow).1.symm, rfl⟩

/-- The carry flag and the register pair are the keywords that name no register. -/
theorem isSome_ofName?_iff (s : String) :
    (Register.ofName? s).isSome = true ↔
      Arch.i8051.isKeyword s = true ∧ folded s ≠ "C" ∧ folded s ≠ "AB" := by
  have hword : ∀ word ∈ ["C", "AB"], upper word.toList = word.toList := by decide
  have hnone : ∀ word ∈ ["C", "AB"], Register.ofName? word = none := by decide +kernel
  rw [Arch.isKeyword_i8051, Bool.or_eq_true]
  simp only [List.any_cons, List.any_nil, Bool.or_false, Bool.or_eq_true,
    sameLetters_trimmed_iff (hword "C" (by decide)),
    sameLetters_trimmed_iff (hword "AB" (by decide))]
  constructor
  · intro h
    have hne : ∀ word ∈ ["C", "AB"], folded s ≠ word := by
      rintro word hmem rfl
      rw [← Register.ofName?_folded, hnone _ hmem] at h
      cases h
    exact ⟨Or.inl h, hne "C" (by decide), hne "AB" (by decide)⟩
  · rintro ⟨h | h | h, hc, hab⟩
    · exact h
    · exact absurd h hc
    · exact absurd h hab

/-! ## Reading after writing -/

/-- The byte with the parity of the accumulator for its lowest bit. -/
def withParity (b a : Byte) : Byte := b &&& 0xFE ||| if Odd (ones a) then 1 else 0

namespace Status

theorem toByte_ofByte (b : Byte) : (ofByte b).toByte = b := by
  revert b
  decide +kernel

theorem toByte_parity (s : Status) (a : Byte) :
    toByte { s with parity := oddOnes a } = withParity s.toByte a := by
  have hall : ∀ carry auxiliary flag0 bank1 bank0 overflow flag1 parity p : Bool,
      toByte ⟨carry, auxiliary, flag0, bank1, bank0, overflow, flag1, p⟩ =
        toByte ⟨carry, auxiliary, flag0, bank1, bank0, overflow, flag1, parity⟩ &&& 0xFE |||
          if p = true then 1 else 0 := by
    decide +kernel
  unfold withParity
  simp only [← oddOnes_iff]
  exact hall _ _ _ _ _ _ _ s.parity _

end Status

namespace Machine

/-- What a register reads as after the value was written to another one, or to itself. -/
def readAfter (m : Machine) (v : BitVec 32) : Register → Register → Word
  | .dptr, .dpl => (v.setWidth 8).setWidth 16
  | .dptr, .dph => (v.extractLsb' 8 8).setWidth 16
  | .dpl, .dptr => Word.withLow m.dptr (v.setWidth 8)
  | .dph, .dptr => Word.withHigh m.dptr (v.setWidth 8)
  | .a, .psw => (withParity m.psw.toByte (v.setWidth 8)).setWidth 16
  | .psw, .psw => (withParity (v.setWidth 8) m.a).setWidth 16
  | written, read =>
    if read = written then (v.setWidth written.width.bits).setWidth 16 else m.get read

variable (m : Machine)

theorem get_set_self {r : Register} (hr : r ≠ .psw) (v : BitVec 32) :
    (m.set r (v.setWidth 16)).get r = (v.setWidth r.width.bits).setWidth 16 := by
  apply BitVec.eq_of_toNat_eq
  rw [m.toNat_get_set hr, BitVec.toNat_setWidth, BitVec.toNat_setWidth, BitVec.toNat_setWidth]
  cases r.width with
  | byte => show _ % 2 ^ 16 % 2 ^ 8 = _ % 2 ^ 8 % 2 ^ 16; omega
  | word => rfl

theorem get_set (r q : Register) (v : BitVec 32) :
    (m.set r (v.setWidth 16)).get q = m.readAfter v r q := by
  unfold readAfter
  split
  · show (Word.low (v.setWidth 16)).setWidth 16 = _
    rw [Word.low_truncated]
  · show (Word.high (v.setWidth 16)).setWidth 16 = _
    rw [Word.high_truncated]
  · show Word.withLow m.dptr (Word.low (v.setWidth 16)) = _
    rw [Word.low_truncated]
  · show Word.withHigh m.dptr (Word.low (v.setWidth 16)) = _
    rw [Word.low_truncated]
  · show (Status.toByte { m.psw with parity := oddOnes (Word.low (v.setWidth 16)) }).setWidth 16 = _
    rw [Status.toByte_parity, Word.low_truncated]
  · show (Status.toByte
      { Status.ofByte (Word.low (v.setWidth 16)) with parity := oddOnes m.a }).setWidth 16 = _
    rw [Status.toByte_parity, Status.toByte_ofByte, Word.low_truncated]
  · next hdpl hdph hlow hhigh ha hpsw =>
    by_cases hqr : q = r
    · subst hqr
      rw [if_pos rfl]
      exact m.get_set_self (fun h => hpsw h h) v
    · rw [if_neg hqr]
      by_cases hq : q = .psw
      · subst hq
        cases r with
        | a => exact absurd rfl (ha rfl)
        | psw => exact absurd rfl hqr
        | _ => rfl
      · apply get_set_of_not_overlaps _ hq
        intro h
        unfold Register.Overlaps at h
        split at h
        · exact hdpl rfl rfl
        · exact hdph rfl rfl
        · exact hlow rfl rfl
        · exact hhigh rfl rfl
        · exact hqr h.symm

/-! ## The register file -/

/-- A name is known as a register, or as one of the two keywords that are none. Writing by
name reaches the register and those that have bits of it. -/
structure RegisterFile (m : Machine) : Prop where
  ofName? : ∀ s r, Register.ofName? s = some r ↔ folded s ∈ r.spellings
  keyword : ∀ s, (Register.ofName? s).isSome = true ↔
    Arch.i8051.isKeyword s = true ∧ folded s ≠ "C" ∧ folded s ≠ "AB"
  unknown : ∀ s, Register.ofName? s = none →
    m.register? s = none ∧ ∀ v, m.setRegister s v = (m, false)
  known : ∀ s r, Register.ofName? s = some r → ∀ v,
    (m.setRegister s v).2 = true ∧ ∀ t q, Register.ofName? t = some q →
      (m.setRegister s v).1.register? t = some (m.readAfter v r q)
  /-- Nothing but registers is written. -/
  rest : ∀ s v, (m.setRegister s v).1.memory = m.memory ∧
    (m.setRegister s v).1.halted = m.halted

theorem registerFile : m.RegisterFile where
  ofName? := fun _ _ => Register.ofName?_eq_some_iff
  keyword := isSome_ofName?_iff
  unknown := by
    intro s hs
    unfold register? setRegister
    rw [hs]
    exact ⟨rfl, fun _ => rfl⟩
  known := by
    intro s r hs v
    unfold setRegister
    rw [hs]
    refine ⟨rfl, fun t q ht => ?_⟩
    unfold register?
    rw [ht]
    exact congrArg some (m.get_set r q v)
  rest := by
    intro s v
    unfold setRegister
    split
    · next r _ => exact ⟨m.memory_set r _, by cases r <;> rfl⟩
    · exact ⟨rfl, rfl⟩

example : ((initial.setRegister "acc" 0x107).1.setRegister "PSW" 0x80).1.register? "psw" =
    some 0x81 := by
  decide +kernel

end Machine

end Microlab.I8051
