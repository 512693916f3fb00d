import Microlab.Proofs.I8086.Effect
import Microlab.Proofs.I8086.Handler

/-!
# The register file of the 8086

What is written under a name is read under the same name, and in part under those that share
bits with it. The law of reading after writing is stated about the names as they are folded.
-/

namespace Microlab.I8086

open Text

/-! ## Reading after writing -/

namespace Registers

variable (rs : Registers)

theorem getByte_setWord (r : WordRegister) (w : Word) (q : ByteRegister) :
    (rs.setWord r w).getByte q =
      if q.parent = r then if q.isHigh then Word.high w else Word.low w else rs.getByte q := by
  unfold getByte
  rw [getWord_setWord]
  by_cases h : q.parent = r
  · rw [if_pos h, if_pos h]
  · rw [if_neg h, if_neg h]

theorem getWord_setByte (q : ByteRegister) (b : Byte) (r : WordRegister) :
    (rs.setByte q b).getWord r =
      if r = q.parent then
        if q.isHigh then Word.withHigh (rs.getWord r) b else Word.withLow (rs.getWord r) b
      else rs.getWord r := by
  unfold setByte
  rw [getWord_setWord]
  by_cases h : r = q.parent
  · rw [if_pos h, if_pos h, h]
  · rw [if_neg h, if_neg h]

end Registers

theorem WordRegister.folded_eq_iff {s t : String} {r : WordRegister} (hs : ofName? s = some r) :
    folded t = folded s ↔ ofName? t = some r := by
  rw [ofName?_eq_some_iff.mp hs, ofName?_eq_some_iff]

theorem ByteRegister.folded_eq_iff {s t : String} {r : ByteRegister} (hs : ofName? s = some r) :
    folded t = folded s ↔ ofName? t = some r := by
  rw [ofName?_eq_some_iff.mp hs, ofName?_eq_some_iff]

/-- The one name is that of the low or the high half, and the other that of the word: a
letter with `L` or `H`, and the same letter with `X`. -/
def isHalf (high : Bool) (half whole : String) : Bool :=
  ['A', 'B', 'C', 'D'].any fun letter =>
    folded half == String.ofList [letter, if high then 'H' else 'L'] &&
      folded whole == String.ofList [letter, 'X']

theorem isHalf_iff {high : Bool} {s t : String} :
    isHalf high s t = true ↔
      ∃ q, ByteRegister.ofName? s = some q ∧ WordRegister.ofName? t = some q.parent ∧
        q.isHigh = high := by
  unfold isHalf
  simp only [List.any_eq_true, Bool.and_eq_true, beq_iff_eq, ByteRegister.ofName?_eq_some_iff,
    WordRegister.ofName?_eq_some_iff]
  constructor
  · rintro ⟨letter, hletter, hs, ht⟩
    have hall : (['A', 'B', 'C', 'D'].all fun letter => [true, false].all fun high =>
        ByteRegister.all.any fun q =>
          q.name == String.ofList [letter, if high then 'H' else 'L'] &&
            q.parent.name == String.ofList [letter, 'X'] && q.isHigh == high) = true := by
      decide +kernel
    have hletter := List.all_eq_true.mp hall letter hletter
    obtain ⟨q, -, hq⟩ := List.any_eq_true.mp
      (List.all_eq_true.mp hletter high (by cases high <;> decide))
    simp only [Bool.and_eq_true, beq_iff_eq] at hq
    exact ⟨q, hs.trans hq.1.1.symm, ht.trans hq.1.2.symm, hq.2⟩
  · rintro ⟨q, hs, ht, rfl⟩
    have hall : (ByteRegister.all.all fun q => ['A', 'B', 'C', 'D'].any fun letter =>
        q.name == String.ofList [letter, if q.isHigh then 'H' else 'L'] &&
          q.parent.name == String.ofList [letter, 'X']) = true := by
      decide +kernel
    obtain ⟨letter, hletter, hq⟩ := List.any_eq_true.mp (List.all_eq_true.mp hall q q.mem_all)
    simp only [Bool.and_eq_true, beq_iff_eq] at hq
    exact ⟨letter, hletter, hs.trans hq.1, ht.trans hq.2⟩

namespace Registers

variable {rs rs' : Registers} {s : String} (t : String)

section

variable {w : Word} (h : rs.replaceWord? s w = some rs')

include h

theorem word?_of_replaceWord? :
    rs'.word? t = if folded t = folded s then some w else rs.word? t := by
  rw [replaceWord?_eq] at h
  obtain ⟨r, hs, rfl⟩ := Option.map_eq_some_iff.mp h
  simp only [word?_eq, WordRegister.folded_eq_iff hs]
  cases WordRegister.ofName? t with
  | none => rfl
  | some q =>
      show some ((rs.setWord r w).getWord q) = if some q = some r then _ else some (rs.getWord q)
      rw [getWord_setWord]
      by_cases hq : q = r
      · rw [if_pos hq, if_pos (congrArg some hq)]
      · rw [if_neg hq, if_neg (hq ∘ Option.some.inj)]

theorem byte?_of_replaceWord? :
    rs'.byte? t =
      if isHalf false t s then some (Word.low w)
      else if isHalf true t s then some (Word.high w) else rs.byte? t := by
  rw [replaceWord?_eq] at h
  obtain ⟨r, hs, rfl⟩ := Option.map_eq_some_iff.mp h
  simp only [byte?_eq, isHalf_iff, hs]
  cases ByteRegister.ofName? t with
  | none => simp
  | some q =>
      simp only [Option.map_some, getByte_setWord, Option.some_inj, exists_eq_left']
      cases q.isHigh <;> by_cases hr : q.parent = r <;> simp [hr, eq_comm (a := r)]

end

section

variable {b : Byte} (h : rs.replaceByte? s b = some rs')

include h

theorem byte?_of_replaceByte? :
    rs'.byte? t = if folded t = folded s then some b else rs.byte? t := by
  rw [replaceByte?_eq] at h
  obtain ⟨r, hs, rfl⟩ := Option.map_eq_some_iff.mp h
  simp only [byte?_eq, ByteRegister.folded_eq_iff hs]
  cases ByteRegister.ofName? t with
  | none => rfl
  | some q =>
      show some ((rs.setByte r b).getByte q) = if some q = some r then _ else some (rs.getByte q)
      by_cases hq : q = r
      · rw [if_pos (congrArg some hq), hq, getByte_setByte]
      · rw [if_neg (hq ∘ Option.some.inj), getByte_setByte_of_ne (Ne.symm hq)]

theorem word?_of_replaceByte? :
    rs'.word? t =
      if isHalf false s t then (rs.word? t).map fun w => Word.withLow w b
      else if isHalf true s t then (rs.word? t).map fun w => Word.withHigh w b
      else rs.word? t := by
  rw [replaceByte?_eq] at h
  obtain ⟨r, hs, rfl⟩ := Option.map_eq_some_iff.mp h
  simp only [word?_eq, isHalf_iff, hs]
  cases WordRegister.ofName? t with
  | none => simp
  | some q =>
      simp only [Option.map_some, getWord_setByte, Option.some_inj, exists_eq_left']
      cases r.isHigh <;> by_cases hr : q = r.parent <;> simp [hr]

end

end Registers

namespace Machine

variable (m : Machine) (s : String)

/-! ## The register file -/

/-- The names are known to all tables or to none, and each of them is a place of its own, but
for the bytes, which are halves of words. -/
structure RegisterFile (m : Machine) : Prop where
  keyword : ∀ s, Arch.i8086.isKeyword s = ((m.byte? s).isSome ^^ (m.word? s).isSome)
  setByte_snd : ∀ s b, (m.setByte s b).2 = (m.byte? s).isSome
  setWord_snd : ∀ s w, (m.setWord s w).2 = (m.word? s).isSome
  byte_setByte : ∀ s b, (m.setByte s b).2 = true → ∀ t,
    (m.setByte s b).1.byte? t = if folded t = folded s then some b else m.byte? t
  word_setByte : ∀ s b, (m.setByte s b).2 = true → ∀ t,
    (m.setByte s b).1.word? t =
      if isHalf false s t then (m.word? t).map fun w => Word.withLow w b
      else if isHalf true s t then (m.word? t).map fun w => Word.withHigh w b
      else m.word? t
  word_setWord : ∀ s w, (m.setWord s w).2 = true → ∀ t,
    (m.setWord s w).1.word? t = if folded t = folded s then some w else m.word? t
  byte_setWord : ∀ s w, (m.setWord s w).2 = true → ∀ t,
    (m.setWord s w).1.byte? t =
      if isHalf false t s then some (Word.low w)
      else if isHalf true t s then some (Word.high w)
      else m.byte? t
  /-- Nothing but registers is written, and none without a register of the name. -/
  setByte_rest : ∀ s b, (m.setByte s b).1 = { m with registers := (m.setByte s b).1.registers } ∧
    ((m.setByte s b).2 = false → (m.setByte s b).1 = m)
  setWord_rest : ∀ s w, (m.setWord s w).1 = { m with registers := (m.setWord s w).1.registers } ∧
    ((m.setWord s w).2 = false → (m.setWord s w).1 = m)
  wordClass : ∀ i, Arch.i8086.isKeyword (RegisterClass.word.name i) = true ∧
    (m.word? (RegisterClass.word.name i)).isSome = true
  byteClass : ∀ i, Arch.i8086.isKeyword (RegisterClass.byte.name i) = true ∧
    (m.byte? (RegisterClass.byte.name i)).isSome = true
  /-- Instructions read and write the same places: a byte, or else a word, and an operand
  that is neither is a number. -/
  source : ∀ s, m.read (.ofOperand s) =
    (((m.byte? s).map (BitVec.setWidth 16)).or (m.word? s)).getD (Arch.i8086.literalOrZero s)
  destination : ∀ s r, Register.ofName? s = some r → ∀ w,
    (m.write r w, true) =
      if (m.setByte s (Word.low w)).2 then m.setByte s (Word.low w) else m.setWord s w

theorem replace_snd (r : Option Registers) : (m.replace r).2 = r.isSome := by
  cases r <;> rfl

theorem replace_of_snd {r : Option Registers} (h : (m.replace r).2 = true) :
    r = some (m.replace r).1.registers := by
  cases r with
  | none => cases h
  | some registers => rfl

theorem replace_rest (r : Option Registers) :
    (m.replace r).1 = { m with registers := (m.replace r).1.registers } ∧
      ((m.replace r).2 = false → (m.replace r).1 = m) := by
  cases r with
  | none => exact ⟨rfl, fun _ => rfl⟩
  | some registers => exact ⟨rfl, fun h => by cases h⟩

theorem isKeyword_eq : Arch.i8086.isKeyword s = ((m.byte? s).isSome ^^ (m.word? s).isSome) := by
  unfold byte? word?
  rw [Arch.isKeyword_i8086, Register.ofName?_eq, Registers.byte?_eq, Registers.word?_eq]
  rcases ofName?_eq_none_or s with hnone | hnone <;> simp [hnone]

theorem setByte_snd (b : Byte) : (m.setByte s b).2 = (m.byte? s).isSome := by
  unfold setByte byte?
  rw [replace_snd, Registers.replaceByte?_eq, Registers.byte?_eq, Option.isSome_map,
    Option.isSome_map]

theorem setWord_snd (w : Word) : (m.setWord s w).2 = (m.word? s).isSome := by
  unfold setWord word?
  rw [replace_snd, Registers.replaceWord?_eq, Registers.word?_eq, Option.isSome_map,
    Option.isSome_map]

theorem isKeyword_name {c : RegisterClass} (hc : c ∈ [.word, .byte]) (i : BitVec 3) :
    Arch.i8086.isKeyword (c.name i) = true := by
  have hall : ∀ c ∈ [RegisterClass.word, .byte], ∀ i : BitVec 3,
      Arch.i8086.isKeyword (c.name i) = true := by decide +kernel
  exact hall c hc i

theorem isSome_word?_name (i : BitVec 3) :
    (m.word? (RegisterClass.word.name i)).isSome = true := by
  have hname : ∀ i : BitVec 3,
      (WordRegister.ofName? (RegisterClass.word.name i)).isSome = true := by decide +kernel
  unfold word?
  rw [Registers.word?_eq, Option.isSome_map, hname]

theorem isSome_byte?_name (i : BitVec 3) :
    (m.byte? (RegisterClass.byte.name i)).isSome = true := by
  have hname : ∀ i : BitVec 3,
      (ByteRegister.ofName? (RegisterClass.byte.name i)).isSome = true := by decide +kernel
  unfold byte?
  rw [Registers.byte?_eq, Option.isSome_map, hname]

theorem registerFile : m.RegisterFile where
  keyword := m.isKeyword_eq
  setByte_snd := m.setByte_snd
  setWord_snd := m.setWord_snd
  byte_setByte := by
    intro s b h t
    unfold setByte byte? at *
    exact Registers.byte?_of_replaceByte? t (m.replace_of_snd h)
  word_setByte := by
    intro s b h t
    unfold setByte word? at *
    exact Registers.word?_of_replaceByte? t (m.replace_of_snd h)
  word_setWord := by
    intro s w h t
    unfold setWord word? at *
    exact Registers.word?_of_replaceWord? t (m.replace_of_snd h)
  byte_setWord := by
    intro s w h t
    unfold setWord byte? at *
    exact Registers.byte?_of_replaceWord? t (m.replace_of_snd h)
  setByte_rest := by
    intro s b
    unfold setByte
    exact m.replace_rest _
  setWord_rest := by
    intro s w
    unfold setWord
    exact m.replace_rest _
  wordClass := fun i => ⟨isKeyword_name (by decide) i, m.isSome_word?_name i⟩
  byteClass := fun i => ⟨isKeyword_name (by decide) i, m.isSome_byte?_name i⟩
  source := m.read_ofOperand
  destination := fun _ _ => m.write_of_ofName?

example : ((initial.setByte " ah " 0x12).1.setByte "Al" 0x34).1.word? "AX" = some 0x1234 := by
  decide +kernel

end Machine

end Microlab.I8086
