import Microlab.I8086.Names
import Microlab.Proofs.RegisterName

/-!
# Registers of the 8086 by name

The tables that find a value, a place to write and the word of a byte are written down one
by one. Each of them knows the same words, or the same bytes, so they all come down to the
register that a name means.
-/

namespace Microlab.I8086

open Text

/-! ## Names of words and of bytes -/

def WordRegister.ofName? (s : String) : Option WordRegister :=
  named? (all.map fun r => (r.name, r)) (trimmed s)

def ByteRegister.ofName? (s : String) : Option ByteRegister :=
  named? (all.map fun r => (r.name, r)) (trimmed s)

theorem WordRegister.mem_all (r : WordRegister) : r ∈ all := by
  cases r <;> decide

theorem ByteRegister.mem_all (r : ByteRegister) : r ∈ all := by
  cases r <;> decide

theorem WordRegister.ofName?_eq_some_iff {s : String} {r : WordRegister} :
    ofName? s = some r ↔ folded s = r.name :=
  named?_trimmed_eq_some_iff (by decide +kernel) (by decide +kernel) r.mem_all

theorem ByteRegister.ofName?_eq_some_iff {s : String} {r : ByteRegister} :
    ofName? s = some r ↔ folded s = r.name :=
  named?_trimmed_eq_some_iff (by decide +kernel) (by decide +kernel) r.mem_all

theorem WordRegister.ofName?_name (r : WordRegister) : ofName? r.name = some r := by
  have hall : ∀ r ∈ all, ofName? r.name = some r := by decide +kernel
  exact hall r r.mem_all

theorem Register.ofName?_eq (s : String) :
    ofName? s = ((WordRegister.ofName? s).map word).or ((ByteRegister.ofName? s).map byte) := by
  unfold ofName? WordRegister.ofName? ByteRegister.ofName?
  rw [named?_append, ← named?_map, ← named?_map, List.map_map, List.map_map]
  rfl

/-- No name is that of a word and of a byte. -/
theorem ofName?_eq_none_or (s : String) :
    WordRegister.ofName? s = none ∨ ByteRegister.ofName? s = none := by
  cases hword : WordRegister.ofName? s with
  | none => exact Or.inl rfl
  | some r =>
      refine Or.inr (Option.eq_none_iff_forall_ne_some.mpr fun q hbyte => ?_)
      have hne : ∀ r ∈ WordRegister.all, ∀ q ∈ ByteRegister.all, r.name ≠ q.name := by
        decide +kernel
      exact hne r r.mem_all q q.mem_all ((WordRegister.ofName?_eq_some_iff.mp hword).symm.trans
        (ByteRegister.ofName?_eq_some_iff.mp hbyte))

/-! ## The tables -/

theorem half?_eq (s : String) :
    half? s = (ByteRegister.ofName? s).map fun r => (r.parent.name, r.isHigh) := by
  unfold half? ByteRegister.ofName?
  rw [← named?_map]
  rfl

namespace Registers

variable (rs : Registers) (s : String)

theorem slot?_eq :
    rs.slot? s = (WordRegister.ofName? s).map fun r => ⟨rs.getWord r, rs.setWord r⟩ := by
  unfold slot? WordRegister.ofName?
  rw [← named?_map]
  rfl

theorem word?_eq : rs.word? s = (WordRegister.ofName? s).map rs.getWord := by
  unfold word? WordRegister.ofName?
  rw [← named?_map]
  rfl

theorem byte?_eq : rs.byte? s = (ByteRegister.ofName? s).map rs.getByte := by
  unfold byte?
  rw [half?_eq]
  cases ByteRegister.ofName? s with
  | none => rfl
  | some r =>
      show (rs.word? r.parent.name).bind _ = _
      rw [word?_eq, WordRegister.ofName?_name]
      rfl

theorem replaceWord?_eq (w : Word) :
    rs.replaceWord? s w = (WordRegister.ofName? s).map fun r => rs.setWord r w := by
  unfold replaceWord?
  rw [slot?_eq, Option.map_map]
  rfl

theorem replaceByte?_eq (b : Byte) :
    rs.replaceByte? s b = (ByteRegister.ofName? s).map fun r => rs.setByte r b := by
  unfold replaceByte?
  rw [half?_eq]
  cases ByteRegister.ofName? s with
  | none => rfl
  | some r =>
      show (rs.slot? r.parent.name).bind _ = _
      rw [slot?_eq, WordRegister.ofName?_name]
      rfl

end Registers

/-! ## What instructions see -/

namespace Machine

variable (m : Machine) (s : String)

/-- An operand is read as a byte, else as a word, else as a number. -/
theorem read_ofOperand :
    m.read (.ofOperand s) =
      (((m.byte? s).map (BitVec.setWidth 16)).or (m.word? s)).getD
        (Arch.i8086.literalOrZero s) := by
  unfold byte? word? Source.ofOperand
  rw [Registers.byte?_eq, Registers.word?_eq, Register.ofName?_eq]
  rcases ofName?_eq_none_or s with hnone | hnone
  · cases ByteRegister.ofName? s <;> simp [hnone, read, Registers.get]
  · cases WordRegister.ofName? s <;> simp [hnone, read, Registers.get]

/-- What is accepted as a destination is written as a byte, or else as a word. -/
theorem write_of_ofName? {s : String} {r : Register} (h : Register.ofName? s = some r)
    (w : Word) :
    (m.write r w, true) =
      if (m.setByte s (Word.low w)).2 then m.setByte s (Word.low w) else m.setWord s w := by
  unfold setByte setWord
  rw [Registers.replaceByte?_eq, Registers.replaceWord?_eq]
  rw [Register.ofName?_eq] at h
  cases hword : WordRegister.ofName? s with
  | some q =>
      have hbyte := (ofName?_eq_none_or s).resolve_left (by rw [hword]; rintro ⟨⟩)
      rw [hword] at h
      cases h
      rw [hbyte]
      rfl
  | none =>
      cases hbyte : ByteRegister.ofName? s with
      | some q =>
          rw [hword, hbyte] at h
          cases h
          rfl
      | none =>
          rw [hword, hbyte] at h
          cases h

end Machine

end Microlab.I8086
