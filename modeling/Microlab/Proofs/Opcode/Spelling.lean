import Microlab.Proofs.Instruction
import Microlab.Proofs.Opcode.FirstMatch
import Microlab.Proofs.Opcode.Selection

/-!
# Printed selections

What the decoder prints for a selection is read back as the same operands, and its
template binds them to what they were printed from.
-/

namespace Microlab

open Text

/-! ## Printed numbers are no keywords -/

theorem Literal.head?_upper_spelled (n : Nat) :
    (upper (trimmed (spelled n)).toList).head? = some '0' := by
  rw [toList_trimmed, (isWord_spelled n).trim_eq, toList_spelled]
  rfl

theorem Arch.isKeyword_spelled (arch : Arch) (n : Nat) :
    arch.isKeyword (Literal.spelled n) = false := by
  have hhead := Literal.head?_upper_spelled n
  have hne : ∀ word ∈ arch.keywords, (upper word.toList).head? ≠ some '0' := by
    cases arch <;> decide
  unfold isKeyword
  rw [List.any_eq_false]
  intro word hword hsame
  apply hne word hword
  rw [sameLetters_iff.mp hsame, hhead]

/-! ## Fields -/

namespace Field

theorem spell_eq (f : Field) (n : Nat) :
    f.spell n = if f.marker = .required then "#" ++ Literal.spelled n else Literal.spelled n := by
  unfold spell Literal.spelled
  split
  · rw [← String.append_assoc]
    rfl
  · rfl

theorem isWord_spell (f : Field) (n : Nat) : IsWord (f.spell n).toList := by
  have hword := Literal.isWord_spelled n
  rw [spell_eq]
  split
  · rw [String.toList_append]
    refine ⟨by simp, fun c hc => ?_⟩
    rcases List.mem_append.mp hc with hc | hc
    · obtain rfl : c = '#' := by simpa using hc
      decide
    · exact hword.2 c hc
  · exact hword

/-- A printed number is one that the field takes. -/
theorem bind?_spell (f : Field) (arch : Arch) {n : Nat} (hn : n < 2 ^ 63) :
    f.bind? arch (f.spell n) = some (n : Int) := by
  have htrim := (isWord_spell f n).trim_eq
  have hparse := Literal.parse?_spelled arch.radix hn
  unfold bind?
  rw [htrim, spell_eq]
  by_cases hmark : f.marker = .required
  · rw [if_pos hmark, String.toList_append]
    simp [hmark, hparse]
  · rw [if_neg hmark, Literal.toList_spelled]
    simp [hmark, Arch.isKeyword_spelled, hparse]

end Field

/-! ## Operands -/

/-- A word of a template or a mnemonic: without commas and characters of comments. -/
def IsToken (w : List Char) : Prop := IsWord w ∧ ',' ∉ w ∧ ';' ∉ w ∧ '/' ∉ w

instance (w : List Char) : Decidable (IsToken w) := inferInstanceAs (Decidable (_ ∧ _ ∧ _ ∧ _))

theorem IsToken.isOperand {w : List Char} (h : IsToken w) : Instruction.IsOperand w :=
  .of_word h.1 h.2.1 h.2.2.1 h.2.2.2

theorem Field.isToken_spell (f : Field) (n : Nat) : IsToken (f.spell n).toList := by
  have hmem : ∀ c ∈ (f.spell n).toList, c = '#' ∨ (48 ≤ c.toNat ∧ c.toNat ≤ 57) ∨
      (65 ≤ c.toNat ∧ c.toNat ≤ 90) ∨ (97 ≤ c.toNat ∧ c.toNat ≤ 122) := by
    intro c hc
    rw [spell_eq] at hc
    split at hc
    · rw [String.toList_append] at hc
      rcases List.mem_append.mp hc with hc | hc
      · exact Or.inl (by simpa using hc)
      · exact Or.inr (Literal.toNat_of_mem_spelled hc)
    · exact Or.inr (Literal.toNat_of_mem_spelled hc)
  refine ⟨isWord_spell f n, ?_, ?_, ?_⟩
  · intro hc
    exact absurd (hmem ',' hc) (by decide)
  · intro hc
    exact absurd (hmem ';' hc) (by decide)
  · intro hc
    exact absurd (hmem '/' hc) (by decide)

theorem RegisterClass.isToken_name (c : RegisterClass) (r : BitVec 3) :
    IsToken (c.name r).toList := by
  revert r
  cases c <;> decide

namespace Pattern

/-- An exact word of the template is a token. -/
def IsProper : Pattern → Prop
  | exact word => IsToken word.toList
  | _ => True

instance (p : Pattern) : Decidable p.IsProper :=
  match p with
  | exact word => inferInstanceAs (Decidable (IsToken word.toList))
  | field _ => isTrue trivial
  | register _ => isTrue trivial

theorem isToken_spell {p : Pattern} {b : Binding} (hp : p.IsProper) (hb : p.Takes b) :
    IsToken (p.spell b).toList := by
  match p, b, hb with
  | exact word, .fixed, _ => exact hp
  | field f, .value v, _ => exact f.isToken_spell _
  | register c, .register r, _ =>
      exact RegisterClass.isToken_name c r

/-- The number of a field is one that the field can read. -/
def Reads : Pattern → Binding → Prop
  | field f, .value v => 0 ≤ v ∧ v < 2 ^ f.width.bits
  | _, _ => True

theorem bind?_spell {p : Pattern} {arch : Arch} {b : Binding} (hp : p.IsProper)
    (hb : p.Takes b) (hread : p.Reads b) : p.bind? arch (p.spell b) = some b := by
  match p, b, hb with
  | exact word, .fixed, _ =>
      have hsame : sameLetters word (trimmed word) = true := by
        rw [sameLetters_iff, toList_trimmed, hp.1.trim_eq]
      simp only [bind?, spell, hsame, if_true]
  | field f, .value v, _ =>
      obtain ⟨hpos, hlt⟩ := hread
      obtain ⟨n, rfl⟩ := Int.eq_ofNat_of_zero_le hpos
      have hn : n < 2 ^ f.width.bits := by exact_mod_cast hlt
      have hbig : n < 2 ^ 63 := by
        cases hw : f.width <;> rw [hw] at hn <;> simp only [Width.bits] at hn <;> omega
      simp only [bind?, spell, toNat_ofInt_of_lt hn, f.bind?_spell arch hbig]
      rfl
  | register c, .register r, _ =>
      simp only [bind?, spell, RegisterClass.index?_name]
      rfl

theorem exists_of_mem_spelled {ps : List Pattern} {bs : List Binding} {operand : String}
    (hb : List.Forall₂ Takes ps bs) (h : operand ∈ List.zipWith spell ps bs) :
    ∃ p ∈ ps, ∃ b, p.Takes b ∧ p.spell b = operand := by
  induction hb with
  | nil => simp at h
  | @cons p b ps bs hpb _ ih =>
      rcases List.mem_cons.mp h with rfl | h
      · exact ⟨p, List.mem_cons_self, b, hpb, rfl⟩
      · obtain ⟨q, hq, c, hc, rfl⟩ := ih h
        exact ⟨q, List.mem_cons_of_mem _ hq, c, hc, rfl⟩

theorem reads_of_fieldsOf {p : Pattern} {ps : List Pattern} {b : Binding} {bs : List Binding}
    (h : ∀ f ∈ fieldsOf (p :: ps) (b :: bs), 0 ≤ f.2 ∧ f.2 < 2 ^ f.1.bits) :
    p.Reads b ∧ ∀ f ∈ fieldsOf ps bs, 0 ≤ f.2 ∧ f.2 < 2 ^ f.1.bits := by
  cases p with
  | exact word => exact ⟨trivial, h⟩
  | register c => exact ⟨trivial, h⟩
  | field f =>
      cases b with
      | fixed => exact ⟨trivial, h⟩
      | register r => exact ⟨trivial, h⟩
      | value v =>
          simp only [fieldsOf, List.forall_mem_cons] at h
          exact h

theorem bindAll?_spelled {arch : Arch} {ps : List Pattern} {bs : List Binding}
    (hproper : ∀ p ∈ ps, p.IsProper) (hb : List.Forall₂ Takes ps bs)
    (hread : ∀ f ∈ fieldsOf ps bs, 0 ≤ f.2 ∧ f.2 < 2 ^ f.1.bits) :
    bindAll? arch ps (List.zipWith spell ps bs) = some bs := by
  induction hb with
  | nil => rfl
  | @cons p b ps bs hpb _ ih =>
      obtain ⟨hpread, hread⟩ := reads_of_fieldsOf hread
      rw [List.zipWith_cons_cons]
      exact bindAll?_cons_eq_some.mpr ⟨_, _, b, bs, rfl, rfl,
        bind?_spell (hproper p List.mem_cons_self) hpb hpread,
        ih (fun q hq => hproper q (List.mem_cons_of_mem _ hq)) hread⟩

end Pattern

theorem Arch.proper_of_mem {arch : Arch} {o : Opcode} (h : o ∈ arch.opcodes) :
    ∀ p ∈ o.operands, p.IsProper := by
  have hall : ∀ o ∈ arch.opcodes, ∀ p ∈ o.operands, p.IsProper := by
    cases arch <;> decide +kernel
  exact hall o h

theorem Mnemonic.isToken_name (m : Mnemonic) : IsToken m.name.toList := by
  have hall : ∀ m ∈ all, IsToken m.name.toList := by decide +kernel
  exact hall m (mem_all m)

/-! ## Instructions -/

namespace Selection

/-- The instruction that the decoder prints. -/
def printed (s : Selection) : Instruction := ⟨s.opcode.mnemonic.name, s.spelled⟩

theorem isNormal_printed {arch : Arch} {s : Selection} (hmem : s.opcode ∈ arch.opcodes)
    (hs : s.IsBound) : s.printed.IsNormal where
  word := s.opcode.mnemonic.isToken_name.1
  capitals := s.opcode.mnemonic.upper_name
  noComment := s.opcode.mnemonic.isToken_name.isOperand.noComment
  operand := by
    intro operand hop
    obtain ⟨p, hp, b, hb, rfl⟩ := Pattern.exists_of_mem_spelled hs hop
    exact (Pattern.isToken_spell (Arch.proper_of_mem hmem p hp) hb).isOperand

theorem parse?_render_decoded {arch : Arch} {s : Selection} (hmem : s.opcode ∈ arch.opcodes)
    (hs : s.IsBound) : Instruction.parse? s.decoded.render = some s.printed :=
  Instruction.parse?_render (isNormal_printed hmem hs)

/-- The opcode that was decoded answers to what is printed. -/
theorem answers_printed {arch : Arch} {s : Selection} (hmem : s.opcode ∈ arch.opcodes)
    (hs : s.IsBound) (hread : s.IsRead) : s.Answers arch s.printed where
  mem := hmem
  mnemonic := sameLetters_self _
  bound := by
    unfold IsRead at hread
    rw [fields_eq] at hread
    exact Pattern.bindAll?_spelled (Arch.proper_of_mem hmem) hs hread

end Selection

end Microlab
