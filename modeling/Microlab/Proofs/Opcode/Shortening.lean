import Microlab.Proofs.Opcode.FirstMatch
import Microlab.Proofs.Opcode.Selection

/-!
# Short codes

A selection of a long form can be put into the short form if its register is the
accumulator or its target is near. The assembler always does so: whichever selection
answers to an instruction and fits, the one selected is its short form if there is
one. On the bytes this is a rewriting of their first two.
-/

namespace Microlab

open Text

/-! ## Short selections -/

namespace Selection

/-- The selection of the short form, if the register is the accumulator or the number
fits one byte. -/
def short? (s : Selection) : Option Selection :=
  match s.opcode.shortForm?, s.bound with
  | some short, [.register r, .value v] =>
    if r = 0 then some ⟨short, [.fixed, .value v]⟩ else none
  | some short, [.value v] =>
    if Microlab.fits 8 v then some ⟨short, [.value v]⟩ else none
  | _, _ => none

theorem shortForm?_of_short? {s t : Selection} (h : s.short? = some t) :
    s.opcode.shortForm? = some t.opcode := by
  unfold short? at h
  split at h
  · next short r v hshort _ =>
    rw [Option.ite_none_right_eq_some] at h
    obtain ⟨-, h⟩ := h
    cases h
    exact hshort
  · next short v hshort _ =>
    rw [Option.ite_none_right_eq_some] at h
    obtain ⟨-, h⟩ := h
    cases h
    exact hshort
  · cases h

end Selection

/-- An operand that an exact word takes is bound by any pattern as the word is. -/
theorem Pattern.bind?_eq_of_exact {arch : Arch} {word operand : String} {b : Binding}
    (h : (exact word).bind? arch operand = some b) (p : Pattern) :
    p.bind? arch operand = p.bind? arch word :=
  (bind?_congr p arch (folded_spell_of_bind? h rfl)).symm

/-- An operand that a register class takes is bound by any pattern as the name is. -/
theorem Pattern.bind?_eq_of_register {arch : Arch} {c : RegisterClass} {operand : String}
    {r : BitVec 3} (h : (register c).bind? arch operand = some (.register r)) (p : Pattern) :
    p.bind? arch operand = p.bind? arch (c.name r) :=
  (bind?_congr p arch (folded_spell_of_bind? h rfl)).symm

theorem Pattern.exists_of_bind?_field {arch : Arch} {f : Field} {operand : String}
    {b : Binding} (h : (field f).bind? arch operand = some b) :
    ∃ v, b = .value v ∧ arch.literal? operand = some v := by
  obtain ⟨v, hv, rfl⟩ := Option.map_eq_some_iff.mp h
  exact ⟨v, rfl, Field.literal?_of_bind? hv⟩

/-- The short form of an opcode in the table is in the table, and the architecture is
the 8086. -/
theorem Arch.shortForm?_mem {arch : Arch} {o short : Opcode} (ho : o ∈ arch.opcodes)
    (h : o.shortForm? = some short) : arch = i8086 ∧ short ∈ arch.opcodes := by
  have hall : ∀ o ∈ arch.opcodes, ∀ short ∈ o.shortForm?, arch = i8086 ∧ short ∈ arch.opcodes := by
    cases arch <;> decide +kernel
  exact hall o ho short h

namespace Pattern

theorem takes_pair {c : RegisterClass} {f : Field} {bs : List Binding}
    (h : List.Forall₂ Takes [register c, field f] bs) :
    ∃ r v, bs = [.register r, .value v] := by
  match bs, h with
  | [.register r, .value v], _ => exact ⟨r, v, rfl⟩

theorem takes_single {f : Field} {bs : List Binding}
    (h : List.Forall₂ Takes [field f] bs) : ∃ v, bs = [.value v] := by
  match bs, h with
  | [.value v], _ => exact ⟨v, rfl⟩

theorem bind?_exact_name (arch : Arch) (c : RegisterClass) (r : BitVec 3) :
    (exact (c.name r)).bind? arch (c.name r) = some .fixed := by
  revert r
  cases arch <;> cases c <;> decide

theorem bind?_register_name (arch : Arch) (c : RegisterClass) (r : BitVec 3) :
    (register c).bind? arch (c.name r) = some (.register r) := by
  simp only [bind?, RegisterClass.index?_name]
  rfl

theorem bind?_rel8 (arch : Arch) (operand : String) :
    rel8.bind? arch operand = rel16.bind? arch operand := by
  simp only [bind?, Field.bind?_eq, Field.marker]
  rfl

end Pattern

namespace Selection

variable {arch : Arch} {i : Instruction} {s t : Selection}

/-- An answer of a short form that fits is the short selection of the long answer. -/
theorem Answers.short?_eq (hs : s.Answers arch i) (ht : t.Answers arch i)
    (hshort : s.opcode.shortForm? = some t.opcode) (hfit : t.fits = true) :
    s.short? = some t := by
  have hsb := hs.bound
  have htb := ht.bound
  obtain ⟨o, bs⟩ := s
  obtain ⟨o', cs⟩ := t
  unfold short?
  simp only at hshort hsb htb ⊢
  rw [hshort]
  rcases Opcode.operands_of_shortForm? hshort with ⟨c, f, ho, ho'⟩ | ⟨ho, ho'⟩
  · rw [ho] at hsb
    rw [ho'] at htb
    obtain ⟨x, y, b, v, hops, rfl, hb, hv⟩ := Pattern.bindAll?_pair.mp hsb
    obtain ⟨x', y', b', v', hops', rfl, hb', hv'⟩ := Pattern.bindAll?_pair.mp htb
    obtain ⟨rfl, rfl⟩ : x = x' ∧ y = y' := by simpa using hops.symm.trans hops'
    obtain rfl : v = v' := Option.some.inj (hv.symm.trans hv')
    obtain ⟨w, rfl, -⟩ := Pattern.exists_of_bind?_field hv
    -- the operand is the accumulator's name, which the register class reads as 0
    rw [Pattern.bind?_eq_of_exact hb', Pattern.bind?_register_name] at hb
    rw [Pattern.bind?_eq_of_exact hb', Pattern.bind?_exact_name] at hb'
    cases hb
    cases hb'
    rfl
  · rw [ho] at hsb
    rw [ho'] at htb
    obtain ⟨x, b, hops, rfl, hb⟩ := Pattern.bindAll?_single.mp hsb
    obtain ⟨x', b', hops', rfl, hb'⟩ := Pattern.bindAll?_single.mp htb
    obtain rfl : x = x' := by simpa using hops.symm.trans hops'
    rw [Pattern.bind?_rel8] at hb'
    obtain rfl : b = b' := Option.some.inj (hb.symm.trans hb')
    obtain ⟨v, rfl, -⟩ := Pattern.exists_of_bind?_field hb
    have hv : Microlab.fits 8 v = true := by
      have hall := (fits_iff_forall _).mp hfit
      rw [fields_eq] at hall
      simp only [ho'] at hall
      exact hall (.byte, v) List.mem_cons_self
    simp [hv]

/-- What a selection with a short one binds, and what the short one binds instead. -/
theorem short?_eq_some (hs : s.IsBound) (h : s.short? = some t) :
    (∃ c f v, s.opcode.operands = [.register c, .field f] ∧ s.bound = [.register 0, .value v] ∧
      t.opcode.operands = [.exact (c.name 0), .field f] ∧ t.bound = [.fixed, .value v]) ∨
    (∃ v, s.opcode.operands = [.rel16] ∧ s.bound = [.value v] ∧
      t.opcode.operands = [.rel8] ∧ t.bound = [.value v] ∧ Microlab.fits 8 v = true) := by
  have hform := shortForm?_of_short? h
  unfold IsBound at hs
  unfold short? at h
  split at h
  · next short r v _ hbound =>
    rw [Option.ite_none_right_eq_some] at h
    obtain ⟨rfl, h⟩ := h
    cases h
    rw [hbound] at hs
    rcases Opcode.operands_of_shortForm? hform with ⟨c, f, ho, ho'⟩ | ⟨ho, -⟩
    · exact Or.inl ⟨c, f, v, ho, hbound, ho', rfl⟩
    · rw [ho] at hs
      cases hs with
      | cons _ hs => cases hs
  · next short v _ hbound =>
    rw [Option.ite_none_right_eq_some] at h
    obtain ⟨hv, h⟩ := h
    cases h
    rw [hbound] at hs
    rcases Opcode.operands_of_shortForm? hform with ⟨c, f, ho, -⟩ | ⟨ho, ho'⟩
    · rw [ho] at hs
      cases hs with
      | cons _ hs => cases hs
    · exact Or.inr ⟨v, ho, hbound, ho', rfl, hv⟩
  · cases h

/-- The short selection answers to the same instructions. -/
theorem Answers.of_short? (hs : s.Answers arch i) (h : s.short? = some t) :
    t.Answers arch i := by
  have hform := shortForm?_of_short? h
  have hbound := hs.bound
  refine ⟨(Arch.shortForm?_mem hs.mem hform).2, ?_, ?_⟩
  · rw [Opcode.mnemonic_of_shortForm? hform]
    exact hs.mnemonic
  · rcases short?_eq_some (Pattern.takes_of_bindAll? hbound) h with
      ⟨c, f, v, ho, hb, ho', hb'⟩ | ⟨v, ho, hb, ho', hb', -⟩
    · rw [ho, hb] at hbound
      rw [ho', hb']
      obtain ⟨x, y, b, w, hops, hbs, hx, hy⟩ := Pattern.bindAll?_pair.mp hbound
      cases hbs
      refine Pattern.bindAll?_pair.mpr ⟨x, y, _, _, hops, rfl, ?_, hy⟩
      rw [Pattern.bind?_eq_of_register hx, Pattern.bind?_exact_name]
    · rw [ho, hb] at hbound
      rw [ho', hb']
      obtain ⟨x, b, hops, hbs, hx⟩ := Pattern.bindAll?_single.mp hbound
      cases hbs
      refine Pattern.bindAll?_single.mpr ⟨x, _, hops, rfl, ?_⟩
      rw [Pattern.bind?_rel8, hx]

theorem fits_of_short? (hs : s.IsBound) (hfit : s.fits = true) (h : s.short? = some t) :
    t.fits = true := by
  rw [fits_iff_forall, fields_eq] at hfit ⊢
  rcases short?_eq_some hs h with ⟨c, f, v, ho, hb, ho', hb'⟩ | ⟨v, ho, hb, ho', hb', hv⟩
  · rw [ho, hb] at hfit
    rw [ho', hb']
    exact hfit
  · rw [ho', hb']
    intro f hf
    obtain rfl := List.mem_singleton.mp hf
    exact hv

end Selection

/-- **The assembler picks the short form.** Of the selections that answer to an instruction
and fit, the one selected is the short form of any other. -/
theorem Arch.select?_eq {arch : Arch} {i : Instruction} {c : Selection}
    (hc : c.Answers arch i) (hfit : c.fits = true) :
    arch.select? i = some (c.short?.getD c) := by
  obtain ⟨s, hsel, hsfit, hle⟩ := select?_of_fits hc hfit
  have hs := answers_of_select? hsel
  rw [hsel]
  -- the answer selected is no longer than `c`, so `c` is not its short form
  rcases hc.overlap hs with rfl | hshort | hshort
  · cases hshort : c.short? with
    | none => rfl
    | some t =>
        have htfit := Selection.fits_of_short? (Pattern.takes_of_bindAll? hc.bound) hfit hshort
        obtain ⟨s, hsel', -, hle⟩ := select?_of_fits (hc.of_short? hshort) htfit
        obtain rfl := Option.some.inj (hsel.symm.trans hsel')
        have hlt := Opcode.length_lt_of_shortForm? (Selection.shortForm?_of_short? hshort)
        exact absurd hle (Nat.not_le_of_lt hlt)
  · exact absurd hle (Nat.not_le_of_lt (Opcode.length_lt_of_shortForm? hshort))
  · rw [hc.short?_eq hs hshort hsfit]
    rfl

/-! ## Short bytes -/

/-- The short code of what the bytes encode. The groups `80` and `81` with register zero
have the accumulator's own opcodes, and a jump `E9` with a zero high byte is a jump
`EB`. -/
def I8086.shorten : List Byte → List Byte
  | op :: m :: data =>
    if op = 0x81 ∧ m.extractLsb' 0 3 = 0 then
      ((m.extractLsb' 3 3).setWidth 8 <<< 3 + 5) :: data
    else if op = 0x80 ∧ m.extractLsb' 0 3 = 0 then
      ((m.extractLsb' 3 3).setWidth 8 <<< 3 + 4) :: data
    else if op = 0xE9 ∧ data = [0] then [0xEB, m]
    else op :: m :: data
  | bytes => bytes

def Arch.shorten : Arch → List Byte → List Byte
  | i8086, bytes => I8086.shorten bytes
  | i8051, bytes => bytes

theorem I8086.shorten_of_first {b : Byte} {l : List Byte} (h81 : b ≠ 0x81) (h80 : b ≠ 0x80)
    (hE9 : b ≠ 0xE9) : shorten (b :: l) = b :: l := by
  cases l with
  | nil => rfl
  | cons m l =>
      rw [shorten, if_neg fun h => h81 h.1, if_neg fun h => h80 h.1, if_neg fun h => hE9 h.1]

theorem I8086.shorten_word (digit r : BitVec 3) (data : List Byte) :
    shorten (0x81 :: modRM digit r :: data)
      = if r = 0 then (digit.setWidth 8 <<< 3 + 5) :: data
        else 0x81 :: modRM digit r :: data := by
  by_cases hr : r = 0
  · subst hr
    simp [shorten, rm_modRM, reg_modRM]
  · rw [shorten, rm_modRM, if_neg hr, if_neg fun h => hr h.2, if_neg fun h => hr h.2,
      if_neg fun h => absurd h.1 (by decide)]

theorem I8086.shorten_byte (digit r : BitVec 3) (data : List Byte) :
    shorten (0x80 :: modRM digit r :: data)
      = if r = 0 then (digit.setWidth 8 <<< 3 + 4) :: data
        else 0x80 :: modRM digit r :: data := by
  by_cases hr : r = 0
  · subst hr
    simp [shorten, rm_modRM, reg_modRM]
  · rw [shorten, rm_modRM, if_neg hr, if_neg fun h => hr h.2, if_neg fun h => hr h.2,
      if_neg fun h => absurd h.1 (by decide)]

theorem I8086.shorten_jump (low high : Byte) :
    shorten [0xE9, low, high] = if high = 0 then [0xEB, low] else [0xE9, low, high] := by
  by_cases hhigh : high = 0
  · subst hhigh
    simp [shorten]
  · rw [shorten, if_neg fun h => absurd h.1 (by decide), if_neg fun h => absurd h.1 (by decide),
      if_neg hhigh, if_neg fun h => hhigh (List.singleton_inj.mp h.2)]

/-- Only the opcodes with a short form have the first bytes of one. -/
theorem I8086.first_of_shortForm?_eq_none {o : Opcode} (ho : o ∈ opcodes)
    (h : o.shortForm? = none) {b : Byte} (hb : b = 0x81 ∨ b = 0x80 ∨ b = 0xE9) :
    o.span ≤ (b - o.first).toNat := by
  have hall : ∀ b ∈ [0x81#8, 0x80#8, 0xE9#8], ∀ o ∈ opcodes,
      o.span ≤ (b - o.first).toNat ∨ o.shortForm?.isSome = true := by
    decide +kernel
  rcases hall b (by simpa using hb) o ho with hle | hsome
  · exact hle
  · rw [h] at hsome
    cases hsome

/-- The numbers that a word field holds, and whose high byte is zero, fit a byte field. -/
theorem fits_of_high_eq_zero {v : Int} (hfit : fits 16 v = true)
    (hhigh : Word.high (BitVec.ofInt 16 v) = 0) : fits 8 v = true := by
  rw [fits_iff] at hfit ⊢
  have hzero := congrArg BitVec.toNat hhigh
  rw [Word.toNat_high, BitVec.toNat_ofInt] at hzero
  simp at hzero
  omega

theorem high_ofInt_of_fits {v : Int} (hpos : 0 ≤ v) (hfit : fits 8 v = true) :
    Word.high (BitVec.ofInt 16 v) = 0 := by
  rw [fits_iff] at hfit
  apply BitVec.eq_of_toNat_eq
  rw [Word.toNat_high, BitVec.toNat_ofInt]
  simp
  omega

namespace Selection

variable {arch : Arch} {s t : Selection}

theorem shorten_code_of_shortForm?_eq_none (hmem : s.opcode ∈ I8086.opcodes) (hs : s.IsBound)
    (h : s.opcode.shortForm? = none) : I8086.shorten (s.code .little) = s.code .little := by
  obtain ⟨b, l, hhead, hb⟩ := Opcode.exists_head_eq_cons (length_registersOf hs)
  have hne : ∀ c : Byte, c = 0x81 ∨ c = 0x80 ∨ c = 0xE9 → b ≠ c := by
    rintro c hc rfl
    exact absurd hb (Nat.not_lt_of_le (I8086.first_of_shortForm?_eq_none hmem h hc))
  unfold code
  rw [registers_eq, hhead, List.cons_append]
  exact I8086.shorten_of_first (hne _ (by simp)) (hne _ (by simp)) (hne _ (by simp))

theorem code_group (m : Mnemonic) (last : Byte) (n : Nat) (digit r : BitVec 3) (c : RegisterClass)
    (f : Field) (v : Int) :
    code .little ⟨⟨m, [], last, n, .extension digit, [.register c, .field f]⟩,
        [.register r, .value v]⟩
      = last :: modRM digit r :: stored .little f.width v := by
  show [last, modRM digit r] ++ (stored .little f.width v ++ []) = _
  rw [List.append_nil]
  rfl

theorem code_accumulator (m : Mnemonic) (last : Byte) (n : Nat) (word : String) (f : Field)
    (v : Int) :
    code .little ⟨⟨m, [], last, n, .plain, [.exact word, .field f]⟩, [.fixed, .value v]⟩
      = last :: stored .little f.width v := by
  show [last + (0 : BitVec 3).setWidth 8] ++ (stored .little f.width v ++ []) = _
  rw [List.append_nil]
  simp

theorem code_jump (m : Mnemonic) (v : Int) :
    code .little ⟨⟨m, [], 0xE9, 3, .plain, [.rel16]⟩, [.value v]⟩
      = [0xE9, Word.low (BitVec.ofInt 16 v), Word.high (BitVec.ofInt 16 v)] :=
  rfl

/-- A selection with no short one has a code that cannot be shortened. -/
theorem shorten_code (hmem : s.opcode ∈ arch.opcodes) (hs : s.IsBound) (hfit : s.fits = true)
    (h : s.short? = none) :
    arch.shorten (s.code arch.byteOrder) = s.code arch.byteOrder := by
  cases hform : s.opcode.shortForm? with
  | none =>
      cases arch with
      | i8086 => exact shorten_code_of_shortForm?_eq_none hmem hs hform
      | i8051 => rfl
  | some short =>
      obtain ⟨rfl, -⟩ := Arch.shortForm?_mem hmem hform
      obtain ⟨o, bs⟩ := s
      unfold IsBound at hs
      rcases Opcode.shortForm?_eq_some hform with
        ⟨m, digit, rfl, rfl⟩ | ⟨m, digit, rfl, rfl⟩ | ⟨m, rfl, rfl⟩
      · obtain ⟨r, v, rfl⟩ := Pattern.takes_pair hs
        have hr : r ≠ 0 := by
          rintro rfl
          simp [short?, Opcode.shortForm?] at h
        simp only [Arch.shorten, Arch.byteOrder, code_group, I8086.shorten_word, if_neg hr]
      · obtain ⟨r, v, rfl⟩ := Pattern.takes_pair hs
        have hr : r ≠ 0 := by
          rintro rfl
          simp [short?, Opcode.shortForm?] at h
        simp only [Arch.shorten, Arch.byteOrder, code_group, I8086.shorten_byte, if_neg hr]
      · obtain ⟨v, rfl⟩ := Pattern.takes_single hs
        have hv : ¬ Microlab.fits 8 v = true := by
          intro hv
          simp [short?, Opcode.shortForm?, hv] at h
        -- a number that fits the word and has no high byte fits the byte as well
        have hhigh : Word.high (BitVec.ofInt 16 v) ≠ 0 := by
          intro hzero
          apply hv
          apply fits_of_high_eq_zero _ hzero
          rw [fits_iff_forall] at hfit
          exact hfit (.word, v) (by rw [fields_eq]; exact List.mem_singleton.mpr rfl)
        simp only [Arch.shorten, Arch.byteOrder, code_jump, I8086.shorten_jump, if_neg hhigh]

/-- The code of a selection that reads as it stands is shortened to that of its short
selection. -/
theorem shorten_code_of_short? (hmem : s.opcode ∈ arch.opcodes) (hs : s.IsBound)
    (hread : s.IsRead) (h : s.short? = some t) :
    arch.shorten (s.code arch.byteOrder) = t.code arch.byteOrder := by
  have hform := shortForm?_of_short? h
  obtain ⟨rfl, -⟩ := Arch.shortForm?_mem hmem hform
  obtain ⟨o, bs⟩ := s
  obtain ⟨short, cs⟩ := t
  unfold IsBound at hs
  rcases Opcode.shortForm?_eq_some hform with
    ⟨m, digit, rfl, rfl⟩ | ⟨m, digit, rfl, rfl⟩ | ⟨m, rfl, rfl⟩
  · obtain ⟨r, v, rfl⟩ := Pattern.takes_pair hs
    obtain ⟨rfl, rfl⟩ : r = 0 ∧ [.fixed, .value v] = cs := by
      simpa [short?, Opcode.shortForm?] using h
    simp only [Arch.shorten, Arch.byteOrder, code_group, code_accumulator, I8086.shorten_word,
      if_true]
  · obtain ⟨r, v, rfl⟩ := Pattern.takes_pair hs
    obtain ⟨rfl, rfl⟩ : r = 0 ∧ [.fixed, .value v] = cs := by
      simpa [short?, Opcode.shortForm?] using h
    simp only [Arch.shorten, Arch.byteOrder, code_group, code_accumulator, I8086.shorten_byte,
      if_true]
  · obtain ⟨v, rfl⟩ := Pattern.takes_single hs
    obtain ⟨hv, rfl⟩ : Microlab.fits 8 v = true ∧ [.value v] = cs := by
      simpa [short?, Opcode.shortForm?] using h
    obtain ⟨hpos, -⟩ := hread (.word, v) (by rw [fields_eq]; exact List.mem_singleton.mpr rfl)
    have hhigh := high_ofInt_of_fits hpos hv
    simp only [Arch.shorten, Arch.byteOrder, code_jump, I8086.shorten_jump, if_pos hhigh,
      Word.low_ofInt]
    rfl

end Selection

/-- A selected code is short already. -/
theorem Arch.shorten_of_encode {arch : Arch} {i : Instruction} {code : List Byte}
    (h : arch.encode i = .ok code) : arch.shorten code = code := by
  obtain ⟨s, hsel, hfit, rfl⟩ := encode_eq_ok_iff.mp h
  have hs := answers_of_select? hsel
  have hnone : s.short? = none := by
    cases hshort : s.short? with
    | none => rfl
    | some t =>
        rw [select?_eq hs hfit, hshort] at hsel
        obtain rfl : t = s := Option.some.inj hsel
        have hlt := Opcode.length_lt_of_shortForm? (Selection.shortForm?_of_short? hshort)
        exact absurd hlt (Nat.lt_irrefl _)
  exact Selection.shorten_code hs.mem (Pattern.takes_of_bindAll? hs.bound) hfit hnone

end Microlab
