import Microlab.Proofs.Mnemonic
import Microlab.Proofs.Opcode.Encoding

/-!
# Which opcode is selected

Two opcodes of one mnemonic hardly ever bind the same operands. Where they do, one
is a short form of the other: it stands earlier in the table, is shorter and at
least as specific, and if it is more specific its fields are as wide. So looking
only at the most specific candidates loses no encoding, and the selected one is a
shortest.
-/

namespace Microlab

/-! ## Short forms -/

/-- The short form of an opcode: arithmetic with an immediate has one for the
accumulator, and the long jump has the short jump. -/
def Opcode.shortForm? : Opcode → Option Opcode
  | ⟨m, [], last, 4, .extension digit, [.register .word, .field .imm16]⟩ =>
    if last = 0x81 then
      some ⟨m, [], digit.setWidth 8 <<< 3 + 5, 3, .plain, [.exact "AX", .imm16]⟩
    else none
  | ⟨m, [], last, 3, .extension digit, [.register .byte, .field .imm8]⟩ =>
    if last = 0x80 then
      some ⟨m, [], digit.setWidth 8 <<< 3 + 4, 2, .plain, [.exact "AL", .imm8]⟩
    else none
  | ⟨m, [], last, 3, .plain, [.field .rel16]⟩ =>
    if last = 0xE9 then some ⟨m, [], 0xEB, 2, .plain, [.rel8]⟩ else none
  | _ => none

theorem Opcode.shortForm?_eq_some {o short : Opcode} (h : o.shortForm? = some short) :
    (∃ m digit, o = ⟨m, [], 0x81, 4, .extension digit, [.r16, .imm16]⟩ ∧
      short = ⟨m, [], digit.setWidth 8 <<< 3 + 5, 3, .plain, [.exact "AX", .imm16]⟩) ∨
    (∃ m digit, o = ⟨m, [], 0x80, 3, .extension digit, [.r8, .imm8]⟩ ∧
      short = ⟨m, [], digit.setWidth 8 <<< 3 + 4, 2, .plain, [.exact "AL", .imm8]⟩) ∨
    (∃ m, o = ⟨m, [], 0xE9, 3, .plain, [.rel16]⟩ ∧
      short = ⟨m, [], 0xEB, 2, .plain, [.rel8]⟩) := by
  unfold shortForm? at h
  split at h
  · next m last digit =>
    rw [Option.ite_none_right_eq_some] at h
    obtain ⟨rfl, h⟩ := h
    exact Or.inl ⟨m, digit, rfl, (Option.some.inj h).symm⟩
  · next m last digit =>
    rw [Option.ite_none_right_eq_some] at h
    obtain ⟨rfl, h⟩ := h
    exact Or.inr (Or.inl ⟨m, digit, rfl, (Option.some.inj h).symm⟩)
  · next m last =>
    rw [Option.ite_none_right_eq_some] at h
    obtain ⟨rfl, h⟩ := h
    exact Or.inr (Or.inr ⟨m, rfl, (Option.some.inj h).symm⟩)
  · cases h

/-- The short form spells register zero of the class, or narrows the field. -/
theorem Opcode.operands_of_shortForm? {o short : Opcode} (h : o.shortForm? = some short) :
    (∃ c f, o.operands = [.register c, .field f] ∧
      short.operands = [.exact (c.name 0), .field f]) ∨
    (o.operands = [.rel16] ∧ short.operands = [.rel8]) := by
  rcases shortForm?_eq_some h with ⟨m, digit, rfl, rfl⟩ | ⟨m, digit, rfl, rfl⟩ | ⟨m, rfl, rfl⟩
  · exact Or.inl ⟨.word, .imm16, rfl, rfl⟩
  · exact Or.inl ⟨.byte, .imm8, rfl, rfl⟩
  · exact Or.inr ⟨rfl, rfl⟩

theorem Opcode.mnemonic_of_shortForm? {o short : Opcode} (h : o.shortForm? = some short) :
    short.mnemonic = o.mnemonic := by
  rcases shortForm?_eq_some h with ⟨m, digit, rfl, rfl⟩ | ⟨m, digit, rfl, rfl⟩ | ⟨m, rfl, rfl⟩
  · rfl
  · rfl
  · rfl

/-- Opcodes of one mnemonic have no operands in common, or the first is the short form
of the second. -/
def Opcode.Ranked (arch : Arch) (o o' : Opcode) : Prop :=
  o.mnemonic = o'.mnemonic →
    Pattern.areApart arch o.operands o'.operands = true ∨ o'.shortForm? = some o

instance (arch : Arch) (o o' : Opcode) : Decidable (o.Ranked arch o') :=
  inferInstanceAs (Decidable (_ → _))

theorem Arch.pairwise_ranked (arch : Arch) : arch.opcodes.Pairwise (Opcode.Ranked arch) := by
  cases arch <;> decide +kernel

/-! ## Candidates -/

/-- The selection is an opcode of the instruction's mnemonic with all operands bound. -/
structure Selection.Answers (s : Selection) (arch : Arch) (i : Instruction) : Prop where
  mem : s.opcode ∈ arch.opcodes
  mnemonic : Text.sameLetters s.opcode.mnemonic.name i.mnemonic = true
  bound : Pattern.bindAll? arch s.opcode.operands i.operands = some s.bound

theorem Arch.mem_opcodesOf_iff {arch : Arch} {mnemonic : String} {o : Opcode} :
    o ∈ arch.opcodesOf mnemonic ↔
      o ∈ arch.opcodes ∧ Text.sameLetters o.mnemonic.name mnemonic = true := by
  rw [← Mnemonic.ofName?_eq_some_iff]
  unfold opcodesOf
  split
  · next h => simp [h]
  · next m h =>
    rw [List.mem_filter, h, decide_eq_true_eq, Option.some.injEq, eq_comm (a := m)]

theorem Arch.mem_candidates_iff {arch : Arch} {i : Instruction} {s : Selection} :
    s ∈ arch.candidates i ↔ s.Answers arch i := by
  unfold candidates
  rw [List.mem_filterMap]
  constructor
  · rintro ⟨o, ho, hs⟩
    obtain ⟨bs, hbs, rfl⟩ := Option.map_eq_some_iff.mp hs
    obtain ⟨hmem, hname⟩ := mem_opcodesOf_iff.mp ho
    exact ⟨hmem, hname, hbs⟩
  · intro h
    refine ⟨s.opcode, mem_opcodesOf_iff.mpr ⟨h.mem, h.mnemonic⟩, ?_⟩
    rw [h.bound]
    rfl

/-- Candidates stand in the order of the table, so a short form stands in front. -/
theorem Arch.pairwise_candidates (arch : Arch) (i : Instruction) :
    (arch.candidates i).Pairwise fun s t => t.opcode.shortForm? = some s.opcode := by
  have hranked : (arch.opcodesOf i.mnemonic).Pairwise fun o o' =>
      Pattern.areApart arch o.operands o'.operands = true ∨ o'.shortForm? = some o := by
    unfold opcodesOf
    split
    · exact List.Pairwise.nil
    · next m h =>
      refine (List.Pairwise.filter _ arch.pairwise_ranked).imp_of_mem ?_
      intro o o' ho ho' hrank
      have hm := (List.mem_filter.mp ho).2
      have hm' := (List.mem_filter.mp ho').2
      rw [decide_eq_true_eq] at hm hm'
      exact hrank (hm.trans hm'.symm)
  unfold candidates
  rw [List.pairwise_filterMap]
  refine hranked.imp ?_
  intro o o' hrank s hs t ht
  obtain ⟨bs, hbs, rfl⟩ := Option.map_eq_some_iff.mp hs
  obtain ⟨cs, hcs, rfl⟩ := Option.map_eq_some_iff.mp ht
  rcases hrank with hapart | hshort
  · rw [Pattern.bindAll?_eq_none_of_areApart hapart hbs] at hcs
    cases hcs
  · exact hshort

/-- Two answers to one instruction are the same, or one is the short form of the
other. -/
theorem Selection.Answers.overlap {arch : Arch} {i : Instruction} {s t : Selection}
    (hs : s.Answers arch i) (ht : t.Answers arch i) :
    s = t ∨ t.opcode.shortForm? = some s.opcode ∨ s.opcode.shortForm? = some t.opcode := by
  have hpair := arch.pairwise_candidates i
  refine List.Pairwise.forall_of_forall_of_flip
    (R := fun s t => s = t ∨ t.opcode.shortForm? = some s.opcode ∨
      s.opcode.shortForm? = some t.opcode)
    (fun _ _ => Or.inl rfl) (hpair.imp fun h => Or.inr (Or.inl h))
    (hpair.imp fun h => Or.inr (Or.inr h))
    (Arch.mem_candidates_iff.mpr hs) (Arch.mem_candidates_iff.mpr ht)

/-! ## Short forms cost nothing -/

theorem Opcode.length_lt_of_shortForm? {o short : Opcode} (h : o.shortForm? = some short) :
    short.length < o.length := by
  rcases shortForm?_eq_some h with ⟨m, digit, rfl, rfl⟩ | ⟨m, digit, rfl, rfl⟩ | ⟨m, rfl, rfl⟩
  · exact Nat.lt_succ_self 3
  · exact Nat.lt_succ_self 2
  · exact Nat.lt_succ_self 2

theorem Opcode.specificity_le_of_shortForm? {o short : Opcode}
    (h : o.shortForm? = some short) : o.specificity ≤ short.specificity := by
  rcases shortForm?_eq_some h with ⟨m, digit, rfl, rfl⟩ | ⟨m, digit, rfl, rfl⟩ | ⟨m, rfl, rfl⟩
  · simp [specificity, Pattern.specificity]
  · simp [specificity, Pattern.specificity]
  · simp [specificity, Pattern.specificity]

/-- A short form that is more specific than the long one has the same fields. -/
theorem Selection.Answers.fits_eq {arch : Arch} {i : Instruction} {s t : Selection}
    (hs : s.Answers arch i) (ht : t.Answers arch i)
    (hshort : t.opcode.shortForm? = some s.opcode)
    (hspec : t.opcode.specificity < s.opcode.specificity) : s.fits = t.fits := by
  have hsb := hs.bound
  have htb := ht.bound
  rcases Opcode.operands_of_shortForm? hshort with ⟨c, f, hto, hso⟩ | ⟨hto, hso⟩
  · rw [hso] at hsb
    rw [hto] at htb
    obtain ⟨x, y, b, v, hops, hbs, -, hv⟩ := Pattern.bindAll?_pair.mp hsb
    obtain ⟨x', y', b', v', hops', hcs, -, hv'⟩ := Pattern.bindAll?_pair.mp htb
    obtain ⟨rfl, rfl⟩ : x = x' ∧ y = y' := by simpa using hops.symm.trans hops'
    obtain rfl : v = v' := Option.some.inj (hv.symm.trans hv')
    have hfields : s.fields = t.fields := by
      rw [Selection.fields_eq, Selection.fields_eq, hso, hto, hbs, hcs]
      rfl
    unfold Selection.fits
    rw [hfields]
  · -- the two jumps are equally specific
    have hequal : s.opcode.specificity = t.opcode.specificity := by
      unfold Opcode.specificity
      rw [hso, hto]
      rfl
    omega

/-! ## The selected candidate -/

theorem exists_most_specific {l : List Selection} (h : l ≠ []) :
    ∃ s ∈ l, ∀ t ∈ l, t.opcode.specificity ≤ s.opcode.specificity := by
  induction l with
  | nil => exact absurd rfl h
  | cons s rest ih =>
      by_cases hrest : rest = []
      · exact ⟨s, List.mem_cons_self, by simp [hrest]⟩
      · obtain ⟨b, hb, hmax⟩ := ih hrest
        by_cases hle : b.opcode.specificity ≤ s.opcode.specificity
        · refine ⟨s, List.mem_cons_self, ?_⟩
          intro t ht
          rcases List.mem_cons.mp ht with rfl | ht
          · exact Nat.le_refl _
          · exact Nat.le_trans (hmax t ht) hle
        · refine ⟨b, List.mem_cons_of_mem _ hb, ?_⟩
          intro t ht
          rcases List.mem_cons.mp ht with rfl | ht
          · exact Nat.le_of_lt (Nat.lt_of_not_le hle)
          · exact hmax t ht

namespace Arch

theorem mem_mostSpecific_iff {l : List Selection} {s : Selection} :
    s ∈ mostSpecific l ↔ s ∈ l ∧ ∀ t ∈ l, t.opcode.specificity ≤ s.opcode.specificity := by
  unfold mostSpecific
  rw [List.mem_filter, List.all_eq_true]
  simp only [decide_eq_true_eq]

theorem mostSpecific_ne_nil {l : List Selection} (h : l ≠ []) : mostSpecific l ≠ [] := by
  obtain ⟨s, hs, hmax⟩ := exists_most_specific h
  exact List.ne_nil_of_mem (mem_mostSpecific_iff.mpr ⟨hs, hmax⟩)

theorem answers_of_select? {arch : Arch} {i : Instruction} {s : Selection}
    (h : arch.select? i = some s) : s.Answers arch i := by
  have hmem : s ∈ mostSpecific (arch.candidates i) := by
    unfold select? at h
    rcases Option.or_eq_some_iff.mp h with h | ⟨-, h⟩
    · exact List.mem_of_find?_eq_some h
    · exact List.mem_of_head? h
  exact mem_candidates_iff.mp (mem_mostSpecific_iff.mp hmem).1

theorem select?_eq_none_iff {arch : Arch} {i : Instruction} :
    arch.select? i = none ↔ ∀ s : Selection, ¬ s.Answers arch i := by
  constructor
  · intro h s hs
    have hne := mostSpecific_ne_nil (List.ne_nil_of_mem (mem_candidates_iff.mpr hs))
    unfold select? at h
    rw [Option.or_eq_none_iff, List.head?_eq_none_iff] at h
    exact hne h.2
  · intro h
    rw [Option.eq_none_iff_forall_ne_some]
    intro s hs
    exact h s (answers_of_select? hs)

/-- Keeping the most specific candidates only keeps a fitting one that is no longer. -/
theorem exists_best_of_fits {arch : Arch} {i : Instruction} {c : Selection}
    (hc : c.Answers arch i) (hfit : c.fits = true) :
    ∃ b ∈ mostSpecific (arch.candidates i), b.fits = true ∧
      b.opcode.length ≤ c.opcode.length := by
  have hmem := mem_candidates_iff.mpr hc
  obtain ⟨t, ht, hmax⟩ := exists_most_specific (List.ne_nil_of_mem hmem)
  have htop := hmax c hmem
  by_cases hlt : c.opcode.specificity < t.opcode.specificity
  · -- the more specific answer is the short form of this one, and has the same fields
    have hta := mem_candidates_iff.mp ht
    rcases hta.overlap hc with rfl | hshort | hshort
    · exact absurd hlt (Nat.lt_irrefl _)
    · refine ⟨t, mem_mostSpecific_iff.mpr ⟨ht, hmax⟩, ?_, ?_⟩
      · rw [hta.fits_eq hc hshort hlt]
        exact hfit
      · exact Nat.le_of_lt (Opcode.length_lt_of_shortForm? hshort)
    · exact absurd (Opcode.specificity_le_of_shortForm? hshort) (Nat.not_le_of_lt hlt)
  · refine ⟨c, mem_mostSpecific_iff.mpr ⟨hmem, ?_⟩, hfit, Nat.le_refl _⟩
    intro u hu
    exact Nat.le_trans (hmax u hu) (Nat.le_of_not_lt hlt)

/-- If some candidate fits, the selected one fits and is no longer. -/
theorem select?_of_fits {arch : Arch} {i : Instruction} {c : Selection}
    (hc : c.Answers arch i) (hfit : c.fits = true) :
    ∃ s, arch.select? i = some s ∧ s.fits = true ∧ s.opcode.length ≤ c.opcode.length := by
  obtain ⟨b, hb, hbfit, hble⟩ := exists_best_of_fits hc hfit
  have hsome : ((mostSpecific (arch.candidates i)).find? Selection.fits).isSome = true := by
    rw [List.find?_isSome]
    exact ⟨b, hb, hbfit⟩
  obtain ⟨s, hs⟩ := Option.isSome_iff_exists.mp hsome
  refine ⟨s, by unfold select?; simp [hs], List.find?_some hs, ?_⟩
  obtain ⟨-, front, back, hsplit, hfront⟩ := List.find?_eq_some_iff_append.mp hs
  have hpair : (mostSpecific (arch.candidates i)).Pairwise fun s t =>
      t.opcode.shortForm? = some s.opcode :=
    (arch.pairwise_candidates i).filter _
  rw [hsplit] at hb hpair
  -- a fitting answer does not stand in front of the first fitting one
  rcases List.mem_append.mp hb with hb | hb
  · have := hfront b hb
    simp [hbfit] at this
  · rcases List.mem_cons.mp hb with rfl | hb
    · exact hble
    · have hshort := (List.pairwise_cons.mp (List.pairwise_append.mp hpair).2.1).1 b hb
      exact Nat.le_trans (Nat.le_of_lt (Opcode.length_lt_of_shortForm? hshort)) hble

end Arch

/-! ## Outcomes of encoding -/

theorem Pattern.exists_literal?_of_mem_fieldsOf {arch : Arch} {ps : List Pattern}
    {operands : List String} {bs : List Binding} {f : Width × Int}
    (h : bindAll? arch ps operands = some bs) (hf : f ∈ fieldsOf ps bs) :
    ∃ operand ∈ operands, arch.literal? operand = some f.2 := by
  induction ps generalizing operands bs with
  | nil =>
      obtain ⟨-, rfl⟩ := bindAll?_nil_eq_some.mp h
      simp [fieldsOf] at hf
  | cons p ps ih =>
      obtain ⟨operand, rest, b, cs, rfl, rfl, hb, hcs⟩ := bindAll?_cons_eq_some.mp h
      have htail : f ∈ fieldsOf ps cs → ∃ o ∈ operand :: rest, arch.literal? o = some f.2 := by
        intro hmem
        obtain ⟨o, ho, hlit⟩ := ih hcs hmem
        exact ⟨o, List.mem_cons_of_mem _ ho, hlit⟩
      cases p with
      | exact word =>
          simp only [fieldsOf] at hf
          exact htail hf
      | register c =>
          simp only [fieldsOf] at hf
          exact htail hf
      | field g =>
          obtain ⟨v, hv, rfl⟩ := Option.map_eq_some_iff.mp hb
          simp only [fieldsOf, List.mem_cons] at hf
          rcases hf with rfl | hf
          · exact ⟨operand, List.mem_cons_self, Field.literal?_of_bind? hv⟩
          · exact htail hf

namespace Arch

theorem encode_of_select? {arch : Arch} {i : Instruction} {s : Selection}
    (h : arch.select? i = some s) : arch.encode i = s.encode arch.byteOrder := by
  unfold encode
  rw [h]

theorem encode_eq_unknown_iff {arch : Arch} {i : Instruction} :
    arch.encode i = .error .unknownInstruction ↔ arch.select? i = none := by
  cases hsel : arch.select? i with
  | none =>
      unfold encode
      rw [hsel]
      simp
  | some s =>
      rw [encode_of_select? hsel]
      cases hfit : s.fits with
      | true =>
          rw [Selection.encode_of_fits _ hfit]
          simp
      | false =>
          obtain ⟨f, -, -, herr⟩ := Selection.encode_of_not_fits arch.byteOrder hfit
          rw [herr]
          simp

/-- An encoding is that of the selected candidate, which fits. -/
theorem encode_eq_ok_iff {arch : Arch} {i : Instruction} {bytes : List Byte} :
    arch.encode i = .ok bytes ↔
      ∃ s, arch.select? i = some s ∧ s.fits = true ∧ s.code arch.byteOrder = bytes := by
  cases hsel : arch.select? i with
  | none =>
      rw [encode_eq_unknown_iff.mpr hsel]
      simp
  | some s =>
      rw [encode_of_select? hsel, Selection.encode_eq_ok_iff]
      simp

theorem encode_eq_overflow {arch : Arch} {i : Instruction} {v : Int} {bits : Nat}
    (h : arch.encode i = .error (.immediateOverflow v bits)) :
    ∃ s, arch.select? i = some s ∧
      ∃ f ∈ s.fields, fits f.1.bits f.2 = false ∧ f.2 = v ∧ f.1.bits = bits := by
  cases hsel : arch.select? i with
  | none =>
      rw [encode_eq_unknown_iff.mpr hsel] at h
      cases h
  | some s =>
      rw [encode_of_select? hsel] at h
      cases hfit : s.fits with
      | true =>
          rw [Selection.encode_of_fits _ hfit] at h
          cases h
      | false =>
          obtain ⟨f, hf, hff, herr⟩ := Selection.encode_of_not_fits arch.byteOrder hfit
          rw [herr] at h
          cases h
          exact ⟨s, rfl, f, hf, hff, rfl, rfl⟩

/-- **Encoding is complete, minimal and exact in its errors.** An instruction is encoded
if and only if some opcode of its mnemonic binds the operands with numbers that fit; the
bytes are as many as the selected opcode says, and no other such opcode is shorter. An
instruction is unknown if and only if no opcode binds its operands. The only other
outcome names a number that some operand denotes and a field of the selected opcode that
does not hold it. -/
theorem encode_exact (arch : Arch) (i : Instruction) :
    ((∃ bytes, arch.encode i = .ok bytes) ↔ ∃ s : Selection, s.Answers arch i ∧ s.fits = true) ∧
    (∀ bytes, arch.encode i = .ok bytes →
      ∃ s, arch.select? i = some s ∧ s.Answers arch i ∧ bytes.length = s.opcode.length ∧
        ∀ t : Selection, t.Answers arch i → t.fits = true →
          s.opcode.length ≤ t.opcode.length) ∧
    (arch.encode i = .error .unknownInstruction ↔ ∀ s : Selection, ¬ s.Answers arch i) ∧
    (∀ v bits, arch.encode i = .error (.immediateOverflow v bits) →
      (∃ operand ∈ i.operands, arch.literal? operand = some v) ∧
      (∃ s, arch.select? i = some s ∧ ∃ width, (width, v) ∈ s.fields ∧ width.bits = bits) ∧
      ¬ (-(2 ^ (bits - 1) : Int) ≤ v ∧ v ≤ 2 ^ bits - 1)) := by
  refine ⟨⟨?_, ?_⟩, ?_, ?_, ?_⟩
  · rintro ⟨bytes, h⟩
    obtain ⟨s, hsel, hfit, -⟩ := encode_eq_ok_iff.mp h
    exact ⟨s, answers_of_select? hsel, hfit⟩
  · rintro ⟨c, hc, hfit⟩
    obtain ⟨s, hsel, hsfit, -⟩ := select?_of_fits hc hfit
    exact ⟨s.code arch.byteOrder, encode_eq_ok_iff.mpr ⟨s, hsel, hsfit, rfl⟩⟩
  · intro bytes h
    obtain ⟨s, hsel, -, rfl⟩ := encode_eq_ok_iff.mp h
    have hs := answers_of_select? hsel
    refine ⟨s, hsel, hs, ?_, ?_⟩
    · exact Selection.length_code _ (regular_of_mem hs.mem)
        (Pattern.takes_of_bindAll? hs.bound)
    · intro t ht htfit
      obtain ⟨s', hsel', -, hle⟩ := select?_of_fits ht htfit
      obtain rfl := Option.some.inj (hsel.symm.trans hsel')
      exact hle
  · rw [encode_eq_unknown_iff, select?_eq_none_iff]
  · intro v bits h
    obtain ⟨s, hsel, f, hf, hff, rfl, rfl⟩ := encode_eq_overflow h
    have hs := answers_of_select? hsel
    refine ⟨?_, ⟨s, hsel, f.1, hf, rfl⟩, ?_⟩
    · rw [Selection.fields_eq] at hf
      exact Pattern.exists_literal?_of_mem_fieldsOf hs.bound hf
    · rw [← fits_iff, hff]
      decide

/-- A target too far for the short jump takes the long one, and a number too large for
its register is reported. -/
theorem encode_exact_at_limits :
    (i8086.encode ⟨"JMP", ["256"]⟩ = .ok [0xE9, 0x00, 0x01] ∧
      ∃ s, i8086.select? ⟨"JMP", ["256"]⟩ = some s ∧ s.Answers i8086 ⟨"JMP", ["256"]⟩ ∧
        [0xE9#8, 0x00#8, 0x01#8].length = s.opcode.length ∧
        ∀ t : Selection, t.Answers i8086 ⟨"JMP", ["256"]⟩ → t.fits = true →
          s.opcode.length ≤ t.opcode.length) ∧
    (i8086.encode ⟨"mov", ["al", " #0x100 "]⟩ = .error (.immediateOverflow 256 8) ∧
      ∃ operand ∈ ["al", " #0x100 "], i8086.literal? operand = some 256) :=
  ⟨⟨by decide +kernel, (encode_exact i8086 ⟨"JMP", ["256"]⟩).2.1 _ (by decide +kernel)⟩,
    by decide +kernel,
    ((encode_exact i8086 ⟨"mov", ["al", " #0x100 "]⟩).2.2.2 256 8 (by decide +kernel)).1⟩

end Arch

end Microlab
