import Microlab.Proofs.Word
import Microlab.Proofs.Opcode.Encoding

/-!
# Decoded bytes

An opcode decodes exactly the byte strings that start with a code of its own: the
code of a selection is decoded whatever follows it, and whatever is decoded starts
with the code of a selection whose numbers are as the fields read them.
-/

namespace Microlab

/-! ## Registers -/

theorem reg_modRM (reg rm : BitVec 3) : (modRM reg rm).extractLsb' 3 3 = reg := by
  revert reg rm
  decide +kernel

theorem rm_modRM (reg rm : BitVec 3) : (modRM reg rm).extractLsb' 0 3 = rm := by
  revert reg rm
  decide +kernel

theorem mode_modRM (reg rm : BitVec 3) : (modRM reg rm).extractLsb' 6 2 = 0b11 := by
  revert reg rm
  decide +kernel

theorem modRM_extract (m : Byte) (h : m.extractLsb' 6 2 = 0b11) :
    modRM (m.extractLsb' 3 3) (m.extractLsb' 0 3) = m := by
  revert m
  decide +kernel

namespace Opcode

/-- The head of the opcode without its leading bytes. -/
def tail (o : Opcode) (rs : List (BitVec 3)) : List Byte :=
  match o.form with
  | .plain => [o.last + (rs.getD 0 0).setWidth 8]
  | .registerPair => [o.last, modRM (rs.getD 0 0) (rs.getD 1 0)]
  | .extension digit => [o.last, modRM digit (rs.getD 0 0)]

theorem head_eq (o : Opcode) (rs : List (BitVec 3)) : o.head rs = o.lead ++ o.tail rs := by
  unfold head tail bytes
  cases o.form <;> simp

theorem any_isRegister_iff (o : Opcode) :
    o.operands.any Pattern.isRegister = true ↔ 0 < o.registerCount := by
  unfold registerCount
  rw [List.countP_pos_iff, List.any_eq_true]

theorem registers?_tail {o : Opcode} {rs : List (BitVec 3)} (hreg : o.Regular)
    (hlen : rs.length = o.registerCount) (rest : List Byte) :
    o.registers? (o.tail rs ++ rest) = some (rs, rest) := by
  replace hreg := hreg.registers
  rw [← hlen] at hreg
  unfold registers? tail
  -- in each form the length of `rs` is known, and with it the shape
  cases hform : o.form with
  | plain =>
      rw [hform] at hreg
      rcases hreg with hreg | ⟨-, hreg⟩
      · obtain ⟨r, rfl⟩ := List.length_eq_one_iff.mp hreg
        have hany : o.operands.any Pattern.isRegister = true := by
          rw [any_isRegister_iff, ← hlen]
          exact Nat.one_pos
        have hr : r.toNat < 8 := r.isLt
        have hoffset : o.last + r.setWidth 8 - o.last = r.setWidth 8 := by bv_omega
        have hback : (r.setWidth 8).toNat = r.toNat := by
          rw [BitVec.toNat_setWidth]
          omega
        simp [hany, hoffset, hback, hr]
      · obtain rfl := List.length_eq_zero_iff.mp hreg
        have hany : ¬ o.operands.any Pattern.isRegister = true := by
          rw [any_isRegister_iff, ← hlen]
          exact Nat.lt_irrefl 0
        simp [hany]
  | registerPair =>
      rw [hform] at hreg
      have htwo : rs.length = 2 := by simpa [Form.places] using hreg
      obtain ⟨r, r', rfl⟩ := List.length_eq_two.mp htwo
      simp [reg_modRM, rm_modRM, mode_modRM]
  | extension digit =>
      rw [hform] at hreg
      have hone : rs.length = 1 := by simpa [Form.places] using hreg
      obtain ⟨r, rfl⟩ := List.length_eq_one_iff.mp hone
      simp [reg_modRM, rm_modRM, mode_modRM]

/-- The byte a register was read from is rebuilt by adding the register back. -/
theorem last_add_register {last b : Byte} (h : (b - last).toNat < 8) :
    last + ((b - last).setWidth 3).setWidth 8 = b := by
  have hback : ((b - last).setWidth 3).setWidth 8 = b - last := by
    apply BitVec.eq_of_toNat_eq
    rw [BitVec.toNat_setWidth, BitVec.toNat_setWidth]
    omega
  rw [hback]
  bv_omega

theorem registers?_eq_some {o : Opcode} {bytes rest : List Byte} {rs : List (BitVec 3)}
    (hreg : o.Regular) (h : o.registers? bytes = some (rs, rest)) :
    rs.length = o.registerCount ∧ bytes = o.tail rs ++ rest := by
  replace hreg := hreg.registers
  unfold registers? at h
  unfold tail
  cases bytes with
  | nil => cases h
  | cons b bs =>
      cases hform : o.form with
      | plain =>
          simp only [hform] at h hreg
          by_cases hany : o.operands.any Pattern.isRegister = true
          · rw [if_pos hany, Option.ite_none_right_eq_some] at h
            obtain ⟨hlt, h⟩ := h
            cases h
            have hpos := (any_isRegister_iff o).mp hany
            constructor
            · simp [Form.places] at hreg ⊢
              omega
            · simp [last_add_register hlt]
          · rw [if_neg hany, Option.ite_none_right_eq_some] at h
            obtain ⟨rfl, h⟩ := h
            cases h
            have hzero : o.registerCount = 0 := by
              rw [any_isRegister_iff] at hany
              omega
            simp [hzero]
      -- with a register mode, a ModRM byte is its digit and its register
      | registerPair =>
          simp only [hform] at h hreg
          cases bs with
          | nil => cases h
          | cons m bs =>
              simp only [Option.ite_none_left_eq_some, not_or, not_not] at h
              obtain ⟨⟨rfl, hmode⟩, h⟩ := h
              cases h
              refine ⟨by simpa [Form.places, eq_comm] using hreg, ?_⟩
              simp [modRM_extract m hmode]
      | extension digit =>
          simp only [hform] at h hreg
          cases bs with
          | nil => cases h
          | cons m bs =>
              simp only [Option.ite_none_left_eq_some, Option.ite_none_right_eq_some,
                not_or, not_not] at h
              obtain ⟨⟨rfl, hmode⟩, rfl, h⟩ := h
              cases h
              refine ⟨by simpa [Form.places, eq_comm] using hreg, ?_⟩
              simp [modRM_extract m hmode]

end Opcode

/-! ## Operands -/

namespace Selection

/-- The operands as the decoder prints them. -/
def spelled (s : Selection) : List String := List.zipWith Pattern.spell s.opcode.operands s.bound

/-- The numbers are such as a field reads: without a sign, and no wider than the field. -/
def IsRead (s : Selection) : Prop := ∀ f ∈ s.fields, 0 ≤ f.2 ∧ f.2 < 2 ^ f.1.bits

theorem IsRead.fits {s : Selection} (h : s.IsRead) : s.fits = true := by
  rw [fits_iff_forall]
  intro f hf
  obtain ⟨hpos, hlt⟩ := h f hf
  have hhalf : (0 : Int) ≤ 2 ^ (f.1.bits - 1) := Int.pow_nonneg (by decide)
  rw [fits_iff]
  omega

end Selection

theorem Pattern.spellAll?_stored (order : ByteOrder) {ps : List Pattern} {bs : List Binding}
    (h : List.Forall₂ Takes ps bs) (rest : List Byte) :
    spellAll? order ps (Binding.registersOf bs)
        (((fieldsOf ps bs).map fun f => stored order f.1 f.2).flatten ++ rest)
      = some (List.zipWith spell ps bs) := by
  induction h with
  | nil => rfl
  | @cons p b ps bs hp _ ih =>
      match p, b, hp with
      | .exact word, .fixed, _ =>
          have hregs : Binding.registersOf (.fixed :: bs) = Binding.registersOf bs := rfl
          simp only [hregs, fieldsOf, spellAll?, ih]
          rfl
      | .register c, .register r, _ =>
          have hregs : Binding.registersOf (.register r :: bs) = r :: Binding.registersOf bs := rfl
          simp only [hregs, fieldsOf, spellAll?, ih]
          rfl
      | .field f, .value v, _ =>
          have hregs : Binding.registersOf (.value v :: bs) = Binding.registersOf bs := rfl
          simp only [hregs, fieldsOf, List.map_cons, List.flatten_cons, List.append_assoc]
          rw [List.zipWith_cons_cons, spell]
          unfold spellAll?
          cases hw : f.width with
          | byte =>
              rw [show stored order .byte v = [BitVec.ofInt 8 v] from rfl]
              simp only [List.singleton_append, ih]
              rfl
          | word =>
              obtain ⟨a, b, hsplit, hjoin⟩ := order.exists_split (BitVec.ofInt 16 v)
              rw [show stored order .word v = [a, b] from hsplit]
              simp only [List.cons_append, List.nil_append, ih, hjoin]
              rfl

theorem toNat_ofInt_of_lt {bits n : Nat} (h : n < 2 ^ bits) : (BitVec.ofInt bits n).toNat = n := by
  rw [BitVec.ofInt_natCast, BitVec.toNat_ofNat, Nat.mod_eq_of_lt h]

theorem Pattern.spellAll?_field_eq_some {order : ByteOrder} {f : Field} {ps : List Pattern}
    {rs : List (BitVec 3)} {bytes : List Byte} {operands : List String}
    (h : spellAll? order (field f :: ps) rs bytes = some operands) :
    ∃ (n : Nat) (rest : List Byte) (others : List String), n < 2 ^ f.width.bits ∧
      bytes = stored order f.width n ++ rest ∧ operands = f.spell n :: others ∧
      spellAll? order ps rs rest = some others := by
  unfold spellAll? at h
  split at h
  · next b rest hw =>
    obtain ⟨others, hothers, rfl⟩ := Option.map_eq_some_iff.mp h
    refine ⟨b.toNat, rest, others, ?_, ?_, rfl, hothers⟩
    · rw [hw]
      exact b.isLt
    · simp [hw, stored]
  · next a b rest hw =>
    obtain ⟨others, hothers, rfl⟩ := Option.map_eq_some_iff.mp h
    refine ⟨(order.join a b).toNat, rest, others, ?_, ?_, rfl, hothers⟩
    · rw [hw]
      exact (order.join a b).isLt
    · simp [hw, stored, order.split_join]
  · cases h

theorem Pattern.exists_of_spellAll? {order : ByteOrder} {ps : List Pattern}
    {rs : List (BitVec 3)} {bytes : List Byte} {operands : List String}
    (hlen : rs.length = ps.countP isRegister)
    (h : spellAll? order ps rs bytes = some operands) :
    ∃ bs rest, List.Forall₂ Takes ps bs ∧ Binding.registersOf bs = rs ∧
      bytes = ((fieldsOf ps bs).map fun f => stored order f.1 f.2).flatten ++ rest ∧
      operands = List.zipWith spell ps bs ∧
      ∀ f ∈ fieldsOf ps bs, 0 ≤ f.2 ∧ f.2 < 2 ^ f.1.bits := by
  induction ps generalizing rs bytes operands with
  | nil =>
      cases h
      obtain rfl := List.length_eq_zero_iff.mp hlen
      exact ⟨[], bytes, .nil, rfl, rfl, rfl, by simp [fieldsOf]⟩
  | cons p ps ih =>
      cases p with
      | exact word =>
          simp only [spellAll?, Option.map_eq_some_iff] at h
          obtain ⟨operands, h, rfl⟩ := h
          obtain ⟨bs, rest, hps, rfl, rfl, rfl, hread⟩ := ih hlen h
          exact ⟨.fixed :: bs, rest, .cons trivial hps, rfl, rfl, rfl, hread⟩
      | register c =>
          cases rs with
          | nil => simp [List.countP_cons, isRegister] at hlen
          | cons r rs =>
              have hlen : rs.length = ps.countP isRegister := by
                simpa [List.countP_cons, isRegister] using hlen
              simp only [spellAll?, Option.map_eq_some_iff] at h
              obtain ⟨operands, h, rfl⟩ := h
              obtain ⟨bs, rest, hps, rfl, rfl, rfl, hread⟩ := ih hlen h
              exact ⟨.register r :: bs, rest, .cons trivial hps, rfl, rfl, rfl, hread⟩
      | field f =>
          have hlen : rs.length = ps.countP isRegister := by
            simpa [List.countP_cons, isRegister] using hlen
          obtain ⟨n, bytes, operands, hn, rfl, rfl, hothers⟩ := spellAll?_field_eq_some h
          obtain ⟨bs, rest, hps, rfl, rfl, rfl, hread⟩ := ih hlen hothers
          refine ⟨.value n :: bs, rest, .cons trivial hps, rfl, ?_, ?_, ?_⟩
          · simp [fieldsOf]
          · rw [List.zipWith_cons_cons, spell, toNat_ofInt_of_lt hn]
          · intro g hg
            simp only [fieldsOf, List.mem_cons] at hg
            rcases hg with rfl | hg
            · have hn : (n : Int) < 2 ^ f.width.bits := by exact_mod_cast hn
              exact ⟨Int.natCast_nonneg n, hn⟩
            · exact hread g hg

/-! ## Opcodes -/

namespace Opcode

/-- **Complete.** The code of a selection is decoded as its own opcode with the operands
spelled, whatever bytes follow. -/
theorem decode?_code (order : ByteOrder) {s : Selection} (hreg : s.opcode.Regular) (hs : s.IsBound)
    (rest : List Byte) :
    s.opcode.decode? order (s.code order ++ rest)
      = some ⟨s.opcode.mnemonic, s.spelled, s.opcode.length⟩ := by
  have hlen : s.registers.length = s.opcode.registerCount := Selection.length_registersOf hs
  have hlead : ∀ l : List Byte, s.opcode.lead.isPrefixOf? (s.opcode.lead ++ l) = some l := by
    intro l
    rw [List.isPrefixOf?_eq_some_iff_append_eq]
  have hlong : s.opcode.length ≤ (s.code order ++ rest).length := by
    rw [List.length_append, Selection.length_code order hreg hs]
    exact Nat.le_add_right _ _
  unfold decode? guard
  rw [if_pos hlong]
  unfold Selection.code
  simp only [Option.pure_def, Option.bind_eq_bind, Option.bind_some]
  rw [head_eq, List.append_assoc, List.append_assoc, hlead]
  simp only [Option.bind_some, registers?_tail hreg hlen]
  rw [Selection.registers_eq, Selection.fields_eq, Pattern.spellAll?_stored order hs]
  rfl

/-- **Sound.** Bytes that an opcode decodes start with the code of a selection of that
opcode, which holds just the numbers read. -/
theorem exists_of_decode? {order : ByteOrder} {o : Opcode} {bytes : List Byte} {d : Decoded}
    (hreg : o.Regular) (h : o.decode? order bytes = some d) :
    ∃ (s : Selection) (rest : List Byte), s.opcode = o ∧ s.IsBound ∧ s.IsRead ∧
      bytes = s.code order ++ rest ∧ d = ⟨o.mnemonic, s.spelled, o.length⟩ := by
  unfold decode? at h
  obtain ⟨-, -, h⟩ := Option.bind_eq_some_iff.mp h
  simp only [Option.bind_eq_bind, Option.bind_eq_some_iff, Option.pure_def,
    Option.some.injEq, Prod.exists] at h
  obtain ⟨bytes, hlead, rs, rest, hrs, operands, hops, rfl⟩ := h
  rw [List.isPrefixOf?_eq_some_iff_append_eq] at hlead
  obtain ⟨hlen, rfl⟩ := registers?_eq_some hreg hrs
  obtain ⟨bs, rest, hps, rfl, rfl, rfl, hread⟩ := Pattern.exists_of_spellAll? hlen hops
  refine ⟨⟨o, bs⟩, rest, rfl, hps, ?_, ?_, rfl⟩
  · unfold Selection.IsRead
    rw [Selection.fields_eq]
    exact hread
  · unfold Selection.code
    rw [← hlead, Selection.registers_eq, Selection.fields_eq, head_eq]
    simp only [List.append_assoc]

end Opcode

end Microlab
