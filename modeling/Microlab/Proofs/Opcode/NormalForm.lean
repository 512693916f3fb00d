import Microlab.Proofs.Opcode.Shortening
import Microlab.Proofs.Opcode.Spelling

/-!
# The printed instruction as a normal form

Bytes are decoded if and only if they start with an encoding. The printed instruction
is read back and encoded to the shortened bytes, which are decoded to the same text.
-/

namespace Microlab

/-! ## Printing and selecting again -/

namespace Selection

variable {arch : Arch} {s t : Selection}

/-- Selections of one opcode and one code are printed alike. -/
theorem decoded_eq_of_code_eq {order : ByteOrder} (hreg : s.opcode.Regular) (hs : s.IsBound)
    (ht : t.IsBound) (hop : s.opcode = t.opcode) (hcode : s.code order = t.code order) :
    s.decoded = t.decoded := by
  have hdec := Opcode.decode?_code order hreg hs []
  rw [hcode, hop, Opcode.decode?_code order (hop ▸ hreg) ht []] at hdec
  unfold decoded
  rw [hop]
  exact (Option.some.inj hdec).symm

/-- A selection and its short one are printed alike. -/
theorem spelled_short? (hs : s.IsBound) (hread : s.IsRead) (h : s.short? = some t) :
    t.spelled = s.spelled := by
  unfold spelled
  rcases short?_eq_some hs h with ⟨c, f, v, ho, hb, ho', hb'⟩ | ⟨v, ho, hb, ho', hb', hv⟩
  · rw [ho, hb, ho', hb']
    rfl
  · have hfield : (.word, v) ∈ s.fields := by
      rw [fields_eq, ho, hb]
      exact List.mem_singleton.mpr rfl
    obtain ⟨hpos, -⟩ := hread _ hfield
    rw [fits_iff] at hv
    have hsame : (BitVec.ofInt 8 v).toNat = (BitVec.ofInt 16 v).toNat := by
      rw [BitVec.toNat_ofInt, BitVec.toNat_ofInt]
      omega
    rw [ho, hb, ho', hb']
    simp only [List.zipWith_cons_cons, List.zipWith_nil_left, Pattern.spell, Field.width,
      Width.bits, hsame]
    rfl

end Selection

/-- No opcode shadows a short form. -/
theorem Opcode.eq_of_shadows_shortForm {arch : Arch} {o short w : Opcode}
    (ho : o ∈ arch.opcodes) (h : o.shortForm? = some short) (hw : w.Shadows short) :
    w = short := by
  have hall : ∀ o ∈ arch.opcodes, ∀ short ∈ o.shortForm?,
      short.onB? = none ∧ short.mnemonic.principal = short.mnemonic := by
    cases arch <;> decide +kernel
  obtain ⟨hB, hprincipal⟩ := hall o ho short h
  rcases hw with hw | ⟨hw, -⟩
  · rw [hprincipal] at hw
    exact hw
  · rw [hB] at hw
    cases hw

namespace Selection

variable {arch : Arch} {s t : Selection}

/-- The code of the short selection is decoded to the text of the long one. -/
theorem decode?_code_short? (hmem : s.opcode ∈ arch.opcodes) (hs : s.IsBound)
    (hread : s.IsRead) (h : s.short? = some t) :
    ∃ d, arch.decode? (t.code arch.byteOrder) = some d ∧ d.mnemonic = s.opcode.mnemonic ∧
      d.operands = s.spelled := by
  have hform := shortForm?_of_short? h
  have htmem := (Arch.shortForm?_mem hmem hform).2
  have ht : t.IsBound :=
    Pattern.takes_of_bindAll? ((answers_printed hmem hs hread).of_short? h).bound
  obtain ⟨u, -, hu, -, hcode, hsame, hdec⟩ := Arch.decode?_code htmem ht
  have hop : u.opcode = t.opcode := by
    rcases hsame with hop | hshadows
    · exact hop
    · exact Opcode.eq_of_shadows_shortForm hmem hform hshadows
  refine ⟨u.decoded, hdec, ?_, ?_⟩
  · show u.opcode.mnemonic = _
    rw [hop, Opcode.mnemonic_of_shortForm? hform]
  · rw [decoded_eq_of_code_eq (Arch.regular_of_mem (hop ▸ htmem)) hu ht hop hcode]
    exact spelled_short? hs hread h

/-- What is printed for a selection that reads as it stands encodes to its code,
shortened. -/
theorem encode_printed (hmem : s.opcode ∈ arch.opcodes) (hs : s.IsBound) (hread : s.IsRead) :
    arch.encode s.printed = .ok (arch.shorten (s.code arch.byteOrder)) := by
  have hanswers := answers_printed hmem hs hread
  rw [Arch.encode_eq_ok_iff]
  refine ⟨s.short?.getD s, Arch.select?_eq hanswers hread.fits, ?_⟩
  cases hshort : s.short? with
  | none => exact ⟨hread.fits, (shorten_code hmem hs hread.fits hshort).symm⟩
  | some t =>
      exact ⟨fits_of_short? hs hread.fits hshort,
        (shorten_code_of_short? hmem hs hread hshort).symm⟩

/-- The shortened code is decoded to the same text, if the code itself is decoded as its
own opcode. -/
theorem decode?_shorten_code (hmem : s.opcode ∈ arch.opcodes) (hs : s.IsBound)
    (hread : s.IsRead) (hdec : arch.decode? (s.code arch.byteOrder) = some s.decoded) :
    ∃ d, arch.decode? (arch.shorten (s.code arch.byteOrder)) = some d ∧
      d.mnemonic = s.opcode.mnemonic ∧ d.operands = s.spelled := by
  cases hshort : s.short? with
  | none =>
      rw [shorten_code hmem hs hread.fits hshort]
      exact ⟨s.decoded, hdec, rfl, rfl⟩
  | some t =>
      rw [shorten_code_of_short? hmem hs hread hshort]
      exact decode?_code_short? hmem hs hread hshort

theorem length_shorten_code_le (hmem : s.opcode ∈ arch.opcodes) (hs : s.IsBound)
    (hread : s.IsRead) :
    (arch.shorten (s.code arch.byteOrder)).length ≤ s.opcode.length := by
  cases hshort : s.short? with
  | none =>
      have hcode := shorten_code hmem hs hread.fits hshort
      exact Nat.le_of_eq (by rw [hcode, length_code _ (Arch.regular_of_mem hmem) hs])
  | some t =>
      have ht := (answers_printed hmem hs hread).of_short? hshort
      rw [shorten_code_of_short? hmem hs hread hshort,
        length_code _ (Arch.regular_of_mem ht.mem) (Pattern.takes_of_bindAll? ht.bound)]
      exact Nat.le_of_lt (Opcode.length_lt_of_shortForm? (shortForm?_of_short? hshort))

end Selection

/-! ## Decoding -/

namespace Arch

variable {arch : Arch} {bytes : List Byte} {d : Decoded}

/-- What is decoded stands at the start of the bytes, as long as it says, and is decoded
by itself as well. -/
theorem exists_code_of_decode? (h : arch.decode? bytes = some d) :
    ∃ s : Selection, s.opcode ∈ arch.opcodes ∧ s.IsBound ∧ s.IsRead ∧ d = s.decoded ∧
      s.code arch.byteOrder = bytes.take d.length ∧ d.length ≤ bytes.length ∧
      arch.decode? (s.code arch.byteOrder) = some s.decoded := by
  obtain ⟨s, rest, hmem, hs, hread, rfl, rfl⟩ := exists_of_decode? h
  have hlen : (s.code arch.byteOrder).length = s.decoded.length :=
    Selection.length_code arch.byteOrder (regular_of_mem hmem) hs
  refine ⟨s, hmem, hs, hread, rfl, ?_, ?_, ?_⟩
  · rw [← hlen, List.take_left]
  · rw [← hlen, List.length_append]
    exact Nat.le_add_right _ _
  · rw [← decode?_code_append hmem hs rest, h]

theorem isSome_decode?_iff :
    (arch.decode? bytes).isSome = true ↔
      ∃ s : Selection, s.opcode ∈ arch.opcodes ∧ s.IsBound ∧
        ∃ code, s.encode arch.byteOrder = .ok code ∧ code <+: bytes := by
  rw [Option.isSome_iff_exists]
  constructor
  · rintro ⟨d, h⟩
    obtain ⟨s, rest, hmem, hs, hread, rfl, -⟩ := exists_of_decode? h
    exact ⟨s, hmem, hs, s.code arch.byteOrder, Selection.encode_of_fits _ hread.fits,
      List.prefix_append _ _⟩
  · rintro ⟨s, hmem, hs, code, hcode, rest, rfl⟩
    obtain ⟨-, rfl⟩ := Selection.encode_eq_ok_iff.mp hcode
    obtain ⟨t, -, -, -, -, -, hdec⟩ := decode?_code hmem hs
    exact ⟨t.decoded, by rw [decode?_code_append hmem hs, hdec]⟩

/-- **Decoding inverts encoding up to shortening.** Bytes are decoded if and only if they
start with what some opcode of the table encodes. The length decoded is positive and
within the bytes, and the printed line is read back as an instruction whose encoding is
the decoded bytes, shortened; that encoding is no longer, and is decoded to the same
text. -/
theorem decode_normal (arch : Arch) (bytes : List Byte) :
    ((arch.decode? bytes).isSome = true ↔
      ∃ s : Selection, s.opcode ∈ arch.opcodes ∧ s.IsBound ∧
        ∃ code, s.encode arch.byteOrder = .ok code ∧ code <+: bytes) ∧
    ∀ d, arch.decode? bytes = some d →
      1 ≤ d.length ∧ d.length ≤ bytes.length ∧
      ∃ i code d', Instruction.parse? d.render = some i ∧ arch.encode i = .ok code ∧
        code = arch.shorten (bytes.take d.length) ∧ code.length ≤ d.length ∧
        arch.decode? code = some d' ∧ d'.mnemonic = d.mnemonic ∧
        d'.operandText = d.operandText := by
  refine ⟨isSome_decode?_iff, ?_⟩
  intro d h
  obtain ⟨s, hmem, hs, hread, rfl, hcode, hle, hdec⟩ := exists_code_of_decode? h
  obtain ⟨d', hd', hmnemonic, hoperands⟩ := Selection.decode?_shorten_code hmem hs hread hdec
  refine ⟨length_pos_of_decode? h, hle, s.printed, arch.shorten (s.code arch.byteOrder), d',
    Selection.parse?_render_decoded hmem hs, Selection.encode_printed hmem hs hread, ?_,
    Selection.length_shorten_code_le hmem hs hread, hd', hmnemonic, ?_⟩
  · rw [hcode]
  · unfold Decoded.operandText
    rw [hoperands]
    rfl

/-- A jump that is longer than needed is printed and encoded as the short one. -/
theorem decode_normal_jump :
    i8086.decode? [0xE9, 0x10, 0x00, 0x90] = some ⟨.jmp, ["0x10"], 3⟩ ∧
      ∃ i code d', Instruction.parse? "JMP 0x10" = some i ∧ i8086.encode i = .ok code ∧
        code = i8086.shorten [0xE9, 0x10, 0x00] ∧ code.length ≤ 3 ∧
        i8086.decode? code = some d' ∧ d'.mnemonic = .jmp ∧ d'.operandText = "0x10" := by
  have h : i8086.decode? [0xE9, 0x10, 0x00, 0x90] = some ⟨.jmp, ["0x10"], 3⟩ := by
    decide +kernel
  exact ⟨h, ((decode_normal i8086 [0xE9, 0x10, 0x00, 0x90]).2 _ h).2.2⟩

end Arch

end Microlab
