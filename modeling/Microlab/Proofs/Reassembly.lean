import Microlab.Disassembly
import Microlab.Proofs.Opcode.NormalForm

/-!
# Disassembling and assembling again

Assembled bytes are disassembled into one line for each assembled instruction, and the
lines assemble to the same bytes. The lines are found one after the other: each decoded
length is that of the code at hand, so the next code starts where the next line does.
-/

namespace Microlab

open Text

/-- The mnemonic that is printed for one of a source line in capitals. -/
def Arch.printedName : Arch → String → String
  | i8086, "JZ" => "JE"
  | i8086, "JNZ" => "JNE"
  | _, mnemonic => mnemonic

/-! ## One instruction -/

theorem Arch.name_principal (arch : Arch) (m : Mnemonic) :
    (arch.principal m).name = arch.printedName m.name := by
  have hall : ∀ m ∈ Mnemonic.all, (arch.principal m).name = arch.printedName m.name := by
    cases arch <;> decide +kernel
  exact hall m m.mem_all

namespace Selection

theorem operands_decoded_ne {arch : Arch} {s : Selection} (hmem : s.opcode ∈ arch.opcodes)
    (hs : s.IsBound) : ∀ operand ∈ s.decoded.operands, operand.toList ≠ [] :=
  fun operand h => ((isNormal_printed hmem hs).operand operand h).nonempty

end Selection

/-- The line of a decoded instruction is the instruction printed. -/
theorem Decoded.text_eq {d : Decoded} (h : ∀ operand ∈ d.operands, operand.toList ≠ [])
    (address : Nat) (bytes : List Byte) :
    (⟨address, bytes, .instruction d⟩ : DisassemblyLine).text = d.render := by
  obtain ⟨m, operands, length⟩ := d
  cases operands with
  | nil => rfl
  | cons op ops =>
      have hne : (", ".intercalate (op :: ops)).isEmpty = false := by
        have hop := h op List.mem_cons_self
        rw [String.isEmpty_eq_false_iff, ne_eq, ← String.toList_eq_nil_iff,
          String.toList_intercalate]
        cases ops with
        | nil => simpa using hop
        | cons next ops => simp [List.intercalate_cons_cons]
      show (if (", ".intercalate (op :: ops)).isEmpty = true then _ else _) = _
      rw [hne]
      rfl

/-- The bytes of an instruction decode, whatever follows, to one that prints with the
principal mnemonic and assembles to the same bytes. -/
theorem Arch.exists_decoded_of_encode {arch : Arch} {i : Instruction} {code : List Byte}
    (h : arch.encode i = .ok code) (hcapitals : upper i.mnemonic.toList = i.mnemonic.toList) :
    ∃ t : Selection, t.opcode ∈ arch.opcodes ∧ t.IsBound ∧
      (∀ rest, arch.decode? (code ++ rest) = some t.decoded) ∧
      t.decoded.length = code.length ∧ arch.encode t.printed = .ok code ∧
      t.opcode.mnemonic.name = arch.printedName i.mnemonic := by
  have hshort := shorten_of_encode h
  obtain ⟨s, hsel, hfit, rfl⟩ := encode_eq_ok_iff.mp h
  have hs := answers_of_select? hsel
  have hsb := Pattern.takes_of_bindAll? hs.bound
  obtain ⟨t, htmem, htb, hread, hcode, hmnemonic, -, hlen, hdec⟩ :=
    decode?_code_principal hs.mem hsb
  refine ⟨t, htmem, htb, hdec, ?_, ?_, ?_⟩
  · rw [Selection.length_code _ (regular_of_mem hs.mem) hsb, ← hlen]
    rfl
  · rw [Selection.encode_printed htmem htb hread, hcode, hshort]
  · have hname : s.opcode.mnemonic.name = i.mnemonic := by
      have hsame := sameLetters_iff.mp hs.mnemonic
      rw [Mnemonic.upper_name, hcapitals] at hsame
      exact String.toList_inj.mp hsame
    rw [hmnemonic, name_principal, hname]

/-! ## Reading the source -/

theorem Instruction.capitals_of_parse? {line : String} {i : Instruction}
    (h : parse? line = some i) : upper i.mnemonic.toList = i.mnemonic.toList := by
  unfold parse? at h
  split at h
  · cases h
  · next mnemonic rest _ =>
    cases h
    simp [upper_upper]

theorem SourceLine.exists_of_mem_ofLines {texts : List String} {n : Nat} {l : SourceLine}
    (h : l ∈ ofLines n texts) : ∃ text ∈ texts, Instruction.parse? text = some l.instruction := by
  induction texts generalizing n with
  | nil => simp [ofLines] at h
  | cons text texts ih =>
      unfold ofLines at h
      split at h
      · obtain ⟨t, ht, hparse⟩ := ih h
        exact ⟨t, List.mem_cons_of_mem _ ht, hparse⟩
      · next i hi =>
        rcases List.mem_cons.mp h with rfl | h
        · exact ⟨text, List.mem_cons_self, hi⟩
        · obtain ⟨t, ht, hparse⟩ := ih h
          exact ⟨t, List.mem_cons_of_mem _ ht, hparse⟩

theorem SourceLine.capitals_of_mem_ofLines {texts : List String} {n : Nat} {l : SourceLine}
    (h : l ∈ ofLines n texts) :
    upper l.instruction.mnemonic.toList = l.instruction.mnemonic.toList := by
  obtain ⟨text, -, hread⟩ := exists_of_mem_ofLines h
  exact Instruction.capitals_of_parse? hread

/-- Lines that each hold an instruction are read as these instructions. -/
theorem SourceLine.map_instruction_ofLines {texts : List String} {is : List Instruction}
    (h : List.Forall₂ (fun text i => Instruction.parse? text = some i) texts is) (n : Nat) :
    (ofLines n texts).map SourceLine.instruction = is := by
  induction h generalizing n with
  | nil => rfl
  | @cons text i texts is hi _ ih =>
      unfold ofLines
      rw [hi]
      exact congrArg (i :: ·) (ih (n + 1))

/-! ## Going through the bytes -/

/-- One step of disassembly takes the decoded bytes off the front. -/
theorem disassembleAt_append {arch : Arch} {code rest : List Byte} {d : Decoded}
    (hdec : arch.decode? (code ++ rest) = some d) (hlen : d.length = code.length)
    (address : Nat) :
    disassembleAt arch address (code ++ rest)
      = ⟨address, code, .instruction d⟩ :: disassembleAt arch (address + code.length) rest := by
  have hpos := Arch.length_pos_of_decode? hdec
  cases code with
  | nil => simp [hlen] at hpos
  | cons b code =>
      rw [List.cons_append] at hdec ⊢
      rw [disassembleAt]
      split
      · next d' hd' =>
        obtain rfl := Option.some.inj (hdec.symm.trans hd')
        rw [hlen, ← List.cons_append, List.take_left, List.drop_left]
      · next hnone =>
        rw [hdec] at hnone
        cases hnone

/-- The line recovers the assembled instruction: it stands at the same address and has
the same bytes, and its text assembles to them. -/
def Recovers (arch : Arch) (e : Encoded) (l : DisassemblyLine) : Prop :=
  ∃ t : Selection, t.opcode ∈ arch.opcodes ∧ t.IsBound ∧
    l = ⟨e.address, e.bytes, .instruction t.decoded⟩ ∧ arch.encode t.printed = .ok e.bytes ∧
    t.opcode.mnemonic.name = arch.printedName e.source.instruction.mnemonic

/-- Wherever the lines are laid out, disassembly recovers what was assembled. The lines
that have no encoding leave no trace. -/
theorem forall₂_recovers {arch : Arch} {lines : List SourceLine}
    (hcapitals : ∀ l ∈ lines,
      upper l.instruction.mnemonic.toList = l.instruction.mnemonic.toList) (address : Nat) :
    List.Forall₂ (Recovers arch) (Assembly.ofLines arch address lines).instructions
      (disassembleAt arch address (Assembly.ofLines arch address lines).bytes) := by
  induction lines generalizing address with
  | nil =>
      show List.Forall₂ _ [] (disassembleAt arch address [])
      rw [disassembleAt]
      exact .nil
  | cons line lines ih =>
      have ih := ih fun l hl => hcapitals l (List.mem_cons_of_mem _ hl)
      unfold Assembly.ofLines
      split
      · next code hcode =>
        -- the code decodes in front of whatever the other lines assemble to
        obtain ⟨t, hmem, ht, hdec, hlen, hencode, hname⟩ :=
          Arch.exists_decoded_of_encode hcode (hcapitals line List.mem_cons_self)
        show List.Forall₂ _ (_ :: _) (disassembleAt arch address (code ++ _))
        rw [disassembleAt_append (hdec _) hlen]
        exact .cons ⟨t, hmem, ht, rfl, hencode, hname⟩ (ih (address + code.length))
      · exact ih address

/-- Lines that all have an encoding are assembled without error. -/
theorem Assembly.ofLines_of_encode {arch : Arch} {lines : List SourceLine}
    {codes : List (List Byte)}
    (h : List.Forall₂ (fun i code => arch.encode i = .ok code)
      (lines.map SourceLine.instruction) codes) (address : Nat) :
    (ofLines arch address lines).errors = [] ∧
      (ofLines arch address lines).bytes = codes.flatten := by
  induction lines generalizing address codes with
  | nil =>
      cases h
      exact ⟨rfl, rfl⟩
  | cons line lines ih =>
      cases h with
      | @cons _ code _ codes hcode hcodes =>
          obtain ⟨herrors, hbytes⟩ := ih hcodes (address + code.length)
          unfold ofLines
          simp only [hcode]
          refine ⟨herrors, ?_⟩
          show code ++ (ofLines arch (address + code.length) lines).bytes = _
          rw [hbytes]
          rfl

/-- The text of a recovering line is one line of source, read as an instruction with the
same encoding. -/
theorem Recovers.exists_instruction {arch : Arch} {e : Encoded} {l : DisassemblyLine}
    (h : Recovers arch e l) :
    IsLine l.text.toList ∧
      ∃ i, Instruction.parse? l.text = some i ∧ arch.encode i = .ok e.bytes := by
  obtain ⟨t, hmem, ht, rfl, hencode, -⟩ := h
  rw [Decoded.text_eq (Selection.operands_decoded_ne hmem ht)]
  exact ⟨(Selection.isNormal_printed hmem ht).isLine, t.printed,
    Selection.parse?_render_decoded hmem ht, hencode⟩

/-- Texts of recovering lines assemble to the bytes of the lines. -/
theorem assemble_of_recovers {arch : Arch} {es : List Encoded} {ls : List DisassemblyLine}
    (h : List.Forall₂ (Recovers arch) es ls) :
    (assemble arch ("\n".intercalate (ls.map DisassemblyLine.text))).errors = [] ∧
      (assemble arch ("\n".intercalate (ls.map DisassemblyLine.text))).bytes
        = es.flatMap Encoded.bytes := by
  have hread : (∀ text ∈ ls.map DisassemblyLine.text, IsLine text.toList) ∧
      ∃ is, List.Forall₂ (fun text i => Instruction.parse? text = some i)
          (ls.map DisassemblyLine.text) is ∧
        List.Forall₂ (fun i code => arch.encode i = .ok code) is (es.map Encoded.bytes) := by
    induction h with
    | nil => exact ⟨by simp, [], .nil, .nil⟩
    | cons hel _ ih =>
        obtain ⟨hline, i, hparse, hencode⟩ := hel.exists_instruction
        obtain ⟨hlines, is, hparses, hencodes⟩ := ih
        exact ⟨List.forall_mem_cons.mpr ⟨hline, hlines⟩, i :: is, .cons hparse hparses,
          .cons hencode hencodes⟩
  obtain ⟨hlines, is, hparses, hencodes⟩ := hread
  unfold assemble SourceLine.parse
  rw [lines_intercalate hlines]
  rw [← SourceLine.map_instruction_ofLines hparses 1] at hencodes
  exact Assembly.ofLines_of_encode hencodes 0

/-- **Assembling, disassembling and assembling again.** Whatever the source, its bytes are
disassembled into one known line for each assembled instruction, at the same address,
with the same bytes and with the same mnemonic, or the principal one of two. The texts
of these lines are assembled without error to the same bytes. -/
theorem disassemble_assemble (arch : Arch) (source : String) :
    let asm := assemble arch source
    let lines := disassemble arch asm.bytes
    List.Forall₂ (fun e l => l.isKnown = true ∧ l.address = e.address ∧ l.bytes = e.bytes ∧
        l.mnemonic = arch.printedName e.source.instruction.mnemonic) asm.instructions lines ∧
      (assemble arch ("\n".intercalate (lines.map DisassemblyLine.text))).errors = [] ∧
      (assemble arch ("\n".intercalate (lines.map DisassemblyLine.text))).bytes = asm.bytes := by
  intro asm lines
  have hrecovers : List.Forall₂ (Recovers arch) asm.instructions lines :=
    forall₂_recovers (fun l hl => SourceLine.capitals_of_mem_ofLines hl) 0
  refine ⟨hrecovers.imp ?_, assemble_of_recovers hrecovers⟩
  rintro e l ⟨t, -, -, rfl, -, hname⟩
  exact ⟨rfl, rfl, rfl, hname⟩

end Microlab
