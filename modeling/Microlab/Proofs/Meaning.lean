import Microlab.Cpu
import Microlab.Proofs.I8086.Operation
import Microlab.Proofs.I8051.Operation
import Microlab.Proofs.Opcode.NormalForm

/-!
# The meaning of disassembled code

The assembler binds operands by templates and the processors look them up in tables of
their own. Both read an operand alike, so an instruction and what is printed for its
bytes do the same to a processor. Two exceptions are left out: a number with a sign in a
byte field is printed without it, and the direct byte `F0` is printed as register `B`.
-/

namespace Microlab

namespace Selection

/-- Some direct field stores the address of register `B`. -/
def StoresB (s : Selection) : Prop :=
  ∃ v : Int, (Pattern.direct, Binding.value v) ∈ s.opcode.operands.zip s.bound ∧
    BitVec.ofInt 8 v = 0xF0

variable {s t : Selection}

/-- A plain opcode without registers is encoded as its own bytes and the fields. -/
theorem code_of_plain {order : ByteOrder} (hs : s.IsBound) (hplain : s.opcode.form = .plain)
    (hzero : s.opcode.registerCount = 0) :
    s.code order = s.opcode.bytes ++ (s.fields.map fun f => stored order f.1 f.2).flatten := by
  have hregs : s.registers = [] := by
    rw [← List.length_eq_zero_iff, ← hzero]
    exact length_registersOf hs
  unfold code Opcode.head
  rw [hregs, hplain]
  simp [Opcode.bytes]

/-- The only codes that are decoded as spelling `B` are those with the address of `B`. -/
theorem storesB_of_onB? {order : ByteOrder} (hs : s.IsBound) (ht : t.IsBound)
    (h : s.opcode.onB? = some t.opcode) (hzero : s.opcode.registerCount = 0)
    (hcode : t.code order = s.code order) : s.StoresB := by
  obtain ⟨o, bs⟩ := s
  obtain ⟨b, cs⟩ := t
  rcases Opcode.onB?_eq_some h with ⟨m, last, n, a, rfl, rfl⟩ | ⟨m, last, n, ps, rfl, rfl⟩
  · rw [code_of_plain hs rfl hzero, code_of_plain ht rfl rfl, fields_eq, fields_eq] at hcode
    match bs, hs with
    | [.fixed, .value v], _ =>
        -- the second byte of one code is `F0`, that of the other the stored field
        have hbytes : last :: 0xF0 :: _ = last :: BitVec.ofInt 8 v :: _ := hcode
        exact ⟨v, by simp, (List.cons.inj (List.cons.inj hbytes).2).1.symm⟩
  · have hcount : Opcode.registerCount ⟨m, [last], 0xF0, n, .plain, .exact "B" :: ps⟩ = 0 := hzero
    rw [code_of_plain hs rfl hzero, code_of_plain ht rfl hcount, fields_eq, fields_eq] at hcode
    match bs, hs with
    | .value v :: bs, _ =>
        have hbytes : last :: 0xF0 :: _ = last :: BitVec.ofInt 8 v :: _ := hcode
        exact ⟨v, by simp, (List.cons.inj (List.cons.inj hbytes).2).1.symm⟩

/-- Selections with one code are printed with the same operands, if their opcodes have
the same template. -/
theorem spelled_eq_of_code_eq {order : ByteOrder} {m : Mnemonic} (hreg : t.opcode.Regular)
    (ht : t.IsBound) (hs : s.IsBound) (hop : t.opcode = { s.opcode with mnemonic := m })
    (hcode : t.code order = s.code order) : t.spelled = s.spelled := by
  have hsb : IsBound ⟨t.opcode, s.bound⟩ := by
    rw [hop]
    exact hs
  have hsame : t.code order = code order ⟨t.opcode, s.bound⟩ := by
    rw [hcode, hop]
    rfl
  have hdecoded := decoded_eq_of_code_eq hreg ht hsb rfl hsame
  have hoperands : t.spelled = List.zipWith Pattern.spell t.opcode.operands s.bound :=
    congrArg Decoded.operands hdecoded
  rw [hoperands, hop]
  rfl

end Selection

/-- **Disassembled code means what the source meant.** Take an instruction that is encoded,
with no signed number in a byte field and, on the 8051, no direct field that holds the
address of `B`. Then its bytes are decoded, the printed line is read as an instruction,
and that instruction takes every state of the processor to the state that the first one
takes it to. -/
theorem Cpu.execute_decoded {arch : Arch} (m : Cpu arch) {i : Instruction} {s : Selection}
    {code : List Byte} (hsel : arch.select? i = some s) (hcode : arch.encode i = .ok code)
    (hsign : ∀ v, (Width.byte, v) ∈ s.fields → 0 ≤ v) (hB : arch = .i8051 → ¬ s.StoresB) :
    ∃ d i', arch.decode? code = some d ∧ Instruction.parse? d.render = some i' ∧
      (m.execute i').1 = (m.execute i).1 := by
  obtain ⟨s', hsel', hfit, rfl⟩ := Arch.encode_eq_ok_iff.mp hcode
  obtain rfl := Option.some.inj (hsel.symm.trans hsel')
  have hs := Arch.answers_of_select? hsel
  have hsb : s.IsBound := Pattern.takes_of_bindAll? hs.bound
  obtain ⟨t, htmem, htb, -, htcode, hmnemonic, hsame, -, hdec⟩ :=
    Arch.decode?_code_principal hs.mem hsb
  -- the opcode that is decoded differs in its mnemonic only, since no field stores `B`
  have hop : t.opcode = { s.opcode with mnemonic := arch.principal s.opcode.mnemonic } := by
    rcases hsame with hop | ⟨honB, hzero⟩
    · exact hop
    · have hstores := Selection.storesB_of_onB? hsb htb honB hzero htcode
      cases arch with
      | i8086 =>
          rw [(Arch.principal_mem_i8086 hs.mem).2] at honB
          cases honB
      | i8051 => exact absurd hstores (hB rfl)
  -- so the operands printed are those of the source, which bound the same fields
  have hsay : List.Forall₂ (SameOperand arch) i.operands t.printed.operands := by
    show List.Forall₂ (SameOperand arch) i.operands t.spelled
    rw [Selection.spelled_eq_of_code_eq (Arch.regular_of_mem htmem) htb hsb hop htcode]
    rw [Selection.fits_iff_forall, Selection.fields_eq] at hfit
    rw [Selection.fields_eq] at hsign
    refine Pattern.forall₂_sameOperand hs.bound hfit ?_
    rintro ⟨w, v⟩ hf rfl
    exact hsign v hf
  have hi : Mnemonic.ofName? i.mnemonic = some s.opcode.mnemonic :=
    Mnemonic.ofName?_eq_some_iff.mpr hs.mnemonic
  have hi' : Mnemonic.ofName? t.printed.mnemonic = some (arch.principal s.opcode.mnemonic) := by
    rw [← hmnemonic]
    exact Mnemonic.ofName?_name t.opcode.mnemonic
  refine ⟨t.decoded, t.printed, ?_, Selection.parse?_render_decoded htmem htb, ?_⟩
  · have hwhole := hdec []
    rwa [List.append_nil] at hwhole
  · cases arch with
    | i8086 => exact (I8086.Machine.execute_congr m hi hi' hsay).symm
    | i8051 => exact (I8051.Machine.execute_congr m hi hi' hsay).symm

/-- The number `#C` is twelve to the assembler and to the processor. -/
theorem Cpu.execute_decoded_keyword :
    Arch.i8051.encode ⟨"mov", ["a", " #C "]⟩ = .ok [0x74, 0x0C] ∧
      ∃ d i', Arch.i8051.decode? [0x74, 0x0C] = some d ∧
        Instruction.parse? d.render = some i' ∧
        ((Cpu.initial .i8051).execute i').1
          = ((Cpu.initial .i8051).execute ⟨"mov", ["a", " #C "]⟩).1 := by
  have hcode : Arch.i8051.encode ⟨"mov", ["a", " #C "]⟩ = .ok [0x74, 0x0C] := by decide +kernel
  refine ⟨hcode, Cpu.execute_decoded (Cpu.initial .i8051)
    (s := ⟨⟨.mov, [], 0x74, 2, .plain, [.exact "A", .markedImm8]⟩, [.fixed, .value 12]⟩)
    (by decide +kernel) hcode ?_ ?_⟩
  · intro v hv
    obtain ⟨-, rfl⟩ := Prod.mk.inj (List.mem_singleton.mp hv)
    decide
  · rintro - ⟨v, hv, -⟩
    simp at hv

end Microlab
