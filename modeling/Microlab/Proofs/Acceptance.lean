import Microlab.Proofs.Refusal
import Microlab.Proofs.Opcode.Selection
import Mathlib.Data.List.Sections

/-!
# What is assembled is carried out

The tables of opcodes and the rules of refusal are written independently of one another. A
rule looks at names only, so it treats all operands that a pattern binds like one of a few
samples, and the two agree as soon as they agree on the samples. They do so for all opcodes
but those that the processors have no operation for.
-/

namespace Microlab

open Text

/-- The opcode has an encoding, but the processor refuses to carry it out: on the 8086 for
its mnemonic, on the 8051 because a direct byte would be written or internal memory be read
through a register. -/
def Opcode.isAssembledOnly : Arch → Opcode → Bool
  | .i8086, o =>
    o.mnemonic ∈ [.mul, .imul, .div, .idiv, .shl, .shr, .sar, .rol, .ror, .call, .ret, .jl, .jg]
  | .i8051, o =>
    o.operands.head? = some .direct ∨
      (o.mnemonic = .mov ∧
        (o.operands = [.exact "A", .exact "@R0"] ∨ o.operands = [.exact "A", .exact "@R1"]))

/-! ## Samples -/

namespace Pattern

/-- One number, or all words that the pattern binds. -/
def samples : Pattern → List String
  | exact word => [word]
  | field f => [f.spell 0]
  | register c => c.names.toList

/-- A bound operand goes by the same name as one of the samples. -/
theorem exists_sample_of_bind? {p : Pattern} {arch : Arch} {x : String} {b : Binding}
    (h : p.bind? arch x = some b) : ∃ sample ∈ p.samples, SameName arch x sample := by
  cases p with
  | exact word =>
      exact ⟨word, List.mem_singleton_self word, (sameOperand_of_word h rfl).sameName⟩
  | field f =>
      obtain ⟨v, hv, rfl⟩ := Option.map_eq_some_iff.mp h
      exact ⟨f.spell 0, List.mem_singleton_self _,
        Or.inr ⟨f, f, v, _, hv, f.bind?_spell arch (by decide)⟩⟩
  | register c =>
      obtain ⟨r, hr, rfl⟩ := Option.map_eq_some_iff.mp h
      have hmem : c.name r ∈ c.names.toList := by
        unfold RegisterClass.name
        exact Vector.mem_toList_iff.mpr (Vector.getElem_mem r.toFin.isLt)
      exact ⟨c.name r, hmem, (sameOperand_of_word h rfl).sameName⟩

theorem exists_samples_of_bindAll? {ps : List Pattern} {arch : Arch} {operands : List String}
    {bs : List Binding} (h : bindAll? arch ps operands = some bs) :
    ∃ xs ∈ (ps.map samples).sections, List.Forall₂ (SameName arch) operands xs := by
  induction ps generalizing operands bs with
  | nil =>
      obtain ⟨rfl, -⟩ := bindAll?_nil_eq_some.mp h
      exact ⟨[], List.mem_singleton_self [], .nil⟩
  | cons p ps ih =>
      obtain ⟨x, rest, b, cs, rfl, rfl, hb, hcs⟩ := bindAll?_cons_eq_some.mp h
      obtain ⟨y, hy, hxy⟩ := exists_sample_of_bind? hb
      obtain ⟨ys, hys, hrest⟩ := ih hcs
      rw [List.mem_sections] at hys
      refine ⟨y :: ys, ?_, .cons hxy hrest⟩
      rw [List.map_cons, List.mem_sections]
      exact .cons hy hys

end Pattern

/-! ## Rules and samples -/

/-- Whether the processor has an operation for the instruction, its mnemonic being known. -/
def Arch.hasOperation : Arch → Mnemonic → Instruction → Bool
  | i8086, m, i => (I8086.Operation.resolveKnown m i).toBool
  | i8051, m, i => (I8051.Operation.resolveKnown m i).toBool

theorem toBool_eq_false_iff {ε α : Type} {x : Except ε α} :
    x.toBool = false ↔ ∃ e, x = .error e := by
  cases x <;> simp [Except.toBool]

namespace Arch

variable {arch : Arch} {i i' : Instruction} {k : Mnemonic}

theorem hasOperation_eq_false_iff (hi : i.Names k) :
    arch.hasOperation k i = false ↔ ∃ r, arch.Refuses i r := by
  cases arch with
  | i8086 =>
      have hknown : I8086.Operation.resolve i = I8086.Operation.resolveKnown k i :=
        resolveBy_of_names hi
      refine toBool_eq_false_iff.trans (exists_congr fun r => ?_)
      rw [← hknown]
      exact I8086.Operation.resolve_eq_error_iff
  | i8051 =>
      have hknown : I8051.Operation.resolve i = I8051.Operation.resolveKnown k i :=
        resolveBy_of_names hi
      refine toBool_eq_false_iff.trans (exists_congr fun r => ?_)
      rw [← hknown]
      exact I8051.Operation.resolve_eq_error_iff

theorem Refuses.congr {r : Refusal} (hr : arch.Refuses i r) (hi : i.Names k)
    (hi' : i'.Names k) (h : List.Forall₂ (SameName arch) i.operands i'.operands) :
    ∃ r', arch.Refuses i' r' := by
  cases arch with
  | i8086 =>
      exact I8086.Refuses.congr hr (hi.iff hi')
        (Instruction.forall₂_arguments h fun x y hxy => I8086.Register.ofName?_congr hxy)
  | i8051 =>
      exact I8051.Refuses.congr hr (hi.iff hi')
        (Instruction.forall₂_arguments h fun x y hxy => I8051.SameLookup.of_sameName hxy)

theorem exists_refuses_congr (hi : i.Names k) (hi' : i'.Names k)
    (h : List.Forall₂ (SameName arch) i.operands i'.operands) :
    (∃ r, arch.Refuses i r) ↔ ∃ r, arch.Refuses i' r := by
  have hflip : List.Forall₂ (SameName arch) i'.operands i.operands :=
    h.flip.imp fun x y (hxy : SameName arch y x) => hxy.symm
  constructor
  · rintro ⟨r, hr⟩
    exact hr.congr hi hi' h
  · rintro ⟨r, hr⟩
    exact hr.congr hi' hi hflip

/-- Tables and rules agree on the samples. -/
theorem hasOperation_samples (arch : Arch) :
    ∀ o ∈ arch.opcodes, ∀ xs ∈ (o.operands.map Pattern.samples).sections,
      arch.hasOperation o.mnemonic ⟨o.mnemonic.name, xs⟩ = !o.isAssembledOnly arch := by
  cases arch <;> decide +kernel

/-- An instruction that an opcode answers is refused exactly if the opcode is one of those
without an operation. -/
theorem exists_refuses_iff {s : Selection} (hs : s.Answers arch i) :
    (∃ r, arch.Refuses i r) ↔ s.opcode.isAssembledOnly arch = true := by
  obtain ⟨xs, hxs, hsame⟩ := Pattern.exists_samples_of_bindAll? hs.bound
  have hsample : Instruction.Names ⟨s.opcode.mnemonic.name, xs⟩ s.opcode.mnemonic :=
    Instruction.ofName?_eq_some_iff.mp (Mnemonic.ofName?_name _)
  rw [exists_refuses_congr hs.mnemonic hsample hsame, ← hasOperation_eq_false_iff hsample,
    hasOperation_samples arch _ hs.mem xs hxs, Bool.not_eq_false']

end Arch

/-! ## Agreement -/

/-- **Assembler and processor accept the same programs.** Whatever instruction has an
encoding is carried out in every state, unless the opcode that encodes it is one of those
without an operation; then every state refuses it and stays as it is. -/
theorem Cpu.executes_encoded (arch : Arch) (i : Instruction) (bytes : List Byte)
    (h : arch.encode i = .ok bytes) :
    ∃ s, arch.select? i = some s ∧ s.Answers arch i ∧
      (s.opcode.isAssembledOnly arch = false →
        ∀ m : Cpu arch, ∃ ran, m.attempt i = .ok ran ∧ m.execute i = ran) ∧
      (s.opcode.isAssembledOnly arch = true →
        ∀ m : Cpu arch, (∃ r, m.attempt i = .error r) ∧ (m.execute i).1 = m) := by
  obtain ⟨s, hsel, -, -⟩ := Arch.encode_eq_ok_iff.mp h
  have hs := Arch.answers_of_select? hsel
  have hrefused := Arch.exists_refuses_iff hs
  refine ⟨s, hsel, hs, ?_, ?_⟩
  · intro honly m
    cases hm : m.attempt i with
    | error r =>
        have honly' := hrefused.mp ⟨r, attempt_eq_error_iff.mp hm⟩
        rw [honly] at honly'
        cases honly'
    | ok ran => exact ⟨ran, rfl, execute_of_attempt_ok hm⟩
  · intro honly m
    obtain ⟨r, hr⟩ := hrefused.mpr honly
    have hm : m.attempt i = .error r := attempt_eq_error_iff.mpr hr
    exact ⟨⟨r, hm⟩, by rw [execute_of_attempt_error hm]⟩

/-- A short form is carried out, and an increment of internal memory is not. -/
theorem Cpu.executes_encoded_or_not :
    (Arch.i8086.encode ⟨"add", [" ax ", "5"]⟩ = .ok [0x05, 0x05, 0x00] ∧
      ∀ m : Cpu .i8086, ∃ ran, m.attempt ⟨"add", [" ax ", "5"]⟩ = .ok ran ∧
        m.execute ⟨"add", [" ax ", "5"]⟩ = ran) ∧
    (Arch.i8051.encode ⟨"INC", ["30H"]⟩ = .ok [0x05, 0x30] ∧
      ∀ m : Cpu .i8051, (∃ r, m.attempt ⟨"INC", ["30H"]⟩ = .error r) ∧
        (m.execute ⟨"INC", ["30H"]⟩).1 = m) := by
  have hadd : Arch.i8086.encode ⟨"add", [" ax ", "5"]⟩ = .ok [0x05, 0x05, 0x00] := by decide +kernel
  have hinc : Arch.i8051.encode ⟨"INC", ["30H"]⟩ = .ok [0x05, 0x30] := by decide +kernel
  obtain ⟨s, hs, -, hdone, -⟩ := executes_encoded .i8086 _ _ hadd
  obtain ⟨t, ht, -, -, hrefused⟩ := executes_encoded .i8051 _ _ hinc
  have hshort : Arch.i8086.select? ⟨"add", [" ax ", "5"]⟩
      = some ⟨⟨.add, [], 0x05, 3, .plain, [.exact "AX", .imm16]⟩, [.fixed, .value 5]⟩ := by
    decide +kernel
  have hdirect : Arch.i8051.select? ⟨"INC", ["30H"]⟩
      = some ⟨⟨.inc, [], 0x05, 2, .plain, [.direct]⟩, [.value 0x30]⟩ := by
    decide +kernel
  obtain rfl := Option.some.inj (hs.symm.trans hshort)
  obtain rfl := Option.some.inj (ht.symm.trans hdirect)
  exact ⟨⟨hadd, hdone (by decide)⟩, hinc, hrefused (by decide)⟩

end Microlab
