import Microlab.Cpu
import Microlab.Proofs.I8051.Trace
import Microlab.Proofs.I8086.Trace

/-!
# Traces

The number in a trace is the one that was computed. Whether the destination has all of it is
said for each processor.
-/

namespace Microlab.Cpu

def Reports : {a : Arch} → Cpu a → Instruction → Cpu a → String → Prop
  | .i8086, m => I8086.Machine.Reports m
  | .i8051, m => I8051.Machine.Reports m

/-- **What a trace reports.** In every state of either processor, the trace of an accepted
instruction with a destination gives the number that the destination then has. There are two
exceptions. On the 8086 the result of two operands is reported as it was computed, in sixteen
bits unless both operands are bytes, and a byte register has the low half of it. On the 8051
a move to the status word, or counting there, is reported without the parity bit, which is
that of the accumulator. -/
theorem trace_reports (arch : Arch) (m next : Cpu arch) (i : Instruction) (trace : String)
    (hran : m.attempt i = .ok (next, trace)) : m.Reports i next trace := by
  cases arch with
  | i8086 => exact I8086.Machine.reports_of_attempt hran
  | i8051 => exact I8051.Machine.reports_of_attempt hran

/-- A byte of ones counts up to zero, which is also what the trace says. -/
theorem trace_reports_wrapped :
    let m : I8086.Machine := (I8086.Machine.initial.execute ⟨"MOV", ["AL", "0FFH"]⟩).1
    ∃ next trace, m.attempt ⟨"inc", [" AL"]⟩ = .ok (next, trace) ∧
      next.registers.get (.byte .al) = 0 ∧ trace = "inc AL (result: 0)" := by
  intro m
  have hi : (⟨"inc", [" AL"]⟩ : Instruction).Names .inc :=
    Instruction.ofName?_eq_some_iff.mp (by decide +kernel)
  have hasks : asked (I8086.Operation.resolve ⟨"inc", [" AL"]⟩)
      = some (.increment (.byte .al)) := by decide +kernel
  obtain ⟨trace, hran⟩ := Step.exists_attempt_of_asked (I8086.Handler.handle_eq _) hasks m
  have hreports : I8086.Machine.Reports m ⟨"inc", [" AL"]⟩ _ trace :=
    trace_reports .i8086 m _ ⟨"inc", [" AL"]⟩ trace hran
  obtain ⟨d, r, hargs, hd, htrace⟩ := hreports.step (Or.inl hi)
  have hwords : (⟨"inc", [" AL"]⟩ : Instruction).arguments = ["AL"] := by decide +kernel
  obtain rfl : d = "AL" := by simpa using hargs.symm.trans hwords
  obtain rfl : r = .byte .al := Option.some.inj (hd.symm.trans (by decide +kernel))
  have hvalue : (m.apply (.increment (.byte .al))).1.registers.get (.byte .al) = 0 := by
    decide +kernel
  rw [hvalue] at htrace
  exact ⟨_, trace, hran, hvalue, htrace.trans (by decide +kernel)⟩

/-- A byte register that counts as one of two operands has zero where the trace says 256, and
the status word has zero where the trace says one. -/
theorem reports_other_than_stored :
    let m : I8086.Machine := (I8086.Machine.initial.execute ⟨"MOV", ["AL", "0FFH"]⟩).1
    let k := I8051.Machine.initial
    (m.execute ⟨"ADD", ["AL", "1"]⟩).2 = "ADD AL, 1 (result: 256)" ∧
      (m.execute ⟨"ADD", ["AL", "1"]⟩).1.registers.get (.byte .al) = 0 ∧
      (k.execute ⟨"MOV", ["PSW", "#1"]⟩).2 = "MOV PSW, #1 (value: 1, registers: A=0, B=0)" ∧
      (k.execute ⟨"MOV", ["PSW", "#1"]⟩).1.get .psw = 0 := by
  decide +kernel

end Microlab.Cpu
