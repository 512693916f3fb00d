import Microlab.Cpu
import Microlab.Proofs.I8086.Refusal
import Microlab.Proofs.I8051.Refusal

/-!
# Refusals are atomic

Whether a processor refuses an instruction, and why, is settled by rules that look at the
instruction only. A handler may write what it likes before it refuses, and what it has written
stays; but it has come through all of its checks before it writes. So a refused instruction
changes nothing and its trace is the reason, and the trace too is the same in every state. Any
other instruction is carried out in every state.
-/

namespace Microlab

/-- The processor has a rule that refuses the instruction. -/
def Arch.Refuses : Arch → Instruction → Refusal → Prop
  | i8086 => I8086.Refuses
  | i8051 => I8051.Refuses

namespace Cpu

variable {arch : Arch} {i : Instruction} {r : Refusal}

theorem attempt_eq_error_iff {m : Cpu arch} :
    m.attempt i = .error r ↔ arch.Refuses i r := by
  cases arch with
  | i8086 =>
      exact (Step.attempt_eq_error_iff (I8086.Handler.handle_eq i)).trans
        I8086.Operation.resolve_eq_error_iff
  | i8051 =>
      exact (Step.attempt_eq_error_iff (I8051.Handler.handle_eq i)).trans
        I8051.Operation.resolve_eq_error_iff

/-- Where a rule applies, the handler ends with its reason and in the state it began in. -/
theorem run_of_refuses (m : Cpu arch) (h : arch.Refuses i r) : m.run i = (.error r, m) := by
  cases arch with
  | i8086 =>
      exact Step.runFrom_of_error (I8086.Handler.handle_eq i)
        (I8086.Operation.resolve_eq_error_iff.mpr h)
  | i8051 =>
      exact Step.runFrom_of_error (I8051.Handler.handle_eq i)
        (I8051.Operation.resolve_eq_error_iff.mpr h)

theorem execute_of_attempt_error {m : Cpu arch} (h : m.attempt i = .error r) :
    m.execute i = (m, r.message i.mnemonic) := by
  cases arch with
  | i8086 => exact Step.execute_of_attempt_error (I8086.Handler.handle_eq i) h
  | i8051 => exact Step.execute_of_attempt_error (I8051.Handler.handle_eq i) h

theorem execute_of_attempt_ok {m : Cpu arch} {ran : Cpu arch × String}
    (h : m.attempt i = .ok ran) : m.execute i = ran := by
  cases arch with
  | i8086 => exact Step.execute_of_attempt_ok h
  | i8051 => exact Step.execute_of_attempt_ok h

theorem run_of_attempt_ok {m next : Cpu arch} {trace : String}
    (h : m.attempt i = .ok (next, trace)) : m.run i = (.ok trace, next) := by
  cases arch with
  | i8086 => exact Step.runFrom_of_attempt_ok h
  | i8051 => exact Step.runFrom_of_attempt_ok h

/-- **Refusals are atomic and do not depend on the state.** Either a rule refuses the
instruction; then in every state of the processor the handler ends with this reason and leaves
the whole state as it was, and the trace is the message of the reason. Or no rule does; then
every state carries it out, and what the handler leaves is the state that the instruction
leads to. -/
theorem refusal_atomic (arch : Arch) (i : Instruction) :
    (∃ r, arch.Refuses i r ∧ ∀ m : Cpu arch,
      m.run i = (.error r, m) ∧
        m.attempt i = .error r ∧ m.execute i = (m, r.message i.mnemonic)) ∨
    ((∀ r, ¬ arch.Refuses i r) ∧ ∀ m : Cpu arch, ∃ next trace,
      m.run i = (.ok trace, next) ∧
        m.attempt i = .ok (next, trace) ∧ m.execute i = (next, trace)) := by
  by_cases h : ∃ r, arch.Refuses i r
  · obtain ⟨r, hr⟩ := h
    refine Or.inl ⟨r, hr, ?_⟩
    intro m
    have hm : m.attempt i = .error r := attempt_eq_error_iff.mpr hr
    exact ⟨m.run_of_refuses hr, hm, execute_of_attempt_error hm⟩
  · have hnone : ∀ r, ¬ arch.Refuses i r := fun r hr => h ⟨r, hr⟩
    refine Or.inr ⟨hnone, ?_⟩
    intro m
    cases hm : m.attempt i with
    | error r => exact absurd (attempt_eq_error_iff.mp hm) (hnone r)
    | ok ran =>
        obtain ⟨next, trace⟩ := ran
        exact ⟨next, trace, run_of_attempt_ok hm, rfl, execute_of_attempt_ok hm⟩

end Cpu

end Microlab
