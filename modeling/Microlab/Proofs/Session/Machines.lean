import Microlab.Proofs.Memory
import Microlab.Session.Basic

/-!
# The two machines of a session

Each machine can be looked at and replaced on its own: what is stored for one processor
is found there, the other machine stays, and nothing else in the session moves.
-/

namespace Microlab

theorem Arch.exists_other (a : Arch) : ∃ b, b ≠ a ∧ ∀ c, c ≠ b → c = a := by
  cases a with
  | i8086 => exact ⟨.i8051, by decide, fun c => by cases c <;> decide⟩
  | i8051 => exact ⟨.i8086, by decide, fun c => by cases c <;> decide⟩

namespace Cpu

theorem memory_initial (a : Arch) : (initial a).memory = .blank a.addressBits := by
  cases a <;> rfl

/-- A reset leaves nothing of what a machine has been through. -/
theorem reset_eq_initial {a : Arch} (m : Cpu a) : m.reset = initial a := by
  cases a with
  | i8086 =>
      show ({ I8086.Machine.initial with memory := m.memory.clear } : I8086.Machine) = _
      rw [Memory.clear_eq_blank]
      rfl
  | i8051 =>
      show ({ I8051.Machine.initial with memory := m.memory.clear } : I8051.Machine) = _
      rw [Memory.clear_eq_blank]
      rfl

end Cpu

namespace Session

variable (s : Session) {a b : Arch}

@[simp] theorem cpu_setCpu (m : Cpu a) : (s.setCpu m).cpu a = m := by
  cases a <;> rfl

theorem cpu_setCpu_of_ne (m : Cpu a) (h : b ≠ a) : (s.setCpu m).cpu b = s.cpu b := by
  cases a <;> cases b <;> first | rfl | exact absurd rfl h

@[simp] theorem setCpu_cpu (a : Arch) : s.setCpu (s.cpu a) = s := by
  cases a <;> rfl

/-! ## What replacing a machine leaves alone -/

@[simp] theorem config_setCpu (m : Cpu a) : (s.setCpu m).config = s.config := by
  cases a <;> rfl

@[simp] theorem source_setCpu (m : Cpu a) : (s.setCpu m).source = s.source := by
  cases a <;> rfl

@[simp] theorem cursor_setCpu (m : Cpu a) : (s.setCpu m).cursor = s.cursor := by
  cases a <;> rfl

@[simp] theorem running_setCpu (m : Cpu a) : (s.setCpu m).running = s.running := by
  cases a <;> rfl

@[simp] theorem log_setCpu (m : Cpu a) : (s.setCpu m).log = s.log := by
  cases a <;> rfl

/-! ## What reporting leaves alone -/

@[simp] theorem cpu_report (entries : List LogEntry) (a : Arch) :
    (s.report entries).cpu a = s.cpu a := by
  cases a <;> rfl

/-! ## What a reset leaves -/

theorem cpu_reset (a : Arch) : s.reset.cpu a = .initial a := by
  cases a with
  | i8086 => exact s.i8086.reset_eq_initial
  | i8051 => exact s.i8051.reset_eq_initial

/-! ## The machines and the rest -/

/-- A session is its settings, its progress and its two machines. -/
theorem ext_cpu {s t : Session} (hconfig : s.config = t.config) (hsource : s.source = t.source)
    (hcursor : s.cursor = t.cursor) (hrunning : s.running = t.running) (hlog : s.log = t.log)
    (hcpu : ∀ a, s.cpu a = t.cpu a) : s = t := by
  have h86 : s.i8086 = t.i8086 := hcpu .i8086
  have h51 : s.i8051 = t.i8051 := hcpu .i8051
  cases s
  cases t
  simp_all only

end Session

end Microlab
