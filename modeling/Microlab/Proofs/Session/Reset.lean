import Microlab.Proofs.Session.Isolation

/-!
# What a reset leaves

A reset keeps the settings, the source and the log of a session, and nothing else. No
action looks at the log to find out what to do: actions add to it, hand it out or clear
it. So a session does the same behind any older entries, and one that has been reset goes
on as a new session would, behind the entries that are there already.
-/

namespace Microlab.Session

/-! ## Older entries -/

/-- The session behind older log entries. -/
def behind (s : Session) (older : Array LogEntry) : Session := { s with log := older ++ s.log }

/-- The answer of a session behind older log entries, which show in the log only. -/
def Answer.behind (older : Array LogEntry) : Answer → Answer
  | .log entries => .log (older ++ entries)
  | answer => answer

/-- What is left of older log entries after an action. -/
def Action.leaves (older : Array LogEntry) : Action → Array LogEntry
  | .clearLog => #[]
  | _ => older

/-- The answers of a session behind older log entries, as long as these are left. -/
def answersBehind (older : Array LogEntry) : List Action → List Answer → List Answer
  | act :: acts, answer :: answers =>
    answer.behind older :: answersBehind (act.leaves older) acts answers
  | _, _ => []

variable {s : Session} {older : Array LogEntry}

theorem program_behind : (s.behind older).program = s.program := rfl

theorem cursor_behind : (s.behind older).cursor = s.cursor := rfl

theorem active_behind : (s.behind older).active = s.active := rfl

theorem halted_behind : (s.behind older).active.halted = s.active.halted := rfl

theorem report_behind (entries : List LogEntry) :
    (s.behind older).report entries = (s.report entries).behind older := by
  have hlog : older ++ s.log ++ entries = older ++ (s.log ++ entries) := by
    simp [← Array.toList_inj]
  exact congrArg (fun log => { s with log := log }) hlog

theorem setCpu_behind {a : Arch} (m : Cpu a) :
    (s.behind older).setCpu m = (s.setCpu m).behind older := by
  cases a <;> rfl

theorem step_behind : (s.behind older).step = (s.step.1.behind older, s.step.2) := by
  unfold step
  rw [program_behind, cursor_behind, halted_behind]
  cases s.program[s.cursor]? with
  | none => exact Prod.ext (report_behind _) rfl
  | some i =>
      cases s.active.halted with
      | true => exact Prod.ext (report_behind _) rfl
      | false =>
          refine Prod.ext ?_ rfl
          show Session.report { (s.behind older).setCpu (s.active.execute i).1 with
            cursor := s.cursor + 1 } [_] = _
          rw [setCpu_behind]
          exact report_behind (s := { s.setCpu (s.active.execute i).1 with
            cursor := s.cursor + 1 }) _

theorem runUntil_behind (stop : Nat → Bool) :
    (s.behind older).runUntil stop = ((s.runUntil stop).1.behind older, (s.runUntil stop).2) := by
  refine Prod.ext ?_ rfl
  show Session.report { (s.behind older).setCpu (s.walk stop).cpu with
    cursor := (s.walk stop).traces.length, running := false } _ = _
  rw [setCpu_behind]
  exact report_behind (s := { s.setCpu (s.walk stop).cpu with
    cursor := (s.walk stop).traces.length, running := false }) _

theorem assemble_behind :
    (s.behind older).assemble = (s.assemble.1.behind older, s.assemble.2) :=
  Prod.ext (report_behind _) rfl

theorem disassemble_behind :
    (s.behind older).disassemble = (s.disassemble.1.behind older, s.disassemble.2) :=
  Prod.ext (report_behind _) rfl

theorem loadProgram_behind :
    (s.behind older).loadProgram = (s.loadProgram.1.behind older, s.loadProgram.2) := by
  unfold loadProgram
  rw [assemble_behind]
  dsimp only
  rw [active_behind, setCpu_behind, report_behind]
  rfl

/-- An operation whose answer is no part of the log. -/
theorem map_behind {β : Type} {p q : Session × β} {f : β → Answer}
    (h : q = (p.1.behind older, p.2)) (hf : ∀ b, (f b).behind older = f b) :
    q.map id f = ((p.map id f).1.behind older, (p.map id f).2.behind older) := by
  rw [h]
  exact Prod.ext rfl (hf p.2).symm

/-- An action does the same behind older log entries. -/
theorem perform_behind (s : Session) (older : Array LogEntry) (act : Action) :
    (s.behind older).perform act =
      ((s.perform act).1.behind (act.leaves older), (s.perform act).2.behind older) := by
  cases act with
  | setSource source | clearLog | log | source | config => rfl
  | read address | memory start count | ports | snapshot => rfl
  | setArch a =>
      refine Prod.ext ?_ rfl
      exact report_behind (s := { s with config := { s.config with arch := a }, cursor := 0 }) _
  | reset =>
      refine Prod.ext ?_ rfl
      exact report_behind (s := { s with
        i8086 := s.i8086.reset, i8051 := s.i8051.reset, cursor := 0, running := false }) _
  | stop =>
      refine Prod.ext ?_ rfl
      exact report_behind (s := { s with running := false }) _
  | assemble => exact map_behind assemble_behind fun _ => rfl
  | disassemble => exact map_behind disassemble_behind fun _ => rfl
  | loadProgram => exact map_behind loadProgram_behind fun _ => rfl
  | run => exact map_behind (runUntil_behind _) fun _ => rfl
  | runUntil stop => exact map_behind (runUntil_behind stop) fun _ => rfl
  | step => exact map_behind step_behind fun _ => rfl
  | execute i =>
      refine Prod.ext ?_ rfl
      exact setCpu_behind _
  | write address b =>
      refine Prod.ext ?_ rfl
      exact setCpu_behind _
  | loadExternal address bytes =>
      obtain ⟨⟨arch, limit⟩, source, i8086, i8051, cursor, running, log⟩ := s
      cases arch with
      | i8086 => rfl
      | i8051 =>
          refine Prod.ext ?_ rfl
          exact report_behind (s := ⟨⟨.i8051, limit⟩, source, i8086,
            I8051.Machine.loadExternal i8051 address bytes, cursor, running, log⟩) _

/-- So does a history, in front of which all older entries are left until they are
cleared. -/
theorem performAll_behind (s : Session) (older : Array LogEntry) (acts : List Action) :
    (s.behind older).performAll acts =
      ((s.performAll acts).1.behind (acts.foldl Action.leaves older),
        answersBehind older acts (s.performAll acts).2) := by
  induction acts generalizing s older with
  | nil => rfl
  | cons act acts ih =>
      rw [performAll_cons, perform_behind]
      dsimp only
      rw [ih]
      rfl

/-! ## Resets -/

theorem log_reset (s : Session) : s.reset.log = s.log.push (.info "Simulator reset") := by
  show s.log ++ [LogEntry.info "Simulator reset"] = _
  simp

theorem reset_eq_behind (s : Session) :
    s.reset = ((new s.config).setSource s.source).behind s.reset.log := by
  refine ext_cpu rfl rfl rfl rfl Array.append_empty.symm ?_
  intro a
  rw [cpu_reset]
  cases a <;> rfl

/-- **A reset erases the history.** Whatever has been done to a session, its machines are
new ones after a reset, with zeros in memory. Whatever is done to it then, it is the session
that the same actions make of a new one with the same settings and source, and gives the
same answers; only the log still has the entries up to that of the reset in front, until it
is cleared. -/
theorem reset_erases_history (s : Session) :
    (∀ a, s.reset.cpu a = .initial a ∧ ∀ address, (s.reset.cpu a).memory.read address = 0) ∧
    s.reset.log = s.log.push (.info "Simulator reset") ∧
    ∀ acts : List Action,
      let fresh := (new s.config).setSource s.source
      (s.reset.performAll acts).1
        = (fresh.performAll acts).1.behind (acts.foldl Action.leaves s.reset.log) ∧
      (s.reset.performAll acts).2
        = answersBehind s.reset.log acts (fresh.performAll acts).2 := by
  refine ⟨?_, s.log_reset, ?_⟩
  · intro a
    refine ⟨s.cpu_reset a, ?_⟩
    intro address
    rw [cpu_reset, Cpu.memory_initial, Memory.read_blank]
  · intro acts fresh
    have hreset : s.reset.performAll acts = (fresh.behind s.reset.log).performAll acts :=
      congrArg (performAll · acts) s.reset_eq_behind
    rw [hreset, performAll_behind]
    exact ⟨rfl, rfl⟩

end Microlab.Session
