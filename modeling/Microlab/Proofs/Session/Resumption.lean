import Microlab.Proofs.Session.Run

/-!
# Interrupting a run and stepping on

A run and single steps go through the listing with the same reasons to end, looked at in
different orders. So a run that is interrupted anywhere can be finished by steps, and ends
as the run that nothing interrupts.

Both are compared with a walk of the active machine: a session has moved on by it when its
machine, its cursor and its log have, and nothing else. Moving on twice is moving on by
both walks.
-/

namespace Microlab.Session

/-- The session without a step limit. -/
def unlimited (s : Session) : Session :=
  { s with config := { s.config with stepLimit := none } }

/-- The successes in the log: assembled lines and executed instructions. -/
def trail (s : Session) : List LogEntry := s.log.toList.filter (·.kind = .success)

theorem trail_report (s : Session) (entries : List LogEntry) :
    (s.report entries).trail = s.trail ++ entries.filter (·.kind = .success) := by
  unfold trail report
  rw [Array.toList_appendList, List.filter_append]

theorem filter_mapIdx_traced (traces : List String) :
    (traces.mapIdx LogEntry.traced).filter (·.kind = .success) =
      traces.mapIdx LogEntry.traced := by
  rw [List.filter_eq_self]
  intro entry hentry
  obtain ⟨i, hi, rfl⟩ := List.mem_mapIdx.mp hentry
  rfl

/-! ## Moving on -/

section

variable {a : Arch} {s t u : Session} {m n : Cpu a} {traces more : List String}

/-- The session has moved on: its machine is now `m`, and got there with these traces. -/
structure MovedOn (s : Session) (m : Cpu a) (traces : List String) (t : Session) : Prop where
  active : t.cpu a = m
  other : ∀ b, b ≠ a → t.cpu b = s.cpu b
  arch : t.arch = s.arch
  source : t.source = s.source
  cursor : t.cursor = s.cursor + traces.length
  trail : t.trail = s.trail ++ traces.mapIdx fun j => LogEntry.traced (s.cursor + j)

theorem MovedOn.append (h₁ : s.MovedOn m traces t) (h₂ : t.MovedOn n more u) :
    s.MovedOn n (traces ++ more) u where
  active := h₂.active
  other b hb := (h₂.other b hb).trans (h₁.other b hb)
  arch := h₂.arch.trans h₁.arch
  source := h₂.source.trans h₁.source
  cursor := by rw [h₂.cursor, h₁.cursor, List.length_append, Nat.add_assoc]
  trail := by
    rw [h₂.trail, h₁.trail, h₁.cursor, List.mapIdx_append, List.append_assoc]
    simp only [Nat.add_assoc, Nat.add_comm traces.length]

theorem MovedOn.program (h : s.MovedOn m traces t) : t.program = s.program := by
  unfold Session.program
  rw [h.source]

/-- Two sessions have executed the same. -/
structure ExecutedAlike (t u : Session) : Prop where
  machines : ∀ a, t.cpu a = u.cpu a
  cursor : t.cursor = u.cursor
  trail : t.trail = u.trail

theorem MovedOn.alike (h₁ : s.MovedOn m traces t) (h₂ : s.MovedOn m traces u) :
    ExecutedAlike t u where
  machines b := by
    by_cases hb : b = a
    · subst hb
      rw [h₁.active, h₂.active]
    · rw [h₁.other b hb, h₂.other b hb]
  cursor := by rw [h₁.cursor, h₂.cursor]
  trail := by rw [h₁.trail, h₂.trail]

end

/-- A run moves on from the top, as far as its walk goes. -/
theorem runUntil_movedOn (s : Session) (stop : Nat → Bool) :
    { s with cursor := 0 }.MovedOn (s.walk stop).cpu (s.walk stop).traces
      (s.runUntil stop).1 where
  active := s.cpu_runUntil stop
  other _ hb := s.cpu_runUntil_of_ne stop hb
  arch := congrArg Config.arch (s.config_runUntil stop)
  source := s.source_runUntil stop
  cursor := (Nat.zero_add _).symm
  trail := by
    have hending : (endingReport (s.walk stop).ending).filter (·.kind = .success) = [] := by
      cases (s.walk stop).ending <;> rfl
    unfold trail
    rw [log_runUntil, Array.toList_appendList, List.filter_append]
    simp only [List.cons_append, List.filter_cons, List.filter_append, filter_mapIdx_traced,
      hending]
    simp [LogEntry.info]

/-! ## One step -/

section

variable {s : Session} {a : Arch}

/-- A step does nothing but report where a free walk would end. -/
theorem step_of_ending?_eq_some (ha : s.arch = a) {e : Ending}
    (h : Bounds.free.ending? s.cursor (s.cpu a) (s.program.drop s.cursor) = some e) :
    ∃ message, s.step = (s.report [.info message], none) := by
  subst ha
  unfold step
  cases hget : s.program[s.cursor]? with
  | none => exact ⟨_, rfl⟩
  | some i =>
      have hdue := Bounds.isDue_of_ending? h
      have hhalted : s.active.halted = true := by
        cases e with
        | finished =>
            have hnil : s.program.drop s.cursor = [] := hdue
            rw [List.drop_eq_nil_iff, ← List.getElem?_eq_none_iff, hget] at hnil
            cases hnil
        | halted => exact hdue.2
        | stopped => cases hdue.2.2
        | limited => cases hdue.2.2.2
      exact ⟨_, by simp only [hhalted]; rfl⟩

theorem report_info_movedOn (message : String) :
    s.MovedOn (s.cpu a) [] (s.report [.info message]) where
  active := cpu_report s _ a
  other b _ := cpu_report s _ b
  arch := rfl
  source := rfl
  cursor := rfl
  trail := trail_report s _

/-- A step executes the instruction that a free walk would execute next. -/
theorem step_of_ending?_eq_none (ha : s.arch = a) {i : Instruction} {rest : List Instruction}
    (hdrop : s.program.drop s.cursor = i :: rest)
    (h : Bounds.free.ending? s.cursor (s.cpu a) (i :: rest) = none) :
    s.step =
      ({ s.setCpu ((s.cpu a).execute i).1 with cursor := s.cursor + 1 }.report
        [.traced s.cursor ((s.cpu a).execute i).2], some ((s.cpu a).execute i).2) := by
  subst ha
  have hget : s.program[s.cursor]? = some i := by
    rw [← List.head?_drop, hdrop]
    rfl
  have hrunning : s.active.halted = false := (Bounds.ending?_eq_none_iff.mp h).2.1
  unfold step
  rw [hget]
  simp only [hrunning]
  rfl

theorem report_traced_movedOn (m : Cpu a) (trace : String) :
    s.MovedOn m [trace]
      ({ s.setCpu m with cursor := s.cursor + 1 }.report [.traced s.cursor trace]) where
  active := cpu_setCpu s m
  other _ hb := cpu_setCpu_of_ne s m hb
  arch := congrArg Config.arch (config_setCpu s m)
  source := source_setCpu s m
  cursor := rfl
  trail := by
    rw [trail_report]
    unfold trail
    rw [log_setCpu]
    rfl

end

/-! ## All steps -/

/-- A step that executes an instruction leaves less of the listing. -/
theorem measure_step {s t : Session} {trace : String} (h : s.step = (t, some trace)) :
    t.program.length - t.cursor < s.program.length - s.cursor := by
  cases he : Bounds.free.ending? s.cursor (s.cpu s.arch) (s.program.drop s.cursor) with
  | some e =>
      obtain ⟨message, hstep⟩ := step_of_ending?_eq_some rfl he
      rw [hstep] at h
      cases h
  | none =>
      obtain ⟨hne, -⟩ := Bounds.ending?_eq_none_iff.mp he
      obtain ⟨i, rest, hdrop⟩ := List.exists_cons_of_ne_nil hne
      rw [hdrop] at he
      rw [step_of_ending?_eq_none rfl hdrop he] at h
      cases h
      have hmoved := report_traced_movedOn (s := s) ((s.cpu s.arch).execute i).1
        ((s.cpu s.arch).execute i).2
      rw [ne_eq, List.drop_eq_nil_iff] at hne
      rw [hmoved.program, hmoved.cursor, List.length_singleton]
      omega

/-- Steps until there is nothing left to execute, and collects the traces. -/
def stepThrough (s : Session) : Session × List String :=
  match _h : s.step with
  | (next, none) => (next, [])
  | (next, some trace) =>
    let (last, traces) := next.stepThrough
    (last, trace :: traces)
termination_by s.program.length - s.cursor
decreasing_by exact measure_step _h

theorem stepThrough_of_step_eq_none {s t : Session} (h : s.step = (t, none)) :
    s.stepThrough = (t, []) := by
  rw [stepThrough]
  split
  · rename_i next hnext
    rw [h] at hnext
    cases hnext
    rfl
  · rename_i next trace hnext
    rw [h] at hnext
    cases hnext

theorem stepThrough_of_step_eq_some {s t : Session} {trace : String}
    (h : s.step = (t, some trace)) :
    s.stepThrough = (t.stepThrough.1, trace :: t.stepThrough.2) := by
  rw [stepThrough]
  split
  · rename_i next hnext
    rw [h] at hnext
    cases hnext
  · rename_i next trace' hnext
    rw [h] at hnext
    cases hnext
    rfl

/-- Stepping walks the rest of the listing, and nothing but its end or the machine stops
it. -/
theorem stepThrough_along {a : Arch} (is : List Instruction) {s : Session} {m : Cpu a} {n : Nat}
    (ha : s.arch = a) (hm : s.cpu a = m) (hn : s.cursor = n) (his : s.program.drop n = is) :
    s.MovedOn (Walk.along .free n m is).cpu (Walk.along .free n m is).traces s.stepThrough.1 ∧
      s.stepThrough.2 = (Walk.along .free n m is).traces := by
  induction is generalizing s m n with
  | nil =>
      subst hm hn
      have he : Bounds.free.ending? s.cursor (s.cpu a) (s.program.drop s.cursor) =
          some .finished := by
        rw [his]
        rfl
      obtain ⟨message, hstep⟩ := step_of_ending?_eq_some ha he
      rw [stepThrough_of_step_eq_none hstep]
      exact ⟨report_info_movedOn message, rfl⟩
  | cons i rest ih =>
      subst hm hn
      cases he : Bounds.free.ending? s.cursor (s.cpu a) (i :: rest) with
      | some e =>
          rw [Walk.along_of_ending?_eq_some he]
          rw [← his] at he
          obtain ⟨message, hstep⟩ := step_of_ending?_eq_some ha he
          rw [stepThrough_of_step_eq_none hstep]
          exact ⟨report_info_movedOn message, rfl⟩
      | none =>
          rw [Walk.along_cons_of_ending?_eq_none he,
            stepThrough_of_step_eq_some (step_of_ending?_eq_none ha his he)]
          have hmoved := report_traced_movedOn (s := s) ((s.cpu a).execute i).1
            ((s.cpu a).execute i).2
          have hrest : s.program.drop (s.cursor + 1) = rest := by
            rw [← List.tail_drop, his]
            rfl
          obtain ⟨hlast, htraces⟩ := ih (hmoved.arch.trans ha) hmoved.active hmoved.cursor
            (by rw [hmoved.program]; exact hrest)
          exact ⟨hmoved.append hlast, congrArg (List.cons _) htraces⟩

/-! ## The whole listing -/

/-- Everything that the run without interruption executes, as a free walk. -/
def freeWalk (s : Session) : Walk s.arch := s.unlimited.walk fun _ => false

theorem unlimited_run_movedOn (s : Session) :
    { s with cursor := 0 }.MovedOn s.freeWalk.cpu s.freeWalk.traces s.unlimited.run.1 :=
  let ⟨active, other, arch, source, cursor, trail⟩ :=
    s.unlimited.runUntil_movedOn fun _ => false
  ⟨active, other, arch, source, cursor, trail⟩

/-- What an interrupted run leaves to be executed. -/
def remainder (s : Session) (stop : Nat → Bool) : Walk s.arch :=
  .along .free (s.walk stop).traces.length (s.walk stop).cpu
    (s.program.drop (s.walk stop).traces.length)

theorem freeWalk_eq (s : Session) (stop : Nat → Bool) :
    s.freeWalk = ⟨(s.remainder stop).cpu, (s.walk stop).traces ++ (s.remainder stop).traces,
      (s.remainder stop).ending⟩ := by
  have h := Walk.along_free_eq ⟨s.config.stepLimit, stop⟩ 0 s.active s.program
  simp only [Nat.zero_add] at h
  exact h

/-- The steps behind a run do what the run has left. -/
theorem stepThrough_runUntil (s : Session) (stop : Nat → Bool) :
    (s.runUntil stop).1.MovedOn (s.remainder stop).cpu (s.remainder stop).traces
        (s.runUntil stop).1.stepThrough.1 ∧
      (s.runUntil stop).1.stepThrough.2 = (s.remainder stop).traces := by
  have hrun := s.runUntil_movedOn stop
  apply stepThrough_along _ hrun.arch hrun.active rfl
  rw [hrun.program]
  rfl

/-- **An interruption changes nothing.** A run that is cut short anywhere, by a stop or by
the step limit, and is then finished by steps, executes what the run without a limit
executes: both machines, the cursor and the log of executed instructions end the same, and
the traces of the run and of the steps together are the traces of that run. Stepping from
the top is the case where nothing is left to the run. -/
theorem runUntil_then_stepThrough (s : Session) (stop : Nat → Bool) :
    let resumed := (s.runUntil stop).1.stepThrough
    let stepped := { s with cursor := 0 }.stepThrough
    (ExecutedAlike resumed.1 s.unlimited.run.1 ∧
      (s.walk stop).traces ++ resumed.2 = s.freeWalk.traces) ∧
    (ExecutedAlike stepped.1 s.unlimited.run.1 ∧ stepped.2 = s.freeWalk.traces) := by
  intro resumed stepped
  have hwhole := s.unlimited_run_movedOn
  constructor
  · obtain ⟨hrest, htraces⟩ := s.stepThrough_runUntil stop
    rw [freeWalk_eq s stop] at hwhole ⊢
    exact ⟨((s.runUntil_movedOn stop).append hrest).alike hwhole, by rw [htraces]⟩
  · obtain ⟨hall, htraces⟩ := stepThrough_along (s := { s with cursor := 0 }) s.program
      rfl rfl rfl rfl
    exact ⟨hall.alike hwhole, htraces⟩

end Microlab.Session
