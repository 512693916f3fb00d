import Mathlib.Order.Bounds.Defs
import Microlab.Proofs.Session.Machines
import Microlab.Proofs.Session.Walk

/-!
# What a run does

A run executes the longest first part of the listing that the four reasons to end permit,
and leaves a session in which everything else is as it was, but for the cursor and the log.
-/

namespace Microlab.Session

/-- A run may not go on in front of an index: the listing is at its end there, what comes
before halts the machine, a stop is asked for, or the limit is reached. -/
def EndsAt (s : Session) (stop : Nat → Bool) (i : Nat) : Prop :=
  i = s.program.length ∨ (s.active.executeAll (s.program.take i)).1.halted = true ∨
    stop i = true ∨ ∃ limit, s.config.stepLimit = some limit ∧ limit ≤ i

/-- What a run says that is cut short in front of an index. -/
def interruption (stop : Nat → Bool) (i : Nat) : LogEntry :=
  .info (if stop i then "Execution stopped" else "Step limit reached")

/-- Running the session executes the first `k` instructions of its listing. -/
structure Runs (s : Session) (stop : Nat → Bool) (k : Nat) (t : Session)
    (o : RunOutcome) : Prop where
  active : t.cpu s.arch = (s.active.executeAll (s.program.take k)).1
  other : ∀ a, a ≠ s.arch → t.cpu a = s.cpu a
  config : t.config = s.config
  source : t.source = s.source
  cursor : t.cursor = k
  running : t.running = false
  executed : o.executed = k
  halted : o.halted = t.active.halted
  stopped : o.stopped = true ↔ k < s.program.length ∧ t.active.halted = false
  exclusive : ¬ (o.halted = true ∧ o.stopped = true)
  log : t.log = s.log ++
    (.info "--- Running Program ---"
      :: (s.active.executeAll (s.program.take k)).2.mapIdx LogEntry.traced
      ++ (if o.stopped then [interruption stop k] else [])
      ++ [.info "Program execution completed"])

variable (s : Session) (stop : Nat → Bool)

theorem walk_isLongest :
    Walk.IsLongest ⟨s.config.stepLimit, stop⟩ 0 s.active s.program (s.walk stop) :=
  Walk.along_isLongest _ _ _ _

theorem isReached_iff {limit : Option Nat} {i : Nat} :
    Bounds.isReached ⟨limit, stop⟩ i = true ↔ ∃ l, limit = some l ∧ l ≤ i := by
  unfold Bounds.isReached
  cases limit <;> simp

/-- Inside the listing, a run may go on in front of an index if the walk has no reason to
end there. -/
theorem endsAt_iff {i : Nat} (hi : i ≤ s.program.length) :
    s.EndsAt stop i ↔
      Bounds.ending? ⟨s.config.stepLimit, stop⟩ i (s.active.executeAll (s.program.take i)).1
        (s.program.drop i) ≠ none := by
  unfold EndsAt
  rw [ne_eq, Bounds.ending?_eq_none_iff, ← isReached_iff stop]
  have hdrop : s.program.drop i = [] ↔ i = s.program.length := by
    rw [List.drop_eq_nil_iff]
    omega
  rw [ne_eq, hdrop]
  show _ ↔ ¬ (_ ∧ _ ∧ stop i = false ∧ _)
  cases (s.active.executeAll (s.program.take i)).1.halted <;> cases stop i <;>
    cases Bounds.isReached ⟨s.config.stepLimit, stop⟩ i <;> simp

theorem isLeast_endsAt : IsLeast {i | s.EndsAt stop i} (s.walk stop).traces.length := by
  obtain ⟨hexec, hlen, hpass, hend⟩ := s.walk_isLongest stop
  constructor
  · show s.EndsAt stop _
    rw [endsAt_iff s stop hlen, hexec]
    rw [Nat.zero_add] at hend
    rw [hend]
    exact Option.some_ne_none _
  · intro i hi
    apply Nat.le_of_not_lt
    intro hlt
    have hnone := hpass i hlt
    rw [Nat.zero_add] at hnone
    exact (endsAt_iff s stop (by omega)).mp hi hnone

/-- The reason of the ending, in terms of the session. -/
theorem walk_isDue :
    Bounds.IsDue ⟨s.config.stepLimit, stop⟩ (s.walk stop).traces.length (s.walk stop).cpu
      (s.program.drop (s.walk stop).traces.length) (s.walk stop).ending := by
  have hend := (s.walk_isLongest stop).ends
  rw [Nat.zero_add] at hend
  exact Bounds.isDue_of_ending? hend

/-- A run is cut short inside the listing and on a machine that could go on. -/
theorem walk_interrupted_iff :
    ((s.walk stop).ending = .stopped ∨ (s.walk stop).ending = .limited) ↔
      (s.walk stop).traces.length < s.program.length ∧ (s.walk stop).cpu.halted = false := by
  have hdue := s.walk_isDue stop
  rw [← Nat.not_le, ← List.drop_eq_nil_iff]
  cases he : (s.walk stop).ending with
  | finished =>
      rw [he] at hdue
      have hdrop : s.program.drop (s.walk stop).traces.length = [] := hdue
      simp [hdrop]
  | halted =>
      rw [he] at hdue
      simp [hdue.2]
  | stopped =>
      rw [he] at hdue
      exact ⟨fun _ => ⟨hdue.1, hdue.2.1⟩, fun _ => Or.inl rfl⟩
  | limited =>
      rw [he] at hdue
      exact ⟨fun _ => ⟨hdue.1, hdue.2.1⟩, fun _ => Or.inr rfl⟩

/-- The entry at the end of a walk, if it is cut short, says why. -/
theorem endingReport_walk :
    endingReport (s.walk stop).ending =
      if (s.runUntil stop).2.stopped then [interruption stop (s.walk stop).traces.length]
      else [] := by
  have hdue := s.walk_isDue stop
  unfold runUntil interruption
  cases he : (s.walk stop).ending with
  | finished | halted => simp [endingReport, he]
  | stopped =>
      rw [he] at hdue
      have hstop : stop (s.walk stop).traces.length = true := hdue.2.2
      simp [endingReport, he, hstop]
  | limited =>
      rw [he] at hdue
      have hstop : stop (s.walk stop).traces.length = false := hdue.2.2.1
      simp [endingReport, he, hstop]

/-! ## The session behind a run -/

theorem cpu_runUntil : (s.runUntil stop).1.cpu s.arch = (s.walk stop).cpu :=
  cpu_setCpu s (s.walk stop).cpu

theorem cpu_runUntil_of_ne {a : Arch} (h : a ≠ s.arch) :
    (s.runUntil stop).1.cpu a = s.cpu a :=
  cpu_setCpu_of_ne s (s.walk stop).cpu h

theorem config_runUntil : (s.runUntil stop).1.config = s.config :=
  config_setCpu s (s.walk stop).cpu

theorem source_runUntil : (s.runUntil stop).1.source = s.source :=
  source_setCpu s (s.walk stop).cpu

/-- The machine that runs after the run is the one that ran. -/
theorem halted_active_runUntil :
    (s.runUntil stop).1.active.halted = (s.walk stop).cpu.halted := by
  rw [← cpu_runUntil]
  unfold active arch
  rw [config_runUntil]

theorem stopped_runUntil_iff :
    (s.runUntil stop).2.stopped = true ↔
      (s.walk stop).traces.length < s.program.length ∧
        (s.runUntil stop).1.active.halted = false := by
  rw [halted_active_runUntil, ← walk_interrupted_iff]
  show ((decide _ || decide _) = true) ↔ _
  rw [Bool.or_eq_true, decide_eq_true_eq, decide_eq_true_eq]

theorem log_runUntil :
    (s.runUntil stop).1.log = s.log ++
      (.info "--- Running Program ---" :: (s.walk stop).traces.mapIdx LogEntry.traced
        ++ endingReport (s.walk stop).ending ++ [.info "Program execution completed"]) := by
  rw [← log_setCpu s (s.walk stop).cpu]
  rfl

/-- **A run executes the longest permitted part of the listing.** Let `k` be the first index
in front of which the run may not go on. Then exactly the instructions before `k` are
executed, in the order of the listing, whatever jumps are among them; the outcome, the
cursor and the log say so, and nothing else changes. -/
theorem runUntil_longest_prefix :
    ∃ k, IsLeast {i | s.EndsAt stop i} k ∧
      s.Runs stop k (s.runUntil stop).1 (s.runUntil stop).2 := by
  have hexec := (s.walk_isLongest stop).executed
  have hhalted : (s.runUntil stop).2.halted = (s.runUntil stop).1.active.halted :=
    (s.halted_active_runUntil stop).symm
  refine ⟨(s.walk stop).traces.length, s.isLeast_endsAt stop, ?_⟩
  exact {
    active := by rw [hexec, cpu_runUntil]
    other := fun a ha => s.cpu_runUntil_of_ne stop ha
    config := s.config_runUntil stop
    source := s.source_runUntil stop
    cursor := rfl
    running := rfl
    executed := rfl
    halted := hhalted
    stopped := s.stopped_runUntil_iff stop
    exclusive := by
      rintro ⟨hlatch, hstopped⟩
      rw [hhalted, ((s.stopped_runUntil_iff stop).mp hstopped).2] at hlatch
      cases hlatch
    log := by rw [hexec, log_runUntil, endingReport_walk] }

end Microlab.Session
