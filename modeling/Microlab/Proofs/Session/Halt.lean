import Microlab.Proofs.I8051.Operation
import Microlab.Proofs.I8086.Operation
import Microlab.Proofs.Session.Isolation
import Microlab.Proofs.Session.Run

/-!
# The halted latch

`HLT` is the one operation that changes the latch, and it sets it. So a machine that is
halted stays so until a reset, and until then a session that has it active runs and steps
without executing anything.
-/

namespace Microlab

namespace I8086.Machine

/-! ## Machines -/

theorem halted_apply (m : Machine) (op : Operation) :
    (m.apply op).1.halted = true ↔ m.halted = true ∨ op = .halt := by
  cases op with
  | halt => simp [apply]
  | branch condition target =>
      rw [apply]
      split <;> simp [jump]
  | _ =>
      show m.halted = true ↔ _
      simp

theorem halted_execute {m : Machine} (h : m.halted = true) (i : Instruction) :
    (m.execute i).1.halted = true := by
  rw [execute_fst]
  cases asked (Operation.resolve i) with
  | none => exact h
  | some op => exact (halted_apply m op).mpr (Or.inl h)

end I8086.Machine

namespace I8051.Machine

theorem halted_set (m : Machine) (r : Register) (w : Word) : (m.set r w).halted = m.halted := by
  cases r <;> rfl

theorem halted_divide (m : Machine) : m.divide.1.halted = m.halted := by
  unfold divide
  dsimp only
  split <;> rfl

theorem halted_rotate (m : Machine) (r : Rotation) : (m.rotate r).1.halted = m.halted := by
  unfold rotate
  split <;> rfl

theorem halted_apply (m : Machine) (op : Operation) :
    (m.apply op).1.halted = true ↔ m.halted = true ∨ op = .halt := by
  cases op with
  | halt => simp [apply]
  | branch condition target =>
      rw [apply]
      split <;> simp
  | divide => simp [apply, halted_divide]
  | rotate r => simp [apply, halted_rotate]
  | move | fetch | increment | decrement | logic => simp [apply, halted_set]
  | _ =>
      show m.halted = true ↔ _
      simp

theorem halted_execute {m : Machine} (h : m.halted = true) (i : Instruction) :
    (m.execute i).1.halted = true := by
  rw [execute_fst]
  cases asked (Operation.resolve i) with
  | none => exact h
  | some op => exact (halted_apply m op).mpr (Or.inl h)

end I8051.Machine

theorem Cpu.halted_execute {a : Arch} {m : Cpu a} (h : m.halted = true) (i : Instruction) :
    (m.execute i).1.halted = true := by
  cases a with
  | i8086 => exact I8086.Machine.halted_execute h i
  | i8051 => exact I8051.Machine.halted_execute h i

/-! ## Sessions -/

namespace Session

variable {s : Session} {a : Arch} {act : Action}

/-- The machine is halted in front of the first instruction, or there is none. -/
theorem walk_of_halted (h : s.active.halted = true) (stop : Nat → Bool) :
    s.walk stop = ⟨s.active, [], .halted⟩ ∨ s.walk stop = ⟨s.active, [], .finished⟩ := by
  unfold walk
  cases s.program with
  | nil => exact Or.inr rfl
  | cons i is =>
      left
      apply Walk.along_of_ending?_eq_some
      rw [Bounds.ending?_cons, if_pos h]

theorem cpu_runUntil_of_halted (h : s.active.halted = true) (stop : Nat → Bool) (b : Arch) :
    (s.runUntil stop).1.cpu b = s.cpu b := by
  by_cases hb : b = s.arch
  · subst hb
    rw [cpu_runUntil]
    rcases walk_of_halted h stop with hwalk | hwalk <;> rw [hwalk] <;> rfl
  · exact cpu_runUntil_of_ne s stop hb

theorem runUntil_of_halted (h : s.active.halted = true) (stop : Nat → Bool) :
    (s.runUntil stop).2 = ⟨0, true, false⟩ := by
  unfold runUntil
  rcases walk_of_halted h stop with hwalk | hwalk <;> simp [hwalk, h]

/-- There is no instruction under the cursor, or the latch is looked at. -/
theorem step_of_halted (h : s.active.halted = true) :
    s.step.2 = none ∧ ∀ b, s.step.1.cpu b = s.cpu b := by
  unfold step
  cases s.program[s.cursor]? with
  | none => exact ⟨rfl, fun b => cpu_report s _ b⟩
  | some i =>
      dsimp only
      rw [if_pos h]
      exact ⟨rfl, fun b => cpu_report s _ b⟩

/-- No action but a reset releases a halted machine. -/
theorem halted_perform (h : (s.cpu a).halted = true) (hact : act ≠ .reset) :
    ((s.perform act).1.cpu a).halted = true := by
  by_cases ha : a = s.arch
  case neg =>
    rw [cpu_perform_of_ne ha hact]
    exact h
  case pos =>
    subst ha
    cases act with
    | reset => exact absurd rfl hact
    | run =>
        show ((s.runUntil _).1.cpu s.arch).halted = true
        rw [cpu_runUntil_of_halted h]
        exact h
    | runUntil stop =>
        show ((s.runUntil stop).1.cpu s.arch).halted = true
        rw [cpu_runUntil_of_halted h]
        exact h
    | step =>
        show (s.step.1.cpu s.arch).halted = true
        rw [(step_of_halted h).2]
        exact h
    | execute i =>
        show ((s.setCpu (s.active.execute i).1).cpu s.arch).halted = true
        rw [cpu_setCpu]
        exact Cpu.halted_execute h i
    | loadProgram | write address b | loadExternal address bytes =>
        obtain ⟨⟨arch, limit⟩, source, i8086, i8051, cursor, running, log⟩ := s
        cases arch <;> exact h
    | _ =>
        rw [cpu_perform_of_sparesMachines rfl]
        exact h

theorem halted_performAll {acts : List Action} (h : (s.cpu a).halted = true)
    (hacts : .reset ∉ acts) : ((s.performAll acts).1.cpu a).halted = true := by
  induction acts generalizing s with
  | nil => exact h
  | cons act rest ih =>
      rw [List.mem_cons, not_or] at hacts
      obtain ⟨hact, hrest⟩ := hacts
      rw [performAll_cons]
      exact ih (halted_perform h (Ne.symm hact)) hrest

/-- **Only a reset releases the latch.** A machine that is halted is so after any actions
without a reset. Whenever it is active then, a run executes no instruction and reports the
machine halted and not stopped, a step has no trace, and neither changes a machine. No
instruction releases the latch of the machine that executes it. -/
theorem halted_until_reset :
    (∀ (s : Session) (a : Arch) (acts : List Action), (s.cpu a).halted = true →
      .reset ∉ acts →
      let t := (s.performAll acts).1
      (t.cpu a).halted = true ∧
      (t.arch = a →
        (∀ stop, (t.runUntil stop).2 = ⟨0, true, false⟩ ∧
          ∀ b, (t.runUntil stop).1.cpu b = t.cpu b) ∧
        (t.run.2 = ⟨0, true, false⟩ ∧ ∀ b, t.run.1.cpu b = t.cpu b) ∧
        t.step.2 = none ∧ ∀ b, t.step.1.cpu b = t.cpu b)) ∧
    ∀ (a : Arch) (m : Cpu a) (i : Instruction), m.halted = true →
      (m.execute i).1.halted = true := by
  constructor
  · intro s a acts h hacts t
    have ht : (t.cpu a).halted = true := halted_performAll h hacts
    refine ⟨ht, ?_⟩
    intro harch
    have hactive : t.active.halted = true := by
      unfold active
      rw [harch]
      exact ht
    have hrun := fun stop =>
      And.intro (runUntil_of_halted hactive stop) (cpu_runUntil_of_halted hactive stop)
    exact ⟨hrun, hrun _, step_of_halted hactive⟩
  · intro a m i h
    exact Cpu.halted_execute h i

/-- Neither a new program nor a visit to the other processor releases an 8051 that has
executed `HLT`. -/
theorem halted_until_reset_hlt :
    let s := ((Session.new ⟨.i8051, none⟩).execute ⟨"HLT", []⟩).1
    let acts : List Action :=
      [.setSource "MOV A, #1", .loadProgram, .setArch .i8086, .run, .setArch .i8051, .write 0 7]
    let t := (s.performAll acts).1
    (s.cpu .i8051).halted = true ∧ (t.cpu .i8051).halted = true ∧ t.arch = .i8051 ∧
    t.run.2 = ⟨0, true, false⟩ ∧ t.run.1.cpu .i8051 = t.cpu .i8051 ∧ t.step.2 = none ∧
    ((t.cpu .i8051).execute ⟨"CLR", ["A"]⟩).1.halted = true := by
  intro s acts t
  have hs : (s.cpu .i8051).halted = true := by decide +kernel
  have hacts : .reset ∉ acts := by simp [acts]
  have harch : t.arch = .i8051 := rfl
  obtain ⟨hstays, hexecute⟩ := halted_until_reset
  obtain ⟨ht, hactive⟩ := hstays s .i8051 acts hs hacts
  obtain ⟨-, ⟨hrun, hcpu⟩, hstep, -⟩ := hactive harch
  exact ⟨hs, ht, harch, hrun, hcpu .i8051, hstep, hexecute .i8051 _ _ ht⟩

end Session

end Microlab
