import Microlab.Proofs.Session.Machines
import Microlab.Session.Action

/-!
# The inactive machine

Nothing but a reset reaches the machine that is not active. Every other action commutes
with replacing that machine: it does the same around any other one, and gives the same
answer. Both halves of isolation follow from this one law. The inactive machine is never
changed, and it is never seen.
-/

namespace Microlab.Session

variable {s t : Session} {b : Arch} {act : Action}

/-! ## Actions commute with replacing the inactive machine -/

theorem report_setCpu (m : Cpu b) (entries : List LogEntry) :
    (s.setCpu m).report entries = (s.report entries).setCpu m := by
  cases b <;> rfl

theorem halted_setCpu (hb : b ≠ s.arch) (m : Cpu b) :
    (s.setCpu m).active.halted = s.active.halted := by
  obtain ⟨⟨arch, limit⟩, source, i8086, i8051, cursor, running, log⟩ := s
  cases arch <;> cases b <;> first | exact absurd rfl hb | rfl

theorem step_setCpu (hb : b ≠ s.arch) (m : Cpu b) :
    (s.setCpu m).step = (s.step.1.setCpu m, s.step.2) := by
  unfold step
  rw [program, source_setCpu, cursor_setCpu, halted_setCpu hb, ← program]
  cases s.program[s.cursor]? with
  | none => rw [report_setCpu]
  | some i =>
      cases s.active.halted with
      | true => simp only [report_setCpu, ↓reduceIte]
      | false =>
          obtain ⟨⟨arch, limit⟩, source, i8086, i8051, cursor, running, log⟩ := s
          cases arch <;> cases b <;> first | exact absurd rfl hb | rfl

/-- The law of isolation. A reset is the exception, since it replaces both machines. -/
theorem perform_setCpu (hb : b ≠ s.arch) (m : Cpu b) (h : act ≠ .reset) :
    (s.setCpu m).perform act = ((s.perform act).1.setCpu m, (s.perform act).2) := by
  cases act with
  | reset => exact absurd rfl h
  | step =>
      unfold perform
      rw [step_setCpu hb m]
      rfl
  | _ =>
      -- What is left does not look at the machines before it knows which one runs.
      obtain ⟨⟨arch, limit⟩, source, i8086, i8051, cursor, running, log⟩ := s
      cases arch <;> cases b <;> first | exact absurd rfl hb | rfl

/-! ## What actions leave alone -/

/-- An action leaves the inactive machine alone, as it would leave any other one. -/
theorem cpu_perform_of_ne (hb : b ≠ s.arch) (h : act ≠ .reset) :
    (s.perform act).1.cpu b = s.cpu b := by
  have hlaw := perform_setCpu hb (s.cpu b) h
  rw [setCpu_cpu] at hlaw
  rw [hlaw, cpu_setCpu]

/-- The action concerns the text, the log or the choice of the processor, or only reads. -/
def Action.sparesMachines : Action → Bool
  | .setArch _ | .setSource _ | .assemble | .disassemble | .stop | .clearLog => true
  | .log | .source | .config | .read _ | .memory .. | .ports | .snapshot => true
  | .loadProgram | .run | .runUntil _ | .step | .execute _ | .reset => false
  | .write .. | .loadExternal .. => false

theorem cpu_perform_of_sparesMachines (h : act.sparesMachines) (a : Arch) :
    (s.perform act).1.cpu a = s.cpu a := by
  cases act <;> cases a <;> first | rfl | cases h

theorem perform_loadExternal (hs : s.arch = .i8086) (address : Word) (bytes : List Byte) :
    s.perform (.loadExternal address bytes) =
      (s, .refused ⟨"load_external_memory", .i8051, .i8086⟩) := by
  unfold perform loadExternal
  rw [hs]

/-- The action does not switch to another processor. -/
def Action.staysOn (a : Arch) : Action → Bool
  | .setArch b => b = a
  | _ => true

theorem arch_perform (h : act.staysOn s.arch) : (s.perform act).1.arch = s.arch := by
  cases act with
  | setArch a => exact of_decide_eq_true h
  | loadProgram | run | runUntil stop | execute i | write address byte =>
      exact congrArg Config.arch (config_setCpu _ _)
  | step =>
      unfold perform step
      cases s.program[s.cursor]? with
      | none => rfl
      | some i =>
          cases s.active.halted with
          | true => rfl
          | false => exact congrArg Config.arch (config_setCpu _ _)
  | loadExternal address bytes =>
      cases hs : s.arch with
      | i8086 => rw [perform_loadExternal hs, hs]
      | i8051 =>
          unfold perform loadExternal
          rw [hs]
          exact hs
  | _ => rfl

/-! ## Two sessions -/

/-- The sessions differ in nothing but the machine that is not active. -/
structure AgreeOnActive (s t : Session) : Prop where
  config : t.config = s.config
  source : t.source = s.source
  cursor : t.cursor = s.cursor
  running : t.running = s.running
  log : t.log = s.log
  active : t.cpu s.arch = s.cpu s.arch

theorem agreeOnActive_iff :
    AgreeOnActive s t ↔ ∃ b, b ≠ s.arch ∧ ∃ m : Cpu b, t = s.setCpu m := by
  constructor
  · intro h
    obtain ⟨b, hb, hall⟩ := s.arch.exists_other
    refine ⟨b, hb, t.cpu b, ext_cpu ?_ ?_ ?_ ?_ ?_ fun a => ?_⟩
    · rw [config_setCpu, h.config]
    · rw [source_setCpu, h.source]
    · rw [cursor_setCpu, h.cursor]
    · rw [running_setCpu, h.running]
    · rw [log_setCpu, h.log]
    · by_cases ha : a = b
      · subst ha
        rw [cpu_setCpu]
      · rw [cpu_setCpu_of_ne s _ ha, hall a ha, h.active]
  · rintro ⟨b, hb, m, rfl⟩
    exact ⟨config_setCpu s m, source_setCpu s m, cursor_setCpu s m, running_setCpu s m,
      log_setCpu s m, cpu_setCpu_of_ne s m hb.symm⟩

theorem performAll_cons (s : Session) (act : Action) (rest : List Action) :
    s.performAll (act :: rest) =
      (((s.perform act).1.performAll rest).1,
        (s.perform act).2 :: ((s.perform act).1.performAll rest).2) :=
  rfl

namespace AgreeOnActive

theorem perform (h : AgreeOnActive s t) (hact : act.staysOn s.arch) :
    (t.perform act).2 = (s.perform act).2 ∧
      AgreeOnActive (s.perform act).1 (t.perform act).1 := by
  by_cases hreset : act = .reset
  · subst hreset
    have hlog : (t.reset).log = (s.reset).log := congrArg (· ++ _) h.log
    exact ⟨rfl, h.config, h.source, rfl, rfl, hlog,
      (t.cpu_reset s.arch).trans (s.cpu_reset s.arch).symm⟩
  · obtain ⟨b, hb, m, rfl⟩ := agreeOnActive_iff.mp h
    rw [perform_setCpu hb m hreset]
    refine ⟨rfl, agreeOnActive_iff.mpr ⟨b, ?_, m, rfl⟩⟩
    rw [arch_perform hact]
    exact hb

theorem performAll {acts : List Action} (h : AgreeOnActive s t)
    (hacts : ∀ act ∈ acts, act.staysOn s.arch) :
    (t.performAll acts).2 = (s.performAll acts).2 ∧
      AgreeOnActive (s.performAll acts).1 (t.performAll acts).1 := by
  induction acts generalizing s t with
  | nil => exact ⟨rfl, h⟩
  | cons act rest ih =>
      have hact : act.staysOn s.arch := hacts act List.mem_cons_self
      obtain ⟨hanswer, hnext⟩ := h.perform hact
      obtain ⟨hanswers, hlast⟩ := ih hnext fun act' hact' => by
        rw [arch_perform hact]
        exact hacts act' (List.mem_cons_of_mem _ hact')
      rw [performAll_cons, performAll_cons, hanswer, hanswers]
      exact ⟨rfl, hlast⟩

end AgreeOnActive

/-- **The machines do not interfere.** No action but a reset changes the inactive machine,
and the actions that concern the text, the log or the choice of the processor change
neither. Preloading external memory is refused by the 8086 and then changes nothing. And
whatever is done without switching to the other processor gives the same answers, and the
same session up to the inactive machine, whatever that machine is. -/
theorem machines_isolated :
    (∀ (s : Session) (act : Action) (b : Arch), act ≠ .reset → b ≠ s.arch →
      (s.perform act).1.cpu b = s.cpu b) ∧
    (∀ (s : Session) (act : Action) (a : Arch), act.sparesMachines →
      (s.perform act).1.cpu a = s.cpu a) ∧
    (∀ (s : Session) (address : Word) (bytes : List Byte), s.arch = .i8086 →
      s.perform (.loadExternal address bytes) =
        (s, .refused ⟨"load_external_memory", .i8051, .i8086⟩)) ∧
    (∀ (s t : Session) (acts : List Action), AgreeOnActive s t →
      (∀ act ∈ acts, act.staysOn s.arch) →
      (t.performAll acts).2 = (s.performAll acts).2 ∧
        AgreeOnActive (s.performAll acts).1 (t.performAll acts).1) :=
  ⟨fun _ _ _ h hb => cpu_perform_of_ne hb h,
    fun _ _ a h => cpu_perform_of_sparesMachines h a,
    fun _ address bytes hs => perform_loadExternal hs address bytes,
    fun _ _ _ h hacts => h.performAll hacts⟩

/-- With the 8086 active, an 8051 that is halted is neither noticed nor changed. -/
theorem machines_isolated_halted :
    let s := Session.new ⟨.i8086, none⟩
    let t := s.setCpu (a := .i8051) ({ I8051.Machine.initial with halted := true } : I8051.Machine)
    let acts : List Action :=
      [.setSource "MOV AX, 1", .loadProgram, .loadExternal 0 [7], .run, .snapshot]
    (t.cpu .i8051).halted ≠ (s.cpu .i8051).halted ∧
    (t.perform .run).1.cpu .i8051 = t.cpu .i8051 ∧
    (t.perform (.setArch .i8051)).1.cpu .i8086 = t.cpu .i8086 ∧
    t.perform (.loadExternal 0 [7]) =
      (t, .refused ⟨"load_external_memory", .i8051, .i8086⟩) ∧
    (t.performAll acts).2 = (s.performAll acts).2 ∧
      AgreeOnActive (s.performAll acts).1 (t.performAll acts).1 := by
  intro s t acts
  obtain ⟨hinactive, hspared, hrefused, hagree⟩ := machines_isolated
  refine ⟨by decide, hinactive t .run .i8051 nofun (by decide),
    hspared t (.setArch .i8051) .i8086 rfl, hrefused t 0 [7] rfl, hagree s t acts ?_ (by decide)⟩
  exact ⟨rfl, rfl, rfl, rfl, rfl, rfl⟩

end Microlab.Session
