import Microlab.Proofs.LetterCase
import Microlab.Proofs.Session.Isolation
import Microlab.Proofs.Session.Run

/-!
# Sessions in other letters

Two sessions whose sources differ in letter case only stay alike under every action, and
their machines stay the same. The log is left out, since a trace repeats an instruction as
it is written.
-/

namespace Microlab

open Text

/-! ## Walks -/

namespace Walk

variable {a : Arch}

/-- What a walk leaves, but for the texts of its traces. -/
def result (w : Walk a) : Cpu a × Nat × Ending := (w.cpu, w.traces.length, w.ending)

theorem result_along_folded (b : Bounds) (n : Nat) (m : Cpu a) (is : List Instruction) :
    (along b n m (is.map Instruction.folded)).result = (along b n m is).result := by
  induction is generalizing n m with
  | nil => rfl
  | cons i is ih =>
      rw [List.map_cons]
      -- the reasons to end do not look at the instruction
      cases he : b.ending? n m (i :: is) with
      | some e =>
          have he' : b.ending? n m (i.folded :: is.map Instruction.folded) = some e := he
          rw [along_of_ending?_eq_some he, along_of_ending?_eq_some he']
      | none =>
          have he' : b.ending? n m (i.folded :: is.map Instruction.folded) = none := he
          have hrest := ih (n + 1) (m.execute i).1
          unfold result at hrest ⊢
          rw [along_cons_of_ending?_eq_none he, along_cons_of_ending?_eq_none he',
            m.execute_folded]
          simp only [List.length_cons, Prod.mk.injEq] at hrest ⊢
          obtain ⟨hcpu, hlength, hending⟩ := hrest
          exact ⟨hcpu, congrArg (· + 1) hlength, hending⟩

end Walk

namespace Session

/-! ## Sessions alike -/

/-- The sessions differ at most in their logs and in the letter case of their sources. -/
structure SpelledAlike (s t : Session) : Prop where
  config : t.config = s.config
  source : sameLetters s.source t.source = true
  cursor : t.cursor = s.cursor
  running : t.running = s.running
  cpu : ∀ a, t.cpu a = s.cpu a

/-- The session with another source and another log. -/
def respelled (s : Session) (source : String) (log : Array LogEntry) : Session :=
  { s with source := source, log := log }

variable {s t : Session}

theorem spelledAlike_iff :
    SpelledAlike s t ↔
      ∃ source log, sameLetters s.source source = true ∧ t = s.respelled source log := by
  constructor
  · intro h
    refine ⟨t.source, t.log, h.source, ?_⟩
    exact ext_cpu h.config rfl h.cursor h.running rfl fun a => (h.cpu a).trans (by cases a <;> rfl)
  · rintro ⟨source, log, hsource, rfl⟩
    exact ⟨rfl, hsource, rfl, rfl, fun a => by cases a <;> rfl⟩

/-- The actions are one action, but for letter case and blanks in what they are given. -/
inductive Action.Alike : Action → Action → Prop
  | refl (act : Action) : Alike act act
  | setSource {source source' : String} (h : sameLetters source source' = true) :
      Alike (.setSource source) (.setSource source')
  | execute {i j : Instruction} (h : i.Alike j) : Alike (.execute i) (.execute j)

theorem map_folded_program {source : String} (h : sameLetters s.source source = true)
    (log : Array LogEntry) :
    (s.respelled source log).program.map Instruction.folded
      = s.program.map Instruction.folded := by
  have hparse : ∀ text, (SourceLine.parse (capitals text)).map SourceLine.instruction
      = ((SourceLine.parse text).map SourceLine.instruction).map Instruction.folded := by
    intro text
    rw [SourceLine.parse_capitals, List.map_map, List.map_map]
    rfl
  unfold program
  rw [← hparse, ← hparse]
  show ((SourceLine.parse (capitals source)).map _) = _
  rw [sameLetters_iff_capitals.mp h]

theorem result_walk_respelled {source : String} (h : sameLetters s.source source = true)
    (log : Array LogEntry) (stop : Nat → Bool) :
    ((s.respelled source log).walk stop).result = (s.walk stop).result := by
  unfold walk
  rw [← Walk.result_along_folded, map_folded_program h]
  exact Walk.result_along_folded _ _ _ _

namespace SpelledAlike

theorem refl (s : Session) : SpelledAlike s s :=
  ⟨rfl, sameLetters_self s.source, rfl, rfl, fun _ => rfl⟩

theorem setCpu (h : SpelledAlike s t) {a : Arch} (m : Cpu a) :
    SpelledAlike (s.setCpu m) (t.setCpu m) := by
  obtain ⟨source, log, hsource, rfl⟩ := spelledAlike_iff.mp h
  cases a <;> exact ⟨rfl, hsource, rfl, rfl, fun b => by cases b <;> rfl⟩

theorem report (h : SpelledAlike s t) (entries entries' : List LogEntry) :
    SpelledAlike (s.report entries) (t.report entries') :=
  ⟨h.config, h.source, h.cursor, h.running,
    fun a => by rw [cpu_report, cpu_report, h.cpu a]⟩

theorem moveTo (h : SpelledAlike s t) (cursor : Nat) :
    SpelledAlike { s with cursor := cursor } { t with cursor := cursor } := by
  refine ⟨h.config, h.source, rfl, h.running, ?_⟩
  intro a
  have hcpu := h.cpu a
  cases a <;> exact hcpu

theorem runUntil (h : SpelledAlike s t) (stop : Nat → Bool) :
    SpelledAlike (s.runUntil stop).1 (t.runUntil stop).1 := by
  obtain ⟨source, log, hsource, rfl⟩ := spelledAlike_iff.mp h
  obtain ⟨hcpu, hrest⟩ := Prod.mk.inj (result_walk_respelled hsource log stop)
  obtain ⟨hlength, -⟩ := Prod.mk.inj hrest
  constructor
  case config => rw [config_runUntil, config_runUntil, h.config]
  case source => rwa [source_runUntil, source_runUntil]
  case cursor => exact hlength
  case running => rfl
  case cpu =>
    intro a
    by_cases ha : a = s.arch
    · subst ha
      rw [cpu_runUntil s]
      exact (cpu_runUntil (s.respelled source log) stop).trans hcpu
    · rw [cpu_runUntil_of_ne s stop ha, ← h.cpu a]
      exact cpu_runUntil_of_ne (s.respelled source log) stop ha

theorem execute (h : SpelledAlike s t) {i j : Instruction} (hij : i.Alike j) :
    SpelledAlike (s.execute i).1 (t.execute j).1 := by
  obtain ⟨source, log, hsource, rfl⟩ := spelledAlike_iff.mp h
  have hnext := h.setCpu (s.active.execute i).1
  show SpelledAlike (s.setCpu (s.active.execute i).1)
    ((s.respelled source log).setCpu (s.active.execute j).1)
  rwa [← hij.execute_eq]

theorem step (h : SpelledAlike s t) : SpelledAlike s.step.1 t.step.1 := by
  obtain ⟨source, log, hsource, rfl⟩ := spelledAlike_iff.mp h
  have hprogram := congrArg (·[s.cursor]?) (map_folded_program hsource log)
  simp only [List.getElem?_map] at hprogram
  have hcursor : (s.respelled source log).cursor = s.cursor := rfl
  unfold Session.step
  rw [hcursor]
  cases hi : s.program[s.cursor]? with
  | none =>
      rw [hi, Option.map_none, Option.map_eq_none_iff] at hprogram
      rw [hprogram]
      exact h.report _ _
  | some i =>
      rw [hi, Option.map_some, Option.map_eq_some_iff] at hprogram
      obtain ⟨j, hj, hfolded⟩ := hprogram
      have halike : i.Alike j := Instruction.alike_iff.mpr hfolded.symm
      rw [hj]
      dsimp only
      by_cases hhalted : s.active.halted = true
      · have hhalted' : (s.respelled source log).active.halted = true := hhalted
        rw [if_pos hhalted, if_pos hhalted']
        exact h.report _ _
      · have hhalted' : ¬ (s.respelled source log).active.halted = true := hhalted
        rw [if_neg hhalted, if_neg hhalted']
        exact ((h.execute halike).moveTo (s.cursor + 1)).report _ _

theorem loadProgram (h : SpelledAlike s t) :
    SpelledAlike s.loadProgram.1 t.loadProgram.1 := by
  obtain ⟨source, log, hsource, rfl⟩ := spelledAlike_iff.mp h
  have hassembled : SpelledAlike s.assemble.1 (s.respelled source log).assemble.1 :=
    h.report _ _
  have hbytes : (s.respelled source log).assemble.2.bytes = s.assemble.2.bytes :=
    (Assembly.bytes_assemble_congr s.arch hsource).symm
  show SpelledAlike
    ((s.assemble.1.setCpu (s.active.loadProgram s.assemble.2.bytes)).report _)
    (((s.respelled source log).assemble.1.setCpu
      (s.active.loadProgram (s.respelled source log).assemble.2.bytes)).report _)
  rw [hbytes]
  exact (hassembled.setCpu _).report _ _

/-- An action keeps sessions alike. -/
theorem perform (h : SpelledAlike s t) {act act' : Action} (hact : act.Alike act') :
    SpelledAlike (s.perform act).1 (t.perform act').1 := by
  obtain ⟨source, log, hsource, rfl⟩ := spelledAlike_iff.mp h
  cases hact with
  | setSource hnew => exact ⟨rfl, hnew, rfl, rfl, h.cpu⟩
  | execute hij => exact h.execute hij
  | refl act =>
      cases act with
      | setSource new => exact ⟨rfl, sameLetters_self new, rfl, rfl, h.cpu⟩
      | run => exact h.runUntil _
      | runUntil stop => exact h.runUntil stop
      | step => exact h.step
      | execute i => exact h.execute (Instruction.alike_iff.mpr rfl)
      | loadProgram => exact h.loadProgram
      | write address b => exact h.setCpu (s.active.write address b)
      | loadExternal address bytes =>
          obtain ⟨⟨arch, limit⟩, source', i8086, i8051, cursor, running, log'⟩ := s
          cases arch <;> exact ⟨rfl, hsource, rfl, rfl, fun a => by cases a <;> rfl⟩
      | _ => exact ⟨rfl, hsource, rfl, rfl, fun a => by cases a <;> rfl⟩

/-- Histories that are alike keep sessions alike. -/
theorem performAll (h : SpelledAlike s t) {acts acts' : List Action}
    (hacts : List.Forall₂ Action.Alike acts acts') :
    SpelledAlike (s.performAll acts).1 (t.performAll acts').1 := by
  induction hacts generalizing s t with
  | nil => exact h
  | cons hact _ ih =>
      rw [performAll_cons, performAll_cons]
      exact ih (h.perform hact)

end SpelledAlike

/-- **Spelling never matters.** Instructions that differ in letter case and in the blanks
around their operands have the same code or the same error, and do the same to a machine.
Sources that differ in letter case are assembled to the same code, line by line at the same
addresses, with the same errors. And histories that differ in the spelling of sources and
instructions lead a session to the same machines. -/
theorem spelling_never_matters :
    (∀ (arch : Arch) (i j : Instruction), i.Alike j →
      arch.encode i = arch.encode j ∧ ∀ m : Cpu arch, (m.execute i).1 = (m.execute j).1) ∧
    (∀ (arch : Arch) (source source' : String), sameLetters source source' = true →
      let a := Microlab.assemble arch source
      let b := Microlab.assemble arch source'
      a.bytes = b.bytes ∧
      a.instructions.map (fun e => (e.source.number, e.address, e.bytes)) =
        b.instructions.map (fun e => (e.source.number, e.address, e.bytes)) ∧
      a.errors.map (fun e => (e.source.number, e.reason)) =
        b.errors.map (fun e => (e.source.number, e.reason))) ∧
    ∀ (s : Session) (acts acts' : List Action), List.Forall₂ Action.Alike acts acts' →
      SpelledAlike (s.performAll acts).1 (s.performAll acts').1 := by
  refine ⟨?_, ?_, ?_⟩
  · intro arch i j h
    exact ⟨h.encode_eq arch, fun m => h.execute_eq m⟩
  · intro arch source source' h a b
    have hfolded : a.folded = b.folded := Assembly.folded_assemble_congr arch h
    obtain ⟨hinstructions, herrors⟩ := Assembly.mk.inj hfolded
    refine ⟨Assembly.bytes_assemble_congr arch h, ?_, ?_⟩
    · have hmap := congrArg (List.map fun e => (e.source.number, e.address, e.bytes)) hinstructions
      rwa [List.map_map, List.map_map] at hmap
    · have hmap := congrArg (List.map fun e => (e.source.number, e.reason)) herrors
      rwa [List.map_map, List.map_map] at hmap
  · intro s acts acts' h
    exact (SpelledAlike.refl s).performAll h

/-- A move of a number with a radix mark, in two spellings. -/
theorem spelling_never_matters_mov :
    let i : Instruction := ⟨"mov", [" ax", "0ffh "]⟩
    let j : Instruction := ⟨"MOV", ["AX", "0FFH"]⟩
    let s := Session.new ⟨.i8086, none⟩
    i.Alike j ∧ Arch.encode .i8086 i = Arch.encode .i8086 j ∧
    Arch.encode .i8086 j = .ok [0xB8, 0xFF, 0x00] ∧
    (∀ m : Cpu .i8086, (m.execute i).1 = (m.execute j).1) ∧
    sameLetters "mov ax, 0ffh" "MOV AX, 0FFH" = true ∧
    (Microlab.assemble .i8086 "mov ax, 0ffh").bytes
      = (Microlab.assemble .i8086 "MOV AX, 0FFH").bytes ∧
    SpelledAlike (s.performAll [.setSource "mov ax, 0ffh", .run]).1
      (s.performAll [.setSource "MOV AX, 0FFH", .run]).1 := by
  intro i j s
  have hij : i.Alike j := ⟨by decide, .cons (by decide) (.cons (by decide) .nil)⟩
  have hletters : sameLetters "mov ax, 0ffh" "MOV AX, 0FFH" = true := by decide
  obtain ⟨hinstruction, hsource, hsession⟩ := spelling_never_matters
  obtain ⟨hencode, hexecute⟩ := hinstruction .i8086 i j hij
  exact ⟨hij, hencode, by decide +kernel, hexecute, hletters, (hsource .i8086 _ _ hletters).1,
    hsession s _ _ (.cons (.setSource hletters) (.cons (.refl .run) .nil))⟩

end Session

end Microlab
