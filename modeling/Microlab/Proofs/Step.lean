import Microlab.Resolution
import Mathlib.Tactic.Common

/-!
# Performing steps

A handler checks, reads and writes as it goes along, so nothing about its form keeps it from
refusing an instruction after it has written. Once it is shown to come to finding an operation
and running it then, which is what `Step.perform` does, all we want to know about it follows
here: what it refuses, that it leaves the state alone then, and what it does otherwise.
-/

namespace Microlab

/-! ## Traces

A trace is a text with a report behind it. Handlers write both at once.
-/

section

variable {lead label text : String}

theorem append_label (x : String) (h : lead ++ label = text) : x ++ lead ++ label = x ++ text := by
  rw [String.append_assoc, h]

theorem notTaken_text : " (" ++ "not taken)" = " (not taken)" := by decide

/-- The name of an instruction may be put in front by itself. -/
theorem append_named {name gap spaced : String} (hname : name ++ gap = spaced) (x : String)
    (h : lead ++ label = text) : name ++ gap ++ x ++ lead ++ label = spaced ++ x ++ text := by
  rw [append_label _ h, hname]

theorem append_more (h : lead ++ label = text) (x : String) :
    lead ++ (label ++ x) = text ++ x := by
  rw [← String.append_assoc, h]

theorem append_report (h : lead ++ label = text) (x : String) :
    lead ++ (label ++ x ++ ")") = text ++ x ++ ")" :=
  append_more (append_more h x) ")"

theorem append_reports (h : lead ++ label = text) (x between y : String) :
    lead ++ (label ++ x ++ between ++ y ++ ")") = text ++ x ++ between ++ y ++ ")" :=
  append_report (append_more (append_more h x) between) y

end

namespace Step

/-! ## Running the parts of a step -/

section

variable {σ α β : Type} (s : σ)

theorem ext {x y : Step σ α} (h : ∀ s, x.runFrom s = y.runFrom s) : x = y := funext h

theorem runFrom_pure (a : α) : (pure a : Step σ α).runFrom s = (.ok a, s) := rfl

theorem runFrom_get : (get : Step σ σ).runFrom s = (.ok s, s) := rfl

theorem runFrom_modify (f : σ → σ) : (modify f : Step σ PUnit).runFrom s = (.ok (), f s) := rfl

theorem runFrom_modifyGet (f : σ → α × σ) :
    (modifyGet f : Step σ α).runFrom s = (.ok (f s).1, (f s).2) := rfl

/-- A refusal skips what follows, and keeps what was written before it. -/
theorem runFrom_bind (x : Step σ α) (f : α → Step σ β) :
    (x >>= f).runFrom s = match x.runFrom s with
      | (.ok a, next) => (f a).runFrom next
      | (.error e, left) => (.error e, left) := by
  show (ExceptT.run (x >>= f)).run s = match (ExceptT.run x).run s with
    | (.ok a, next) => (f a).runFrom next
    | (.error e, left) => (.error e, left)
  rw [ExceptT.run_bind, StateT.run_bind]
  rcases (ExceptT.run x).run s with ⟨_ | a, next⟩ <;> rfl

example : (do set 1; throw .unknownInstruction : Step Nat Unit).runFrom 0 =
    (.error .unknownInstruction, 1) :=
  rfl

theorem runFrom_lift_bind_congr {s : σ} {x : Except Refusal α} {f g : α → Step σ β}
    (h : ∀ a, (f a).runFrom s = (g a).runFrom s) :
    ((liftM x : Step σ α) >>= f).runFrom s = ((liftM x : Step σ α) >>= g).runFrom s := by
  cases x with
  | error e => rfl
  | ok a => exact h a

end

/-! ## Steps that find an operation first -/

variable {σ α Operation Outcome : Type} {apply : σ → Operation → σ × Outcome}
  {text : Outcome → String} {r : Except Refusal (Resolved Operation)}

/-- Checks of an instruction may be made before the operation is known. -/
theorem perform_bind (x : Except Refusal α) (f : α → Except Refusal (Resolved Operation)) :
    perform apply text (x >>= f) = (liftM x : Step σ α) >>= fun a => perform apply text (f a) := by
  cases x <;> rfl

/-- Behind a check, the rest of a handler performs the rest of what is asked for. -/
theorem bind_eq_perform {x : Except Refusal α} {f : α → Step σ String}
    {g : α → Except Refusal (Resolved Operation)} (h : ∀ a, f a = perform apply text (g a)) :
    ((liftM x : Step σ α) >>= f) = perform apply text (x >>= g) := by
  rw [perform_bind]
  exact bind_congr h

/-- What runs an operation in every state, and reports it, performs it. -/
theorem eq_perform_of_runFrom {x : Step σ String} {op : Operation} {lead : String}
    (hrun : ∀ s, x.runFrom s = (.ok (lead ++ text (apply s op).2), (apply s op).1)) :
    x = perform apply text (.ok ⟨op, lead⟩) :=
  funext hrun

theorem ran_eq {trace trace' : String} {s s' : σ} (htrace : trace' = trace) (hs : s = s') :
    ((.ok trace, s) : Except Refusal String × σ) = (.ok trace', s') := by
  rw [htrace, hs]

theorem runFrom_perform (resolved : Resolved Operation) (s : σ) :
    (perform apply text (pure resolved)).runFrom s =
      (.ok (resolved.lead ++ text (apply s resolved.operation).2),
        (apply s resolved.operation).1) :=
  rfl

/-! ## What is known of them -/

/-- The instruction is accepted, and leads to the next state. -/
def Runs (x : Step σ String) (mnemonic : String) (s next : σ) : Prop :=
  ∃ trace, x.attempt s = .ok (next, trace) ∧ x.execute mnemonic s = (next, trace)

section

variable {x : Step σ String} (hx : x = perform apply text r) {s next : σ} {mnemonic : String}
  {e : Refusal} {trace : String}

theorem runFrom_of_attempt_ok (h : x.attempt s = .ok (next, trace)) :
    x.runFrom s = (.ok trace, next) := by
  unfold attempt at h
  revert h
  rcases x.runFrom s with ⟨_ | shown, left⟩
  · rintro ⟨⟩
  · rintro ⟨⟩
    rfl

theorem execute_of_attempt_ok {ran : σ × String} (h : x.attempt s = .ok ran) :
    x.execute mnemonic s = ran := by
  unfold execute
  rw [runFrom_of_attempt_ok h]

include hx

/-- **What is refused has written nothing.** -/
theorem runFrom_of_error (h : r = .error e) : x.runFrom s = (.error e, s) := by
  rw [hx, h]
  rfl

theorem attempt_eq_error_iff : x.attempt s = .error e ↔ r = .error e := by
  subst hx
  cases r with
  | error e' =>
      show Except.error e' = Except.error e ↔ _
      simp
  | ok resolved =>
      show Except.ok _ = Except.error e ↔ _
      simp

theorem execute_of_attempt_error (h : x.attempt s = .error e) :
    x.execute mnemonic s = (s, e.message mnemonic) := by
  unfold execute
  rw [runFrom_of_error hx ((attempt_eq_error_iff hx).mp h)]

/-- An instruction that is not refused asks for an operation, and runs it. -/
theorem exists_resolved (h : x.attempt s = .ok (next, trace)) :
    ∃ resolved, r = .ok resolved ∧ (apply s resolved.operation).1 = next ∧
      resolved.lead ++ text (apply s resolved.operation).2 = trace := by
  subst hx
  cases r with
  | error e => cases h
  | ok resolved =>
      cases h
      exact ⟨resolved, rfl, rfl, rfl⟩

theorem exists_asked_of_attempt (h : x.attempt s = .ok (next, trace)) :
    ∃ op, asked r = some op ∧ (apply s op).1 = next := by
  obtain ⟨resolved, rfl, hnext, -⟩ := exists_resolved hx h
  exact ⟨resolved.operation, rfl, hnext⟩

/-- What is asked for is run in every state. -/
theorem exists_attempt_of_asked {op : Operation} (h : asked r = some op) (s : σ) :
    ∃ trace, x.attempt s = .ok ((apply s op).1, trace) := by
  subst hx
  cases r with
  | error e => cases h
  | ok resolved =>
      cases h
      exact ⟨_, rfl⟩

theorem exists_attempt_error_iff : (∃ e, x.attempt s = .error e) ↔ asked r = none := by
  simp only [attempt_eq_error_iff hx]
  cases r with
  | error e => exact ⟨fun _ => rfl, fun _ => ⟨e, rfl⟩⟩
  | ok resolved =>
      constructor
      · rintro ⟨e, ⟨⟩⟩
      · rintro ⟨⟩

/-- Only the operation asked for decides what an instruction does to the state. -/
theorem execute_fst (s : σ) (mnemonic : String) :
    (x.execute mnemonic s).1 = (asked r).elim s fun op => (apply s op).1 := by
  subst hx
  cases r <;> rfl

/-- The instruction is refused and has no effect, or an operation is run. -/
theorem refused_or_runs (s : σ) (mnemonic : String) :
    ((∃ e, x.attempt s = .error e) ∧ (x.execute mnemonic s).1 = s) ∨
      ∃ op, asked r = some op ∧ x.Runs mnemonic s (apply s op).1 := by
  cases hran : x.attempt s with
  | error e => exact Or.inl ⟨⟨e, rfl⟩, by rw [execute_of_attempt_error hx hran]⟩
  | ok ran =>
      obtain ⟨op, hasked, hnext⟩ := exists_asked_of_attempt hx hran
      have hexecute : x.execute mnemonic s = ran := execute_of_attempt_ok hran
      exact Or.inr ⟨op, hasked, ran.2, by rw [hnext, hran], by rw [hnext, hexecute]⟩

end

end Step

end Microlab
