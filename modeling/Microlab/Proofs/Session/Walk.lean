import Microlab.Session.Walk

/-!
# What a walk does

A walk executes a first part of the listing, one instruction after the other. It goes on
as long as nothing asks it to end and ends as soon as something does, so the part is the
longest one that the bounds permit.
-/

namespace Microlab

/-- Executes instructions one after the other, with their traces. -/
def Cpu.executeAll {a : Arch} (m : Cpu a) : List Instruction → Cpu a × List String
  | [] => (m, [])
  | i :: rest =>
    let (next, trace) := m.execute i
    let (last, traces) := next.executeAll rest
    (last, trace :: traces)

theorem Cpu.executeAll_cons {a : Arch} (m : Cpu a) (i : Instruction) (is : List Instruction) :
    m.executeAll (i :: is) =
      (((m.execute i).1.executeAll is).1,
        (m.execute i).2 :: ((m.execute i).1.executeAll is).2) :=
  rfl

theorem Cpu.executeAll_append {a : Arch} (m : Cpu a) (is js : List Instruction) :
    (m.executeAll (is ++ js)).1 = ((m.executeAll is).1.executeAll js).1 := by
  induction is generalizing m with
  | nil => rfl
  | cons i is ih => exact ih _

/-- Why a walk ends in front of an index, if it does. -/
def Bounds.ending? {a : Arch} (b : Bounds) (index : Nat) (m : Cpu a) :
    List Instruction → Option Ending
  | [] => some .finished
  | _ :: _ =>
    if m.halted then some .halted
    else if b.stop index then some .stopped
    else if b.isReached index then some .limited
    else none

namespace Bounds

variable {a : Arch} {b : Bounds} {n : Nat} {m : Cpu a} {is : List Instruction}

theorem ending?_cons (i : Instruction) :
    b.ending? n m (i :: is) =
      if m.halted then some .halted
      else if b.stop n then some .stopped
      else if b.isReached n then some .limited
      else none :=
  rfl

theorem ending?_eq_none_iff :
    b.ending? n m is = none ↔
      is ≠ [] ∧ m.halted = false ∧ b.stop n = false ∧ b.isReached n = false := by
  cases is with
  | nil => simp [ending?]
  | cons i is =>
      rw [ending?_cons]
      cases m.halted <;> cases b.stop n <;> cases b.isReached n <;> simp

/-- The reason of an ending. The earlier reasons are looked at first. -/
def IsDue (b : Bounds) (n : Nat) (m : Cpu a) (is : List Instruction) : Ending → Prop
  | .finished => is = []
  | .halted => is ≠ [] ∧ m.halted = true
  | .stopped => is ≠ [] ∧ m.halted = false ∧ b.stop n = true
  | .limited => is ≠ [] ∧ m.halted = false ∧ b.stop n = false ∧ b.isReached n = true

theorem isDue_of_ending? {e : Ending} (h : b.ending? n m is = some e) : b.IsDue n m is e := by
  cases is with
  | nil =>
      cases h
      rfl
  | cons i is =>
      have hne : i :: is ≠ [] := List.cons_ne_nil i is
      rw [ending?_cons] at h
      by_cases hm : m.halted = true
      · rw [if_pos hm] at h
        cases h
        exact ⟨hne, hm⟩
      rw [if_neg hm] at h
      rw [Bool.not_eq_true] at hm
      by_cases hs : b.stop n = true
      · rw [if_pos hs] at h
        cases h
        exact ⟨hne, hm, hs⟩
      rw [if_neg hs] at h
      rw [Bool.not_eq_true] at hs
      by_cases hl : b.isReached n = true
      · rw [if_pos hl] at h
        cases h
        exact ⟨hne, hm, hs, hl⟩
      · rw [if_neg hl] at h
        cases h

/-- Nothing stops a walk but the listing and the machine. -/
def free : Bounds := ⟨none, fun _ => false⟩

theorem ending?_free_of_eq_none (h : b.ending? n m is = none) : free.ending? n m is = none := by
  obtain ⟨hne, hm, -, -⟩ := ending?_eq_none_iff.mp h
  exact ending?_eq_none_iff.mpr ⟨hne, hm, rfl, rfl⟩

end Bounds

namespace Walk

variable {a : Arch} {b : Bounds} {n : Nat} {m : Cpu a} {is : List Instruction}

theorem along_of_ending?_eq_some {e : Ending} (h : b.ending? n m is = some e) :
    along b n m is = ⟨m, [], e⟩ := by
  have hdue := Bounds.isDue_of_ending? h
  cases is with
  | nil =>
      cases h
      rfl
  | cons i is =>
      cases e with
      | finished => cases hdue
      | halted => rw [along, if_pos hdue.2]
      | stopped =>
          obtain ⟨-, hm, hs⟩ := hdue
          rw [along, if_neg (by simp [hm]), if_pos hs]
      | limited =>
          obtain ⟨-, hm, hs, hl⟩ := hdue
          rw [along, if_neg (by simp [hm]), if_neg (by simp [hs]), if_pos hl]

theorem along_cons_of_ending?_eq_none {i : Instruction} (h : b.ending? n m (i :: is) = none) :
    along b n m (i :: is) =
      ⟨(along b (n + 1) (m.execute i).1 is).cpu,
        (m.execute i).2 :: (along b (n + 1) (m.execute i).1 is).traces,
        (along b (n + 1) (m.execute i).1 is).ending⟩ := by
  obtain ⟨-, hm, hs, hl⟩ := Bounds.ending?_eq_none_iff.mp h
  rw [along, if_neg (by simp [hm]), if_neg (by simp [hs]), if_neg (by simp [hl])]

/-- The walk executed a first part of the instructions. It might go on after each of them
but the last, and it might not go on after that. -/
structure IsLongest (b : Bounds) (n : Nat) (m : Cpu a) (is : List Instruction)
    (w : Walk a) : Prop where
  executed : m.executeAll (is.take w.traces.length) = (w.cpu, w.traces)
  length_le : w.traces.length ≤ is.length
  passes : ∀ j < w.traces.length,
    b.ending? (n + j) (m.executeAll (is.take j)).1 (is.drop j) = none
  ends : b.ending? (n + w.traces.length) w.cpu (is.drop w.traces.length) = some w.ending

theorem along_isLongest (b : Bounds) (n : Nat) (m : Cpu a) (is : List Instruction) :
    IsLongest b n m is (along b n m is) := by
  induction is generalizing n m with
  | nil => exact ⟨rfl, Nat.le_refl _, fun j hj => absurd hj (Nat.not_lt_zero j), rfl⟩
  | cons i is ih =>
      cases he : b.ending? n m (i :: is) with
      | some e =>
          rw [along_of_ending?_eq_some he]
          exact ⟨rfl, Nat.zero_le _, fun j hj => absurd hj (Nat.not_lt_zero j), he⟩
      | none =>
          obtain ⟨hexec, hlen, hpass, hend⟩ := ih (n + 1) (m.execute i).1
          rw [along_cons_of_ending?_eq_none he]
          refine ⟨?_, Nat.succ_le_succ hlen, ?_, ?_⟩
          · rw [List.length_cons, List.take_succ_cons, Cpu.executeAll_cons, hexec]
          · intro j hj
            cases j with
            | zero => exact he
            | succ j =>
                rw [← hpass j (Nat.lt_of_succ_lt_succ hj), Nat.add_right_comm]
                rfl
          · rw [← hend, Nat.add_right_comm]
            rfl

/-- A free walk may be interrupted anywhere and taken up again where it was left. -/
theorem along_free_eq (b : Bounds) (n : Nat) (m : Cpu a) (is : List Instruction) :
    along .free n m is =
      let w := along b n m is
      let rest := along .free (n + w.traces.length) w.cpu (is.drop w.traces.length)
      ⟨rest.cpu, w.traces ++ rest.traces, rest.ending⟩ := by
  induction is generalizing n m with
  | nil => rfl
  | cons i is ih =>
      cases he : b.ending? n m (i :: is) with
      | some e =>
          rw [along_of_ending?_eq_some he]
          rfl
      | none =>
          have hfree := Bounds.ending?_free_of_eq_none he
          rw [along_cons_of_ending?_eq_none he, along_cons_of_ending?_eq_none hfree, ih]
          simp only [List.length_cons, List.drop_succ_cons, List.cons_append, Nat.add_assoc,
            Nat.add_comm 1]

end Walk

end Microlab
