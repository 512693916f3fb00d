import Microlab.Keyword
import Microlab.Proofs.Text.Letter
import Mathlib.Data.Fin.Basic
import Mathlib.Data.List.FinRange

/-!
# Register names

The 8051 reads a register name as a word or as a letter and a digit. All of its names can
as well stand in one table, and this is how they are looked up in proofs. The lists of
keywords are written apart from the tables, and hold the same names.
-/

namespace Microlab

open Text

namespace I8051.Register

/-! ## Letters with a digit -/

theorem index?_eq_some_iff {n : Nat} (hn : n ≤ 10) {digit : Char} {i : Fin n} :
    index? n digit = some i ↔ digit = Char.ofNat (48 + i) := by
  have hdigit : ∀ k < 10, (Char.ofNat (48 + k)).isDigit = true ∧
      (Char.ofNat (48 + k)).toNat - 48 = k := by decide
  unfold index?
  constructor
  · intro h
    split at h
    · next hin =>
      have hlow : 48 ≤ digit.toNat :=
        UInt32.le_iff_toNat_le.mp (of_decide_eq_true (Bool.and_eq_true_iff.mp hin.1).1)
      have hi : digit.toNat - 48 = i := congrArg Fin.val (Option.some.inj h)
      rw [show 48 + (i : Nat) = digit.toNat by omega, Char.ofNat_toNat]
    · cases h
  · rintro rfl
    obtain ⟨his, hval⟩ := hdigit i (by omega)
    rw [dif_pos ⟨his, by omega⟩]
    exact congrArg some (Fin.ext hval)

theorem numbered?_eq_some_iff {s : String} {r : Register} :
    numbered? s = some r ↔
      (∃ i : Fin 8, upper s.toList = ['R', Char.ofNat (48 + i)] ∧ bank i = r) ∨
        ∃ i : Fin 4, upper s.toList = ['P', Char.ofNat (48 + i)] ∧ ioPort i = r := by
  unfold numbered?
  split
  · next digit hs =>
    simp [hs, index?_eq_some_iff]
  · next digit hs =>
    simp [hs, index?_eq_some_iff]
  · next hbank hport =>
    have hbank' : ∀ i : Fin 8, upper s.toList ≠ ['R', Char.ofNat (48 + i)] := fun i => hbank _
    have hport' : ∀ i : Fin 4, upper s.toList ≠ ['P', Char.ofNat (48 + i)] := fun i => hport _
    simp [hbank', hport']

/-- The names of a letter and a digit, as a table. -/
def numbered : List (String × Register) :=
  ((List.finRange 8).map fun i => (String.ofList ['R', Char.ofNat (48 + i.val)], bank i)) ++
    (List.finRange 4).map fun i => (String.ofList ['P', Char.ofNat (48 + i.val)], ioPort i)

theorem numbered?_eq (s : String) : numbered? s = named? numbered s := by
  have hnames : numbered.Pairwise fun p q => upper p.1.toList ≠ upper q.1.toList := by
    decide +kernel
  have hupper : ∀ k < 8,
      upper (String.ofList ['R', Char.ofNat (48 + k)]).toList = ['R', Char.ofNat (48 + k)] ∧
        upper (String.ofList ['P', Char.ofNat (48 + k)]).toList = ['P', Char.ofNat (48 + k)] := by
    decide +kernel
  apply Option.ext
  intro r
  rw [numbered?_eq_some_iff, named?_eq_some_iff hnames]
  constructor
  · rintro (⟨i, hs, rfl⟩ | ⟨i, hs, rfl⟩)
    · refine ⟨_, List.mem_append_left _ (List.mem_map_of_mem (List.mem_finRange i)), ?_, rfl⟩
      rw [hs, (hupper i (by omega)).1]
    · refine ⟨_, List.mem_append_right _ (List.mem_map_of_mem (List.mem_finRange i)), ?_, rfl⟩
      rw [hs, (hupper i (by omega)).2]
  · rintro ⟨row, hrow, hs, rfl⟩
    rcases List.mem_append.mp hrow with hrow | hrow
    · obtain ⟨i, -, rfl⟩ := List.mem_map.mp hrow
      rw [(hupper i (by omega)).1] at hs
      exact Or.inl ⟨i, hs, rfl⟩
    · obtain ⟨i, -, rfl⟩ := List.mem_map.mp hrow
      rw [(hupper i (by omega)).2] at hs
      exact Or.inr ⟨i, hs, rfl⟩

/-! ## The table of names -/

def names : List (String × Register) := words ++ numbered

theorem ofName?_eq (s : String) : ofName? s = named? names (trimmed s) := by
  unfold names
  rw [named?_append, ← numbered?_eq]
  rfl

theorem ofName?_folded (s : String) : ofName? (folded s) = ofName? s := by
  rw [ofName?_eq, ofName?_eq, named?_trimmed_folded]

theorem ofName?_trimmed (s : String) : ofName? (trimmed s) = ofName? s := by
  rw [ofName?_eq, ofName?_eq, trimmed_trimmed]

end I8051.Register

namespace I8086.Register

theorem ofName?_trimmed (s : String) : ofName? (trimmed s) = ofName? s := by
  unfold ofName?
  rw [trimmed_trimmed]

end I8086.Register

/-! ## Keywords -/

namespace Arch

theorem isKeyword_folded (arch : Arch) (s : String) :
    arch.isKeyword (folded s) = arch.isKeyword s := by
  unfold isKeyword
  simp only [sameLetters_trimmed_folded]

theorem isKeyword_i8086 (s : String) :
    i8086.isKeyword s = (I8086.Register.ofName? s).isSome := by
  unfold I8086.Register.ofName?
  rw [isSome_named?]
  rfl

/-- The carry flag and the register pair are the keywords that name no register. -/
theorem isKeyword_i8051 (s : String) :
    i8051.isKeyword s = ((I8051.Register.ofName? s).isSome ||
      ["C", "AB"].any fun word => sameLetters word (trimmed s)) := by
  have hperm : List.Perm I8051.keywords (I8051.Register.names.map Prod.fst ++ ["C", "AB"]) := by
    decide +kernel
  rw [I8051.Register.ofName?_eq, isSome_named?, ← List.any_append]
  exact hperm.any_eq

end Arch

end Microlab
