import Microlab.Proofs.Text.Blank
import Microlab.Text.Letter

/-!
# Folded spellings

An operand is read without regard to the blanks around it and to the case of its
letters. Its folded spelling is what is left: two operands with one folded
spelling are the same to every name table and to every literal.
-/

namespace Microlab.Text

/-! ## Upper-casing -/

/-- Upper-casing either leaves a character alone or turns one of the twenty-six
small letters into its capital. -/
theorem toUpper_cases (c : Char) :
    c.toUpper = c ∨ ∃ k, k < 26 ∧ c = Char.ofNat (97 + k) ∧ c.toUpper = Char.ofNat (65 + k) := by
  by_cases h : 'a'.val ≤ c.val ∧ c.val ≤ 'z'.val
  · have hlow : 97 ≤ c.toNat := h.1
    have hhigh : c.toNat ≤ 122 := h.2
    refine Or.inr ⟨c.toNat - 97, by omega, ?_, ?_⟩
    · rw [show 97 + (c.toNat - 97) = c.toNat by omega, Char.ofNat_toNat]
    · have hc : c = Char.ofNat c.toNat := (Char.ofNat_toNat c).symm
      generalize c.toNat = n at hlow hhigh hc
      subst hc
      have hall : ∀ k, k < 26 →
          (Char.ofNat (97 + k)).toUpper = Char.ofNat (65 + (97 + k - 97)) := by decide
      have hn := hall (n - 97) (by omega)
      rwa [show 97 + (n - 97) = n by omega] at hn
  · left
    unfold Char.toUpper
    rw [dif_neg h]

/-- What holds of every character that is no small letter, and of the small
letters with their capitals, holds of every character with its capital. -/
theorem toUpper_rec {P : Char → Char → Prop} (hself : ∀ c, P c c)
    (hsmall : ∀ k, k < 26 → P (Char.ofNat (97 + k)) (Char.ofNat (65 + k))) (c : Char) :
    P c c.toUpper := by
  rcases toUpper_cases c with h | ⟨k, hk, hc, hu⟩
  · rw [h]
    exact hself c
  · rw [hu, hc]
    exact hsmall k hk

theorem toUpper_toUpper (c : Char) : c.toUpper.toUpper = c.toUpper :=
  toUpper_rec (P := fun c u => u.toUpper = c.toUpper) (fun _ => rfl) (by decide) c

theorem isBlank_toUpper (c : Char) : isBlank c.toUpper = isBlank c :=
  toUpper_rec (P := fun c u => isBlank u = isBlank c) (fun _ => rfl) (by decide) c

/-- A character that is no letter is the capital of itself only. -/
theorem toUpper_eq_iff {d : Char}
    (hd : ∀ k, k < 26 → (Char.ofNat (65 + k) = d ↔ Char.ofNat (97 + k) = d)) (c : Char) :
    c.toUpper = d ↔ c = d :=
  toUpper_rec (P := fun c u => u = d ↔ c = d) (fun _ => Iff.rfl) hd c

theorem upper_upper (cs : List Char) : upper (upper cs) = upper cs := by
  unfold upper
  rw [List.map_map]
  exact List.map_congr_left fun c _ => toUpper_toUpper c

theorem head?_upper_eq_some_iff {d : Char}
    (hd : ∀ k, k < 26 → (Char.ofNat (65 + k) = d ↔ Char.ofNat (97 + k) = d)) (cs : List Char) :
    (upper cs).head? = some d ↔ cs.head? = some d := by
  cases cs with
  | nil => simp [upper]
  | cons c cs => simpa [upper] using toUpper_eq_iff hd c

theorem upper_trimStart (cs : List Char) : upper (trimStart cs) = trimStart (upper cs) := by
  unfold upper trimStart
  rw [List.dropWhile_map]
  congr 2
  funext c
  exact (isBlank_toUpper c).symm

theorem upper_trim (cs : List Char) : upper (trim cs) = trim (upper cs) := by
  have hrev : ∀ ds : List Char, upper ds.reverse = (upper ds).reverse := fun ds => by
    unfold upper
    rw [List.map_reverse]
  unfold trim
  rw [trimEnd_eq_reverse, trimEnd_eq_reverse, hrev, upper_trimStart, hrev, upper_trimStart]

/-! ## Folding -/

/-- The spelling in capitals and without the blanks around it. -/
def folded (s : String) : String := String.ofList (upper (trim s.toList))

@[simp] theorem toList_folded (s : String) : (folded s).toList = upper (trim s.toList) :=
  String.toList_ofList

@[simp] theorem toList_trimmed (s : String) : (trimmed s).toList = trim s.toList :=
  String.toList_ofList

@[simp] theorem trim_upper_trim (cs : List Char) : trim (upper (trim cs)) = upper (trim cs) := by
  rw [← upper_trim, trim_trim]

theorem folded_trimmed (s : String) : folded (trimmed s) = folded s := by
  unfold folded
  rw [toList_trimmed, trim_trim]

theorem folded_congr {s t : String} (h : upper s.toList = upper t.toList) :
    folded s = folded t := by
  unfold folded
  rw [upper_trim, h, ← upper_trim]

theorem trimmed_trimmed (s : String) : trimmed (trimmed s) = trimmed s := by
  unfold trimmed
  rw [String.toList_ofList, trim_trim]

/-! ## Equal letters -/

theorem sameLetters_iff {s t : String} :
    sameLetters s t = true ↔ upper s.toList = upper t.toList := by
  unfold sameLetters
  rw [beq_iff_eq]

theorem sameLetters_self (s : String) : sameLetters s s = true :=
  sameLetters_iff.mpr rfl

theorem sameLetters_comm (s t : String) : sameLetters s t = sameLetters t s :=
  BEq.comm

theorem sameLetters_congr {s t : String} (h : upper s.toList = upper t.toList) (name : String) :
    sameLetters name s = sameLetters name t := by
  unfold sameLetters
  rw [h]

theorem sameLetters_trimmed_folded (name s : String) :
    sameLetters name (trimmed (folded s)) = sameLetters name (trimmed s) := by
  apply sameLetters_congr
  rw [toList_trimmed, toList_trimmed, toList_folded, trim_upper_trim, upper_upper]

/-- A name in capitals is matched by the texts that fold to it. -/
theorem sameLetters_trimmed_iff {name s : String} (hname : upper name.toList = name.toList) :
    sameLetters name (trimmed s) = true ↔ folded s = name := by
  rw [sameLetters_iff, hname, toList_trimmed, ← toList_folded, String.toList_inj, eq_comm]

theorem named?_congr {α : Type} (table : List (String × α)) {s t : String}
    (h : upper s.toList = upper t.toList) : named? table s = named? table t := by
  unfold named?
  congr 2
  funext row
  exact sameLetters_congr h row.1

theorem named?_append {α : Type} (first second : List (String × α)) (s : String) :
    named? (first ++ second) s = (named? first s).or (named? second s) := by
  unfold named?
  rw [List.find?_append, Option.map_or]

theorem isSome_named? {α : Type} (table : List (String × α)) (s : String) :
    (named? table s).isSome = (table.map Prod.fst).any fun name => sameLetters name s := by
  unfold named?
  rw [Option.isSome_map, List.isSome_find?, List.any_map]
  rfl

/-- A table without repeated names finds each of its rows. -/
theorem named?_eq_some_iff {α : Type} {table : List (String × α)} {s : String} {a : α}
    (h : table.Pairwise fun p q => upper p.1.toList ≠ upper q.1.toList) :
    named? table s = some a ↔ ∃ row ∈ table, upper s.toList = upper row.1.toList ∧ row.2 = a := by
  unfold named?
  rw [Option.map_eq_some_iff]
  constructor
  · rintro ⟨row, hfind, rfl⟩
    have hsame : sameLetters row.1 s = true := by simpa only using List.find?_some hfind
    exact ⟨row, List.mem_of_find?_eq_some hfind, (sameLetters_iff.mp hsame).symm, rfl⟩
  · rintro ⟨row, hrow, hs, rfl⟩
    refine ⟨row, ?_, rfl⟩
    obtain ⟨before, after, rfl⟩ := List.append_of_mem hrow
    refine List.find?_eq_some_iff_append.mpr
      ⟨sameLetters_iff.mpr hs.symm, before, after, rfl, fun other hother => ?_⟩
    have hne := (List.pairwise_append.mp h).2.2 other hother row List.mem_cons_self
    rw [Bool.not_eq_true', ← Bool.not_eq_true, sameLetters_iff, hs]
    exact hne

/-- Distinct names in capitals name what they list. -/
theorem named?_trimmed_eq_some_iff {α : Type} {all : List α} {name : α → String} {s : String}
    (hne : all.Pairwise fun a b => name a ≠ name b)
    (hupper : ∀ a ∈ all, upper (name a).toList = (name a).toList) {a : α} (ha : a ∈ all) :
    named? (all.map fun a => (name a, a)) (trimmed s) = some a ↔ folded s = name a := by
  have hrows : (all.map fun a => (name a, a)).Pairwise
      fun p q => upper p.1.toList ≠ upper q.1.toList := by
    refine List.pairwise_map.mpr (hne.imp_of_mem fun {b c} hb hc hbc h => hbc ?_)
    rw [hupper b hb, hupper c hc] at h
    exact String.toList_inj.mp h
  rw [named?_eq_some_iff hrows, toList_trimmed, ← toList_folded]
  constructor
  · rintro ⟨row, hrow, hs, rfl⟩
    obtain ⟨b, hb, rfl⟩ := List.mem_map.mp hrow
    rw [hupper b hb] at hs
    exact String.toList_inj.mp hs
  · intro h
    exact ⟨_, List.mem_map_of_mem ha, by rw [h, hupper a ha], rfl⟩

theorem named?_map {α β : Type} (f : α → β) (table : List (String × α)) (s : String) :
    named? (table.map fun row => (row.1, f row.2)) s = (named? table s).map f := by
  unfold named?
  rw [List.find?_map, Option.map_map, Option.map_map]
  rfl

theorem named?_trimmed_folded {α : Type} (table : List (String × α)) (s : String) :
    named? table (trimmed (folded s)) = named? table (trimmed s) := by
  apply named?_congr
  rw [toList_trimmed, toList_trimmed, toList_folded, trim_upper_trim, upper_upper]

end Microlab.Text
