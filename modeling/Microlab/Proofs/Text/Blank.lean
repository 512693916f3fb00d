import Microlab.Text.Blank

/-!
# Trimming and word splitting

A trimmed text has no blank at either end, and trimming it again changes nothing. It is what
is left of a text when the blanks around it are taken away.
Splitting into words undoes joining words by single spaces; this is what makes a
printed instruction readable again.
-/

namespace Microlab.Text

/-! ## Trimming -/

theorem head?_trimStart {cs : List Char} {c : Char}
    (h : (trimStart cs).head? = some c) : isBlank c = false := by
  have hnot := List.head?_dropWhile_not isBlank cs
  unfold trimStart at h
  rw [h] at hnot
  exact hnot

theorem trimStart_eq_self {cs : List Char}
    (h : ∀ c, cs.head? = some c → isBlank c = false) : trimStart cs = cs := by
  cases cs with
  | nil => rfl
  | cons c cs =>
      have hc : isBlank c = false := h c rfl
      exact List.dropWhile_cons_of_neg (by simp [hc])

theorem trimEnd_eq_reverse (cs : List Char) :
    trimEnd cs = (trimStart cs.reverse).reverse := rfl

theorem trimEnd_eq_self {cs : List Char}
    (h : ∀ c, cs.getLast? = some c → isBlank c = false) : trimEnd cs = cs := by
  rw [trimEnd_eq_reverse, trimStart_eq_self, List.reverse_reverse]
  intro c hc
  rw [List.head?_reverse] at hc
  exact h c hc

theorem trim_eq_self {cs : List Char}
    (hfirst : ∀ c, cs.head? = some c → isBlank c = false)
    (hlast : ∀ c, cs.getLast? = some c → isBlank c = false) : trim cs = cs := by
  unfold trim
  rw [trimStart_eq_self hfirst, trimEnd_eq_self hlast]

theorem trimEnd_prefix (cs : List Char) : trimEnd cs <+: cs := by
  rw [trimEnd_eq_reverse, ← List.reverse_suffix, List.reverse_reverse]
  exact List.dropWhile_suffix _

theorem head?_trim {cs : List Char} {c : Char}
    (h : (trim cs).head? = some c) : isBlank c = false := by
  obtain ⟨rest, hrest⟩ := trimEnd_prefix (trimStart cs)
  have hfirst : (trimStart cs).head? = some c := by
    rw [← hrest, List.head?_append]
    unfold trim at h
    rw [h]
    rfl
  exact head?_trimStart hfirst

theorem getLast?_trim {cs : List Char} {c : Char}
    (h : (trim cs).getLast? = some c) : isBlank c = false := by
  unfold trim at h
  rw [trimEnd_eq_reverse, List.getLast?_reverse] at h
  exact head?_trimStart h

theorem trim_trim (cs : List Char) : trim (trim cs) = trim cs :=
  trim_eq_self (fun _ => head?_trim) (fun _ => getLast?_trim)

/-- A blank in front of a text that starts with none is all that goes. -/
theorem trim_cons_blank {b : Char} {cs : List Char} (hb : isBlank b = true) :
    trim (b :: cs) = trim cs := by
  unfold trim trimStart
  rw [List.dropWhile_cons_of_pos hb]

/-! ## What trimming leaves -/

/-- The text is the core with blanks around it. The core has none at its ends. -/
structure Pads (text core : List Char) : Prop where
  around : ∃ before after, text = before ++ core ++ after ∧
    (∀ c ∈ before, isBlank c = true) ∧ ∀ c ∈ after, isBlank c = true
  first : ∀ c, core.head? = some c → isBlank c = false
  last : ∀ c, core.getLast? = some c → isBlank c = false

theorem trimStart_append {before : List Char} (h : ∀ c ∈ before, isBlank c = true)
    (cs : List Char) : trimStart (before ++ cs) = trimStart cs :=
  List.dropWhile_append_of_pos h

theorem exists_trimStart (cs : List Char) :
    ∃ before, cs = before ++ trimStart cs ∧ ∀ c ∈ before, isBlank c = true :=
  ⟨cs.takeWhile isBlank, List.takeWhile_append_dropWhile.symm,
    List.all_eq_true.mp List.all_takeWhile⟩

theorem trimEnd_append {after : List Char} (h : ∀ c ∈ after, isBlank c = true)
    (cs : List Char) : trimEnd (cs ++ after) = trimEnd cs := by
  have hreverse : ∀ c ∈ after.reverse, isBlank c = true := fun c hc => h c (List.mem_reverse.mp hc)
  rw [trimEnd_eq_reverse, List.reverse_append, trimStart_append hreverse, trimEnd_eq_reverse]

theorem exists_trimEnd (cs : List Char) :
    ∃ after, cs = trimEnd cs ++ after ∧ ∀ c ∈ after, isBlank c = true := by
  obtain ⟨before, hcs, hblank⟩ := exists_trimStart cs.reverse
  refine ⟨before.reverse, ?_, fun c hc => hblank c (List.mem_reverse.mp hc)⟩
  rw [trimEnd_eq_reverse, ← List.reverse_append, ← hcs, List.reverse_reverse]

theorem pads_trim (text : List Char) : Pads text (trim text) where
  around := by
    obtain ⟨before, hbefore, hblank⟩ := exists_trimStart text
    obtain ⟨after, hafter, hblank'⟩ := exists_trimEnd (trimStart text)
    refine ⟨before, after, ?_, hblank, hblank'⟩
    unfold trim
    rw [List.append_assoc, ← hafter, ← hbefore]
  first := fun _ => head?_trim
  last := fun _ => getLast?_trim

/-- A text without blanks is its own core. -/
theorem Pads.of_forall {cs : List Char} (h : ∀ c ∈ cs, isBlank c = false) : Pads cs cs where
  around := ⟨[], [], (List.append_nil cs).symm, nofun, nofun⟩
  first := fun c hc => h c (List.mem_of_head? hc)
  last := fun c hc => h c (List.mem_of_getLast? hc)

theorem Pads.trim_eq {text core : List Char} (h : Pads text core) : trim text = core := by
  obtain ⟨before, after, rfl, hbefore, hafter⟩ := h.around
  cases core with
  | nil =>
      have hnil := trimStart_append hafter []
      rw [List.append_nil] at hnil
      rw [List.append_nil, trim, trimStart_append hbefore, hnil]
      rfl
  | cons c cs =>
      have hstart : trimStart (c :: cs ++ after) = c :: cs ++ after := trimStart_eq_self h.first
      rw [List.append_assoc, trim, trimStart_append hbefore, hstart, trimEnd_append hafter,
        trimEnd_eq_self h.last]

/-! ## Words -/

/-- A word is not empty and has no blank inside. -/
def IsWord (w : List Char) : Prop :=
  w ≠ [] ∧ ∀ c ∈ w, isBlank c = false

-- The characters of the word are tried, not all characters.
instance (w : List Char) : Decidable (IsWord w) :=
  @instDecidableAnd _ _ _ (List.decidableBAll (isBlank · = false) w)

theorem IsWord.trim_eq {w : List Char} (h : IsWord w) : trim w = w :=
  trim_eq_self (fun c hc => h.2 c (List.mem_of_head? hc))
    (fun c hc => h.2 c (List.mem_of_getLast? hc))

theorem words_eq_singleton {w : List Char} (h : IsWord w) : words w = [w] := by
  unfold words
  rw [List.splitOnP_eq_singleton h.2]
  simp [h.1]

/-- A blank parts the words in front of it from those behind it. -/
theorem words_append_cons {b : Char} (hb : isBlank b = true) (xs ys : List Char) :
    words (xs ++ b :: ys) = words xs ++ words ys := by
  unfold words
  rw [List.splitOnP_append_cons xs ys hb, List.filter_append]

theorem words_intercalate {ws : List (List Char)} (h : ∀ w ∈ ws, IsWord w) :
    words ([' '].intercalate ws) = ws := by
  induction ws with
  | nil => rfl
  | cons w rest ih =>
      have hw : words w = [w] := words_eq_singleton (h w List.mem_cons_self)
      cases rest with
      | nil => rw [List.intercalate_singleton, hw]
      | cons v rest =>
          have htail := ih fun u hu => h u (List.mem_cons_of_mem _ hu)
          rw [List.intercalate_cons_cons, List.append_assoc, List.singleton_append,
            words_append_cons (by decide), hw, htail, List.singleton_append]

end Microlab.Text
