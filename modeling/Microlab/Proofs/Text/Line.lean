import Microlab.Text.Line

/-!
# Splitting joined lines

Texts joined by newlines are split into the same texts again, if none of them is
empty, contains a newline or ends in a carriage return. Of two texts with a newline between
them, the second keeps its lines, and the first has one line for each of its pieces.
-/

namespace Microlab.Text

/-- A text that can stand as a line of its own. -/
structure IsLine (cs : List Char) : Prop where
  nonempty : cs ≠ []
  noNewline : '\n' ∉ cs
  noReturn : cs.getLast? ≠ some '\r'

theorem dropReturn_eq_self {cs : List Char} (h : IsLine cs) : dropReturn cs = cs := by
  unfold dropReturn
  rw [if_neg h.noReturn]

theorem endLines_eq_self {ls : List (List Char)} (h : ∀ l ∈ ls, IsLine l) :
    endLines ls = ls := by
  induction ls with
  | nil => rfl
  | cons l rest ih =>
      have hl : IsLine l := h l List.mem_cons_self
      cases rest with
      | nil =>
          unfold endLines
          rw [if_neg (by simpa using hl.nonempty)]
      | cons m rest =>
          rw [endLines, dropReturn_eq_self hl, ih fun k hk => h k (List.mem_cons_of_mem _ hk)]
          simp

theorem lines_intercalate {texts : List String} (h : ∀ t ∈ texts, IsLine t.toList) :
    lines ("\n".intercalate texts) = texts := by
  unfold lines
  rw [String.toList_intercalate]
  cases texts with
  | nil => rfl
  | cons t rest =>
      have hmem : ∀ l ∈ (t :: rest).map String.toList, IsLine l := by
        intro l hl
        obtain ⟨s, hs, rfl⟩ := List.mem_map.mp hl
        exact h s hs
      have hsplit : (['\n'].intercalate ((t :: rest).map String.toList)).splitOn '\n'
          = (t :: rest).map String.toList :=
        List.splitOn_intercalate '\n' (fun l hl => (hmem l hl).noNewline) (by simp)
      rw [show "\n".toList = ['\n'] by decide, hsplit, endLines_eq_self hmem, List.map_map]
      simp [Function.comp_def]

/-! ## One text below another -/

/-- A piece is a line as soon as another piece follows. -/
theorem endLines_append {ps qs : List (List Char)} (hqs : qs ≠ []) :
    endLines (ps ++ qs) = ps.map dropReturn ++ endLines qs := by
  induction ps with
  | nil => rfl
  | cons p ps ih =>
      have hne : ps ++ qs ≠ [] := List.append_ne_nil_of_right_ne_nil ps hqs
      rw [List.cons_append, endLines.eq_3 p (ps ++ qs) hne, ih]
      rfl

theorem length_splitOn (d : Char) (cs : List Char) :
    (cs.splitOn d).length = 1 + cs.count d := by
  induction cs with
  | nil => rfl
  | cons c cs ih =>
      rw [List.splitOn_cons_eq_if_modifyHead, List.count_cons]
      split
      · rw [List.length_cons, ih, Nat.add_assoc]
      · rw [List.length_modifyHead, ih, Nat.add_zero]

theorem lines_below (s t : String) :
    lines (s ++ "\n" ++ t)
      = ((s.toList.splitOn '\n').map dropReturn).map String.ofList ++ lines t := by
  have hlist : (s ++ "\n" ++ t).toList = s.toList ++ '\n' :: t.toList := by
    simp [String.toList_append]
  unfold lines
  rw [hlist, List.splitOn_append_cons_self, endLines_append (List.splitOn_ne_nil _ _),
    List.map_append]

end Microlab.Text
