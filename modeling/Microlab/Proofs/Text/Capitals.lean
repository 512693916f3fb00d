import Microlab.Proofs.Text.Letter
import Microlab.Text.Line

/-!
# Texts in capitals

Blanks and the marks that part a text are no letters. So a text that is put in capitals
has the same lines and words as before, in capitals.
-/

namespace Microlab.Text

def capitals (s : String) : String := String.ofList (upper s.toList)

@[simp] theorem toList_capitals (s : String) : (capitals s).toList = upper s.toList :=
  String.toList_ofList

theorem capitals_ofList (cs : List Char) :
    capitals (String.ofList cs) = String.ofList (upper cs) := by
  unfold capitals
  rw [String.toList_ofList]

theorem sameLetters_iff_capitals {s t : String} :
    sameLetters s t = true ↔ capitals s = capitals t := by
  rw [sameLetters_iff, ← String.toList_inj, toList_capitals, toList_capitals]

theorem folded_eq_capitals (s : String) : folded s = capitals (trimmed s) := by
  unfold folded capitals
  rw [toList_trimmed]

/-! ## Characters that are no letters -/

theorem upper_cons (c : Char) (cs : List Char) : upper (c :: cs) = c.toUpper :: upper cs := rfl

theorem isEmpty_upper (cs : List Char) : (upper cs).isEmpty = cs.isEmpty :=
  List.isEmpty_map

theorem getLast?_upper_eq_some_iff {d : Char}
    (hd : ∀ k, k < 26 → (Char.ofNat (65 + k) = d ↔ Char.ofNat (97 + k) = d)) (cs : List Char) :
    (upper cs).getLast? = some d ↔ cs.getLast? = some d := by
  unfold upper
  rw [List.getLast?_map]
  cases cs.getLast? with
  | none => simp
  | some c => simpa using toUpper_eq_iff hd c

/-- Splitting looks at no letter's case if the test that finds the marks does not. -/
theorem splitOnP_upper {p : Char → Bool} (hp : ∀ c, p c.toUpper = p c) (cs : List Char) :
    (upper cs).splitOnP p = (cs.splitOnP p).map upper := by
  induction cs with
  | nil => rfl
  | cons c cs ih =>
      rw [upper_cons, List.splitOnP_cons_eq_if_modifyHead, List.splitOnP_cons_eq_if_modifyHead,
        hp, ih]
      split
      · rfl
      · cases cs.splitOnP p <;> rfl

theorem splitOn_upper {d : Char}
    (hd : ∀ k, k < 26 → (Char.ofNat (65 + k) = d ↔ Char.ofNat (97 + k) = d)) (cs : List Char) :
    (upper cs).splitOn d = (cs.splitOn d).map upper := by
  refine splitOnP_upper (fun c => ?_) cs
  rw [Bool.eq_iff_iff, beq_iff_eq, beq_iff_eq]
  exact toUpper_eq_iff hd c

theorem filter_nonempty_upper (ls : List (List Char)) :
    (ls.map upper).filter (!·.isEmpty) = (ls.filter (!·.isEmpty)).map upper := by
  rw [List.filter_map]
  congr 2
  funext cs
  exact congrArg not (isEmpty_upper cs)

/-! ## Lines and words -/

theorem dropReturn_upper (cs : List Char) : dropReturn (upper cs) = upper (dropReturn cs) := by
  unfold dropReturn
  simp only [getLast?_upper_eq_some_iff (d := '\r') (by decide)]
  split
  · exact List.map_dropLast.symm
  · rfl

theorem endLines_upper (ls : List (List Char)) :
    endLines (ls.map upper) = (endLines ls).map upper := by
  induction ls with
  | nil => rfl
  | cons l rest ih =>
      cases rest with
      | nil =>
          show (if (upper l).isEmpty then [] else [upper l]) = _
          rw [isEmpty_upper, endLines]
          split <;> rfl
      | cons m rest =>
          show dropReturn (upper l) :: endLines ((m :: rest).map upper) = _
          rw [ih, dropReturn_upper]
          rfl

theorem lines_capitals (s : String) : lines (capitals s) = (lines s).map capitals := by
  unfold lines
  rw [toList_capitals, splitOn_upper (by decide), endLines_upper, List.map_map, List.map_map]
  refine List.map_congr_left fun cs _ => ?_
  exact (capitals_ofList cs).symm

theorem words_upper (cs : List Char) : words (upper cs) = (words cs).map upper := by
  unfold words
  rw [splitOnP_upper isBlank_toUpper, filter_nonempty_upper]

theorem intercalate_upper {sep : List Char} (hsep : upper sep = sep) (ls : List (List Char)) :
    sep.intercalate (ls.map upper) = upper (sep.intercalate ls) := by
  have happend : ∀ cs ds : List Char, upper (cs ++ ds) = upper cs ++ upper ds := fun _ _ =>
    List.map_append
  induction ls with
  | nil => rfl
  | cons l rest ih =>
      cases rest with
      | nil => simp
      | cons m rest =>
          rw [List.map_cons, List.map_cons, List.intercalate_cons_cons, ← List.map_cons, ih,
            List.intercalate_cons_cons, happend, happend, hsep]

end Microlab.Text
