import Microlab.Instruction
import Microlab.Proofs.Text.Letter
import Microlab.Proofs.Text.Line

/-!
# Printed instructions

An instruction is normal if its mnemonic is one word in capitals and each operand
is a trimmed phrase without commas and comments. A normal instruction is read back
from its printed line.
-/

namespace Microlab.Instruction

open Text

/-! ## Comments -/

theorem code_cons {c : Char} {cs : List Char} (hsemi : c ≠ ';')
    (hslash : ¬ (c = '/' ∧ cs.head? = some '/')) : code (c :: cs) = c :: code cs := by
  refine code.eq_4 c cs hsemi fun tail hc hcs => ?_
  subst hcs
  exact hslash ⟨hc, rfl⟩

theorem code_cons_eq_self_iff (c : Char) (cs : List Char) :
    code (c :: cs) = c :: cs ↔ c ≠ ';' ∧ ¬ (c = '/' ∧ cs.head? = some '/') ∧ code cs = cs := by
  by_cases hsemi : c = ';'
  · subst hsemi
    simp [code]
  · by_cases hslash : c = '/' ∧ cs.head? = some '/'
    · obtain ⟨rfl, hhead⟩ := hslash
      obtain ⟨rest, rfl⟩ := List.head?_eq_some_iff.mp hhead
      simp [code]
    · rw [code_cons hsemi hslash, List.cons.injEq]
      simp [hsemi, hslash]

/-- A character that starts no comment goes in front of a text without one. -/
theorem code_cons_eq_self {c : Char} {cs : List Char} (hsemi : c ≠ ';') (hslash : c ≠ '/')
    (hcs : code cs = cs) : code (c :: cs) = c :: cs :=
  (code_cons_eq_self_iff c cs).mpr ⟨hsemi, fun h => hslash h.1, hcs⟩

theorem code_append_cons {xs ys : List Char} {c : Char} (hc : c ≠ '/')
    (hxs : code xs = xs) (hys : code (c :: ys) = c :: ys) :
    code (xs ++ c :: ys) = xs ++ c :: ys := by
  induction xs with
  | nil => exact hys
  | cons x xs ih =>
      obtain ⟨hsemi, hslash, hrest⟩ := (code_cons_eq_self_iff x xs).mp hxs
      refine (code_cons_eq_self_iff x (xs ++ c :: ys)).mpr ⟨hsemi, ?_, ih hrest⟩
      rintro ⟨rfl, hhead⟩
      cases xs with
      | nil => simp [hc] at hhead
      | cons y xs => exact hslash ⟨rfl, hhead⟩

theorem code_append_eq_self {front cs : List Char} (hsemi : ';' ∉ front) (hslash : '/' ∉ front)
    (hcs : code cs = cs) : code (front ++ cs) = front ++ cs := by
  induction front with
  | nil => exact hcs
  | cons d front ih =>
      rw [List.mem_cons, not_or] at hsemi hslash
      exact code_cons_eq_self (Ne.symm hsemi.1) (Ne.symm hslash.1) (ih hsemi.2 hslash.2)

/-! ## Normal instructions -/

/-- An operand as reading a line leaves it. -/
structure IsOperand (cs : List Char) : Prop where
  nonempty : cs ≠ []
  trimmed : trim cs = cs
  phrase : ∃ ws, (∀ w ∈ ws, IsWord w) ∧ [' '].intercalate ws = cs
  noComma : ',' ∉ cs
  noComment : code cs = cs

structure IsNormal (i : Instruction) : Prop where
  word : IsWord i.mnemonic.toList
  capitals : upper i.mnemonic.toList = i.mnemonic.toList
  noComment : code i.mnemonic.toList = i.mnemonic.toList
  operand : ∀ operand ∈ i.operands, IsOperand operand.toList

/-- A single word without commas, semicolons and slashes can stand as an operand. -/
theorem IsOperand.of_word {w : List Char} (hw : IsWord w) (hcomma : ',' ∉ w)
    (hsemi : ';' ∉ w) (hslash : '/' ∉ w) : IsOperand w where
  nonempty := hw.1
  trimmed := hw.trim_eq
  phrase := ⟨[w], by simpa using hw, List.intercalate_singleton⟩
  noComma := hcomma
  noComment := by
    have hempty : code [] = [] := rfl
    simpa using code_append_eq_self hsemi hslash hempty

/-! ## Joining operands -/

theorem intercalate_append {sep : List Char} {xs ys : List (List Char)}
    (hxs : xs ≠ []) (hys : ys ≠ []) :
    sep.intercalate (xs ++ ys) = sep.intercalate xs ++ (sep ++ sep.intercalate ys) := by
  induction xs with
  | nil => exact absurd rfl hxs
  | cons x xs ih =>
      cases xs with
      | nil =>
          rw [List.singleton_append, List.intercalate_cons_of_ne_nil hys,
            List.intercalate_singleton, List.append_assoc]
      | cons y xs =>
          rw [List.cons_append, List.cons_append, List.intercalate_cons_cons,
            List.intercalate_cons_cons, ← List.cons_append, ih (by simp)]
          simp only [List.append_assoc]

/-- The operands in one text, as a printed line has them. -/
theorem joined_eq (op : List Char) (ops : List (List Char)) :
    [',', ' '].intercalate (op :: ops) = [','].intercalate (op :: ops.map (' ' :: ·)) := by
  induction ops generalizing op with
  | nil => simp
  | cons next ops ih =>
      rw [List.intercalate_cons_cons, ih next, List.map_cons, List.intercalate_cons_cons,
        List.intercalate_cons_cons_left]
      simp

theorem isWord_append_comma {w : List Char} (h : IsWord w) : IsWord (w ++ [',']) := by
  refine ⟨by simp, ?_⟩
  intro c hc
  rcases List.mem_append.mp hc with hc | hc
  · exact h.2 c hc
  · obtain rfl := List.mem_singleton.mp hc
    decide

/-- What is put behind the last word is put behind the words. -/
theorem intercalate_append_last (init : List (List Char)) (last tail : List Char) :
    [' '].intercalate (init ++ [last ++ tail]) = [' '].intercalate (init ++ [last]) ++ tail := by
  by_cases hinit : init = []
  · subst hinit
    simp
  · rw [intercalate_append hinit (by simp), intercalate_append hinit (by simp),
      List.intercalate_singleton, List.intercalate_singleton]
    simp only [List.append_assoc]

/-- Joined operands are words with single spaces between them: the comma belongs to
the last word of the operand in front of it. -/
theorem exists_words_joined {ops : List (List Char)} (h : ∀ op ∈ ops, IsOperand op) :
    ∃ ws, (∀ w ∈ ws, IsWord w) ∧ [' '].intercalate ws = [',', ' '].intercalate ops := by
  induction ops with
  | nil => exact ⟨[], by simp, rfl⟩
  | cons op ops ih =>
      have hop := h op List.mem_cons_self
      obtain ⟨ws, hws, hjoin⟩ := hop.phrase
      cases ops with
      | nil => exact ⟨ws, hws, by rw [hjoin, List.intercalate_singleton]⟩
      | cons next ops =>
          obtain ⟨vs, hvs, hrest⟩ := ih fun o ho => h o (List.mem_cons_of_mem _ ho)
          -- neither this operand nor the rest is without words
          have hne : ws ≠ [] := by
            rintro rfl
            exact hop.nonempty hjoin.symm
          have hvne : vs ≠ [] := by
            rintro rfl
            have hnext := (h next (by simp)).nonempty
            cases ops <;> simp_all [List.intercalate_cons_cons]
          obtain ⟨init, last, rfl⟩ : ∃ init last, ws = init ++ [last] :=
            ⟨ws.dropLast, ws.getLast hne, (List.dropLast_concat_getLast hne).symm⟩
          refine ⟨(init ++ [last ++ [',']]) ++ vs, ?_, ?_⟩
          · intro w hw
            rcases List.mem_append.mp hw with hw | hw
            · rcases List.mem_append.mp hw with hw | hw
              · exact hws w (List.mem_append_left _ hw)
              · obtain rfl := List.mem_singleton.mp hw
                exact isWord_append_comma (hws last (by simp))
            · exact hvs w hw
          · rw [intercalate_append (by simp) hvne, intercalate_append_last, hjoin, hrest,
              List.intercalate_cons_cons]
            simp only [List.append_assoc, List.cons_append, List.nil_append]

/-- Neither texts without comments nor what is put between them start one. -/
theorem code_intercalate {c : Char} {sep : List Char} (hsemi : ';' ∉ c :: sep)
    (hslash : '/' ∉ c :: sep) {texts : List (List Char)} (h : ∀ text ∈ texts, code text = text) :
    code ((c :: sep).intercalate texts) = (c :: sep).intercalate texts := by
  induction texts with
  | nil => rfl
  | cons text texts ih =>
      obtain ⟨htext, htexts⟩ := List.forall_mem_cons.mp h
      cases texts with
      | nil => rwa [List.intercalate_singleton]
      | cons next texts =>
          rw [List.intercalate_cons_cons, List.append_assoc]
          exact code_append_cons (List.ne_of_not_mem_cons hslash).symm htext
            (code_append_eq_self hsemi hslash (ih htexts))

theorem splitOperands_of_joined {ops ws : List (List Char)} (h : ∀ op ∈ ops, IsOperand op)
    (hws : [' '].intercalate ws = [',', ' '].intercalate ops) : splitOperands ws = ops := by
  unfold splitOperands
  rw [hws]
  cases ops with
  | nil => rfl
  | cons op ops =>
      -- split at the commas, each piece but the first has the space of its separator
      have hspaced : ∀ piece ∈ op :: ops.map (' ' :: ·), ',' ∉ piece := by
        intro piece hpiece
        rcases List.mem_cons.mp hpiece with rfl | hpiece
        · exact (h piece List.mem_cons_self).noComma
        · obtain ⟨o, ho, rfl⟩ := List.mem_map.mp hpiece
          have := (h o (List.mem_cons_of_mem _ ho)).noComma
          simpa using this
      have htrim : (op :: ops.map (' ' :: ·)).map trim = op :: ops := by
        have htail : ∀ o ∈ ops, trim (' ' :: o) = o := fun o ho => by
          rw [trim_cons_blank (by decide), (h o (List.mem_cons_of_mem _ ho)).trimmed]
        rw [List.map_cons, (h op List.mem_cons_self).trimmed, List.map_map]
        congr 1
        exact (List.map_congr_left htail).trans (List.map_id ops)
      rw [joined_eq, List.splitOn_intercalate ',' hspaced (by simp), htrim,
        List.filter_eq_self]
      intro o ho
      simpa using (h o ho).nonempty

/-! ## Reading a printed line -/

theorem toList_render (i : Instruction) :
    i.render.toList = i.mnemonic.toList ++
      if i.operands = [] then []
      else ' ' :: [',', ' '].intercalate (i.operands.map String.toList) := by
  unfold render
  split
  · next h => simp [h]
  · next ops hne =>
    rw [if_neg hne]
    simp [String.toList_append, String.toList_intercalate]

/-- **Printing keeps an instruction.** A normal instruction is what its printed line
reads as. -/
theorem parse?_render {i : Instruction} (h : i.IsNormal) : parse? i.render = some i := by
  have hops : ∀ op ∈ i.operands.map String.toList, IsOperand op := by
    intro op hop
    obtain ⟨s, hs, rfl⟩ := List.mem_map.mp hop
    exact h.operand s hs
  obtain ⟨ws, hws, hjoin⟩ := exists_words_joined hops
  have hwords : words (code i.render.toList) = i.mnemonic.toList :: ws := by
    rw [toList_render]
    by_cases hnil : i.operands = []
    · have hempty : ws = [] := by
        rw [hnil] at hjoin
        rw [← words_intercalate hws, hjoin]
        rfl
      rw [if_pos hnil, List.append_nil, h.noComment, words_eq_singleton h.word, hempty]
    · have hjoined : code ([',', ' '].intercalate (i.operands.map String.toList))
          = [',', ' '].intercalate (i.operands.map String.toList) :=
        code_intercalate (by decide) (by decide) fun op hop => (hops op hop).noComment
      have htext := code_cons_eq_self (c := ' ') (by decide) (by decide) hjoined
      rw [if_neg hnil, code_append_cons (by decide) h.noComment htext,
        words_append_cons (by decide), words_eq_singleton h.word, ← hjoin, words_intercalate hws]
      rfl
  unfold parse?
  rw [hwords]
  simp only [h.capitals, splitOperands_of_joined hops hjoin, String.ofList_toList, List.map_map]
  simp [Function.comp_def]

/-! ## Printed lines -/

theorem mem_intercalate {c : Char} {sep : List Char} {ls : List (List Char)}
    (h : c ∈ sep.intercalate ls) : c ∈ sep ∨ ∃ l ∈ ls, c ∈ l := by
  induction ls with
  | nil => simp at h
  | cons l ls ih =>
      cases ls with
      | nil => exact Or.inr ⟨l, List.mem_cons_self, by simpa using h⟩
      | cons m ls =>
          rw [List.intercalate_cons_cons, List.mem_append, List.mem_append] at h
          rcases h with (h | h) | h
          · exact Or.inr ⟨l, List.mem_cons_self, h⟩
          · exact Or.inl h
          · rcases ih h with h | ⟨k, hk, h⟩
            · exact Or.inl h
            · exact Or.inr ⟨k, List.mem_cons_of_mem _ hk, h⟩

/-- The only blank in an operand is the space. -/
theorem IsOperand.eq_space {cs : List Char} (h : IsOperand cs) {c : Char} (hc : c ∈ cs)
    (hblank : isBlank c = true) : c = ' ' := by
  obtain ⟨ws, hws, rfl⟩ := h.phrase
  rcases mem_intercalate hc with hc | ⟨w, hw, hc⟩
  · exact List.mem_singleton.mp hc
  · rw [(hws w hw).2 c hc] at hblank
    cases hblank

theorem IsNormal.eq_space {i : Instruction} (h : i.IsNormal) {c : Char}
    (hc : c ∈ i.render.toList) (hblank : isBlank c = true) : c = ' ' := by
  rw [toList_render] at hc
  rcases List.mem_append.mp hc with hc | hc
  · rw [h.word.2 c hc] at hblank
    cases hblank
  · split at hc
    · simp at hc
    · rcases List.mem_cons.mp hc with rfl | hc
      · rfl
      · rcases mem_intercalate hc with hc | ⟨op, hop, hc⟩
        · rcases List.mem_cons.mp hc with rfl | hc
          · exact absurd hblank (by decide)
          · exact List.mem_singleton.mp hc
        · obtain ⟨operand, hoperand, rfl⟩ := List.mem_map.mp hop
          exact (h.operand operand hoperand).eq_space hc hblank

/-- A normal instruction is printed on one line. -/
theorem IsNormal.isLine {i : Instruction} (h : i.IsNormal) : IsLine i.render.toList where
  nonempty := by
    rw [toList_render]
    intro hnil
    exact h.word.1 (List.append_eq_nil_iff.mp hnil).1
  noNewline := fun hc => absurd (h.eq_space hc (by decide)) (by decide)
  noReturn := fun hc =>
    absurd (h.eq_space (List.mem_of_getLast? hc) (by decide)) (by decide)

end Microlab.Instruction
