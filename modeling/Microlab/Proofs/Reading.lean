import Microlab.Proofs.Composition
import Microlab.Proofs.Layout
import Microlab.Proofs.LetterCase
import Microlab.Proofs.Reassembly

/-!
# What reading leaves

Whatever a line holds, the instruction that is read from it is normal: a mnemonic in capitals
and operands that are trimmed phrases without commas and comments. So an instruction that
was read is read again from its printed line, and a program that is printed line by line is
assembled to the same code.
-/

namespace Microlab

open Text

/-! ## Pieces of a text -/

namespace Text

/-- The first piece of a text is in front, the others are somewhere inside, and none of them
has a mark that parts the pieces. -/
theorem exists_splitOnP (p : Char → Bool) (cs : List Char) :
    ∃ head tail, cs.splitOnP p = head :: tail ∧ head <+: cs ∧ (∀ piece ∈ tail, piece <:+: cs) ∧
      ∀ piece ∈ head :: tail, ∀ c ∈ piece, p c = false := by
  induction cs with
  | nil => exact ⟨[], [], List.splitOnP_nil, List.nil_prefix, by simp, by simp⟩
  | cons c cs ih =>
      obtain ⟨head, tail, hsplit, hhead, htail, hmark⟩ := ih
      rw [List.splitOnP_cons_eq_if_modifyHead, hsplit]
      by_cases hc : p c = true
      · refine ⟨[], head :: tail, if_pos hc, List.nil_prefix, ?_, ?_⟩
        · exact List.forall_mem_cons.mpr
            ⟨hhead.isInfix.trans (List.infix_cons List.infix_rfl),
              fun piece h => List.infix_cons (htail piece h)⟩
        · exact List.forall_mem_cons.mpr ⟨by simp, hmark⟩
      · obtain ⟨hfirst, hrest⟩ := List.forall_mem_cons.mp hmark
        refine ⟨c :: head, tail, if_neg hc, List.prefix_cons_inj c |>.mpr hhead,
          fun piece h => List.infix_cons (htail piece h), ?_⟩
        exact List.forall_mem_cons.mpr
          ⟨List.forall_mem_cons.mpr ⟨Bool.not_eq_true _ ▸ hc, hfirst⟩, hrest⟩

theorem infix_of_mem_splitOnP {p : Char → Bool} {cs piece : List Char}
    (h : piece ∈ cs.splitOnP p) : piece <:+: cs := by
  obtain ⟨head, tail, hsplit, hhead, htail, -⟩ := exists_splitOnP p cs
  rw [hsplit] at h
  rcases List.mem_cons.mp h with rfl | h
  · exact hhead.isInfix
  · exact htail piece h

theorem eq_false_of_mem_splitOnP {p : Char → Bool} {cs piece : List Char}
    (h : piece ∈ cs.splitOnP p) : ∀ c ∈ piece, p c = false := by
  obtain ⟨head, tail, hsplit, -, -, hmark⟩ := exists_splitOnP p cs
  exact hmark piece (hsplit ▸ h)

theorem isWord_of_mem_words {w cs : List Char} (h : w ∈ words cs) : IsWord w := by
  obtain ⟨hpiece, hne⟩ := List.mem_filter.mp h
  exact ⟨by simpa using hne, eq_false_of_mem_splitOnP hpiece⟩

theorem infix_of_mem_words {w cs : List Char} (h : w ∈ words cs) : w <:+: cs :=
  infix_of_mem_splitOnP (List.mem_filter.mp h).1

theorem trim_isInfix (cs : List Char) : trim cs <:+: cs := by
  obtain ⟨before, after, hcs, -, -⟩ := (pads_trim cs).around
  exact ⟨before, after, hcs.symm⟩

theorem IsWord.upper {w : List Char} (h : IsWord w) : IsWord (upper w) := by
  refine ⟨fun hnil => h.1 (List.map_eq_nil_iff.mp hnil), ?_⟩
  intro c hc
  obtain ⟨d, hd, rfl⟩ := List.mem_map.mp hc
  rw [isBlank_toUpper]
  exact h.2 d hd

/-- Only the twenty-six small letters are not their own capitals. -/
theorem isLower_eq_false {c : Char} (h : c.toUpper = c) : c.isLower = false := by
  rw [← Bool.not_eq_true]
  intro hlower
  have hsmall : ∀ k, k < 26 → (Char.ofNat (97 + k)).toUpper ≠ Char.ofNat (97 + k) := by decide
  obtain ⟨hlow, hhigh⟩ : 97 ≤ c.toNat ∧ c.toNat ≤ 122 := by
    have hrange : (decide (97 ≤ c.val) && decide (c.val ≤ 122)) = true := hlower
    rw [Bool.and_eq_true, decide_eq_true_eq, decide_eq_true_eq] at hrange
    exact hrange
  have hc : Char.ofNat (97 + (c.toNat - 97)) = c := by
    rw [Nat.add_sub_cancel' hlow, Char.ofNat_toNat]
  exact hsmall (c.toNat - 97) (by omega) (by rwa [hc])

/-! ## Phrases -/

/-- Two spaces side by side have an empty piece between them. -/
theorem nil_mem_splitOn_of_infix {d : Char} {cs : List Char} (h : [d, d] <:+: cs) :
    [] ∈ cs.splitOn d := by
  obtain ⟨front, back, rfl⟩ := h
  have hsplit : (front ++ [d, d] ++ back).splitOn d
      = front.splitOn d ++ [] :: back.splitOn d := by
    rw [List.append_assoc, List.cons_append, List.splitOn_append_cons_self, List.cons_append,
      List.nil_append, List.splitOn_cons_eq_if_modifyHead, if_pos (beq_self_eq_true d)]
  rw [hsplit]
  exact List.mem_append_right _ List.mem_cons_self

theorem not_infix_intercalate {ws : List (List Char)} (h : ∀ w ∈ ws, IsWord w) :
    ¬ [' ', ' '] <:+: [' '].intercalate ws := by
  intro hwithin
  cases ws with
  | nil => simp at hwithin
  | cons w ws =>
      have hnone : ∀ v ∈ w :: ws, ' ' ∉ v := fun v hv hmem =>
        absurd ((h v hv).2 ' ' hmem) (by decide)
      have hmem := nil_mem_splitOn_of_infix hwithin
      rw [List.splitOn_intercalate ' ' hnone (List.cons_ne_nil _ _)] at hmem
      exact (h [] hmem).1 rfl

/-- An empty piece stands at an end of the text or between two separators. -/
theorem of_nil_mem_splitOn {d : Char} {cs : List Char} (h : [] ∈ cs.splitOn d) :
    cs = [] ∨ cs.head? = some d ∨ cs.getLast? = some d ∨ [d, d] <:+: cs := by
  obtain ⟨front, back, hsplit⟩ := List.append_of_mem h
  have hcs : [d].intercalate (cs.splitOn d) = cs := List.intercalate_splitOn d
  rw [hsplit] at hcs
  by_cases hfront : front = []
  · subst hfront
    by_cases hback : back = []
    · subst hback
      exact Or.inl hcs.symm
    · rw [List.nil_append, List.intercalate_cons_of_ne_nil hback] at hcs
      rw [← hcs]
      exact Or.inr (Or.inl rfl)
  · rw [Instruction.intercalate_append hfront (List.cons_ne_nil _ _)] at hcs
    by_cases hback : back = []
    · subst hback
      rw [← hcs]
      exact Or.inr (Or.inr (Or.inl (by simp)))
    · rw [List.intercalate_cons_of_ne_nil hback] at hcs
      refine Or.inr (Or.inr (Or.inr ⟨[d].intercalate front, [d].intercalate back, ?_⟩))
      rw [← hcs]
      simp

/-- A trimmed text with no blanks but single spaces is a phrase. -/
theorem exists_words_of_single {cs : List Char} (htrim : trim cs = cs)
    (hspace : ∀ c ∈ cs, isBlank c = true → c = ' ') (hsingle : ¬ [' ', ' '] <:+: cs) :
    ∃ ws, (∀ w ∈ ws, IsWord w) ∧ [' '].intercalate ws = cs := by
  by_cases hnil : cs = []
  · exact ⟨[], by simp, hnil.symm⟩
  refine ⟨cs.splitOn ' ', ?_, List.intercalate_splitOn ' '⟩
  intro w hw
  refine ⟨?_, ?_⟩
  · rintro rfl
    -- a trimmed text neither starts nor ends in a space
    rcases of_nil_mem_splitOn hw with h | h | h | h
    · exact hnil h
    · rw [← htrim] at h
      exact absurd (head?_trim h) (by decide)
    · rw [← htrim] at h
      exact absurd (getLast?_trim h) (by decide)
    · exact hsingle h
  · intro c hc
    rw [← Bool.not_eq_true]
    intro hblank
    obtain rfl := hspace c ((infix_of_mem_splitOnP hw).subset hc) hblank
    simpa using eq_false_of_mem_splitOnP hw ' ' hc

end Text

namespace Instruction

/-! ## Texts without comments -/

/-- What starts a comment is a semicolon or two slashes. -/
theorem code_eq_self_iff {cs : List Char} :
    code cs = cs ↔ ';' ∉ cs ∧ ¬ ['/', '/'] <:+: cs := by
  induction cs with
  | nil => simp [code]
  | cons c cs ih =>
      have hslashes : ['/', '/'] <+: c :: cs ↔ c = '/' ∧ cs.head? = some '/' := by
        rw [List.cons_prefix_cons, eq_comm]
        cases cs <;> simp [eq_comm]
      rw [code_cons_eq_self_iff, ih, List.infix_cons_iff, hslashes, List.mem_cons, not_or,
        not_or, ne_comm]
      tauto

theorem code_of_infix {xs cs : List Char} (h : xs <:+: cs) (hcs : code cs = cs) :
    code xs = xs := by
  rw [code_eq_self_iff] at hcs ⊢
  exact ⟨fun hmem => hcs.1 (h.subset hmem), fun hslashes => hcs.2 (hslashes.trans h)⟩

theorem code_isPrefix (cs : List Char) : code cs <+: cs := by
  induction cs using code.induct with
  | case1 | case2 | case3 => exact List.nil_prefix
  | case4 c cs hsemi hslash ih =>
      rw [code.eq_4 c cs hsemi hslash]
      exact (List.prefix_cons_inj c).mpr ih

theorem code_code (cs : List Char) : code (code cs) = code cs := by
  induction cs using code.induct with
  | case1 | case2 | case3 => rfl
  | case4 c cs hsemi hslash ih =>
      rw [code.eq_4 c cs hsemi hslash]
      refine (code_cons_eq_self_iff c (code cs)).mpr ⟨hsemi, ?_, ih⟩
      rintro ⟨rfl, hhead⟩
      obtain ⟨rest, hrest⟩ := List.head?_eq_some_iff.mp hhead
      obtain ⟨comment, hcs⟩ := code_isPrefix cs
      rw [hrest] at hcs
      exact hslash _ rfl hcs.symm

/-! ## What is read -/

theorem isOperand_of_mem_splitOperands {ws : List (List Char)} {op : List Char}
    (hws : ∀ w ∈ ws, IsWord w ∧ code w = w) (h : op ∈ splitOperands ws) : IsOperand op := by
  obtain ⟨hmem, hne⟩ := List.mem_filter.mp h
  obtain ⟨piece, hpiece, rfl⟩ := List.mem_map.mp hmem
  have hwithin : trim piece <:+: [' '].intercalate ws :=
    (trim_isInfix piece).trans (infix_of_mem_splitOnP hpiece)
  have hspace : ∀ c ∈ trim piece, isBlank c = true → c = ' ' := by
    intro c hc hblank
    rcases mem_intercalate (hwithin.subset hc) with hc | ⟨w, hw, hc⟩
    · exact List.mem_singleton.mp hc
    · rw [(hws w hw).1.2 c hc] at hblank
      cases hblank
  have hsingle : ¬ [' ', ' '] <:+: trim piece := fun hinner =>
    not_infix_intercalate (fun w hw => (hws w hw).1) (hinner.trans hwithin)
  exact {
    nonempty := by simpa using hne
    trimmed := trim_trim piece
    phrase := exists_words_of_single (trim_trim piece) hspace hsingle
    noComma := fun hcomma => by
      simpa using eq_false_of_mem_splitOnP hpiece ',' ((trim_isInfix piece).subset hcomma)
    noComment := code_of_infix hwithin
      (code_intercalate (by decide) (by decide) fun w hw => (hws w hw).2) }

/-- **What is read is normal.** -/
theorem isNormal_of_parse? {line : String} {i : Instruction} (h : parse? line = some i) :
    i.IsNormal := by
  unfold parse? at h
  split at h
  · cases h
  · next mnemonic rest hwords =>
    cases h
    have hword : ∀ w ∈ mnemonic :: rest, IsWord w ∧ code w = w := by
      intro w hw
      rw [← hwords] at hw
      exact ⟨isWord_of_mem_words hw, code_of_infix (infix_of_mem_words hw) (code_code _)⟩
    obtain ⟨hmnemonic, hrest⟩ := List.forall_mem_cons.mp hword
    refine ⟨?_, ?_, ?_, ?_⟩
    · rw [String.toList_ofList]
      exact hmnemonic.1.upper
    · rw [String.toList_ofList, upper_upper]
    · rw [String.toList_ofList, code_upper, hmnemonic.2]
    · intro op hop
      obtain ⟨cs, hcs, rfl⟩ := List.mem_map.mp hop
      rw [String.toList_ofList]
      exact isOperand_of_mem_splitOperands hrest hcs

end Instruction

/-! ## Printed programs -/

namespace SourceLine

/-- Printed lines are read again, numbered as they stand. -/
theorem ofLines_render {α : Type} {f : α → Instruction} {xs : List α}
    (h : ∀ x ∈ xs, (f x).IsNormal) (n : Nat) :
    ofLines n (xs.map fun x => (f x).render) = xs.mapIdx fun k x => ⟨n + k, f x⟩ := by
  induction xs generalizing n with
  | nil => rfl
  | cons x xs ih =>
      rw [List.map_cons, ofLines, Instruction.parse?_render (h x List.mem_cons_self),
        List.mapIdx_cons]
      dsimp only
      rw [ih fun y hy => h y (List.mem_cons_of_mem _ hy)]
      simp only [Nat.add_zero, Nat.add_right_comm n 1, ← Nat.add_assoc]

end SourceLine

namespace Assembly

/-- Instructions that lie side by side are laid out so again, whatever their lines are
numbered. -/
theorem ofLines_renumbered {arch : Arch} {start : Nat} {es : List Encoded}
    (hencoded : ∀ e ∈ es, arch.encode e.source.instruction = .ok e.bytes)
    (hfirst : ∀ e ∈ es.head?, e.address = start) (hadjoins : es.IsChain Adjoins) (n : Nat) :
    ofLines arch start (es.mapIdx fun k e => ⟨n + k, e.source.instruction⟩)
      = ⟨es.mapIdx fun k e => { e with source := ⟨n + k, e.source.instruction⟩ }, []⟩ := by
  induction es generalizing start n with
  | nil => rfl
  | cons e es ih =>
      obtain ⟨hnext, hrest⟩ := List.isChain_cons.mp hadjoins
      obtain rfl : e.address = start := hfirst e rfl
      have ih := ih (fun f hf => hencoded f (List.mem_cons_of_mem _ hf)) hnext hrest (n + 1)
      simp only [Nat.add_right_comm n 1] at ih
      rw [List.mapIdx_cons, ofLines]
      dsimp only
      rw [hencoded e List.mem_cons_self, List.mapIdx_cons]
      simp only [Nat.add_zero, ← Nat.add_assoc, ih]

/-- The printed instructions, one a line. -/
def program (a : Assembly) : String :=
  "\n".intercalate (a.instructions.map fun e => e.source.instruction.render)

theorem assemble_program (arch : Arch) (source : String) :
    assemble arch (assemble arch source).program =
      ⟨(assemble arch source).instructions.mapIdx fun k e =>
        { e with source := ⟨1 + k, e.source.instruction⟩ }, []⟩ := by
  have hlayout : (assemble arch source).LaysOut arch 0 (SourceLine.parse source) :=
    laysOut_ofLines arch 0 (SourceLine.pairwise_precedes_parse source)
  have hnormal : ∀ e ∈ (assemble arch source).instructions, e.source.instruction.IsNormal := by
    intro e he
    obtain ⟨text, -, hread⟩ :=
      SourceLine.exists_of_mem_ofLines (hlayout.source_mem_of_mem_instructions he)
    exact Instruction.isNormal_of_parse? hread
  have hlines : lines (assemble arch source).program
      = (assemble arch source).instructions.map fun e => e.source.instruction.render := by
    refine lines_intercalate ?_
    intro t ht
    obtain ⟨e, he, rfl⟩ := List.mem_map.mp ht
    exact (hnormal e he).isLine
  have hread : SourceLine.parse (assemble arch source).program
      = (assemble arch source).instructions.mapIdx fun k e => ⟨1 + k, e.source.instruction⟩ := by
    unfold SourceLine.parse
    rw [hlines, SourceLine.ofLines_render hnormal]
  show ofLines arch 0 (SourceLine.parse (assemble arch source).program) = _
  rw [hread]
  exact ofLines_renumbered hlayout.encoded hlayout.first hlayout.adjoins 1

/-- A newline at the end of a source does not count. -/
theorem assemble_append_newline (arch : Arch) (source : String) :
    assemble arch (source ++ "\n") = assemble arch source := by
  have hempty : SourceLine.parse "" = [] := rfl
  have hbelow := assemble_below arch source ""
  rw [String.append_empty] at hbelow
  rw [hbelow]
  unfold append shifted
  rw [show assemble arch "" = ⟨[], []⟩ from congrArg (ofLines arch 0) hempty]
  simp only [List.map_nil, List.append_nil]

theorem bytes_renumbered (es : List Encoded) (n : Nat) :
    bytes ⟨es.mapIdx fun k e => { e with source := ⟨n + k, e.source.instruction⟩ }, []⟩
      = bytes ⟨es, []⟩ := by
  unfold bytes
  rw [List.flatMap_def, List.flatMap_def]
  exact congrArg List.flatten (List.ext_getElem (by simp) (by simp))

end Assembly

/-- **Printing loses nothing that was read.** Whatever a line holds, its instruction has a
mnemonic of one word without small letters and operands that are trimmed, have single spaces
as their only blanks and neither commas nor comments, and it is read again from its printed
line. So the printed instructions of a program, one a line and with or without a newline
behind the last, are assembled without error to the same bytes: to the same instructions at
the same addresses, one on each line. -/
theorem reading_survives_printing :
    (∀ line i, Instruction.parse? line = some i →
      i.mnemonic.toList ≠ [] ∧
      (∀ c ∈ i.mnemonic.toList, isBlank c = false ∧ c.isLower = false) ∧
      (∀ operand ∈ i.operands.map String.toList,
        operand ≠ [] ∧ trim operand = operand ∧
        ',' ∉ operand ∧ ';' ∉ operand ∧ ¬ ['/', '/'] <:+: operand ∧
        (∀ c ∈ operand, isBlank c = true → c = ' ') ∧ ¬ [' ', ' '] <:+: operand) ∧
      Instruction.parse? i.render = some i) ∧
    ∀ arch source,
      let a := assemble arch source
      ∀ text ∈ [a.program, a.program ++ "\n"],
        let again := assemble arch text
        again.errors = [] ∧ again.bytes = a.bytes ∧
        again.instructions = a.instructions.mapIdx fun k e =>
          ⟨⟨1 + k, e.source.instruction⟩, e.address, e.bytes⟩ := by
  refine ⟨fun line i hread => ?_, ?_⟩
  · have hnormal := Instruction.isNormal_of_parse? hread
    refine ⟨hnormal.word.1, ?_, ?_, Instruction.parse?_render hnormal⟩
    · intro c hc
      exact ⟨hnormal.word.2 c hc,
        isLower_eq_false (List.map_inj_left.mp (hnormal.capitals.trans (List.map_id _).symm) c hc)⟩
    · intro operand hmem
      obtain ⟨s, hs, rfl⟩ := List.mem_map.mp hmem
      have hoperand := hnormal.operand s hs
      obtain ⟨hsemi, hslashes⟩ := Instruction.code_eq_self_iff.mp hoperand.noComment
      obtain ⟨ws, hws, hphrase⟩ := hoperand.phrase
      exact ⟨hoperand.nonempty, hoperand.trimmed, hoperand.noComma, hsemi, hslashes,
        fun c => hoperand.eq_space, hphrase ▸ not_infix_intercalate hws⟩
  · intro arch source a text htext again
    have hprogram := Assembly.assemble_program arch source
    have hagain : assemble arch text = assemble arch a.program := by
      rcases List.mem_pair.mp htext with rfl | rfl
      · rfl
      · exact Assembly.assemble_append_newline arch a.program
    rw [show again = _ from hagain.trans hprogram]
    exact ⟨rfl, Assembly.bytes_renumbered a.instructions 1, rfl⟩

theorem reading_survives_printing_mov :
    Instruction.parse? "\tmov  ax ,, 5 // five" = some ⟨"MOV", ["ax", "5"]⟩ ∧
      Instruction.parse? "MOV ax, 5" = some ⟨"MOV", ["ax", "5"]⟩ := by
  have hread : Instruction.parse? "\tmov  ax ,, 5 // five" = some ⟨"MOV", ["ax", "5"]⟩ := by
    decide +kernel
  exact ⟨hread, (reading_survives_printing.1 _ _ hread).2.2.2⟩

end Microlab
