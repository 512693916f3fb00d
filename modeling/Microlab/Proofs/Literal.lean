import Microlab.Literal
import Microlab.Proofs.Text.Letter
import Microlab.Text.Numeral
import Mathlib.Algebra.Group.Int.Defs
import Mathlib.Algebra.Group.Nat.Defs

/-!
# What literals denote

A literal is read the same in any letter case and with any blanks around it, and
the hexadecimal spelling that the decoder prints denotes the number it was printed
from, whatever the radix of the processor.
-/

namespace Microlab.Literal

open Text

/-! ## The sign -/

theorem parse?_of_minus {text : String} {rest : List Char} (radix : Nat)
    (h : trim text.toList = '-' :: rest) :
    parse? radix text = (magnitude? radix (trimStart rest)).map (fun m : Nat => -(m : Int)) := by
  unfold parse?
  rw [h]
  cases hm : magnitude? radix (trimStart rest) <;> simp [hm]

theorem parse?_of_head {text : String} (radix : Nat)
    (h : (trim text.toList).head? ≠ some '-') :
    parse? radix text = (magnitude? radix (trim text.toList)).map (fun m : Nat => (m : Int)) := by
  unfold parse?
  split
  · next rest heq => simp [heq] at h
  · cases magnitude? radix (trim text.toList) <;> simp

theorem parse?_trimmed (radix : Nat) (s : String) :
    parse? radix (trimmed s) = parse? radix s := by
  unfold parse?
  rw [toList_trimmed, trim_trim]

/-! ## Letter case -/

theorem digitIn?_toUpper (radix : Nat) (c : Char) :
    digitIn? radix c.toUpper = digitIn? radix c := by
  have h : digit? c.toUpper = digit? c :=
    toUpper_rec (P := fun c u => digit? u = digit? c) (fun _ => rfl) (by decide) c
  unfold digitIn?
  rw [h]

theorem digits?_upper (radix : Nat) (cs : List Char) :
    digits? radix (upper cs) = digits? radix cs := by
  have hmap : (upper cs).mapM (digitIn? radix) = cs.mapM (digitIn? radix) := by
    unfold upper
    rw [List.mapM_map]
    congr 1
    funext c
    exact digitIn?_toUpper radix c
  cases cs with
  | nil => rfl
  | cons c cs =>
      show ((upper (c :: cs)).mapM (digitIn? radix)).map _ = _
      rw [hmap]
      rfl

/-- Whether a text ends in a letter, in either case, is not changed by capitals. -/
theorem getLast?_upper_iff {a b : Char}
    (h : ∀ k, k < 26 → ((Char.ofNat (65 + k) = a ∨ Char.ofNat (65 + k) = b) ↔
      (Char.ofNat (97 + k) = a ∨ Char.ofNat (97 + k) = b))) (cs : List Char) :
    ((upper cs).getLast? = some a ∨ (upper cs).getLast? = some b) ↔
      (cs.getLast? = some a ∨ cs.getLast? = some b) := by
  have hchar : ∀ c : Char, (c.toUpper = a ∨ c.toUpper = b) ↔ (c = a ∨ c = b) :=
    toUpper_rec (P := fun c u => (u = a ∨ u = b) ↔ (c = a ∨ c = b)) (fun _ => Iff.rfl) h
  unfold upper
  rw [List.getLast?_map]
  cases cs.getLast? with
  | none => simp
  | some c => simpa using hchar c

/-- The forms as a chain of tests on the ends of the body. -/
theorem form_eq (radix : Nat) (body : List Char) :
    form radix body =
      if body.getLast? = some 'H' ∨ body.getLast? = some 'h' then (body.dropLast, 16)
      else if body.take 2 = ['0', 'x'] ∨ body.take 2 = ['0', 'X'] then (body.drop 2, 16)
      else if body.getLast? = some 'B' ∨ body.getLast? = some 'b' then (body.dropLast, 2)
      else (body, radix) := by
  unfold form
  split
  · rfl
  · split
    · simp
    · simp
    · next hx hX =>
      have hno : ¬ (body.take 2 = ['0', 'x'] ∨ body.take 2 = ['0', 'X']) := by
        rintro (h | h)
        · refine hx (body.drop 2) ?_
          rw [← List.take_append_drop 2 body, h]
          rfl
        · refine hX (body.drop 2) ?_
          rw [← List.take_append_drop 2 body, h]
          rfl
      rw [if_neg hno]

theorem take_upper_iff (body : List Char) :
    ((upper body).take 2 = ['0', 'x'] ∨ (upper body).take 2 = ['0', 'X']) ↔
      (body.take 2 = ['0', 'x'] ∨ body.take 2 = ['0', 'X']) := by
  have hzero : ∀ c : Char, c.toUpper = '0' ↔ c = '0' :=
    toUpper_rec (P := fun c u => u = '0' ↔ c = '0') (fun _ => Iff.rfl) (by decide)
  have hx : ∀ c : Char, (c.toUpper = 'x' ∨ c.toUpper = 'X') ↔ (c = 'x' ∨ c = 'X') :=
    toUpper_rec (P := fun c u => (u = 'x' ∨ u = 'X') ↔ (c = 'x' ∨ c = 'X'))
      (fun _ => Iff.rfl) (by decide)
  match body with
  | [] => simp [upper]
  | [c] => simp [upper]
  | c :: d :: rest =>
      simp only [upper, List.map_cons, List.take_succ_cons, List.take_zero, List.cons.injEq,
        and_true, ← and_or_left]
      rw [hzero, hx]

theorem form_upper (radix : Nat) (body : List Char) :
    form radix (upper body) = (upper (form radix body).1, (form radix body).2) := by
  have hH := getLast?_upper_iff (a := 'H') (b := 'h') (by decide) body
  have hB := getLast?_upper_iff (a := 'B') (b := 'b') (by decide) body
  have hX := take_upper_iff body
  have hdropLast : (upper body).dropLast = upper body.dropLast := by
    unfold upper
    rw [List.map_dropLast]
  have hdrop : (upper body).drop 2 = upper (body.drop 2) := by
    unfold upper
    rw [List.map_drop]
  rw [form_eq, form_eq]
  simp only [hH, hB, hX, hdropLast, hdrop]
  split
  · rfl
  · split
    · rfl
    · split <;> rfl

theorem magnitude?_upper (radix : Nat) (body : List Char) :
    magnitude? radix (upper body) = magnitude? radix body := by
  unfold magnitude?
  rw [form_upper]
  simp only [digits?_upper]

theorem parse?_ofList_upper (radix : Nat) (cs : List Char) :
    parse? radix (String.ofList (upper cs)) = parse? radix (String.ofList cs) := by
  have htrim : trim (String.ofList (upper cs)).toList = upper (trim (String.ofList cs).toList) := by
    rw [String.toList_ofList, String.toList_ofList, upper_trim]
  have hhead := head?_upper_eq_some_iff (d := '-') (by decide) (trim (String.ofList cs).toList)
  by_cases hminus : (trim (String.ofList cs).toList).head? = some '-'
  · obtain ⟨rest, hrest⟩ := List.head?_eq_some_iff.mp hminus
    rw [hrest] at htrim
    have htrim : trim (String.ofList (upper cs)).toList = '-' :: upper rest := htrim
    rw [parse?_of_minus radix hrest, parse?_of_minus radix htrim, ← upper_trimStart,
      magnitude?_upper]
  · have hplus : (trim (String.ofList (upper cs)).toList).head? ≠ some '-' := by
      rw [htrim]
      exact fun h => hminus (hhead.mp h)
    rw [parse?_of_head radix hminus, parse?_of_head radix hplus, htrim, magnitude?_upper]

theorem parse?_folded (radix : Nat) (s : String) :
    parse? radix (folded s) = parse? radix s := by
  unfold folded
  rw [parse?_ofList_upper]
  exact parse?_trimmed radix s

/-! ## The immediate marker -/

theorem unmarked_of_hash {s : String} {rest : List Char} (h : trim s.toList = '#' :: rest) :
    unmarked s = String.ofList rest := by
  unfold unmarked
  rw [h]
  rfl

theorem unmarked_of_head {s : String} (h : (trim s.toList).head? ≠ some '#') :
    unmarked s = trimmed s := by
  unfold unmarked
  split
  · next rest heq => simp [heq] at h
  · rfl

theorem parseOperand?_of_head {s : String} (radix : Nat) (h : (trim s.toList).head? ≠ some '#') :
    parseOperand? radix s = parse? radix s := by
  unfold parseOperand?
  rw [unmarked_of_head h, parse?_trimmed]

theorem head?_folded_hash_iff (s : String) :
    (trim (folded s).toList).head? = some '#' ↔ (trim s.toList).head? = some '#' := by
  rw [toList_folded, trim_upper_trim]
  exact head?_upper_eq_some_iff (by decide) _

theorem parseOperand?_folded (radix : Nat) (s : String) :
    parseOperand? radix (folded s) = parseOperand? radix s := by
  by_cases hhash : (trim s.toList).head? = some '#'
  · obtain ⟨rest, hrest⟩ := List.head?_eq_some_iff.mp hhash
    have hfold : trim (folded s).toList = '#' :: upper rest := by
      rw [toList_folded, trim_upper_trim, hrest]
      rfl
    unfold parseOperand?
    rw [unmarked_of_hash hrest, unmarked_of_hash hfold, parse?_ofList_upper]
  · rw [parseOperand?_of_head radix hhash,
      parseOperand?_of_head radix (fun h => hhash ((head?_folded_hash_iff s).mp h)), parse?_folded]

/-! ## Printed numerals -/

theorem digits?_singleton (radix : Nat) (c : Char) : digits? radix [c] = digitIn? radix c := by
  show ([c].mapM (digitIn? radix)).map _ = _
  cases h : digitIn? radix c <;> simp [h]

theorem digits?_append_singleton (radix : Nat) {cs : List Char} (hcs : cs ≠ []) (c : Char) :
    digits? radix (cs ++ [c]) =
      (digits? radix cs).bind fun v => (digitIn? radix c).map fun d => v * radix + d := by
  obtain ⟨d, ds, rfl⟩ := List.exists_cons_of_ne_nil hcs
  show ((d :: ds ++ [c]).mapM (digitIn? radix)).map _ = Option.bind (Option.map _ _) _
  rw [List.mapM_append]
  cases (d :: ds).mapM (digitIn? radix) with
  | none => rfl
  | some vs =>
      cases h : digitIn? radix c with
      | none => simp [h]
      | some e => simp [h]

theorem digitIn?_digitChar {radix n : Nat} (hradix : radix ≤ 16) (hn : n < radix) :
    digitIn? radix n.digitChar = some n := by
  have h : ∀ k, k < 16 → digit? k.digitChar = some k := by decide
  unfold digitIn?
  rw [h n (by omega)]
  simpa using hn

theorem digits?_toDigits {radix : Nat} (hlow : 1 < radix) (hhigh : radix ≤ 16) (n : Nat) :
    digits? radix (Nat.toDigits radix n) = some n := by
  induction n using Nat.strongRecOn with
  | ind n ih =>
      by_cases hn : n < radix
      · rw [Nat.toDigits_of_lt_base hn, digits?_singleton, digitIn?_digitChar hhigh hn]
      · have hle : radix ≤ n := Nat.le_of_not_lt hn
        have hrest := ih (n / radix) (Nat.div_lt_self (by omega) hlow)
        have hdigit := digitIn?_digitChar hhigh (Nat.mod_lt n (by omega : radix > 0))
        rw [Nat.toDigits_of_base_le hlow hle, digits?_append_singleton radix (by simp),
          hrest, hdigit]
        simp [Nat.div_add_mod']

theorem toList_hex_upper (n : Nat) :
    (hex .upper 1 n).toList = upper (Nat.toDigits 16 n) := by
  have hpos : 0 < (Nat.toDigits 16 n).length := Nat.length_toDigits_pos
  unfold hex
  rw [String.toList_ofList]
  show List.leftpad 1 '0' (upper (Nat.toDigits 16 n)) = _
  unfold List.leftpad upper
  rw [List.length_map, show 1 - (Nat.toDigits 16 n).length = 0 by omega]
  rfl

theorem digits?_hex (n : Nat) : digits? 16 (hex .upper 1 n).toList = some n := by
  rw [toList_hex_upper, digits?_upper]
  exact digits?_toDigits (by omega) (by omega) n

theorem isSome_digitIn?_of_mapM {radix : Nat} {cs : List Char} {ds : List Nat}
    (h : cs.mapM (digitIn? radix) = some ds) {c : Char} (hc : c ∈ cs) :
    (digitIn? radix c).isSome = true := by
  induction cs generalizing ds with
  | nil => simp at hc
  | cons x xs ih =>
      rw [List.mapM_cons, Option.bind_eq_bind, Option.bind_eq_some_iff] at h
      obtain ⟨d, hd, hrest⟩ := h
      rw [Option.bind_eq_bind, Option.bind_eq_some_iff] at hrest
      obtain ⟨es, hes, -⟩ := hrest
      rcases List.mem_cons.mp hc with rfl | hmem
      · rw [hd]
        rfl
      · exact ih hes hmem

theorem isSome_digitIn?_of_digits? {radix n : Nat} {cs : List Char}
    (h : digits? radix cs = some n) {c : Char} (hc : c ∈ cs) :
    (digitIn? radix c).isSome = true := by
  unfold digits? at h
  split at h
  · simp at h
  · obtain ⟨ds, hds, -⟩ := Option.map_eq_some_iff.mp h
    exact isSome_digitIn?_of_mapM hds hc

/-- The characters of a run of digits are ASCII letters and digits. -/
theorem toNat_of_digits? {radix n : Nat} {cs : List Char} (h : digits? radix cs = some n)
    {c : Char} (hc : c ∈ cs) :
    (48 ≤ c.toNat ∧ c.toNat ≤ 57) ∨ (65 ≤ c.toNat ∧ c.toNat ≤ 90) ∨
      (97 ≤ c.toNat ∧ c.toNat ≤ 122) := by
  have hdigit : (digit? c).isSome = true :=
    Option.isSome_of_isSome_filter _ _ (isSome_digitIn?_of_digits? h hc)
  unfold digit? at hdigit
  split at hdigit
  · next h => exact Or.inl ⟨h.1, h.2⟩
  · split at hdigit
    · next h => exact Or.inr (Or.inr ⟨h.1, h.2⟩)
    · split at hdigit
      · next h => exact Or.inr (Or.inl ⟨h.1, h.2⟩)
      · simp at hdigit

/-- No form drops the first character of a text that starts with an at sign. -/
theorem at_mem_form (radix : Nat) (rest : List Char) : '@' ∈ (form radix ('@' :: rest)).1 := by
  have hdrop : ∀ c, c ≠ '@' → ('@' :: rest).getLast? = some c →
      '@' ∈ ('@' :: rest).dropLast := by
    intro c hc hlast
    cases rest with
    | nil => exact absurd (Option.some.inj hlast).symm hc
    | cons d rest => exact List.mem_cons_self
  rw [form_eq]
  split
  · next h =>
    rcases h with h | h
    · exact hdrop _ (by decide) h
    · exact hdrop _ (by decide) h
  · split
    · next h => simp at h
    · split
      · next h =>
        rcases h with h | h
        · exact hdrop _ (by decide) h
        · exact hdrop _ (by decide) h
      · exact List.mem_cons_self

/-- An operand with an at sign in front spells no number. -/
theorem head?_ne_at_of_parseOperand? {radix : Nat} {s : String} {v : Int}
    (h : parseOperand? radix s = some v) : (trim s.toList).head? ≠ some '@' := by
  intro hat
  obtain ⟨rest, hrest⟩ := List.head?_eq_some_iff.mp hat
  rw [parseOperand?_of_head radix (by simp [hat]), parse?_of_head radix (by simp [hat]),
    hrest] at h
  obtain ⟨m, hm, -⟩ := Option.map_eq_some_iff.mp h
  unfold magnitude? at hm
  have hdigits := Option.eq_some_of_filter_eq_some hm
  have hsome := isSome_digitIn?_of_digits? hdigits (at_mem_form radix rest)
  have hnone : ∀ k, digitIn? k '@' = none := fun k => rfl
  rw [hnone] at hsome
  cases hsome

/-! ## Hexadecimal literals -/

section

variable {ds : List Char} {n : Nat} (h : digits? 16 ds = some n)

include h

/-- A hexadecimal literal is a word of ASCII letters and digits. -/
theorem toNat_of_mem_hex {c : Char} (hc : c ∈ '0' :: 'x' :: ds) :
    (48 ≤ c.toNat ∧ c.toNat ≤ 57) ∨ (65 ≤ c.toNat ∧ c.toNat ≤ 90) ∨
      (97 ≤ c.toNat ∧ c.toNat ≤ 122) := by
  rcases List.mem_cons.mp hc with rfl | hc
  · decide
  · rcases List.mem_cons.mp hc with rfl | hc
    · decide
    · exact toNat_of_digits? h hc

theorem isWord_hex : IsWord ('0' :: 'x' :: ds) := by
  refine ⟨by simp, fun c hc => ?_⟩
  have hc := toNat_of_mem_hex h hc
  simp only [isBlank, Bool.or_eq_false_iff, Bool.and_eq_false_iff, decide_eq_false_iff_not,
    beq_eq_false_iff_ne]
  omega

/-- The hexadecimal form comes before the binary one, so digits that end in `B` are
digits. -/
theorem form_hex (radix : Nat) {x : Char} (hx : x = 'x' ∨ x = 'X') :
    form radix ('0' :: x :: ds) = (ds, 16) := by
  have hne : ds ≠ [] := by
    rintro rfl
    cases h
  -- the last character is a hexadecimal digit, and `H` is none
  have hlast : ¬ (('0' :: x :: ds).getLast? = some 'H' ∨
      ('0' :: x :: ds).getLast? = some 'h') := by
    rw [List.getLast?_cons_cons, List.getLast?_cons_of_ne_nil hne]
    have hdigit : ∀ c, ds.getLast? = some c → (digitIn? 16 c).isSome = true := by
      intro c hc
      exact isSome_digitIn?_of_digits? h (List.mem_of_getLast? hc)
    rintro (h | h)
    · exact absurd (hdigit _ h) (by decide)
    · exact absurd (hdigit _ h) (by decide)
  rw [form_eq, if_neg hlast]
  rcases hx with rfl | rfl <;> rfl

theorem magnitude?_hex (radix : Nat) (hn : n < 2 ^ 63) :
    magnitude? radix ('0' :: 'x' :: ds) = some n := by
  unfold magnitude?
  rw [form_hex h radix (.inl rfl)]
  simp only [h]
  simpa [Option.filter, Nat.shiftLeft_eq] using hn

theorem parse?_hex (radix : Nat) {s : String} (hs : s.toList = '0' :: 'x' :: ds)
    (hn : n < 2 ^ 63) : parse? radix s = some (n : Int) := by
  have htrim : trim s.toList = '0' :: 'x' :: ds := by
    rw [hs, (isWord_hex h).trim_eq]
  rw [parse?_of_head radix (by simp [htrim]), htrim, magnitude?_hex h radix hn]
  rfl

end

/-! ## The printed form -/

/-- A number as the decoder prints it. -/
def spelled (n : Nat) : String := "0x" ++ hex .upper 1 n

theorem toList_spelled (n : Nat) :
    (spelled n).toList = '0' :: 'x' :: (hex .upper 1 n).toList := by
  unfold spelled
  rw [String.toList_append]
  rfl

theorem toNat_of_mem_spelled {n : Nat} {c : Char} (hc : c ∈ (spelled n).toList) :
    (48 ≤ c.toNat ∧ c.toNat ≤ 57) ∨ (65 ≤ c.toNat ∧ c.toNat ≤ 90) ∨
      (97 ≤ c.toNat ∧ c.toNat ≤ 122) := by
  rw [toList_spelled] at hc
  exact toNat_of_mem_hex (digits?_hex n) hc

theorem isWord_spelled (n : Nat) : IsWord (spelled n).toList := by
  rw [toList_spelled]
  exact isWord_hex (digits?_hex n)

theorem parse?_spelled (radix : Nat) {n : Nat} (hn : n < 2 ^ 63) :
    parse? radix (spelled n) = some (n : Int) :=
  parse?_hex (digits?_hex n) radix (toList_spelled n) hn

end Microlab.Literal
