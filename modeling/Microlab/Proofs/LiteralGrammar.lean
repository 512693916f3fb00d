import Microlab.Proofs.Literal
import Mathlib.Data.List.Forall2
import Mathlib.Data.Nat.Digits.Defs

/-!
# The grammar of literals

What a literal is, said without the parser: blanks, a sign, and a body in the first of four
forms that applies to it, whose digits have a value in the base of the form. The forms
overlap, and the order decides what a text means: `1B` is one in binary and `0x1B` has two
hexadecimal digits, `0BH` ends in `H` first, and `0x1H` is no number.
-/

namespace Microlab.Literal

open Text

/-! ## The grammar -/

/-- The digits of the largest radix, in small letters. -/
def numerals : List Char := "0123456789abcdefghijklmnopqrstuvwxyz".toList

/-- The character is the digit for the number, in either letter case. -/
def IsDigit (c : Char) (d : Nat) : Prop := numerals[d]? = some c ∨ (upper numerals)[d]? = some c

/-- The text is a run of digits of the base, and `n` is their value. -/
def Reads (base : Nat) (digits : List Char) (n : Nat) : Prop :=
  digits ≠ [] ∧ ∃ ds, List.Forall₂ IsDigit digits ds ∧ (∀ d ∈ ds, d < base) ∧
    Nat.ofDigits base ds.reverse = n

/-- The last character is one of the two. -/
def EndsIn (a b : Char) (body : List Char) : Prop :=
  ∃ digits c, (c = a ∨ c = b) ∧ body = digits ++ [c]

def StartsHex (body : List Char) : Prop :=
  ∃ digits c, (c = 'x' ∨ c = 'X') ∧ body = '0' :: c :: digits

/-- The digits of a body, and the base that they are in. A form applies where no earlier one
does; what ends in `B` does not end in `H`. -/
inductive HasForm (radix : Nat) : List Char → List Char → Nat → Prop where
  | hexSuffix {digits : List Char} {c : Char} (hc : c = 'H' ∨ c = 'h') :
      HasForm radix (digits ++ [c]) digits 16
  | hexPrefix {digits : List Char} {c : Char} (hc : c = 'x' ∨ c = 'X')
      (hsuffix : ¬ EndsIn 'H' 'h' ('0' :: c :: digits)) :
      HasForm radix ('0' :: c :: digits) digits 16
  | binarySuffix {digits : List Char} {c : Char} (hc : c = 'B' ∨ c = 'b')
      (hhex : ¬ StartsHex (digits ++ [c])) : HasForm radix (digits ++ [c]) digits 2
  | plain {body : List Char} (hsuffix : ¬ EndsIn 'H' 'h' body) (hhex : ¬ StartsHex body)
      (hbinary : ¬ EndsIn 'B' 'b' body) : HasForm radix body body radix

/-- A minus sign in front makes the number negative. Blanks may stand behind it. -/
inductive Signed : List Char → Bool → List Char → Prop where
  | plain {body : List Char} (h : body.head? ≠ some '-') : Signed body false body
  | minus {blanks body : List Char} (hblanks : ∀ c ∈ blanks, isBlank c = true)
      (hbody : ∀ c, body.head? = some c → isBlank c = false) :
      Signed ('-' :: (blanks ++ body)) true body

def signed (negative : Bool) (n : Nat) : Int := if negative then -n else n

/-- The text is a literal for the number. -/
def Denotes (radix : Nat) (text : List Char) (v : Int) : Prop :=
  ∃ core negative body digits base n, Pads text core ∧ Signed core negative body ∧
    HasForm radix body digits base ∧ Reads base digits n ∧ n < 2 ^ 63 ∧ v = signed negative n

/-! ## Digits -/

theorem digit?_eq_some_iff {c : Char} {d : Nat} : digit? c = some d ↔ IsDigit c d := by
  constructor
  · intro h
    have hlow : c.toNat < 123 := by
      unfold digit? at h
      split at h
      · next hc => exact Nat.lt_of_le_of_lt hc.2 (by decide)
      · split at h
        · next hc => exact Nat.lt_of_le_of_lt hc.2 (by decide)
        · split at h
          · next hc => exact Nat.lt_of_le_of_lt hc.2 (by decide)
          · cases h
    have hdigit : ∀ k < 123, ∀ d ∈ digit? (Char.ofNat k),
        numerals[d]? = some (Char.ofNat k) ∨ (upper numerals)[d]? = some (Char.ofNat k) := by
      decide +kernel
    have hc := hdigit c.toNat hlow
    rw [Char.ofNat_toNat] at hc
    exact hc d h
  · have hdigit : ∀ k < 36, numerals[k]?.bind digit? = some k ∧
        (upper numerals)[k]?.bind digit? = some k := by
      decide +kernel
    have hlength : numerals.length = 36 := by decide
    have hupper : (upper numerals).length = 36 := by decide
    rintro (h | h)
    · have hd := (List.getElem?_eq_some_iff.mp h).1
      have hvalue := (hdigit d (hlength ▸ hd)).1
      rwa [h] at hvalue
    · have hd := (List.getElem?_eq_some_iff.mp h).1
      have hvalue := (hdigit d (hupper ▸ hd)).2
      rwa [h] at hvalue

theorem digitIn?_eq_some_iff {base d : Nat} {c : Char} :
    digitIn? base c = some d ↔ IsDigit c d ∧ d < base := by
  unfold digitIn?
  rw [Option.filter_eq_some_iff, digit?_eq_some_iff, decide_eq_true_eq]

theorem mapM_digitIn?_eq_some_iff {base : Nat} {cs : List Char} {ds : List Nat} :
    cs.mapM (digitIn? base) = some ds ↔ List.Forall₂ IsDigit cs ds ∧ ∀ d ∈ ds, d < base := by
  induction cs generalizing ds with
  | nil =>
      rw [List.forall₂_nil_left_iff]
      constructor
      · rintro ⟨⟩
        simp
      · rintro ⟨rfl, -⟩
        rfl
  | cons c cs ih =>
      rw [List.mapM_cons, List.forall₂_cons_left_iff]
      simp only [Option.bind_eq_bind, Option.bind_eq_some_iff, digitIn?_eq_some_iff, ih]
      constructor
      · rintro ⟨d, ⟨hd, hlt⟩, es, ⟨hes, hall⟩, ⟨⟩⟩
        exact ⟨⟨d, es, hd, hes, rfl⟩, List.forall_mem_cons.mpr ⟨hlt, hall⟩⟩
      · rintro ⟨⟨d, es, hd, hes, rfl⟩, hall⟩
        obtain ⟨hlt, hall⟩ := List.forall_mem_cons.mp hall
        exact ⟨d, ⟨hd, hlt⟩, es, ⟨hes, hall⟩, rfl⟩

/-- From the left, each digit makes the value the base times as large. -/
theorem foldl_eq_ofDigits (base : Nat) (ds : List Nat) :
    ds.foldl (fun value d => value * base + d) 0 = Nat.ofDigits base ds.reverse := by
  rw [Nat.ofDigits_eq_foldr, List.foldr_reverse]
  congr 1
  funext value d
  rw [Nat.cast_id, Nat.add_comm, Nat.mul_comm]

theorem digits?_eq_some_iff {base n : Nat} {cs : List Char} :
    digits? base cs = some n ↔ Reads base cs n := by
  cases cs with
  | nil => exact iff_of_false nofun fun h => h.1 rfl
  | cons c cs =>
      show ((c :: cs).mapM (digitIn? base)).map _ = some n ↔ _
      rw [Option.map_eq_some_iff]
      simp only [mapM_digitIn?_eq_some_iff, foldl_eq_ofDigits]
      constructor
      · rintro ⟨ds, ⟨hds, hall⟩, hn⟩
        exact ⟨List.cons_ne_nil _ _, ds, hds, hall, hn⟩
      · rintro ⟨-, ds, hds, hall, hn⟩
        exact ⟨ds, ⟨hds, hall⟩, hn⟩

/-! ## Forms -/

theorem endsIn_pair_iff {a b : Char} {body : List Char} :
    EndsIn a b body ↔ body.getLast? = some a ∨ body.getLast? = some b := by
  unfold EndsIn
  simp only [List.getLast?_eq_some_iff]
  constructor
  · rintro ⟨digits, c, rfl | rfl, h⟩
    · exact .inl ⟨digits, h⟩
    · exact .inr ⟨digits, h⟩
  · rintro (⟨digits, h⟩ | ⟨digits, h⟩)
    · exact ⟨digits, a, .inl rfl, h⟩
    · exact ⟨digits, b, .inr rfl, h⟩

theorem startsHex_iff {body : List Char} :
    StartsHex body ↔ body.take 2 = ['0', 'x'] ∨ body.take 2 = ['0', 'X'] := by
  constructor
  · rintro ⟨digits, c, rfl | rfl, rfl⟩
    · exact .inl rfl
    · exact .inr rfl
  · intro h
    have hbody := List.take_append_drop 2 body
    rcases h with h | h
    · exact ⟨body.drop 2, 'x', .inl rfl, by rw [← hbody, h]; rfl⟩
    · exact ⟨body.drop 2, 'X', .inr rfl, by rw [← hbody, h]; rfl⟩

theorem form_eq_ite (radix : Nat) (body : List Char) [Decidable (EndsIn 'H' 'h' body)]
    [Decidable (StartsHex body)] [Decidable (EndsIn 'B' 'b' body)] :
    form radix body =
      if EndsIn 'H' 'h' body then (body.dropLast, 16)
      else if StartsHex body then (body.drop 2, 16)
      else if EndsIn 'B' 'b' body then (body.dropLast, 2)
      else (body, radix) := by
  simp only [form_eq, endsIn_pair_iff, startsHex_iff]

/-- The form of a body is the first one that applies to it. -/
theorem hasForm_iff {radix base : Nat} {body digits : List Char} :
    HasForm radix body digits base ↔ form radix body = (digits, base) := by
  classical
  rw [form_eq_ite]
  constructor
  · intro h
    cases h with
    | @hexSuffix digits c hc => rw [if_pos ⟨digits, c, hc, rfl⟩, List.dropLast_concat]
    | @hexPrefix digits c hc hsuffix => rw [if_neg hsuffix, if_pos ⟨digits, c, hc, rfl⟩]; rfl
    | @binarySuffix digits c hc hhex =>
        have hsuffix : ¬ EndsIn 'H' 'h' (digits ++ [c]) := by
          rintro ⟨ds, c', hc', heq⟩
          obtain ⟨-, heq⟩ := List.append_inj' heq rfl
          cases heq
          rcases hc with rfl | rfl <;> exact absurd hc' (by decide)
        rw [if_neg hsuffix, if_neg hhex, if_pos ⟨digits, c, hc, rfl⟩, List.dropLast_concat]
    | plain hsuffix hhex hbinary => rw [if_neg hsuffix, if_neg hhex, if_neg hbinary]
  · intro h
    by_cases hsuffix : EndsIn 'H' 'h' body
    · rw [if_pos hsuffix] at h
      obtain ⟨ds, c, hc, rfl⟩ := hsuffix
      rw [List.dropLast_concat] at h
      cases h
      exact .hexSuffix hc
    · rw [if_neg hsuffix] at h
      by_cases hhex : StartsHex body
      · rw [if_pos hhex] at h
        obtain ⟨ds, c, hc, rfl⟩ := hhex
        cases h
        exact .hexPrefix hc hsuffix
      · rw [if_neg hhex] at h
        by_cases hbinary : EndsIn 'B' 'b' body
        · rw [if_pos hbinary] at h
          obtain ⟨ds, c, hc, rfl⟩ := hbinary
          rw [List.dropLast_concat] at h
          cases h
          exact .binarySuffix hc hhex
        · rw [if_neg hbinary] at h
          cases h
          exact .plain hsuffix hhex hbinary

theorem magnitude?_eq_some_iff {radix n : Nat} {body digits : List Char} {base : Nat}
    (hform : HasForm radix body digits base) :
    magnitude? radix body = some n ↔ Reads base digits n ∧ n < 2 ^ 63 := by
  unfold magnitude?
  rw [hasForm_iff.mp hform]
  show (digits? base digits).filter _ = some n ↔ _
  rw [Option.filter_eq_some_iff, digits?_eq_some_iff, decide_eq_true_eq, Nat.one_shiftLeft]

/-! ## Signs -/

theorem exists_signed (core : List Char) : ∃ negative body, Signed core negative body := by
  by_cases h : core.head? = some '-'
  · obtain ⟨rest, rfl⟩ := List.head?_eq_some_iff.mp h
    obtain ⟨blanks, hrest, hblanks⟩ := exists_trimStart rest
    rw [hrest]
    exact ⟨true, _, .minus hblanks fun _ => head?_trimStart⟩
  · exact ⟨false, core, .plain h⟩

theorem exists_hasForm (radix : Nat) (body : List Char) :
    ∃ digits base, HasForm radix body digits base :=
  ⟨_, _, hasForm_iff.mpr rfl⟩

section

variable {radix base n : Nat} {text : String} {core body digits : List Char} {negative : Bool}

theorem parse?_of_signed (hpads : Pads text.toList core) (hsign : Signed core negative body) :
    parse? radix text = (magnitude? radix body).map (signed negative) := by
  have htrim := hpads.trim_eq
  cases hsign with
  | plain h =>
      rw [← htrim] at h ⊢
      exact parse?_of_head radix h
  | minus hblanks hbody =>
      rw [parse?_of_minus radix htrim, trimStart_append hblanks, trimStart_eq_self hbody]
      rfl

/-- The first form that applies decides. -/
theorem parse?_eq_some_iff_of_form (hpads : Pads text.toList core)
    (hsign : Signed core negative body) (hform : HasForm radix body digits base) {v : Int} :
    parse? radix text = some v ↔
      ∃ n, Reads base digits n ∧ n < 2 ^ 63 ∧ v = signed negative n := by
  rw [parse?_of_signed hpads hsign, Option.map_eq_some_iff]
  simp only [magnitude?_eq_some_iff hform, and_assoc, eq_comm (a := v)]

theorem parse?_eq_some_iff {v : Int} : parse? radix text = some v ↔ Denotes radix text.toList v := by
  constructor
  · intro h
    obtain ⟨negative, body, hsign⟩ := exists_signed (trim text.toList)
    obtain ⟨digits, base, hform⟩ := exists_hasForm radix body
    have hpads := pads_trim text.toList
    obtain ⟨n, hreads, hn, hv⟩ := (parse?_eq_some_iff_of_form hpads hsign hform).mp h
    exact ⟨_, _, _, _, _, n, hpads, hsign, hform, hreads, hn, hv⟩
  · rintro ⟨core, negative, body, digits, base, n, hpads, hsign, hform, hreads, hn, hv⟩
    exact (parse?_eq_some_iff_of_form hpads hsign hform).mpr ⟨n, hreads, hn, hv⟩

/-! ## What stands in a body -/

theorem mem_numerals_of_reads (h : Reads base digits n) {c : Char} (hc : c ∈ digits) :
    c ∈ numerals ++ upper numerals := by
  obtain ⟨-, ds, hds, -⟩ := h
  obtain ⟨k, hk, rfl⟩ := List.mem_iff_getElem.mp hc
  have hdigit := hds.get hk (hds.length_eq ▸ hk)
  rcases hdigit with h | h
  · exact List.mem_append_left _ (List.mem_of_getElem? h)
  · exact List.mem_append_right _ (List.mem_of_getElem? h)

/-- A body is made of letters and digits. -/
theorem mem_numerals_of_form (hform : HasForm radix body digits base)
    (h : Reads base digits n) {c : Char} (hc : c ∈ body) : c ∈ numerals ++ upper numerals := by
  cases hform with
  | plain => exact mem_numerals_of_reads h hc
  | hexSuffix hs =>
      rcases List.mem_append.mp hc with hc | hc
      · exact mem_numerals_of_reads h hc
      · obtain rfl := List.mem_singleton.mp hc
        rcases hs with rfl | rfl <;> decide
  | binarySuffix hs =>
      rcases List.mem_append.mp hc with hc | hc
      · exact mem_numerals_of_reads h hc
      · obtain rfl := List.mem_singleton.mp hc
        rcases hs with rfl | rfl <;> decide
  | hexPrefix hs =>
      rcases List.mem_cons.mp hc with rfl | hc
      · decide
      · rcases List.mem_cons.mp hc with rfl | hc
        · rcases hs with rfl | rfl <;> decide
        · exact mem_numerals_of_reads h hc

end

/-- Letters and digits are neither blanks nor signs. -/
theorem of_mem_numerals {c : Char} (h : c ∈ numerals ++ upper numerals) :
    isBlank c = false ∧ c ≠ '-' ∧ c ≠ '+' := by
  have hall : (numerals ++ upper numerals).all
      (fun c => !isBlank c && c != '-' && c != '+') = true := by
    decide
  simpa [and_assoc] using List.all_eq_true.mp hall c h

/-- No sign stands in a literal but a minus sign in front. -/
theorem signs_of_denotes {radix : Nat} {text : List Char} {v : Int} (h : Denotes radix text v) :
    '+' ∉ text ∧ text.count '-' ≤ 1 := by
  obtain ⟨core, negative, body, digits, base, n, hpads, hsign, hform, hreads, -, -⟩ := h
  have hblank : ∀ {cs : List Char}, (∀ c ∈ cs, isBlank c = true) → '+' ∉ cs ∧ cs.count '-' = 0 := by
    intro cs hcs
    exact ⟨fun hc => absurd (hcs _ hc) (by decide),
      List.count_eq_zero.mpr fun hc => absurd (hcs _ hc) (by decide)⟩
  have hbody : '+' ∉ body ∧ body.count '-' = 0 := by
    have hsymbol := fun {c} hc => of_mem_numerals (mem_numerals_of_form hform hreads (c := c) hc)
    exact ⟨fun hc => (hsymbol hc).2.2 rfl,
      List.count_eq_zero.mpr fun hc => (hsymbol hc).2.1 rfl⟩
  obtain ⟨before, after, rfl, hbefore, hafter⟩ := hpads.around
  have hbefore := hblank hbefore
  have hafter := hblank hafter
  cases hsign with
  | plain =>
      simp [hbefore, hafter, hbody]
  | minus hblanks =>
      have hblanks := hblank hblanks
      simp [hbefore, hafter, hbody, hblanks]

/-! ## Spellings -/

theorem Reads.zero_cons {base n : Nat} {digits : List Char} (hbase : 0 < base)
    (h : Reads base digits n) : Reads base ('0' :: digits) n := by
  obtain ⟨-, ds, hds, hall, hn⟩ := h
  refine ⟨List.cons_ne_nil _ _, 0 :: ds, .cons (.inl rfl) hds,
    List.forall_mem_cons.mpr ⟨hbase, hall⟩, ?_⟩
  rw [List.reverse_cons, Nat.ofDigits_append, hn]
  simp

theorem Reads.leftpad {base n : Nat} {digits : List Char} (hbase : 0 < base)
    (h : Reads base digits n) (width : Nat) : Reads base (digits.leftpad width '0') n := by
  unfold List.leftpad
  induction width - digits.length with
  | zero => exact h
  | succ k ih => exact ih.zero_cons hbase

/-- Printed numerals are read as what they were printed from. -/
theorem reads_hex (letters : LetterCase) (width n : Nat) :
    Reads 16 (hex letters width n).toList n := by
  have hdigits : digits? 16 (Nat.toDigits 16 n) = some n :=
    digits?_toDigits (by decide) (by decide) n
  unfold hex
  rw [String.toList_ofList]
  apply Reads.leftpad (by decide)
  rw [← digits?_eq_some_iff]
  cases letters with
  | lower => exact hdigits
  | upper => exact (digits?_upper 16 _).trans hdigits

theorem reads_binary (n : Nat) : Reads 2 (Nat.toDigits 2 n) n :=
  digits?_eq_some_iff.mp (digits?_toDigits (by decide) (by decide) n)

section

variable {radix base n : Nat} {body digits : List Char} {c : Char}

theorem not_mem_of_reads (h : Reads base digits n) (hc : digitIn? base c = none) : c ∉ digits := by
  intro hmem
  have hsome := isSome_digitIn?_of_digits? (digits?_eq_some_iff.mpr h) hmem
  rw [hc] at hsome
  cases hsome

theorem reads_unique {k : Nat} (h : Reads base digits k) (h' : Reads base digits n) : k = n := by
  rw [← digits?_eq_some_iff] at h h'
  exact Option.some_injective _ (h.symm.trans h')

theorem isBlank_of_reads (h : Reads base digits n) : ∀ c ∈ digits, isBlank c = false :=
  fun _ hc => (of_mem_numerals (mem_numerals_of_reads h hc)).1

theorem not_startsHex_of_reads (h : Reads 16 digits n) : ¬ StartsHex digits := by
  rintro ⟨rest, c, hc, rfl⟩
  have hletter : digitIn? 16 c = none := by rcases hc with rfl | rfl <;> decide
  exact not_mem_of_reads h hletter (by simp)

theorem not_endsIn_h_of_reads (h : Reads 16 digits n) : ¬ EndsIn 'H' 'h' digits := by
  rintro ⟨rest, c, hc, rfl⟩
  have hletter : digitIn? 16 c = none := by rcases hc with rfl | rfl <;> decide
  exact not_mem_of_reads h hletter (by simp)

theorem hasForm_hexPrefix (hc : c = 'x' ∨ c = 'X') (h : Reads 16 digits n) :
    HasForm radix ('0' :: c :: digits) digits 16 :=
  hasForm_iff.mpr (form_hex (digits?_eq_some_iff.mpr h) radix hc)

theorem hasForm_binarySuffix (hc : c = 'B' ∨ c = 'b') (h : Reads 2 digits n) :
    HasForm radix (digits ++ [c]) digits 2 := by
  refine .binarySuffix hc ?_
  rintro ⟨rest, s, hs, heq⟩
  have hletter : digitIn? 2 s = none ∧ ¬ (s = 'B' ∨ s = 'b') := by
    rcases hs with rfl | rfl <;> decide
  have hmem : s ∈ digits ++ [c] := by
    rw [heq]
    simp
  rcases List.mem_append.mp hmem with hmem | hmem
  · exact not_mem_of_reads h hletter.1 hmem
  · obtain rfl := List.mem_singleton.mp hmem
    exact hletter.2 hc

/-- Without blanks, a body is a literal with and without a minus sign. -/
theorem parse?_of_form (hform : HasForm radix body digits base) (h : Reads base digits n)
    (hn : n < 2 ^ 63) :
    parse? radix (String.ofList body) = some (n : Int) ∧
      parse? radix (String.ofList ('-' :: body)) = some (-(n : Int)) := by
  have hsymbol := fun c hc => of_mem_numerals (mem_numerals_of_form hform h (c := c) hc)
  have hplain : Signed body false body :=
    .plain fun hhead => (hsymbol _ (List.mem_of_head? hhead)).2.1 rfl
  have hminus : Signed ('-' :: body) true body :=
    @Signed.minus [] body nofun fun c hc => (hsymbol c (List.mem_of_head? hc)).1
  have hpads : Pads body body := .of_forall fun c hc => (hsymbol c hc).1
  have hpads' : Pads ('-' :: body) ('-' :: body) :=
    .of_forall (List.forall_mem_cons.mpr ⟨by decide, fun c hc => (hsymbol c hc).1⟩)
  constructor
  · rw [parse?_eq_some_iff_of_form (String.toList_ofList.symm ▸ hpads) hplain hform]
    exact ⟨n, h, hn, rfl⟩
  · rw [parse?_eq_some_iff_of_form (String.toList_ofList.symm ▸ hpads') hminus hform]
    exact ⟨n, h, hn, rfl⟩

end

/-! ## Numbers of a width -/

theorem unsigned_eq_ok_iff {w : Nat} {v : Int} {b : BitVec w} :
    unsigned w v = .ok b ↔ v = b.toNat := by
  have hlt : b.toNat < 1 <<< w := Nat.one_shiftLeft w ▸ b.isLt
  unfold unsigned
  split
  · exact iff_of_false nofun (by omega)
  · split
    · exact iff_of_false nofun (by omega)
    · obtain ⟨n, rfl⟩ := Int.eq_ofNat_of_zero_le (Int.not_lt.mp ‹_›)
      have hn : n < 2 ^ w := by
        rw [← Nat.one_shiftLeft]
        omega
      rw [Except.ok.injEq, BitVec.ofInt_natCast, ← BitVec.toNat_inj, BitVec.toNat_ofNat,
        Nat.mod_eq_of_lt hn, Int.ofNat_inj]

/-! ## The parser -/

/-- **The parser accepts the grammar.** A text denotes a number exactly if it is a literal for
it. A text is refused if the first form that applies does not fit or its number is too large,
whatever other form would fit, and no literal has a second sign. Any number that is not too
large is read back from its numerals with `0x` in front, `H` behind or `B` behind, for every
radix and with any sign. An operand is a literal behind at most one immediate marker. -/
theorem parse?_exact (radix : Nat) :
    (∀ text v, parse? radix text = some v ↔ Denotes radix text.toList v) ∧
    (∀ text core negative body digits base, Pads text.toList core →
      Signed core negative body → HasForm radix body digits base →
      (∀ n < 2 ^ 63, ¬ Reads base digits n) → parse? radix text = none) ∧
    (∀ text v, parse? radix text = some v →
      '+' ∉ text.toList ∧ text.toList.count '-' ≤ 1) ∧
    (∀ n < 2 ^ 63, ∀ letters width,
      let digits := (hex letters width n).toList
      let bits := Nat.toDigits 2 n
      ∀ body ∈ ['0' :: 'x' :: digits, '0' :: 'X' :: digits, digits ++ ['H'], digits ++ ['h'],
          bits ++ ['B'], bits ++ ['b']],
        parse? radix (String.ofList body) = some (n : Int) ∧
        parse? radix (String.ofList ('-' :: body)) = some (-(n : Int))) ∧
    ∀ text core, Pads text.toList core →
      (∀ rest, core = '#' :: rest →
        parseOperand? radix text = parse? radix (String.ofList rest)) ∧
      (core.head? ≠ some '#' → parseOperand? radix text = parse? radix text) := by
  refine ⟨fun text v => parse?_eq_some_iff, ?_, ?_, ?_, ?_⟩
  · intro text core negative body digits base hpads hsign hform hnone
    rw [Option.eq_none_iff_forall_ne_some]
    intro v hv
    obtain ⟨n, hreads, hn, -⟩ := (parse?_eq_some_iff_of_form hpads hsign hform).mp hv
    exact hnone n hn hreads
  · intro text v hv
    exact signs_of_denotes (parse?_eq_some_iff.mp hv)
  · intro n hn letters width digits bits body hbody
    have hdigits : Reads 16 digits n := reads_hex letters width n
    have hbits : Reads 2 bits n := reads_binary n
    simp only [List.mem_cons, List.not_mem_nil, or_false] at hbody
    rcases hbody with rfl | rfl | rfl | rfl | rfl | rfl
    · exact parse?_of_form (hasForm_hexPrefix (.inl rfl) hdigits) hdigits hn
    · exact parse?_of_form (hasForm_hexPrefix (.inr rfl) hdigits) hdigits hn
    · exact parse?_of_form (.hexSuffix (.inl rfl)) hdigits hn
    · exact parse?_of_form (.hexSuffix (.inr rfl)) hdigits hn
    · exact parse?_of_form (hasForm_binarySuffix (.inl rfl) hbits) hbits hn
    · exact parse?_of_form (hasForm_binarySuffix (.inr rfl) hbits) hbits hn
  · intro text core hpads
    obtain rfl := hpads.trim_eq
    constructor
    · intro rest hrest
      unfold parseOperand?
      rw [unmarked_of_hash hrest]
    · intro hhead
      exact parseOperand?_of_head radix hhead

/-- Hexadecimal digits may end in `B`. A text that ends in `H` is not read as one that starts
with `0x`. -/
theorem parse?_exact_overlap :
    parse? 10 " -\t0x1B " = some (-27) ∧ parse? 16 "0x1H" = none := by
  constructor
  · obtain ⟨hexact, -⟩ := parse?_exact 10
    have hpads : Pads " -\t0x1B ".toList ['-', '\t', '0', 'x', '1', 'B'] :=
      have htrim : trim " -\t0x1B ".toList = ['-', '\t', '0', 'x', '1', 'B'] := by decide
      htrim ▸ pads_trim _
    have hsign : Signed ['-', '\t', '0', 'x', '1', 'B'] true ['0', 'x', '1', 'B'] :=
      @Signed.minus ['\t'] _ (by simp [isBlank]) (by simp [isBlank])
    have hreads : Reads 16 ['1', 'B'] 27 := digits?_eq_some_iff.mp (by decide)
    exact (hexact _ _).mpr ⟨_, _, _, _, _, 27, hpads, hsign, hasForm_hexPrefix (.inl rfl) hreads,
      hreads, by decide, rfl⟩
  · obtain ⟨-, hrefused, -⟩ := parse?_exact 16
    have hpads : Pads "0x1H".toList ['0', 'x', '1', 'H'] :=
      have htrim : trim "0x1H".toList = ['0', 'x', '1', 'H'] := by decide
      htrim ▸ pads_trim _
    have hform : HasForm 16 ['0', 'x', '1', 'H'] ['0', 'x', '1'] 16 :=
      hasForm_iff.mpr (by decide)
    refine hrefused _ _ _ _ _ _ hpads (.plain (by decide)) hform ?_
    intro n _ hreads
    exact not_mem_of_reads (c := 'x') hreads (by decide) (by decide)

end Microlab.Literal
