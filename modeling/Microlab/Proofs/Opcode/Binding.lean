import Microlab.Opcode.Encoding
import Microlab.Opcode.Decoding
import Microlab.Proofs.Literal
import Microlab.Proofs.RegisterName
import Mathlib.Data.List.Forall2

/-!
# What a template binds

A pattern binds all operands of one folded spelling alike. An operand that an exact
word or a register binds is therefore bound by any other pattern just as the word
itself, which is one of finitely many. So whether two patterns can bind a common
operand is decided by looking at the patterns only.
-/

namespace Microlab

open Text

/-! ## Name tables -/

theorem Arch.literal?_folded (arch : Arch) (s : String) :
    arch.literal? (folded s) = arch.literal? s :=
  Literal.parseOperand?_folded _ s

theorem Arch.literal?_trimmed (arch : Arch) (s : String) :
    arch.literal? (trimmed s) = arch.literal? s := by
  rw [← literal?_folded, folded_trimmed, literal?_folded]

namespace RegisterClass

theorem index?_folded (c : RegisterClass) (s : String) : c.index? (folded s) = c.index? s := by
  unfold index?
  simp only [sameLetters_trimmed_folded]

theorem sameLetters_of_index? {c : RegisterClass} {s : String} {r : BitVec 3}
    (h : c.index? s = some r) : sameLetters (c.name r) (trimmed s) = true := by
  unfold index? at h
  obtain ⟨k, hk, rfl⟩ := Option.map_eq_some_iff.mp h
  obtain ⟨hlt, hsame, -⟩ := List.findIdx?_eq_some_iff_getElem.mp hk
  have hk8 : k < 8 := by simpa using hlt
  have hname : c.name (BitVec.ofNat 3 k) = c.names.toList[k] := by
    have hr : (BitVec.ofNat 3 k).toFin = ⟨k, hk8⟩ := Fin.ext (Nat.mod_eq_of_lt hk8)
    unfold name
    rw [hr]
    rfl
  rw [hname]
  exact hsame

theorem index?_name (c : RegisterClass) (r : BitVec 3) : c.index? (c.name r) = some r := by
  revert r
  cases c <;> decide

end RegisterClass

/-! ## Fields -/

/-- An operand with the immediate marker in front. -/
def isMarked (operand : String) : Bool := (trim operand.toList).head? = some '#'

theorem isMarked_folded (s : String) : isMarked (folded s) = isMarked s := by
  unfold isMarked
  rw [decide_eq_decide]
  exact Literal.head?_folded_hash_iff s

namespace Field

theorem mem_all (f : Field) : f ∈ all := by
  cases f <;> decide

/-- Marker and keywords decide whether an operand may be a number of the field; what
number it is depends on the operand alone. -/
theorem bind?_eq (f : Field) (arch : Arch) (operand : String) :
    f.bind? arch operand =
      if isMarked operand = true then
        if f.marker = .forbidden then none else arch.literal? operand
      else if f.marker = .required ∨ arch.isKeyword operand = true then none
      else arch.literal? operand := by
  unfold bind? isMarked Arch.literal?
  split
  · next digits heq =>
    unfold Literal.parseOperand?
    rw [Literal.unmarked_of_hash heq, heq]
    simp
  · next hne =>
    have hhead : (trim operand.toList).head? ≠ some '#' := by
      intro h
      obtain ⟨rest, hrest⟩ := List.head?_eq_some_iff.mp h
      exact hne rest hrest
    rw [Literal.parseOperand?_of_head _ hhead]
    simp [hhead]

theorem bind?_folded (f : Field) (arch : Arch) (s : String) :
    f.bind? arch (folded s) = f.bind? arch s := by
  rw [bind?_eq, bind?_eq, isMarked_folded, Arch.isKeyword_folded, Arch.literal?_folded]

theorem literal?_of_bind? {f : Field} {arch : Arch} {operand : String} {v : Int}
    (h : f.bind? arch operand = some v) : arch.literal? operand = some v := by
  rw [bind?_eq] at h
  split at h
  · split at h
    · cases h
    · exact h
  · split at h
    · cases h
    · exact h

/-- A marker that one field requires and the other forbids keeps them apart. -/
theorem bind?_eq_none_of_marker {f g : Field} {arch : Arch} {operand : String} {v : Int}
    (h : (f.marker = .required ∧ g.marker = .forbidden) ∨
      (f.marker = .forbidden ∧ g.marker = .required))
    (hv : f.bind? arch operand = some v) : g.bind? arch operand = none := by
  rw [bind?_eq] at hv ⊢
  by_cases hmark : isMarked operand = true
  · rw [if_pos hmark] at hv ⊢
    rcases h with ⟨-, hg⟩ | ⟨hf, -⟩
    · rw [if_pos hg]
    · rw [if_pos hf] at hv
      cases hv
  · rw [if_neg hmark] at hv ⊢
    rcases h with ⟨hf, -⟩ | ⟨-, hg⟩
    · rw [if_pos (Or.inl hf)] at hv
      cases hv
    · rw [if_pos (Or.inl hg)]

end Field

namespace Pattern

theorem bind?_folded (p : Pattern) (arch : Arch) (s : String) :
    p.bind? arch (folded s) = p.bind? arch s := by
  cases p with
  | exact word => simp only [bind?, sameLetters_trimmed_folded]
  | field f => simp only [bind?, Field.bind?_folded]
  | register c => simp only [bind?, RegisterClass.index?_folded]

theorem bind?_congr (p : Pattern) (arch : Arch) {s t : String} (h : folded s = folded t) :
    p.bind? arch s = p.bind? arch t := by
  rw [← bind?_folded p arch s, h, bind?_folded]

/-! ## Bound operands -/

/-- The kind of binding that a pattern yields. -/
def Takes : Pattern → Binding → Prop
  | exact _, .fixed => True
  | field _, .value _ => True
  | register _, .register _ => True
  | _, _ => False

/-- A bound operand as the decoder prints it: a number as its field stores it. -/
def spell : Pattern → Binding → String
  | exact word, _ => word
  | field f, .value v => f.spell (BitVec.ofInt f.width.bits v).toNat
  | register c, .register r => c.name r
  | _, _ => ""

def isField : Pattern → Bool
  | field _ => true
  | _ => false

theorem takes_of_bind? {p : Pattern} {arch : Arch} {operand : String} {b : Binding}
    (h : p.bind? arch operand = some b) : p.Takes b := by
  cases p with
  | exact word =>
      simp only [bind?, Option.ite_none_right_eq_some] at h
      obtain ⟨-, hb⟩ := h
      cases hb
      trivial
  | field f =>
      obtain ⟨v, -, rfl⟩ := Option.map_eq_some_iff.mp h
      trivial
  | register c =>
      obtain ⟨r, -, rfl⟩ := Option.map_eq_some_iff.mp h
      trivial

theorem folded_eq_of_sameLetters {word s : String}
    (h : sameLetters word (trimmed s) = true) : folded word = folded s := by
  have h := sameLetters_iff.mp h
  rw [toList_trimmed] at h
  unfold folded
  rw [upper_trim, h, trim_upper_trim]

/-- A word or register that is bound is spelled as the template or the class spells it,
but for letter case and blanks. -/
theorem folded_spell_of_bind? {p : Pattern} {arch : Arch} {operand : String} {b : Binding}
    (h : p.bind? arch operand = some b) (hp : p.isField = false) :
    folded (p.spell b) = folded operand := by
  cases p with
  | exact word =>
      simp only [bind?, Option.ite_none_right_eq_some] at h
      exact folded_eq_of_sameLetters h.1
  | field f => simp [isField] at hp
  | register c =>
      obtain ⟨r, hr, rfl⟩ := Option.map_eq_some_iff.mp h
      exact folded_eq_of_sameLetters (RegisterClass.sameLetters_of_index? hr)

/-! ## Patterns without a common operand -/

/-- Whether no operand is bound by both patterns. -/
def isApart (arch : Arch) : Pattern → Pattern → Bool
  | exact word, q => q.bind? arch word = none
  | register c, q => decide (∀ r : BitVec 3, q.bind? arch (c.name r) = none)
  | field f, exact word => (field f).bind? arch word = none
  | field f, register c => decide (∀ r : BitVec 3, (field f).bind? arch (c.name r) = none)
  | field f, field g =>
    (f.marker = .required && g.marker = .forbidden) ||
      (f.marker = .forbidden && g.marker = .required)

theorem bind?_eq_none_of_word {p q : Pattern} {arch : Arch} {operand : String} {b : Binding}
    (hp : p.isField = false) (hb : p.bind? arch operand = some b)
    (hq : q.bind? arch (p.spell b) = none) : q.bind? arch operand = none := by
  rw [← bind?_congr q arch (folded_spell_of_bind? hb hp)]
  exact hq

theorem bind?_eq_none_of_isApart {arch : Arch} {p q : Pattern} {operand : String} {b : Binding}
    (hapart : isApart arch p q = true) (hb : p.bind? arch operand = some b) :
    q.bind? arch operand = none := by
  match p, q with
  | exact word, q =>
      simp only [isApart, decide_eq_true_eq] at hapart
      exact bind?_eq_none_of_word rfl hb hapart
  | register c, q =>
      obtain ⟨r, hr, rfl⟩ := Option.map_eq_some_iff.mp hb
      simp only [isApart, decide_eq_true_eq] at hapart
      exact bind?_eq_none_of_word rfl hb (hapart r)
  -- with the patterns exchanged: an operand bound by the word would not be bound by the field
  | field f, exact word =>
      simp only [isApart, decide_eq_true_eq] at hapart
      cases hc : (exact word).bind? arch operand with
      | none => rfl
      | some c =>
          have := bind?_eq_none_of_word (q := field f) rfl hc hapart
          rw [this] at hb
          cases hb
  | field f, register c =>
      simp only [isApart, decide_eq_true_eq] at hapart
      cases hc : (register c).bind? arch operand with
      | none => rfl
      | some d =>
          obtain ⟨r, hr, rfl⟩ := Option.map_eq_some_iff.mp hc
          have := bind?_eq_none_of_word (q := field f) rfl hc (hapart r)
          rw [this] at hb
          cases hb
  | field f, field g =>
      obtain ⟨v, hv, rfl⟩ := Option.map_eq_some_iff.mp hb
      simp only [isApart, Bool.or_eq_true, Bool.and_eq_true, decide_eq_true_eq] at hapart
      show (g.bind? arch operand).map _ = none
      rw [Field.bind?_eq_none_of_marker hapart hv]
      rfl

/-! ## Templates -/

theorem bindAll?_nil_eq_some {arch : Arch} {operands : List String} {bs : List Binding} :
    bindAll? arch [] operands = some bs ↔ operands = [] ∧ bs = [] := by
  cases operands with
  | nil => simp [bindAll?, eq_comm]
  | cons operand operands => simp [bindAll?]

theorem bindAll?_cons_eq_some {arch : Arch} {p : Pattern} {ps : List Pattern}
    {operands : List String} {bs : List Binding} :
    bindAll? arch (p :: ps) operands = some bs ↔
      ∃ operand rest b cs, operands = operand :: rest ∧ bs = b :: cs ∧
        p.bind? arch operand = some b ∧ bindAll? arch ps rest = some cs := by
  cases operands with
  | nil => simp [bindAll?]
  | cons operand rest =>
      simp only [bindAll?, Option.bind_eq_bind, Option.bind_eq_some_iff, Option.pure_def,
        Option.some.injEq, List.cons.injEq]
      constructor
      · rintro ⟨b, hb, cs, hcs, rfl⟩
        exact ⟨operand, rest, b, cs, ⟨rfl, rfl⟩, rfl, hb, hcs⟩
      · rintro ⟨_, _, b, cs, ⟨rfl, rfl⟩, rfl, hb, hcs⟩
        exact ⟨b, hb, cs, hcs, rfl⟩

/-- Two operands bound by a template of two. -/
theorem bindAll?_pair {arch : Arch} {p q : Pattern} {operands : List String}
    {bs : List Binding} :
    bindAll? arch [p, q] operands = some bs ↔
      ∃ x y b c, operands = [x, y] ∧ bs = [b, c] ∧ p.bind? arch x = some b ∧
        q.bind? arch y = some c := by
  simp only [bindAll?_cons_eq_some, bindAll?_nil_eq_some]
  constructor
  · rintro ⟨x, _, b, _, rfl, rfl, hb, y, _, c, _, rfl, rfl, hc, rfl, rfl⟩
    exact ⟨x, y, b, c, rfl, rfl, hb, hc⟩
  · rintro ⟨x, y, b, c, rfl, rfl, hb, hc⟩
    exact ⟨x, [y], b, [c], rfl, rfl, hb, y, [], c, [], rfl, rfl, hc, rfl, rfl⟩

theorem bindAll?_single {arch : Arch} {p : Pattern} {operands : List String}
    {bs : List Binding} :
    bindAll? arch [p] operands = some bs ↔
      ∃ x b, operands = [x] ∧ bs = [b] ∧ p.bind? arch x = some b := by
  simp only [bindAll?_cons_eq_some, bindAll?_nil_eq_some]
  constructor
  · rintro ⟨x, _, b, _, rfl, rfl, hb, rfl, rfl⟩
    exact ⟨x, b, rfl, rfl, hb⟩
  · rintro ⟨x, b, rfl, rfl, hb⟩
    exact ⟨x, [], b, [], rfl, rfl, hb, rfl, rfl⟩

theorem takes_of_bindAll? {arch : Arch} {ps : List Pattern} {operands : List String}
    {bs : List Binding} (h : bindAll? arch ps operands = some bs) :
    List.Forall₂ Takes ps bs := by
  induction ps generalizing operands bs with
  | nil =>
      obtain ⟨-, rfl⟩ := bindAll?_nil_eq_some.mp h
      exact .nil
  | cons p ps ih =>
      obtain ⟨operand, rest, b, cs, rfl, rfl, hb, hcs⟩ := bindAll?_cons_eq_some.mp h
      exact .cons (takes_of_bind? hb) (ih hcs)

/-- Whether no operands are bound by both templates: their lengths differ or they have
patterns apart at some place. -/
def areApart (arch : Arch) : List Pattern → List Pattern → Bool
  | [], [] => false
  | p :: ps, q :: qs => isApart arch p q || areApart arch ps qs
  | _, _ => true

theorem bindAll?_eq_none_of_areApart {arch : Arch} {ps qs : List Pattern}
    {operands : List String} {bs : List Binding} (hapart : areApart arch ps qs = true)
    (hb : bindAll? arch ps operands = some bs) : bindAll? arch qs operands = none := by
  rw [Option.eq_none_iff_forall_ne_some]
  intro cs hc
  induction ps generalizing qs operands bs cs with
  | nil =>
      obtain ⟨rfl, rfl⟩ := bindAll?_nil_eq_some.mp hb
      cases qs with
      | nil => simp [areApart] at hapart
      | cons q qs => simp [bindAll?] at hc
  | cons p ps ih =>
      obtain ⟨operand, rest, b, bs, rfl, rfl, hb, hbs⟩ := bindAll?_cons_eq_some.mp hb
      cases qs with
      | nil => simp [bindAll?] at hc
      | cons q qs =>
          obtain ⟨_, _, c, cs, heq, rfl, hc, hcs⟩ := bindAll?_cons_eq_some.mp hc
          obtain ⟨rfl, rfl⟩ := List.cons.inj heq
          rw [areApart, Bool.or_eq_true] at hapart
          rcases hapart with hapart | hapart
          · rw [bind?_eq_none_of_isApart hapart hb] at hc
            cases hc
          · exact ih hapart hbs _ hcs

end Pattern

end Microlab
