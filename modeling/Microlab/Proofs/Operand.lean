import Microlab.Refusal
import Microlab.Proofs.Opcode.Spelling

/-!
# Operands that say the same

Two operands say the same to a processor if they are spelled alike but for letter case
and blanks, or if both are bound as numbers and these are the same word. Whatever the
processor looks up by name it finds under both or under neither, and for this any two
numbers will do.
-/

namespace Microlab

open Text

/-- The operands are one name, in any letter case and with any blanks around it, or both
are numbers. -/
def SameName (arch : Arch) (x y : String) : Prop :=
  folded x = folded y ∨
    ∃ (f g : Field) (v w : Int), f.bind? arch x = some v ∧ g.bind? arch y = some w

/-- The operands say the same. -/
def SameOperand (arch : Arch) (x y : String) : Prop :=
  folded x = folded y ∨
    ∃ (f g : Field) (v w : Int), f.bind? arch x = some v ∧ g.bind? arch y = some w ∧
      BitVec.ofInt 16 v = BitVec.ofInt 16 w

theorem SameOperand.sameName {arch : Arch} {x y : String} (h : SameOperand arch x y) :
    SameName arch x y :=
  h.imp_right fun ⟨f, g, v, w, hx, hy, _⟩ => ⟨f, g, v, w, hx, hy⟩

theorem Field.bind?_congr (f : Field) (arch : Arch) {x y : String} (h : folded x = folded y) :
    f.bind? arch x = f.bind? arch y := by
  rw [← bind?_folded f arch x, h, bind?_folded]

namespace SameName

variable {arch : Arch} {x y : String}

theorem symm (h : SameName arch x y) : SameName arch y x :=
  h.imp Eq.symm fun ⟨f, g, v, w, hx, hy⟩ => ⟨g, f, w, v, hy, hx⟩

theorem sameLetters_eq_false {f : Field} {v : Int} {word : String}
    (hx : f.bind? arch x = some v) (hword : f.bind? arch word = none) :
    sameLetters word (trimmed x) = false := by
  rw [← Bool.not_eq_true]
  intro hsame
  rw [← f.bind?_congr arch (Pattern.folded_eq_of_sameLetters hsame), hword] at hx
  cases hx

/-- A number is not found among names that no field takes for a number. -/
theorem named?_eq_none {α : Type} {f : Field} {v : Int} {table : List (String × α)}
    (hx : f.bind? arch x = some v) (htable : ∀ row ∈ table, f.bind? arch row.1 = none) :
    named? table (trimmed x) = none := by
  unfold named?
  rw [Option.map_eq_none_iff, List.find?_eq_none]
  intro row hrow
  rw [sameLetters_eq_false hx (htable row hrow)]
  decide

theorem sameLetters_eq (h : SameName arch x y) {word : String}
    (hword : ∀ f : Field, f.bind? arch word = none) :
    sameLetters word (trimmed x) = sameLetters word (trimmed y) := by
  rcases h with h | ⟨f, g, v, w, hx, hy⟩
  · rw [← sameLetters_trimmed_folded word x, h, sameLetters_trimmed_folded]
  · rw [sameLetters_eq_false hx (hword f), sameLetters_eq_false hy (hword g)]

/-- A name that no field takes for a number is found under both or under neither. -/
theorem named?_eq {α : Type} (h : SameName arch x y) {table : List (String × α)}
    (htable : ∀ row ∈ table, ∀ f : Field, f.bind? arch row.1 = none) :
    named? table (trimmed x) = named? table (trimmed y) := by
  have hfind : table.find? (fun row => sameLetters row.1 (trimmed x))
      = table.find? (fun row => sameLetters row.1 (trimmed y)) := by
    induction table with
    | nil => rw [List.find?_nil, List.find?_nil]
    | cons row table ih =>
        rw [List.forall_mem_cons] at htable
        rw [List.find?_cons, List.find?_cons, h.sameLetters_eq htable.1, ih htable.2]
  unfold named?
  rw [hfind]

theorem head?_at_iff (h : SameName arch x y) :
    (trim x.toList).head? = some '@' ↔ (trim y.toList).head? = some '@' := by
  rcases h with h | ⟨f, g, v, w, hx, hy⟩
  · have hfold : ∀ s : String, (folded s).toList.head? = some '@' ↔
        (trim s.toList).head? = some '@' := by
      intro s
      rw [toList_folded]
      exact head?_upper_eq_some_iff (by decide) _
    rw [← hfold x, h, hfold]
  · have hx := Literal.head?_ne_at_of_parseOperand? (Field.literal?_of_bind? hx)
    have hy := Literal.head?_ne_at_of_parseOperand? (Field.literal?_of_bind? hy)
    exact ⟨fun h => absurd h hx, fun h => absurd h hy⟩

end SameName

theorem SameOperand.literal?_eq {arch : Arch} {x y : String} (h : SameOperand arch x y) :
    (arch.literal? x).map (BitVec.ofInt 16) = (arch.literal? y).map (BitVec.ofInt 16) := by
  rcases h with h | ⟨f, g, v, w, hx, hy, hvw⟩
  · rw [← arch.literal?_folded x, h, arch.literal?_folded]
  · rw [Field.literal?_of_bind? hx, Field.literal?_of_bind? hy]
    exact congrArg some hvw

/-! ## Printed operands -/

/-- A number and what its field prints for it are the same word, if the field is a word or
the number has no sign. -/
theorem Field.sameOperand_spell {f : Field} {arch : Arch} {x : String} {v : Int}
    (hx : f.bind? arch x = some v) (hfit : fits f.width.bits v = true)
    (hsign : f.width = .byte → 0 ≤ v) :
    SameOperand arch x (f.spell (BitVec.ofInt f.width.bits v).toNat) := by
  have hlt := (BitVec.ofInt f.width.bits v).isLt
  have hbig : (BitVec.ofInt f.width.bits v).toNat < 2 ^ 63 := by
    cases hw : f.width <;> rw [hw] at hlt <;> simp only [Width.bits] at hlt ⊢ <;> omega
  refine Or.inr ⟨f, f, v, _, hx, f.bind?_spell arch hbig, ?_⟩
  apply BitVec.eq_of_toNat_eq
  rw [fits_iff] at hfit
  rw [BitVec.toNat_ofInt, BitVec.toNat_ofInt, BitVec.toNat_ofInt]
  -- a byte without a sign is printed as it is, a word is printed modulo the word
  cases hw : f.width with
  | byte =>
      have hpos := hsign hw
      rw [hw] at hfit
      simp only [Width.bits] at hfit ⊢
      omega
  | word =>
      simp only [Width.bits]
      omega

theorem Pattern.sameOperand_of_word {p : Pattern} {arch : Arch} {x : String} {b : Binding}
    (hx : p.bind? arch x = some b) (hp : p.isField = false) : SameOperand arch x (p.spell b) :=
  Or.inl (folded_spell_of_bind? hx hp).symm

/-- What is printed for all operands of an instruction says the same. -/
theorem Pattern.forall₂_sameOperand {arch : Arch} {ps : List Pattern} {operands : List String}
    {bs : List Binding} (h : bindAll? arch ps operands = some bs)
    (hfit : ∀ f ∈ fieldsOf ps bs, fits f.1.bits f.2 = true)
    (hsign : ∀ f ∈ fieldsOf ps bs, f.1 = .byte → 0 ≤ f.2) :
    List.Forall₂ (SameOperand arch) operands (List.zipWith spell ps bs) := by
  induction ps generalizing operands bs with
  | nil =>
      obtain ⟨rfl, rfl⟩ := bindAll?_nil_eq_some.mp h
      exact .nil
  | cons p ps ih =>
      obtain ⟨x, rest, b, cs, rfl, rfl, hb, hcs⟩ := bindAll?_cons_eq_some.mp h
      rw [List.zipWith_cons_cons]
      cases p with
      | exact word => exact .cons (sameOperand_of_word hb rfl) (ih hcs hfit hsign)
      | register c => exact .cons (sameOperand_of_word hb rfl) (ih hcs hfit hsign)
      | field f =>
          obtain ⟨v, hv, rfl⟩ := Option.map_eq_some_iff.mp hb
          simp only [fieldsOf, List.forall_mem_cons] at hfit hsign
          exact .cons (f.sameOperand_spell hv hfit.1 hsign.1) (ih hcs hfit.2 hsign.2)

/-! ## Arguments -/

/-- Arguments are trimmed operands. -/
theorem Instruction.forall₂_arguments {R S : String → String → Prop} {i i' : Instruction}
    (h : List.Forall₂ R i.operands i'.operands)
    (hRS : ∀ x y, R x y → S (trimmed x) (trimmed y)) :
    List.Forall₂ S i.arguments i'.arguments := by
  unfold arguments
  rw [List.forall₂_map_left_iff, List.forall₂_map_right_iff]
  exact h.imp hRS

theorem Instruction.arguments_getElem? {i : Instruction} {n : Nat} {x : String}
    (h : i.operands[n]? = some x) : i.arguments[n]? = some (trimmed x) := by
  unfold arguments
  rw [List.getElem?_map, h]
  rfl

/-- What is related to the arguments is so place by place. -/
theorem exists_getElem?_of_forall₂ {α β : Type} {R : α → β → Prop} {xs : List α} {ys : List β}
    (h : List.Forall₂ R xs ys) {n : Nat} {x : α} (hx : xs[n]? = some x) :
    ∃ y, ys[n]? = some y ∧ R x y := by
  obtain ⟨hn, rfl⟩ := List.getElem?_eq_some_iff.mp hx
  have hn' : n < ys.length := h.length_eq ▸ hn
  exact ⟨ys[n], List.getElem?_eq_getElem hn', h.get hn hn'⟩

section

variable {ε α β : Type} {R : String → String → Prop} {i i' : Instruction}
  {f g : String × String → Except Refusal α} {f₁ g₁ : String → Except Refusal α} {p : α → β}

/-- Steps on the only operand have the same result if they have it on related ones. -/
theorem Instruction.one_bind_congr (h : List.Forall₂ R i.arguments i'.arguments)
    (hfg : ∀ x x', R x x' → ((f₁ x).toOption.map p) = ((g₁ x').toOption.map p)) :
    ((i.one >>= f₁).toOption.map p) = ((i'.one >>= g₁).toOption.map p) := by
  unfold one
  match i.arguments, i'.arguments, h with
  | [], [], _ => rfl
  | [x], [x'], .cons hx _ => exact hfg x x' hx
  | _ :: _ :: _, _ :: _ :: _, _ => rfl

/-- Steps on two operands have the same result if they have it on related ones. -/
theorem Instruction.two_bind_congr (h : List.Forall₂ R i.arguments i'.arguments)
    (hfg : ∀ x y x' y', R x x' → R y y' →
      ((f (x, y)).toOption.map p) = ((g (x', y')).toOption.map p)) :
    ((i.two >>= f).toOption.map p) = ((i'.two >>= g).toOption.map p) := by
  unfold two
  match i.arguments, i'.arguments, h with
  | [], [], _ => rfl
  | [_], [_], _ => rfl
  | [x, y], [x', y'], .cons hx (.cons hy _) => exact hfg x y x' y' hx hy
  | _ :: _ :: _ :: _, _ :: _ :: _ :: _, _ => rfl

/-- Steps on the only operand have a result if there is one and they have it on that. -/
theorem Instruction.one_bind_eq_some_iff {b : β} :
    ((i.one >>= f₁).toOption.map p) = some b ↔
      ∃ x, i.arguments = [x] ∧ ((f₁ x).toOption.map p) = some b := by
  unfold one
  match i.arguments with
  | [] | _ :: _ :: _ =>
      show none = some b ↔ _
      simp
  | [x] =>
      show ((f₁ x).toOption.map p) = some b ↔ _
      simp

/-- Steps on two operands have a result if there are two and they have it on these. -/
theorem Instruction.two_bind_eq_some_iff {b : β} :
    ((i.two >>= f).toOption.map p) = some b ↔
      ∃ x y, i.arguments = [x, y] ∧ ((f (x, y)).toOption.map p) = some b := by
  unfold two
  match i.arguments with
  | [] | [_] | _ :: _ :: _ :: _ =>
      show none = some b ↔ _
      simp
  | [x, y] =>
      show ((f (x, y)).toOption.map p) = some b ↔ _
      simp

end

section

variable {α : Type} {i : Instruction} {r : Refusal}

theorem Refusal.throw_eq_error_iff {e : Refusal} :
    (throw e : Except Refusal α) = .error r ↔ r = e := by
  show Except.error e = Except.error r ↔ _
  rw [Except.error.injEq, eq_comm]

/-- Checks that pass are not refused. -/
theorem Refusal.ite_ok_eq_error_iff {c : Prop} [Decidable c] {a : α} {x : Except Refusal α} :
    (if c then .ok a else x) = .error r ↔ ¬ c ∧ x = .error r := by
  by_cases h : c <;> simp [h]

theorem Instruction.length_arguments (i : Instruction) :
    i.arguments.length = i.operands.length :=
  List.length_map _

/-- Steps on the only operand are refused because there is not one, or by themselves. -/
theorem Instruction.one_bind_eq_error_iff {f : String → Except Refusal α} :
    (i.one >>= f) = .error r ↔
      (i.operands.length ≠ 1 ∧ r = .operandCount 1) ∨
        ∃ x, i.arguments = [x] ∧ f x = .error r := by
  rw [← i.length_arguments]
  unfold one
  match i.arguments with
  | [] | _ :: _ :: _ =>
      show Except.error _ = Except.error r ↔ _
      simp [eq_comm (b := r)]
  | [x] =>
      show f x = _ ↔ _
      simp

/-- Steps on two operands are refused because there are not two, or by themselves. -/
theorem Instruction.two_bind_eq_error_iff {f : String × String → Except Refusal α} :
    (i.two >>= f) = .error r ↔
      (i.operands.length ≠ 2 ∧ r = .operandCount 2) ∨
        ∃ x y, i.arguments = [x, y] ∧ f (x, y) = .error r := by
  rw [← i.length_arguments]
  unfold two
  match i.arguments with
  | [] | [_] | _ :: _ :: _ :: _ =>
      show Except.error _ = Except.error r ↔ _
      simp [eq_comm (b := r)]
  | [x, y] =>
      show f (x, y) = _ ↔ _
      simp

/-- Steps on the only operand succeed if there is one and they succeed on that. -/
theorem Instruction.one_bind_eq_ok_iff {f : String → Except Refusal α} {a : α} :
    (i.one >>= f) = .ok a ↔ ∃ x, i.arguments = [x] ∧ f x = .ok a := by
  unfold one
  match i.arguments with
  | [] | _ :: _ :: _ =>
      show Except.error _ = Except.ok a ↔ _
      simp
  | [x] =>
      show f x = _ ↔ _
      simp

/-- Steps on two operands succeed if there are two and they succeed on these. -/
theorem Instruction.two_bind_eq_ok_iff {f : String × String → Except Refusal α} {a : α} :
    (i.two >>= f) = .ok a ↔ ∃ x y, i.arguments = [x, y] ∧ f (x, y) = .ok a := by
  unfold two
  match i.arguments with
  | [] | [_] | _ :: _ :: _ :: _ =>
      show Except.error _ = Except.ok a ↔ _
      simp
  | [x, y] =>
      show f (x, y) = _ ↔ _
      simp

end

section

variable {R : String → String → Prop} {i i' : Instruction} {x y : String}
  (h : List.Forall₂ R i.arguments i'.arguments)

include h

theorem Instruction.exists_argument_of_forall₂ (hargs : i.arguments = [x]) :
    ∃ x', i'.arguments = [x'] ∧ R x x' := by
  rw [hargs] at h
  match i'.arguments, h with
  | [x'], .cons hx .nil => exact ⟨x', rfl, hx⟩

theorem Instruction.exists_arguments_of_forall₂ (hargs : i.arguments = [x, y]) :
    ∃ x' y', i'.arguments = [x', y'] ∧ R x x' ∧ R y y' := by
  rw [hargs] at h
  match i'.arguments, h with
  | [x', y'], .cons hx (.cons hy .nil) => exact ⟨x', y', rfl, hx, hy⟩

theorem Instruction.length_operands_of_forall₂ : i'.operands.length = i.operands.length := by
  rw [← i.length_arguments, ← i'.length_arguments, h.length_eq]

end

/-! ## Naming -/

/-- The instruction has the mnemonic, in any letter case. -/
def Instruction.Names (i : Instruction) (m : Mnemonic) : Prop :=
  sameLetters m.name i.mnemonic = true

instance (i : Instruction) (m : Mnemonic) : Decidable (i.Names m) :=
  inferInstanceAs (Decidable (_ = true))

theorem Instruction.ofName?_eq_some_iff {i : Instruction} {m : Mnemonic} :
    Mnemonic.ofName? i.mnemonic = some m ↔ i.Names m :=
  Mnemonic.ofName?_eq_some_iff

theorem Instruction.Names.unique {i : Instruction} {m k : Mnemonic} (hm : i.Names m)
    (hk : i.Names k) : m = k :=
  Option.some.inj ((ofName?_eq_some_iff.mpr hm).symm.trans (ofName?_eq_some_iff.mpr hk))

theorem Instruction.Names.congr {i i' : Instruction} {m : Mnemonic} (hi : i.Names m)
    (h : i.mnemonic = i'.mnemonic) : i'.Names m := by
  unfold Names at hi ⊢
  rwa [← h]

/-- The mnemonic is one of the list. -/
def Instruction.NamesAny (i : Instruction) (ms : List Mnemonic) : Prop := ∃ k ∈ ms, i.Names k

instance (i : Instruction) (ms : List Mnemonic) : Decidable (i.NamesAny ms) :=
  inferInstanceAs (Decidable (∃ k ∈ ms, i.Names k))

theorem Instruction.Names.not_any {i : Instruction} {k : Mnemonic} (hi : i.Names k)
    {ms : List Mnemonic} (hk : k ∉ ms) : ¬ i.NamesAny ms := by
  rintro ⟨j, hj, hij⟩
  obtain rfl := hij.unique hi
  exact hk hj

theorem Instruction.Names.iff {i i' : Instruction} {k : Mnemonic} (hi : i.Names k)
    (hi' : i'.Names k) (m : Mnemonic) : i.Names m ↔ i'.Names m := by
  constructor
  · intro h
    obtain rfl := h.unique hi
    exact hi'
  · intro h
    obtain rfl := h.unique hi'
    exact hi

end Microlab
