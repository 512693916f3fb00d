import Microlab.Proofs.Operand
import Microlab.Proofs.Step
import Microlab.Proofs.WholeNumber

/-!
# Finding out what an instruction asks for

What both processors share when they look at an instruction: numbers, names that are looked
up in a table, targets of jumps, and the mnemonic. Of each way of looking we say when it is
refused, when it finds something, and that it finds the same for operands that say the same.
-/

namespace Microlab

open Text

/-! ## Numbers -/

namespace Arch

variable (arch : Arch) {x y : String}

theorem literalOrZero_eq (x : String) :
    arch.literalOrZero x = ((arch.literal? x).map (BitVec.ofInt 16)).getD 0 := by
  unfold literalOrZero
  cases arch.literal? x <;> rfl

theorem literalOrZero_trimmed (x : String) :
    arch.literalOrZero (trimmed x) = arch.literalOrZero x := by
  rw [literalOrZero_eq, literalOrZero_eq, literal?_trimmed]

/-- A jump takes the low word of what a handler reads. -/
theorem setWidth_valueOrZero (x : String) :
    (arch.valueOrZero x).setWidth 16 = arch.literalOrZero x := by
  unfold valueOrZero literalOrZero
  cases arch.literal? x with
  | none => rfl
  | some v => exact setWidth_ofInt (by decide) v

/-- The low bits of what a source keeps are those of the number. -/
theorem setWidth_literalOrZero (x : String) {w : Nat} (hw : w ≤ 16) :
    (arch.literalOrZero x).setWidth w = BitVec.ofInt w ((arch.literal? x).getD 0) := by
  rw [← setWidth_ofInt hw, literalOrZero_eq]
  cases arch.literal? x <;> rfl

theorem literalOrZero_congr {arch : Arch} (h : SameOperand arch x y) :
    arch.literalOrZero (trimmed x) = arch.literalOrZero (trimmed y) := by
  rw [literalOrZero_trimmed, literalOrZero_trimmed, literalOrZero_eq, literalOrZero_eq,
    h.literal?_eq]

end Arch

variable {Operation α : Type} {i i' : Instruction} {op : Operation} {r : Refusal} {x y : String}

/-- The trace does not count. -/
theorem asked_ok (op : Operation) (lead lead' : String) :
    asked (.ok ⟨op, lead⟩) = asked (.ok ⟨op, lead'⟩) :=
  rfl

/-! ## Names -/

section

variable {find : String → Option α} {refusal : String → Refusal}
  {f : α → Except Refusal (Resolved Operation)}

theorem lookup_of_some {a : α} (h : find x = some a) : lookup find refusal x = .ok a := by
  unfold lookup
  rw [h]

theorem lookup_of_none (h : find x = none) : lookup find refusal x = .error (refusal x) := by
  unfold lookup
  rw [h]

theorem lookup_bind_congr {g : α → Except Refusal (Resolved Operation)} (h : find x = find y)
    (hfg : ∀ a, asked (f a) = asked (g a)) :
    asked (lookup find refusal x >>= f) = asked (lookup find refusal y >>= g) := by
  unfold lookup
  rw [h]
  cases find y with
  | none => rfl
  | some a => exact hfg a

theorem lookup_bind_eq_some_iff :
    asked (lookup find refusal x >>= f) = some op ↔
      ∃ a, find x = some a ∧ asked (f a) = some op := by
  unfold lookup
  cases find x with
  | none =>
      show none = some op ↔ _
      simp
  | some a =>
      show asked (f a) = some op ↔ _
      simp

theorem lookup_bind_eq_ok_iff {resolved : Resolved Operation} :
    (lookup find refusal x >>= f) = .ok resolved ↔ ∃ a, find x = some a ∧ f a = .ok resolved := by
  unfold lookup
  cases find x with
  | none =>
      show Except.error _ = Except.ok resolved ↔ _
      simp
  | some a =>
      show f a = Except.ok resolved ↔ _
      simp

theorem lookup_bind_eq_error_iff :
    (lookup find refusal x >>= f) = .error r ↔
      (find x = none ∧ r = refusal x) ∨ ∃ a, find x = some a ∧ f a = .error r := by
  unfold lookup
  cases find x with
  | none => simp [bind, Except.bind, eq_comm]
  | some a => simp [bind, Except.bind]

end

/-! ## Targets of jumps -/

section

variable {arch : Arch} {jump : Word → Operation} {name name' : String}

theorem resolveTarget_congr {R : String → String → Prop}
    (h : List.Forall₂ R i.arguments i'.arguments)
    (hR : ∀ x y, R x y → arch.literalOrZero x = arch.literalOrZero y) :
    asked (resolveTarget arch jump name i) = asked (resolveTarget arch jump name' i') := by
  apply Instruction.one_bind_congr h
  intro x x' hx
  rw [hR x x' hx]
  rfl

theorem resolveTarget_eq_error_iff :
    resolveTarget arch jump name i = .error r ↔
      i.operands.length ≠ 1 ∧ r = .operandCount 1 := by
  unfold resolveTarget
  rw [Instruction.one_bind_eq_error_iff]
  simp [pure, Except.pure]

end

/-! ## Mnemonics -/

section

variable {known : Mnemonic → Instruction → Except Refusal (Resolved Operation)} {m : Mnemonic}

theorem resolveBy_of_names (hi : i.Names m) : resolveBy known i = known m i := by
  unfold resolveBy
  rw [Instruction.ofName?_eq_some_iff.mpr hi]

theorem resolveBy_of_not_names (h : ∀ m, ¬ i.Names m) :
    resolveBy known i = .error .unknownInstruction := by
  unfold resolveBy
  cases hm : Mnemonic.ofName? i.mnemonic with
  | none => rfl
  | some m => exact absurd (Instruction.ofName?_eq_some_iff.mp hm) (h m)

theorem resolveBy_of_unknown {runnable : List Mnemonic}
    (hknown : ∀ m ∉ runnable, known m i = .error .unknownInstruction)
    (h : ∀ m ∈ runnable, ¬ i.Names m) : resolveBy known i = .error .unknownInstruction := by
  by_cases hnames : ∃ m, i.Names m
  · obtain ⟨m, hi⟩ := hnames
    rw [resolveBy_of_names hi]
    exact hknown m fun hm => h m hm hi
  · exact resolveBy_of_not_names fun m hi => hnames ⟨m, hi⟩

theorem exists_names_of_asked (h : asked (resolveBy known i) = some op) :
    ∃ m, i.Names m ∧ asked (known m i) = some op := by
  by_cases hnames : ∃ m, i.Names m
  · obtain ⟨m, hi⟩ := hnames
    rw [resolveBy_of_names hi] at h
    exact ⟨m, hi, h⟩
  · rw [resolveBy_of_not_names fun m hi => hnames ⟨m, hi⟩] at h
    cases h

/-- The rules of refusal are exact if they are for every mnemonic, and if they refuse what
has none. -/
theorem resolveBy_eq_error_iff {Refuses : Refusal → Prop}
    (hsound : ∀ m, i.Names m → known m i = .error r → Refuses r)
    (hunknown : (∀ m, ¬ i.Names m) → Refuses .unknownInstruction)
    (hcomplete : Refuses r → resolveBy known i = .error r) :
    resolveBy known i = .error r ↔ Refuses r := by
  refine ⟨fun h => ?_, hcomplete⟩
  by_cases hnames : ∃ m, i.Names m
  · obtain ⟨m, hi⟩ := hnames
    rw [resolveBy_of_names hi] at h
    exact hsound m hi h
  · have hnone : ∀ m, ¬ i.Names m := fun m hi => hnames ⟨m, hi⟩
    rw [resolveBy_of_not_names hnone] at h
    cases h
    exact hunknown hnone

end

end Microlab
