import Microlab.Keyword
import Microlab.Step

/-!
# What instructions ask for

What an instruction asks for can be said without a look at the machine: an operation, or a
refusal. To perform an instruction in this way is to find the operation first, and to run it
after all has been checked.
-/

namespace Microlab

/-- When a jump is taken. -/
inductive Condition where
  | zero
  | notZero
  | carry
  | noCarry
  deriving DecidableEq, Repr

namespace Arch

/-- The number an operand spells, or zero if it spells none. -/
def valueOrZero (arch : Arch) (operand : String) : BitVec 32 :=
  match arch.literal? operand with
  | some v => BitVec.ofInt 32 v
  | none => 0

/-- The low word of the number an operand spells. -/
def literalOrZero (arch : Arch) (operand : String) : Word :=
  match arch.literal? operand with
  | some v => BitVec.ofInt 16 v
  | none => 0

end Arch

/-- An operation, and its trace up to what running it will report. -/
structure Resolved (Operation : Type) where
  operation : Operation
  lead : String
  deriving DecidableEq, Repr

section

variable {Operation : Type}

/-- The operation asked for, if the instruction is not refused. -/
def asked (r : Except Refusal (Resolved Operation)) : Option Operation :=
  r.toOption.map Resolved.operation

/-- What an operand names, or else a refusal. -/
def lookup {α : Type} (find : String → Option α) (refusal : String → Refusal) (operand : String) :
    Except Refusal α :=
  match find operand with
  | some a => .ok a
  | none => .error (refusal operand)

/-- A jump. Its target is read as a number at once, and is absolute. -/
def resolveTarget (arch : Arch) (op : Word → Operation) (name : String) (i : Instruction) :
    Except Refusal (Resolved Operation) := do
  let target ← i.one
  return ⟨op (arch.literalOrZero target), s!"{name} {target} ("⟩

/-- What an instruction asks for, given what each mnemonic asks for. -/
def resolveBy (known : Mnemonic → Instruction → Except Refusal (Resolved Operation))
    (i : Instruction) : Except Refusal (Resolved Operation) :=
  match Mnemonic.ofName? i.mnemonic with
  | some m => known m i
  | none => .error .unknownInstruction

/-- Finds the operation, and runs it then. -/
def Step.perform {σ Outcome : Type} (apply : σ → Operation → σ × Outcome) (text : Outcome → String)
    (r : Except Refusal (Resolved Operation)) : Step σ String := do
  let resolved ← r
  let outcome ← modifyGet fun s => (apply s resolved.operation).swap
  return resolved.lead ++ text outcome

end

end Microlab
