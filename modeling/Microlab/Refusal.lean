import Microlab.Instruction
import Microlab.Mnemonic

/-!
# Refused instructions

A processor refuses an instruction for what it says, never for the state it
would run in. A refused instruction has no effect but its trace.
-/

namespace Microlab

inductive Refusal where
  | unknownInstruction
  | operandCount (expected : Nat)
  | destination (operand : String)
  | wordRegister (m : Mnemonic) (operand : String)
  | accumulatorDestination
  | accumulatorOperand
  | pairOperand
  | indirectSource (destination source : String)
  | addressingMode
  | bitOperand (m : Mnemonic) (operand : String)
  deriving DecidableEq, Repr

namespace Refusal

/-- The trace of a refusal. The mnemonic is repeated as the instruction spells
it, except where a message names its own. -/
def message (mnemonic : String) : Refusal → String
  | unknownInstruction => s!"Unknown instruction: {mnemonic}"
  | operandCount 1 => s!"{mnemonic} requires 1 operand"
  | operandCount n => s!"{mnemonic} requires {n} operands"
  | destination operand => s!"{mnemonic}: destination {operand} is not a register"
  | wordRegister m operand => s!"{m.name} requires a 16-bit register, got {operand}"
  | accumulatorDestination => s!"{mnemonic} destination must be A"
  | accumulatorOperand => s!"{mnemonic}: unsupported operand"
  | pairOperand => s!"{mnemonic} requires operand AB"
  | indirectSource dest source => s!"MOV {dest}, {source}: indirect internal RAM is not supported"
  | addressingMode => "MOVX: unsupported addressing mode"
  | bitOperand m operand => s!"{m.name} {operand}: unsupported operand"

end Refusal

namespace Instruction

/-- The only operand. -/
def one (i : Instruction) : Except Refusal String :=
  match i.arguments with
  | [operand] => .ok operand
  | _ => .error (.operandCount 1)

/-- Both operands, destination first. -/
def two (i : Instruction) : Except Refusal (String × String) :=
  match i.arguments with
  | [first, second] => .ok (first, second)
  | _ => .error (.operandCount 2)

end Instruction

end Microlab
