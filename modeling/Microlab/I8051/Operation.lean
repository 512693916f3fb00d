import Microlab.I8051.Status
import Microlab.Resolution

/-!
# Operations of the 8051

What an instruction asks for: an operation, or a refusal. Internal memory is not modelled,
so a direct operand counts as the number it spells, and an operand that spells none counts
as zero.
-/

namespace Microlab.I8051

inductive Source where
  | register (r : Register)
  | literal (w : Word)
  deriving DecidableEq, Repr

def Source.ofOperand (operand : String) : Source :=
  match Register.ofName? operand with
  | some r => .register r
  | none => .literal (Arch.i8051.literalOrZero operand)

/-- The registers that address external memory. -/
inductive Pointer where
  | dptr
  | r0
  | r1
  deriving DecidableEq, Repr

namespace Pointer

def name : Pointer → String
  | dptr => "DPTR"
  | r0 => "R0"
  | r1 => "R1"

/-- The register, as an operand. -/
def register : Pointer → Register
  | dptr => .dptr
  | r0 => .r0
  | r1 => .r1

def ofOperand? (operand : String) : Option Pointer :=
  Text.named? [("@DPTR", dptr), ("@R0", r0), ("@R1", r1)] operand

end Pointer

inductive Operation where
  | move (dest : Register) (source : Source)
  | fetch (dest : Register) (pointer : Pointer)
  | store (pointer : Pointer) (source : Source)
  | add (withCarry : Bool) (source : Source)
  | subtract (source : Source)
  | increment (dest : Register)
  | decrement (dest : Register)
  | multiply
  | divide
  | logic (op : Logic) (dest : Register) (source : Source)
  | rotate (r : Rotation)
  | clear
  | complement
  | clearCarry
  | setCarry
  | complementCarry
  | jump (target : Word)
  | branch (condition : Condition) (target : Word)
  | idle
  | halt
  deriving DecidableEq, Repr

abbrev Resolved : Type := Microlab.Resolved Operation

namespace Operation

abbrev destination (operand : String) : Except Refusal Register :=
  lookup Register.ofName? .destination operand

def resolveMove (i : Instruction) : Except Refusal Resolved := do
  let (dest, source) ← i.two
  let r ← destination dest
  if source.toList.head? = some '@' then throw (.indirectSource dest source)
  return ⟨move r (.ofOperand source), s!"MOV {dest}, {source} ("⟩

/-- Through `DPTR`, any register is loaded and anything is stored. Through `R0`
and `R1`, only the accumulator is. -/
def resolveExternal (i : Instruction) : Except Refusal Resolved := do
  let (dest, source) ← i.two
  match Pointer.ofOperand? source, Pointer.ofOperand? dest with
  | some .dptr, none =>
    let r ← destination dest
    return ⟨fetch r .dptr, s!"MOVX {dest}, @DPTR ({dest}="⟩
  | none, some .dptr =>
    return ⟨store .dptr (.ofOperand source), s!"MOVX @DPTR, {source} ("⟩
  | some p, none =>
    if Register.ofName? dest = some .a then return ⟨fetch .a p, s!"MOVX A, {source} (A="⟩
    else throw .addressingMode
  | none, some p =>
    if Register.ofName? source = some .a then
      return ⟨store p (.register .a), s!"MOVX {dest}, A ("⟩
    else throw .addressingMode
  | _, _ => throw .addressingMode

/-- The destination of a sum or difference is the accumulator. -/
def resolveSum (op : Source → Operation) (name : String) (i : Instruction) :
    Except Refusal Resolved := do
  let (dest, source) ← i.two
  if Register.ofName? dest = some .a then
    return ⟨op (.ofOperand source), s!"{name} A, {source} ("⟩
  else throw .accumulatorDestination

def resolveStep (op : Register → Operation) (i : Instruction) : Except Refusal Resolved := do
  let dest ← i.one
  let r ← destination dest
  return ⟨op r, s!"{i.mnemonic} {dest} ("⟩

def resolvePair (op : Operation) (m : Mnemonic) (i : Instruction) : Except Refusal Resolved :=
  match i.arguments with
  | [operand] =>
    if Text.sameLetters operand "AB" then .ok ⟨op, s!"{m.name} AB ("⟩ else .error .pairOperand
  | _ => .error .pairOperand

def resolveLogic (op : Logic) (i : Instruction) : Except Refusal Resolved := do
  let (dest, source) ← i.two
  let r ← destination dest
  return ⟨logic op r (.ofOperand source), s!"{i.mnemonic} {dest}, {source} ("⟩

/-- The accumulator may be named or left out. -/
def resolveRotate (r : Rotation) (m : Mnemonic) (i : Instruction) : Except Refusal Resolved :=
  let resolved : Resolved := ⟨rotate r, s!"{m.name} A ("⟩
  match i.arguments with
  | [] => .ok resolved
  | [operand] =>
    if Register.ofName? operand = some .a then .ok resolved else .error .accumulatorOperand
  | _ => .error .accumulatorOperand

def resolveClear (i : Instruction) : Except Refusal Resolved := do
  let operand ← i.one
  if Text.sameLetters operand "A" then return ⟨clear, "CLR A (A = 0)"⟩
  else if Text.sameLetters operand "C" then return ⟨clearCarry, "CLR C (Carry cleared)"⟩
  else throw (.bitOperand .clr operand)

def resolveSet (i : Instruction) : Except Refusal Resolved := do
  let operand ← i.one
  if Text.sameLetters operand "C" then return ⟨setCarry, "SETB C (Carry set)"⟩
  else throw (.bitOperand .setb operand)

def resolveComplement (i : Instruction) : Except Refusal Resolved := do
  let operand ← i.one
  if Text.sameLetters operand "A" then return ⟨complement, "CPL A ("⟩
  else if Text.sameLetters operand "C" then return ⟨complementCarry, "CPL C ("⟩
  else throw (.bitOperand .cpl operand)

/-- The operation of an instruction with a known mnemonic. -/
def resolveKnown (m : Mnemonic) (i : Instruction) : Except Refusal Resolved :=
  match m with
  | .mov => resolveMove i
  | .movx => resolveExternal i
  | .add => resolveSum (add false) i.mnemonic i
  | .addc => resolveSum (add true) i.mnemonic i
  | .subb => resolveSum subtract "SUBB" i
  | .inc => resolveStep increment i
  | .dec => resolveStep decrement i
  | .mul => resolvePair multiply .mul i
  | .div => resolvePair divide .div i
  | .anl => resolveLogic .and i
  | .orl => resolveLogic .or i
  | .xrl => resolveLogic .xor i
  | .rl => resolveRotate .left .rl i
  | .rr => resolveRotate .right .rr i
  | .rlc => resolveRotate .leftCarry .rlc i
  | .rrc => resolveRotate .rightCarry .rrc i
  | .swap => resolveRotate .swap .swap i
  | .clr => resolveClear i
  | .setb => resolveSet i
  | .cpl => resolveComplement i
  | .sjmp | .ljmp => resolveTarget .i8051 jump i.mnemonic i
  | .jz => resolveTarget .i8051 (branch .zero) i.mnemonic i
  | .jnz => resolveTarget .i8051 (branch .notZero) i.mnemonic i
  | .jc => resolveTarget .i8051 (branch .carry) i.mnemonic i
  | .jnc => resolveTarget .i8051 (branch .noCarry) i.mnemonic i
  | .nop => .ok ⟨idle, "NOP executed"⟩
  | .hlt => .ok ⟨halt, "HLT - Program halted"⟩
  | _ => .error .unknownInstruction

def resolve (i : Instruction) : Except Refusal Resolved := resolveBy resolveKnown i

end Operation

end Microlab.I8051
