import Microlab.Keyword

/-!
# Operand patterns

An opcode's template says for each operand what it accepts: one exact word, a
number for a field of eight or sixteen bits, or a register of a class. Binding
an operand to its pattern yields what goes into the encoding.
-/

namespace Microlab

/-- The registers that a three-bit index selects. -/
inductive RegisterClass where
  | word
  | byte
  | bank
  deriving DecidableEq, Repr

namespace RegisterClass

def names : RegisterClass → Vector String 8
  | word => #v["AX", "CX", "DX", "BX", "SP", "BP", "SI", "DI"]
  | byte => #v["AL", "CL", "DL", "BL", "AH", "CH", "DH", "BH"]
  | bank => #v["R0", "R1", "R2", "R3", "R4", "R5", "R6", "R7"]

def name (c : RegisterClass) (index : BitVec 3) : String := c.names.get index.toFin

def index? (c : RegisterClass) (name : String) : Option (BitVec 3) :=
  (c.names.toList.findIdx? (Text.sameLetters · (Text.trimmed name))).map (BitVec.ofNat 3)

def token : RegisterClass → String
  | word => "r16"
  | byte => "r8"
  | bank => "Rn"

end RegisterClass

/-- Whether a number must, may or must not carry the immediate marker. -/
inductive Marker where
  | required
  | optional
  | forbidden
  deriving DecidableEq, Repr

/-- A numeric field of an instruction. -/
inductive Field where
  | imm8
  | imm16
  | markedImm8
  | markedImm16
  | direct
  | rel8
  | rel16
  | addr16
  deriving DecidableEq, Repr

namespace Field

def all : List Field := [imm8, imm16, markedImm8, markedImm16, direct, rel8, rel16, addr16]

def width : Field → Width
  | imm8 | markedImm8 | direct | rel8 => .byte
  | imm16 | markedImm16 | rel16 | addr16 => .word

def marker : Field → Marker
  | imm8 | imm16 => .optional
  | markedImm8 | markedImm16 => .required
  | direct | rel8 | rel16 | addr16 => .forbidden

def token : Field → String
  | imm8 => "imm8"
  | imm16 => "imm16"
  | markedImm8 => "#imm8"
  | markedImm16 => "#imm16"
  | direct => "direct"
  | rel8 => "rel8"
  | rel16 => "rel16"
  | addr16 => "addr16"

/-- The number that the operand gives the field. The marker makes a number even
of a keyword, so `#C` is twelve on the 8051. -/
def bind? (f : Field) (arch : Arch) (operand : String) : Option Int :=
  match Text.trim operand.toList with
  | '#' :: digits =>
    if f.marker = .forbidden then none
    else Literal.parse? arch.radix (String.ofList digits)
  | _ =>
    if f.marker = .required ∨ arch.isKeyword operand then none
    else Literal.parse? arch.radix operand

end Field

inductive Pattern where
  | exact (word : String)
  | field (f : Field)
  | register (c : RegisterClass)
  deriving DecidableEq, Repr

/-- What an operand stands for under its pattern. -/
inductive Binding where
  | fixed
  | value (v : Int)
  | register (index : BitVec 3)
  deriving DecidableEq, Repr

namespace Pattern

abbrev r16 : Pattern := register .word

abbrev r8 : Pattern := register .byte

abbrev rn : Pattern := register .bank

abbrev imm8 : Pattern := field .imm8

abbrev imm16 : Pattern := field .imm16

abbrev markedImm8 : Pattern := field .markedImm8

abbrev markedImm16 : Pattern := field .markedImm16

abbrev direct : Pattern := field .direct

abbrev rel8 : Pattern := field .rel8

abbrev rel16 : Pattern := field .rel16

abbrev addr16 : Pattern := field .addr16

def token : Pattern → String
  | exact word => word
  | field f => f.token
  | register c => c.token

/-- The patterns that a template names by a token of their own. -/
def named : List Pattern := Field.all.map field ++ [r16, r8, rn]

/-- Any token that names no other pattern stands for itself. -/
def ofToken (token : String) : Pattern :=
  (named.find? (·.token = token)).getD (exact token)

/-- An exact word says more than a field, and a field more than a class. -/
def specificity : Pattern → Nat
  | exact _ => 3
  | field _ => 2
  | register _ => 1

/-- How many bytes the operand adds to the instruction. -/
def size : Pattern → Nat
  | field f => f.width.bytes
  | _ => 0

def isRegister : Pattern → Bool
  | register _ => true
  | _ => false

def bind? (p : Pattern) (arch : Arch) (operand : String) : Option Binding :=
  match p with
  | exact word =>
    if Text.sameLetters word (Text.trimmed operand) then some .fixed else none
  | field f => (f.bind? arch operand).map .value
  | register c => (c.index? operand).map .register

/-- Binds operands to patterns one by one; their numbers must agree. -/
def bindAll? (arch : Arch) : List Pattern → List String → Option (List Binding)
  | [], [] => some []
  | p :: ps, operand :: operands => do
    let binding ← p.bind? arch operand
    let bindings ← bindAll? arch ps operands
    return binding :: bindings
  | _, _ => none

example : ofToken "addr16" = addr16 := by decide

example : (ofToken "direct").bind? .i8051 "A" = none := by decide

example : (ofToken "#imm8").bind? .i8051 "#A" = some (.value 10) := by decide

end Pattern

end Microlab
