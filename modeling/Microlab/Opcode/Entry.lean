import Microlab.Mnemonic
import Microlab.Opcode.Pattern

/-!
# Opcodes

An opcode is some leading bytes, a last byte, the length of its instructions, a form and a
template. The form says where register indexes go: into the last byte, or into a second byte
that names two registers, or one register and a fixed digit. Fields follow in the order of
the template.
-/

namespace Microlab

inductive Form where
  | plain
  | registerPair
  | extension (digit : BitVec 3)
  deriving DecidableEq, Repr

structure Opcode where
  mnemonic : Mnemonic
  lead : List Byte
  last : Byte
  length : Nat
  form : Form
  operands : List Pattern
  deriving DecidableEq, Repr

/-- The byte that names two registers, or a digit and a register. -/
def modRM (reg rm : BitVec 3) : Byte := 0b11#2 ++ reg ++ rm

namespace Opcode

def bytes (o : Opcode) : List Byte := o.lead ++ [o.last]

/-- The template, as a list of tokens. -/
def template (o : Opcode) : String := ", ".intercalate (o.operands.map Pattern.token)

/-- How many bytes the fields take. -/
def fieldSize (o : Opcode) : Nat := o.operands.foldr (fun p size => p.size + size) 0

/-- The length that the bytes, the form and the fields come to. -/
def computedLength (o : Opcode) : Nat :=
  o.bytes.length + (if o.form = .plain then 0 else 1) + o.fieldSize

def specificity (o : Opcode) : Nat := o.operands.foldr (fun p sum => p.specificity + sum) 0

/-- The bytes in front of the fields. A register that the template lacks counts
as register zero. -/
def head (o : Opcode) (registers : List (BitVec 3)) : List Byte :=
  match o.form with
  | .plain => o.lead ++ [o.last + (registers.getD 0 0).setWidth 8]
  | .registerPair => o.bytes ++ [modRM (registers.getD 0 0) (registers.getD 1 0)]
  | .extension digit => o.bytes ++ [modRM digit (registers.getD 0 0)]

end Opcode

end Microlab
