import Microlab.Instruction
import Microlab.I8086.Opcodes
import Microlab.I8051.Opcodes

/-!
# Encoding

An instruction is encoded by the most specific opcode that binds its operands.
Among equally specific ones the first whose fields hold their numbers is taken,
or the first of all if none does.
-/

namespace Microlab

/-- Why an instruction has no encoding. -/
inductive EncodeError where
  | unknownInstruction
  | immediateOverflow (value : Int) (bits : Nat)
  deriving DecidableEq, Repr

def EncodeError.message : EncodeError → String
  | unknownInstruction => "unknown instruction"
  | immediateOverflow value bits => s!"immediate {value} does not fit in {bits}-bit field"

/-- A field holds what fits it as a signed or as an unsigned number. -/
def fits (bits : Nat) (v : Int) : Bool :=
  -((1 <<< (bits - 1) : Nat) : Int) ≤ v ∧ v < (1 <<< bits : Nat)

def encodeField (order : ByteOrder) (width : Width) (v : Int) : Except EncodeError (List Byte) :=
  if fits width.bits v then
    match width with
    | .byte => .ok [BitVec.ofInt 8 v]
    | .word => .ok (order.split (BitVec.ofInt 16 v))
  else .error (.immediateOverflow v width.bits)

/-- An opcode whose patterns have bound the operands of an instruction. -/
structure Selection where
  opcode : Opcode
  bound : List Binding
  deriving DecidableEq, Repr

namespace Selection

def registers (s : Selection) : List (BitVec 3) :=
  s.bound.filterMap fun
    | .register index => some index
    | _ => none

def fields (s : Selection) : List (Width × Int) :=
  (s.opcode.operands.zip s.bound).filterMap fun
    | (.field f, .value v) => some (f.width, v)
    | _ => none

def fits (s : Selection) : Bool := s.fields.all fun (width, v) => Microlab.fits width.bits v

/-- The first field that does not hold its number is the one reported. -/
def encode (order : ByteOrder) (s : Selection) : Except EncodeError (List Byte) := do
  let fields ← s.fields.mapM fun (width, v) => encodeField order width v
  return s.opcode.head s.registers ++ fields.flatten

end Selection

namespace Arch

def opcodes : Arch → List Opcode
  | i8086 => I8086.opcodes
  | i8051 => I8051.opcodes

/-- The opcodes of a mnemonic in any letter case, in the order of the table. -/
def opcodesOf (arch : Arch) (mnemonic : String) : List Opcode :=
  match Mnemonic.ofName? mnemonic with
  | none => []
  | some m => arch.opcodes.filter (·.mnemonic = m)

/-- All opcodes that bind the operands of the instruction. -/
def candidates (arch : Arch) (i : Instruction) : List Selection :=
  (arch.opcodesOf i.mnemonic).filterMap fun o =>
    (Pattern.bindAll? arch o.operands i.operands).map (Selection.mk o)

/-- The selections of the greatest specificity among the given ones. -/
def mostSpecific (selections : List Selection) : List Selection :=
  selections.filter fun s => selections.all (·.opcode.specificity ≤ s.opcode.specificity)

def select? (arch : Arch) (i : Instruction) : Option Selection :=
  let best := mostSpecific (arch.candidates i)
  (best.find? Selection.fits).or best.head?

def encode (arch : Arch) (i : Instruction) : Except EncodeError (List Byte) :=
  match arch.select? i with
  | none => .error .unknownInstruction
  | some s => s.encode arch.byteOrder

end Arch

end Microlab
