import Microlab.Opcode.Encoding
import Microlab.Text.Numeral

/-!
# Assembly

Source lines are encoded one by one and laid out from address zero. A line that
has no encoding is reported and takes no room.
-/

namespace Microlab

/-- A source line with its address and its bytes. -/
structure Encoded where
  source : SourceLine
  address : Nat
  bytes : List Byte
  deriving DecidableEq, Repr

structure AssemblyError where
  source : SourceLine
  reason : EncodeError
  deriving DecidableEq, Repr

structure Assembly where
  instructions : List Encoded
  errors : List AssemblyError
  deriving DecidableEq, Repr

/-- Two digits a byte, with spaces between them. -/
def hexDump (letters : Text.LetterCase) (bytes : List Byte) : String :=
  " ".intercalate (bytes.map fun b => Text.hex letters 2 b.toNat)

namespace Encoded

/-- Address, bytes and text in columns. -/
def listing (e : Encoded) : String :=
  Text.hex .upper 4 e.address ++ "  " ++ Text.column 12 (hexDump .upper e.bytes)
    ++ "  " ++ e.source.instruction.render

end Encoded

namespace AssemblyError

def text (e : AssemblyError) : String := e.source.instruction.render

def message (e : AssemblyError) : String :=
  s!"line {e.source.number}: {e.text}: {e.reason.message}"

end AssemblyError

namespace Assembly

def isOk (a : Assembly) : Bool := a.errors.isEmpty

def bytes (a : Assembly) : List Byte := a.instructions.flatMap Encoded.bytes

/-- One line for each instruction. -/
def listing (a : Assembly) : String :=
  String.join (a.instructions.map fun e => e.listing ++ "\n")

/-- Lays out the lines from the given address on. -/
def ofLines (arch : Arch) (address : Nat) : List SourceLine → Assembly
  | [] => ⟨[], []⟩
  | line :: lines =>
    match arch.encode line.instruction with
    | .ok bytes =>
      let rest := ofLines arch (address + bytes.length) lines
      { rest with instructions := ⟨line, address, bytes⟩ :: rest.instructions }
    | .error reason =>
      let rest := ofLines arch address lines
      { rest with errors := ⟨line, reason⟩ :: rest.errors }

end Assembly

def assemble (arch : Arch) (source : String) : Assembly :=
  Assembly.ofLines arch 0 (SourceLine.parse source)

example : (assemble .i8051 "MOV A, #03H\nMUL AB").listing
    = "0000  74 03         MOV A, #03H\n0002  A4            MUL AB\n" := by
  decide +kernel

end Microlab
