import Microlab.Text.Letter
import Microlab.Text.Line

/-!
# Instructions

An instruction is a mnemonic and its operands as the source spells them. What an
operand means is left to the processor. A comment runs from a semicolon or two
slashes to the end of the line.
-/

namespace Microlab

structure Instruction where
  mnemonic : String
  operands : List String
  deriving DecidableEq, Repr

namespace Instruction

/-- Upper-cases the mnemonic and keeps the operands as they are. -/
def ofParts (mnemonic : String) (operands : List String) : Instruction :=
  ⟨String.ofList (Text.upper mnemonic.toList), operands⟩

/-- The instruction as a source line. -/
def render (i : Instruction) : String :=
  match i.operands with
  | [] => i.mnemonic
  | ops => i.mnemonic ++ " " ++ ", ".intercalate ops

/-- The operands without the blanks around them. -/
def arguments (i : Instruction) : List String := i.operands.map Text.trimmed

/-- The part of a line in front of its comment. -/
def code : List Char → List Char
  | [] => []
  | ';' :: _ => []
  | '/' :: '/' :: _ => []
  | c :: cs => c :: code cs

/-- Operands are separated by commas. Inner blanks shrink to one space, and an
empty operand is none. -/
def splitOperands (text : List (List Char)) : List (List Char) :=
  ((([' '].intercalate text).splitOn ',').map Text.trim).filter (!·.isEmpty)

/-- Reads one line. A line of blanks and comment holds no instruction. -/
def parse? (line : String) : Option Instruction :=
  match Text.words (code line.toList) with
  | [] => none
  | mnemonic :: rest =>
    some ⟨String.ofList (Text.upper mnemonic), (splitOperands rest).map String.ofList⟩

end Instruction

/-- An instruction and the number of its line, counted from one. -/
structure SourceLine where
  number : Nat
  instruction : Instruction
  deriving DecidableEq, Repr

namespace SourceLine

/-- The instructions among consecutive lines, the first of them numbered `number`. -/
def ofLines (number : Nat) : List String → List SourceLine
  | [] => []
  | line :: lines =>
    match Instruction.parse? line with
    | none => ofLines (number + 1) lines
    | some instruction => ⟨number, instruction⟩ :: ofLines (number + 1) lines

/-- The instructions of a source text. -/
def parse (source : String) : List SourceLine := ofLines 1 (Text.lines source)

end SourceLine

end Microlab
