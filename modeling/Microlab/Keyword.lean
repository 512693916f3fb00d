import Microlab.Arch
import Microlab.I8086.Register
import Microlab.I8051.Register
import Microlab.Literal

/-!
# Keywords and numbers

An operand that spells a keyword of the processor is never meant as a number,
even where its letters are digits.
-/

namespace Microlab.Arch

def keywords : Arch → List String
  | i8086 => I8086.keywords
  | i8051 => I8051.keywords

def isKeyword (arch : Arch) (s : String) : Bool :=
  arch.keywords.any fun word => Text.sameLetters word (Text.trimmed s)

/-- The number that an operand spells in the processor's radix. -/
def literal? (arch : Arch) (operand : String) : Option Int :=
  Literal.parseOperand? arch.radix operand

example : isKeyword i8051 " acc " = true := by decide

example : isKeyword i8086 "A" = false := by decide

end Microlab.Arch
