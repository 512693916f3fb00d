import Microlab.Text.Blank

/-!
# Numeric literals

A literal is an optional minus sign and a body. The first form that applies to
the body decides its radix: a trailing `H` is hexadecimal, a leading `0x` is
hexadecimal, a trailing `B` is binary, and anything else is in the radix of the
processor at hand. A body that its form does not fit denotes nothing, even if a
later form would fit it.
-/

namespace Microlab.Literal

def digit? (c : Char) : Option Nat :=
  if '0' ≤ c ∧ c ≤ '9' then some (c.toNat - '0'.toNat)
  else if 'a' ≤ c ∧ c ≤ 'z' then some (c.toNat - 'a'.toNat + 10)
  else if 'A' ≤ c ∧ c ≤ 'Z' then some (c.toNat - 'A'.toNat + 10)
  else none

/-- The digit's value, if the radix has such a digit. -/
def digitIn? (radix : Nat) (c : Char) : Option Nat :=
  (digit? c).filter (· < radix)

/-- The value of a non-empty run of digits. -/
def digits? (radix : Nat) : List Char → Option Nat
  | [] => none
  | cs => (cs.mapM (digitIn? radix)).map (·.foldl (fun value d => value * radix + d) 0)

/-- The digits of a body and the radix of the first form that applies to it. -/
def form (radix : Nat) (body : List Char) : List Char × Nat :=
  if body.getLast? = some 'H' ∨ body.getLast? = some 'h' then (body.dropLast, 16)
  else match body with
    | '0' :: 'x' :: hex => (hex, 16)
    | '0' :: 'X' :: hex => (hex, 16)
    | _ =>
      if body.getLast? = some 'B' ∨ body.getLast? = some 'b' then (body.dropLast, 2)
      else (body, radix)

/-- Magnitudes end at the largest signed 64-bit number. -/
def magnitude? (radix : Nat) (body : List Char) : Option Nat :=
  let (digits, radix) := form radix body
  (digits? radix digits).filter (· < 1 <<< 63)

/-- The number that a literal denotes. -/
def parse? (radix : Nat) (text : String) : Option Int :=
  match Text.trim text.toList with
  | '-' :: rest => (magnitude? radix (Text.trimStart rest)).map fun m => -(m : Int)
  | body => (magnitude? radix body).map fun m => (m : Int)

/-- The text after blanks and one immediate marker `#`. -/
def unmarked (text : String) : String :=
  match Text.trim text.toList with
  | '#' :: rest => String.ofList rest
  | cs => String.ofList cs

/-- As `parse?`, with an optional immediate marker in front. -/
def parseOperand? (radix : Nat) (text : String) : Option Int :=
  parse? radix (unmarked text)

/-- Why a number is no unsigned number of some width. -/
inductive RangeError where
  | tooSmall
  | tooLarge
  deriving DecidableEq, Repr

def RangeError.message : RangeError → String
  | tooSmall => "number too small to fit in target type"
  | tooLarge => "number too large to fit in target type"

/-- The number as an unsigned one of a width that holds it. -/
def unsigned (bits : Nat) (v : Int) : Except RangeError (BitVec bits) :=
  if v < 0 then .error .tooSmall
  else if (1 <<< bits : Nat) ≤ v then .error .tooLarge
  else .ok (BitVec.ofInt bits v)

example : parse? 10 "0FFH" = some 255 := by decide

example : parse? 16 "0BH" = some 11 := by decide

example : parse? 16 "1B" = some 1 := by decide

example : parse? 10 "--3" = none := by decide

end Microlab.Literal
