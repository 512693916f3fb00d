/-!
# Numerals

Hexadecimal numerals of at least a given width, and text columns.
-/

namespace Microlab.Text

inductive LetterCase where
  | lower
  | upper
  deriving DecidableEq, Repr

/-- Hexadecimal digits, filled up to `width` with zeros. -/
def hex (letters : LetterCase) (width n : Nat) : String :=
  let digits := Nat.toDigits 16 n
  String.ofList <| List.leftpad width '0' <|
    match letters with
    | .lower => digits
    | .upper => digits.map Char.toUpper

/-- The text at the left of a column of `width` characters. -/
def column (width : Nat) (s : String) : String :=
  String.ofList (s.toList.rightpad width ' ')

example : hex .upper 4 0x1AB = "01AB" := by decide

example : column 4 "ab" = "ab  " := by decide

end Microlab.Text
