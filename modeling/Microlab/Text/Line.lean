/-!
# Lines

A line ends at a newline, and a carriage return just before the newline belongs
to the line's end. A final newline opens no further line.
-/

namespace Microlab.Text

def dropReturn (line : List Char) : List Char :=
  if line.getLast? = some '\r' then line.dropLast else line

/-- The last piece has no newline behind it: it is a line only if it holds
something, and a carriage return at its end is part of it. -/
def endLines : List (List Char) → List (List Char)
  | [] => []
  | [last] => if last.isEmpty then [] else [last]
  | piece :: pieces => dropReturn piece :: endLines pieces

def lines (text : String) : List String :=
  (endLines (text.toList.splitOn '\n')).map String.ofList

end Microlab.Text
