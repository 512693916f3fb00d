import Microlab.Json.Basic

/-!
# Printing JSON

Every item and member stands on a line of its own, two blanks deeper than what
holds it. Empty arrays and objects stay on one line.
-/

namespace Microlab.Json

def newLine (depth : Nat) : String := "\n" ++ String.ofList (List.replicate (2 * depth) ' ')

/-- Lines between brackets. -/
def bracket (depth : Nat) (opening closing : String) (lines : List String) : String :=
  match lines with
  | [] => opening ++ closing
  | lines =>
    opening ++ newLine (depth + 1) ++ ("," ++ newLine (depth + 1)).intercalate lines
      ++ newLine depth ++ closing

def quote (literal : String) : String := "\"" ++ literal ++ "\""

mutual

/-- The value as it stands behind `depth` levels of indentation. -/
def renderAt (depth : Nat) : Json → String
  | null => "null"
  | bool b => toString b
  | number literal => literal
  | string literal => quote literal
  | array items => bracket depth "[" "]" (renderItems (depth + 1) items)
  | object members => bracket depth "\x7b" "\x7d" (renderMembers (depth + 1) members)

def renderItems (depth : Nat) : List Json → List String
  | [] => []
  | item :: items => renderAt depth item :: renderItems depth items

def renderMembers (depth : Nat) : List (String × Json) → List String
  | [] => []
  | (name, value) :: members =>
    (quote name ++ ": " ++ renderAt depth value) :: renderMembers depth members

end

def render (j : Json) : String := renderAt 0 j

end Microlab.Json
