import Microlab.Json.Basic

/-!
# Reading JSON

A text is cut into tokens one character at a time, and the tokens drive a machine
with a stack of the arrays and objects that are still open.
-/

namespace Microlab.Json

inductive Token where
  | openArray
  | closeArray
  | openObject
  | closeObject
  | colon
  | comma
  | scalar (value : Json)
  | string (literal : String)

/-- Where a character finds the scanner. What has been read of a string, a number
or a word is kept backwards. -/
inductive Mode where
  | outside
  | inString (seen : List Char)
  | inEscape (seen : List Char)
  | inUnicode (missing : Nat) (seen : List Char)
  | inNumber (seen : List Char)
  | inWord (seen : List Char)

def digitsThen (next : List Char → Bool) (cs : List Char) : Bool :=
  (cs.head?.any Char.isDigit) && next (cs.dropWhile Char.isDigit)

def isExponent : List Char → Bool
  | [] => true
  | e :: rest =>
    (e == 'e' || e == 'E') &&
      match rest with
      | '+' :: digits => digitsThen List.isEmpty digits
      | '-' :: digits => digitsThen List.isEmpty digits
      | digits => digitsThen List.isEmpty digits

def isFraction : List Char → Bool
  | '.' :: digits => digitsThen isExponent digits
  | rest => isExponent rest

/-- A number starts with a zero only if that is all of its integer part. -/
def isNumber (cs : List Char) : Bool :=
  match (match cs with | '-' :: rest => rest | rest => rest) with
  | '0' :: rest => isFraction rest
  | rest => digitsThen isFraction rest

/-- The token of a number or word that has ended. -/
def closeMode? : Mode → Option (List Token)
  | .outside => some []
  | .inNumber seen =>
    if isNumber seen.reverse then some [.scalar (.number (String.ofList seen.reverse))] else none
  | .inWord seen =>
    match String.ofList seen.reverse with
    | "null" => some [.scalar .null]
    | "true" => some [.scalar (.bool true)]
    | "false" => some [.scalar (.bool false)]
    | _ => none
  | _ => none

/-- A character outside of strings, numbers and words. -/
def startMode? (c : Char) : Option (Mode × List Token) :=
  if c = ' ' ∨ c = '\t' ∨ c = '\n' ∨ c = '\r' then some (.outside, [])
  else if c = '[' then some (.outside, [.openArray])
  else if c = ']' then some (.outside, [.closeArray])
  else if c = '\x7b' then some (.outside, [.openObject])
  else if c = '\x7d' then some (.outside, [.closeObject])
  else if c = ':' then some (.outside, [.colon])
  else if c = ',' then some (.outside, [.comma])
  else if c = '"' then some (.inString [], [])
  else if c = '-' ∨ c.isDigit then some (.inNumber [c], [])
  else if c.isLower then some (.inWord [c], [])
  else none

/-- The mode after a character, and the tokens that it completes. -/
def scan? (mode : Mode) (c : Char) : Option (Mode × List Token) :=
  match mode with
  | .inString seen =>
    if c = '"' then some (.outside, [.string (String.ofList seen.reverse)])
    else if c = '\\' then some (.inEscape (c :: seen), [])
    else if c.toNat < 0x20 then none
    else some (.inString (c :: seen), [])
  | .inEscape seen =>
    if c = 'u' then some (.inUnicode 4 (c :: seen), [])
    else if (shortEscape? c).isSome then some (.inString (c :: seen), [])
    else none
  | .inUnicode missing seen =>
    if (hexDigit? c).isNone then none
    else if missing ≤ 1 then some (.inString (c :: seen), [])
    else some (.inUnicode (missing - 1) (c :: seen), [])
  | .inNumber seen =>
    if c.isDigit ∨ c = '.' ∨ c = 'e' ∨ c = 'E' ∨ c = '+' ∨ c = '-' then
      some (.inNumber (c :: seen), [])
    else close
  | .inWord seen => if c.isLower then some (.inWord (c :: seen), []) else close
  | .outside => startMode? c
where
  close : Option (Mode × List Token) := do
    let done ← closeMode? mode
    let (next, more) ← startMode? c
    return (next, done ++ more)

/-- Cuts the rest of a text into tokens. -/
def tokens? (mode : Mode) : List Char → Option (List Token)
  | [] => closeMode? mode
  | c :: cs => do
    let (next, done) ← scan? mode c
    let rest ← tokens? next cs
    return done ++ rest

/-- An array or object that is still open, its contents kept backwards. An object
also keeps the name of the member that is being read. -/
inductive Frame where
  | items (done : List Json)
  | members (done : List (String × Json)) (name : String)

inductive Expected where
  | value
  | firstItem
  | name
  | firstName
  | colon
  | separator

inductive State where
  | reading (stack : List Frame) (expected : Expected)
  | complete (value : Json)

/-- Puts a value where it belongs. -/
def State.close (stack : List Frame) (value : Json) : State :=
  match stack with
  | [] => complete value
  | .items done :: stack => reading (.items (value :: done) :: stack) .separator
  | .members done name :: stack =>
    reading (.members ((name, value) :: done) "" :: stack) .separator

def State.step? (state : State) (token : Token) : Option State :=
  match state with
  | complete _ => none
  | reading stack expected =>
    match expected, token, stack with
    | .value, .scalar v, _ | .firstItem, .scalar v, _ => some (close stack v)
    | .value, .string s, _ | .firstItem, .string s, _ => some (close stack (.string s))
    | .value, .openArray, _ | .firstItem, .openArray, _ =>
      some (reading (.items [] :: stack) .firstItem)
    | .value, .openObject, _ | .firstItem, .openObject, _ =>
      some (reading (.members [] "" :: stack) .firstName)
    | .firstItem, .closeArray, .items done :: outer
    | .separator, .closeArray, .items done :: outer => some (close outer (.array done.reverse))
    | .firstName, .closeObject, .members done _ :: outer
    | .separator, .closeObject, .members done _ :: outer =>
      some (close outer (.object done.reverse))
    | .name, .string s, .members done _ :: outer
    | .firstName, .string s, .members done _ :: outer =>
      some (reading (.members done s :: outer) .colon)
    | .colon, .colon, _ => some (reading stack .value)
    | .separator, .comma, .items _ :: _ => some (reading stack .value)
    | .separator, .comma, .members _ _ :: _ => some (reading stack .name)
    | _, _, _ => none

/-- The value that a text writes down, with nothing but white space around it. -/
def read? (text : String) : Option Json := do
  let tokens ← tokens? .outside text.toList
  match ← tokens.foldlM State.step? (.reading [] .value) with
  | .complete value => some value
  | .reading _ _ => none

end Microlab.Json
