/-!
# JSON values

A value keeps its numbers and strings as they are written. What a number or a
string denotes is settled when it is asked for: a number may be no natural
number, and a string whose escapes leave a surrogate without its other half
denotes no text.
-/

namespace Microlab

inductive Json where
  | null
  | bool (b : Bool)
  | number (literal : String)
  | string (literal : String)
  | array (items : List Json)
  | object (members : List (String × Json))

namespace Json

/-- One character of a string as the string writes it. -/
def escapeChar (c : Char) : List Char :=
  match c with
  | '"' => ['\\', '"']
  | '\\' => ['\\', '\\']
  | '\x08' => ['\\', 'b']
  | '\x0c' => ['\\', 'f']
  | '\n' => ['\\', 'n']
  | '\r' => ['\\', 'r']
  | '\t' => ['\\', 't']
  | c =>
    if c.toNat < 0x20 then
      ['\\', 'u'] ++ (Nat.toDigits 16 c.toNat).leftpad 4 '0'
    else [c]

def escape (s : String) : String := String.ofList (s.toList.flatMap escapeChar)

def hexDigit? (c : Char) : Option Nat :=
  if '0' ≤ c ∧ c ≤ '9' then some (c.toNat - '0'.toNat)
  else if 'a' ≤ c ∧ c ≤ 'f' then some (c.toNat - 'a'.toNat + 10)
  else if 'A' ≤ c ∧ c ≤ 'F' then some (c.toNat - 'A'.toNat + 10)
  else none

/-- The code unit of four hexadecimal digits. -/
def codeUnit? (a b c d : Char) : Option Nat := do
  let ds ← [a, b, c, d].mapM hexDigit?
  return ds.foldl (fun n d => n * 16 + d) 0

/-- The character of an escape of one letter. -/
def shortEscape? : Char → Option Char
  | '"' => some '"'
  | '\\' => some '\\'
  | '/' => some '/'
  | 'b' => some '\x08'
  | 'f' => some '\x0c'
  | 'n' => some '\n'
  | 'r' => some '\r'
  | 't' => some '\t'
  | _ => none

/-- The text behind the escapes. A high surrogate wants a low one right after it,
and `high` holds one that waits. -/
def unescape (high : Option Nat) : List Char → Option (List Char)
  | [] => if high.isSome then none else some []
  | '\\' :: 'u' :: a :: b :: c :: d :: rest =>
    match codeUnit? a b c d, high with
    | none, _ => none
    | some unit, none =>
      if 0xD800 ≤ unit ∧ unit < 0xDC00 then unescape (some unit) rest
      else if 0xDC00 ≤ unit ∧ unit < 0xE000 then none
      else (unescape none rest).map (Char.ofNat unit :: ·)
    | some unit, some first =>
      if 0xDC00 ≤ unit ∧ unit < 0xE000 then
        let code := 0x10000 + (first - 0xD800) * 0x400 + (unit - 0xDC00)
        (unescape none rest).map (Char.ofNat code :: ·)
      else none
  | '\\' :: e :: rest =>
    match shortEscape? e, high with
    | some c, none => (unescape none rest).map (c :: ·)
    | _, _ => none
  | c :: rest => if high.isSome then none else (unescape none rest).map (c :: ·)

/-- The text of a string literal. -/
def decode? (literal : String) : Option String :=
  (unescape none literal.toList).map String.ofList

def ofText (s : String) : Json := string (escape s)

def ofNat (n : Nat) : Json := number (toString n)

def ofInt (n : Int) : Json := number (toString n)

/-- An object with the given names. -/
def ofMembers (members : List (String × Json)) : Json :=
  object (members.map fun (name, value) => (escape name, value))

def text? : Json → Option String
  | string literal => decode? literal
  | _ => none

/-- A number written with digits alone. -/
def nat? : Json → Option Nat
  | number literal => if literal.toList.all Char.isDigit then literal.toNat? else none
  | _ => none

def bool? : Json → Option Bool
  | bool b => some b
  | _ => none

def items? : Json → Option (List Json)
  | array items => some items
  | _ => none

/-- The members of an object under the texts of their names. -/
def named? (members : List (String × Json)) : Option (List (String × Json)) :=
  members.mapM fun (literal, value) => (decode? literal).map fun name => (name, value)

/-- The member of a name, if there is just one. -/
def only? (members : List (String × Json)) (name : String) : Option Json :=
  match members.filter (·.1 = name) with
  | [(_, value)] => some value
  | _ => none

end Json

end Microlab
