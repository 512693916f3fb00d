import Microlab.Arch

/-!
# Command lines

An option is named in full behind two dashes or by a letter behind one. Its value
is the rest of the same word or the next word, and two dashes alone end the
options. A word that starts with a dash is never a value by itself.
-/

namespace Microlab.Command

/-- How often an option may stand, and whether it takes a value. -/
inductive Arity where
  | flag
  | single
  | repeated
  deriving DecidableEq, Repr

structure OptionSpec where
  name : String
  letter : Option Char
  arity : Arity
  deriving DecidableEq, Repr

/-- Options with their values in the order of the line, and the other words. -/
structure Parsed where
  options : List (String × String)
  words : List String
  deriving DecidableEq, Repr

namespace Parsed

def empty : Parsed := ⟨[], []⟩

def addOption (p : Parsed) (name value : String) : Parsed :=
  { p with options := (name, value) :: p.options }

def addWord (p : Parsed) (word : String) : Parsed := { p with words := word :: p.words }

def values (p : Parsed) (name : String) : List String :=
  (p.options.filter (·.1 = name)).map Prod.snd

def has (p : Parsed) (name : String) : Bool := !(p.values name).isEmpty

end Parsed

/-- One word of a command line, by its dashes. -/
inductive Argument where
  | endOfOptions
  | long (name : String) (value : Option String)
  | short (letter : Char) (value : Option String)
  | plain (text : String)
  deriving DecidableEq, Repr

def Argument.ofText (text : String) : Argument :=
  match text.toList with
  | ['-', '-'] => endOfOptions
  | '-' :: '-' :: rest =>
    let name := String.ofList (rest.takeWhile (· ≠ '='))
    match rest.dropWhile (· ≠ '=') with
    | [] => long name none
    | _ :: value => long name (some (String.ofList value))
  | '-' :: letter :: rest =>
    match rest with
    | [] => short letter none
    | '=' :: value => short letter (some (String.ofList value))
    | value => short letter (some (String.ofList value))
  | _ => plain text

def Argument.isPlain : Argument → Bool
  | plain _ => true
  | _ => false

/-- The option that a word names, and the value that is part of the word. -/
def optionOf? (specs : List OptionSpec) : Argument → Option (OptionSpec × Option String)
  | .long name value => (specs.find? (·.name = name)).map (·, value)
  | .short letter value => (specs.find? (·.letter = some letter)).map (·, value)
  | _ => none

/-- Reads a command line. With `subcommands`, the first plain word ends it and is
kept, with all that follows, as the words. -/
def scan? (specs : List OptionSpec) (subcommands : Bool) : List String → Option Parsed
  | [] => some .empty
  | text :: rest =>
    match Argument.ofText text with
    | .plain _ =>
      if subcommands then some ⟨[], text :: rest⟩
      else (scan? specs subcommands rest).map (·.addWord text)
    | .endOfOptions => if subcommands then none else some ⟨[], rest⟩
    | word => do
      let (spec, attached) ← optionOf? specs word
      match spec.arity, attached with
      | .flag, none => (scan? specs subcommands rest).map (·.addOption spec.name "")
      | .flag, some _ => none
      | _, some value => (scan? specs subcommands rest).map (·.addOption spec.name value)
      | _, none =>
        match rest with
        | [] => none
        | value :: rest =>
          if (Argument.ofText value).isPlain then
            (scan? specs subcommands rest).map (·.addOption spec.name value)
          else none

/-- An option that is not a repeated one stands at most once. -/
def Parsed.ofArgs? (specs : List OptionSpec) (subcommands : Bool) (args : List String) :
    Option Parsed :=
  (scan? specs subcommands args).filter fun p =>
    specs.all fun spec => spec.arity = .repeated || (p.values spec.name).length ≤ 1

namespace Parsed

/-- The value of an option as `read?` understands it, or the fallback without the
option. -/
def get? {α : Type} (p : Parsed) (name : String) (read? : String → Option α) (fallback : α) :
    Option α :=
  match p.values name with
  | [] => some fallback
  | value :: _ => read? value

end Parsed

/-- A path is any text but the empty one. -/
def path? (text : String) : Option String := if text.isEmpty then none else some text

def digits? (cs : List Char) : Option Nat :=
  if cs.isEmpty || !cs.all Char.isDigit then none
  else some (cs.foldl (fun n c => n * 10 + (c.toNat - '0'.toNat)) 0)

/-- A decimal number with an optional plus sign, below a bound. -/
def natBelow? (bound : Nat) (text : String) : Option Nat :=
  (match text.toList with
    | '+' :: digits => digits? digits
    | digits => digits? digits).filter (· < bound)

/-- As `natBelow?`, but zero may also have a minus sign. -/
def signedBelow? (bound : Nat) (text : String) : Option Nat :=
  match text.toList with
  | '-' :: digits => (digits? digits).filter (· = 0)
  | _ => natBelow? bound text

/-- Text, or JSON. -/
inductive Format where
  | text
  | json
  deriving DecidableEq, Repr

def Format.ofName? : String → Option Format
  | "text" => some text
  | "json" => some json
  | _ => none

end Microlab.Command
