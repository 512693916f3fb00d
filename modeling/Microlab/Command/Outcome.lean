import Microlab.Command.Files

/-!
# What a command does

A command reads files and ends with an exit code, two texts and perhaps a file to
write. It is a function of the files, so that running it is left to the shell.
-/

namespace Microlab.Command

structure Outcome where
  exitCode : Nat
  output : String
  errors : String
  file : Option (String × List Byte)
  deriving DecidableEq, Repr

/-- What stops a command, and what is behind it. -/
structure Failure where
  message : String
  cause : Option String
  deriving DecidableEq, Repr

namespace Failure

def ofMessage (message : String) : Failure := ⟨message, none⟩

def ofFileError (e : FileError) : Failure := ofMessage e.message

def text (f : Failure) : String :=
  match f.cause with
  | none => s!"Error: {f.message}\n"
  | some cause => s!"Error: {f.message}\n\nCaused by:\n    {cause}\n"

end Failure

namespace Outcome

/-- A command line that the command does not understand. -/
def usage : Outcome := ⟨2, "", "", none⟩

def success (output : String) : Outcome := ⟨0, output, "", none⟩

/-- A failure, after the texts in `errors`. -/
def failure (errors : String) (f : Failure) : Outcome := ⟨1, "", errors ++ f.text, none⟩

def ofResult : Except Failure Outcome → Outcome
  | .ok outcome => outcome
  | .error f => failure "" f

/-- The outcome if its file cannot be written. Errors are reported before the file
is written, and the output behind it. -/
def unwritten (o : Outcome) (e : FileError) : Outcome := failure o.errors (.ofFileError e)

end Outcome

end Microlab.Command
