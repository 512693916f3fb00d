import Microlab.Command.Basic

/-!
# Command line

The first word names the command. Files are read before it runs and written
after it.
-/

namespace Microlab.Command

/-- The system's number tells a directory from what should be one. -/
def fileError : IO.Error → FileError
  | .noFileOrDirectory _ _ _ => .missing
  | .inappropriateType _ code _ => if code = 21 then .fileExpected else .directoryExpected
  | e => .other (toString e)

def readFile (path : String) : IO (Except FileError (List Byte)) := do
  try
    return .ok (ofByteArray (← IO.FS.readBinFile path))
  catch e =>
    return .error (fileError e)

/-- Writes the file of an outcome. -/
def writeFile (outcome : Outcome) : IO Outcome := do
  match outcome.file with
  | none => return outcome
  | some (path, bytes) =>
    try
      IO.FS.writeBinFile path (toByteArray bytes)
      return outcome
    catch e =>
      return outcome.unwritten (fileError e)

def runCommand (command : Command) : IO UInt32 := do
  let contents ← command.inputs.mapM fun path => return (path, ← readFile path)
  let outcome ← writeFile <| command.perform fun path =>
    (contents.lookup path).getD (.error .missing)
  IO.print outcome.output
  IO.eprint outcome.errors
  return UInt32.ofNat outcome.exitCode

end Microlab.Command

open Microlab in
def main (args : List String) : IO UInt32 := do
  let command := do
    let name ← Command.Name.ofText? (← args.head?)
    Command.parse? name args.tail
  match command with
  | some command => command.runCommand
  | none =>
    IO.eprintln "usage: (run | disassemble | assemble) OPTIONS"
    return UInt32.ofNat Command.Outcome.usage.exitCode
