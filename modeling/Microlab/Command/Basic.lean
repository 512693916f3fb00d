import Microlab.Command.Assemble
import Microlab.Command.Disassemble
import Microlab.Command.FileSystem
import Microlab.Command.Run

/-!
# Commands

Three commands, each with a command line of its own.
-/

namespace Microlab

inductive Command where
  | run (o : Command.Run.Options)
  | disassemble (o : Command.Disassemble.Options)
  | assemble (o : Command.Assemble.Options)
  deriving DecidableEq, Repr

namespace Command

inductive Name where
  | run
  | disassemble
  | assemble
  deriving DecidableEq, Repr

def Name.ofText? : String → Option Name
  | "run" => some run
  | "disassemble" => some disassemble
  | "assemble" => some assemble
  | _ => none

def parse? (name : Name) (args : List String) : Option Command :=
  match name with
  | .run => (Run.Options.parse? args).map run
  | .disassemble => (Disassemble.Options.parse? args).map disassemble
  | .assemble => (Assemble.Options.parse? args).map assemble

/-- The files that the command reads. -/
def inputs : Command → List String
  | run o => o.inputs
  | disassemble o => o.inputs
  | assemble o => o.inputs

def perform (c : Command) (files : Files) : Outcome :=
  Outcome.ofResult <|
    match c with
    | run o => Run.perform o files
    | disassemble o => Disassemble.perform o files
    | assemble o => Assemble.perform o files

/-- Performs the command in a file system, which it may change. -/
def performIn (c : Command) (fs : FileSystem) : Outcome × FileSystem :=
  let o := c.perform fs.read
  match o.file with
  | none => (o, fs)
  | some (path, bytes) =>
    match fs.write path bytes with
    | .ok next => (o, next)
    | .error e => (o.unwritten e, fs)

end Command

end Microlab
