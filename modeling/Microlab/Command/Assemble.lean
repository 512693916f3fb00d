import Microlab.Command.Options
import Microlab.Command.Outcome
import Microlab.Command.Report

/-!
# Assembling

Writes the bytes of a source file, all of whose lines must assemble.
-/

namespace Microlab.Command.Assemble

structure Options where
  arch : Arch
  input : String
  output : String
  listing : Bool
  deriving DecidableEq, Repr

def specs : List OptionSpec :=
  [⟨"arch", some 'a', .single⟩, ⟨"input", some 'i', .single⟩, ⟨"output", some 'o', .single⟩,
   ⟨"listing", none, .flag⟩]

def Options.parse? (args : List String) : Option Options := do
  let p ← Parsed.ofArgs? specs false args
  let arch ← p.get? "arch" Arch.ofName? default
  let input ← (p.values "input").head?.bind path?
  let output ← (p.values "output").head?.bind path?
  if !p.words.isEmpty then none
  else return ⟨arch, input, output, p.has "listing"⟩

def perform (o : Options) (files : Files) : Except Failure Outcome := do
  let source ← (files.text o.input).mapError Failure.ofFileError
  let a := assemble o.arch source
  if a.isOk then
    return { Outcome.success (if o.listing then a.listing else "") with
      file := some (o.output, a.bytes) }
  else
    return .failure (String.join (a.errors.map fun e => s!"{o.input}: {e.message}\n"))
      (.ofMessage s!"{a.errors.length} line(s) failed to assemble")

/-- The files that the command reads. -/
def Options.inputs (o : Options) : List String := [o.input]

end Microlab.Command.Assemble
