import Microlab.Command.Options
import Microlab.Command.Outcome
import Microlab.Command.Report
import Microlab.Image

/-!
# Disassembling

Lists a range of a binary file, or assembles a source file and lists its bytes
beside what they decode to.
-/

namespace Microlab.Command.Disassemble

structure RangeOptions where
  input : String
  first : String
  last : String
  base : Address
  skip : Nat
  length : Option Nat
  showBytes : Bool
  deriving DecidableEq, Repr

inductive Task where
  | range (o : RangeOptions)
  | listing (input : String)
  deriving DecidableEq, Repr

structure Options where
  arch : Arch
  format : Format
  task : Task
  out : Option String
  deriving DecidableEq, Repr

def specs : List OptionSpec := [⟨"arch", some 'a', .single⟩, ⟨"format", none, .single⟩]

def rangeSpecs : List OptionSpec :=
  [⟨"base", none, .single⟩, ⟨"skip", none, .single⟩, ⟨"len", none, .single⟩,
   ⟨"show-bytes", none, .flag⟩, ⟨"out", none, .single⟩]

def listingSpecs : List OptionSpec := [⟨"out", none, .single⟩]

def outPath? (p : Parsed) : Option (Option String) :=
  p.get? "out" (fun s => (path? s).map some) none

def parseRange? (args : List String) : Option (Task × Option String) := do
  let p ← Parsed.ofArgs? rangeSpecs false args
  let base ← p.get? "base" (signedBelow? (1 <<< 32)) 0
  let skip ← p.get? "skip" (natBelow? (1 <<< 64)) 0
  let length ← p.get? "len" (fun s => (natBelow? (1 <<< 64) s).map some) none
  let out ← outPath? p
  let [word, first, last] := p.words | none
  let input ← path? word
  return (.range ⟨input, first, last, BitVec.ofNat 32 base, skip, length, p.has "show-bytes"⟩, out)

def parseListing? (args : List String) : Option (Task × Option String) := do
  let p ← Parsed.ofArgs? listingSpecs false args
  let out ← outPath? p
  let [word] := p.words | none
  let input ← path? word
  return (.listing input, out)

def Options.parse? (args : List String) : Option Options := do
  let p ← Parsed.ofArgs? specs true args
  let arch ← p.get? "arch" Arch.ofName? default
  let format ← p.get? "format" Format.ofName? .text
  let (task, out) ← match p.words with
    | "range" :: rest => parseRange? rest
    | "listing" :: rest => parseListing? rest
    | _ => none
  return ⟨arch, format, task, out⟩

/-- One line for each instruction, with its bytes in a column if they are asked
for. -/
def render (showBytes : Bool) (lines : List DisassemblyLine) : String :=
  String.join <| lines.map fun l =>
    l.addressText ++ (if showBytes then Text.column 12 (hexDump .lower l.bytes) ++ "  " else "")
      ++ l.text ++ "\n"

def emit (out : Option String) (errors text : String) : Outcome :=
  match out with
  | none => { Outcome.success text with errors := errors }
  | some path => { Outcome.success "" with errors := errors, file := some (path, utf8 text) }

def readAddress (text : String) : Except Failure Address :=
  (Address.parse text).mapError fun e => .ofMessage e.message

/-- A range of addresses, and the lines that cover it. -/
structure RangeListing where
  first : Address
  last : Address
  lines : List DisassemblyLine
  deriving DecidableEq, Repr

/-- Maps the file and covers the range, as far as it lies in the image. -/
def RangeOptions.list (r : RangeOptions) (arch : Arch) (files : Files) :
    Except Failure RangeListing := do
  let file ← (files r.input).mapError Failure.ofFileError
  let image ← (Image.load file r.base r.skip r.length).mapError fun e => .ofMessage e.message
  let first ← readAddress r.first
  let last ← readAddress r.last
  if last < first then throw (.ofMessage "end must be >= start")
  let some window := image.window? first last
    | throw (.ofMessage s!"0x{Text.hex .lower 1 first.toNat} is outside the image")
  return ⟨first, last, disassembleAt arch first.toNat window⟩

def performRange (o : Options) (r : RangeOptions) (files : Files) : Except Failure Outcome := do
  let range ← r.list o.arch files
  let text := match o.format with
    | .text => render r.showBytes range.lines
    | .json =>
      Json.render (.ofMembers
        [("arch", .ofText o.arch.name),
         ("start", .ofNat range.first.toNat),
         ("end", .ofNat range.last.toNat),
         ("lines", .array (range.lines.map DisassemblyLine.toJson))]) ++ "\n"
  return emit o.out "" text

/-- Lines that do not assemble are reported, and the others are listed. -/
def performListing (o : Options) (input : String) (files : Files) : Except Failure Outcome := do
  let source ← (files.text input).mapError Failure.ofFileError
  let a := assemble o.arch source
  let lines := disassemble o.arch a.bytes
  let text := match o.format with
    | .text => a.listing ++ "\n; disassembly\n" ++ render true lines
    | .json =>
      Json.render (.ofMembers
        [("assembly", a.toJson),
         ("disassembly", .array (lines.map DisassemblyLine.toJson))]) ++ "\n"
  return emit o.out (String.join (a.errors.map fun e => s!"error: {e.message}\n")) text

def perform (o : Options) (files : Files) : Except Failure Outcome :=
  match o.task with
  | .range r => performRange o r files
  | .listing input => performListing o input files

/-- The files that the command reads. -/
def Options.inputs (o : Options) : List String :=
  match o.task with
  | .range r => [r.input]
  | .listing input => [input]

end Microlab.Command.Disassemble
