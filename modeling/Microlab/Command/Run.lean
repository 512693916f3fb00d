import Microlab.Command.Options
import Microlab.Command.Outcome
import Microlab.Command.Report
import Microlab.Text.Quoted

/-!
# Running a program

Assembles a source file, loads it, preloads external memory and runs the listing
once.
-/

namespace Microlab.Command.Run

structure Options where
  arch : Option Arch
  config : Option String
  format : Format
  preloads : List String
  stepLimit : Option Nat
  input : String
  deriving DecidableEq, Repr

def specs : List OptionSpec :=
  [⟨"arch", some 'a', .single⟩, ⟨"config", some 'c', .single⟩, ⟨"format", some 'f', .single⟩,
   ⟨"xmem", none, .repeated⟩, ⟨"step-limit", none, .single⟩]

def Options.parse? (args : List String) : Option Options := do
  let p ← Parsed.ofArgs? specs false args
  let arch ← p.get? "arch" (fun s => (Arch.ofName? s).map some) none
  let config ← p.get? "config" (fun s => (path? s).map some) none
  let format ← p.get? "format" Format.ofName? .text
  let stepLimit ← p.get? "step-limit" (fun s => (natBelow? (1 <<< 64) s).map some) none
  let [word] := p.words | none
  let input ← path? word
  return ⟨arch, config, format, p.values "xmem", stepLimit, input⟩

/-- The text in front of the first colon and the text behind it. -/
def splitColon? (spec : String) : Option (String × String) :=
  match spec.toList.dropWhile (· ≠ ':') with
  | [] => none
  | _ :: rest => some (String.ofList (spec.toList.takeWhile (· ≠ ':')), String.ofList rest)

/-- The number as sixty-four bits, in hexadecimal. -/
def hex64 (v : Int) : String := "0x" ++ Text.hex .lower 1 (BitVec.ofInt 64 v).toNat

def preloadByte (text : String) : Except Failure Byte :=
  match (Literal.parse? 16 text).map (Literal.unsigned 8) with
  | some (.ok b) => .ok b
  | _ => .error (.ofMessage s!"bad byte {Text.quoted text}")

def preloadAddress (text : String) : Except Failure Word :=
  match Literal.parse? 16 text with
  | none => .error (.ofMessage s!"bad address {Text.quoted text}")
  | some v =>
    (Literal.unsigned 16 v).mapError fun e =>
      ⟨s!"address {hex64 v} out of range", some e.message⟩

/-- An address and the bytes to put there, hexadecimal unless they say otherwise.
Empty bytes are skipped. -/
def preload (spec : String) : Except Failure (Word × List Byte) := do
  let some (addressText, values) := splitColon? spec
    | throw (.ofMessage s!"expected ADDR:V1,V2,... got {Text.quoted spec}")
  let address ← preloadAddress addressText
  let texts := ((values.toList.splitOn ',').map Text.trim).filter (!·.isEmpty)
  let bytes ← texts.mapM fun cs => preloadByte (String.ofList cs)
  return (address, bytes)

def readText (files : Files) (path : String) : Except Failure String :=
  match files.text path with
  | .ok text => .ok text
  | .error e => .error ⟨s!"reading {path}", some e.message⟩

def readConfig (files : Files) : Option String → Except Failure Config
  | none => .ok default
  | some path => do
    match Config.parse? (← readText files path) with
    | some config => return config
    | none => throw (.ofMessage "invalid session config: not a configuration")

def applyPreload (s : Session) (spec : String) : Except Failure Session := do
  let (address, bytes) ← preload spec
  match s.loadExternal address bytes with
  | .ok s => return s
  | .error e => throw (.ofMessage e.message)

def report (s : Session) (outcome : RunOutcome) : Format → String
  | .text => String.join (s.log.toList.map (·.message ++ "\n")) ++ s.snapshot.render ++ "\n"
  | .json =>
    Json.render (.ofMembers
      [("outcome", outcome.toJson),
       ("log", .array (s.log.toList.map LogEntry.toJson)),
       ("state", s.snapshot.toJson)]) ++ "\n"

def perform (o : Options) (files : Files) : Except Failure Outcome := do
  let config ← readConfig files o.config
  let config : Config := ⟨o.arch.getD config.arch, o.stepLimit.or config.stepLimit⟩
  let source ← readText files o.input
  let (loaded, _) := ((Session.new config).setSource source).loadProgram
  let ready ← o.preloads.foldlM applyPreload loaded
  let (s, outcome) := ready.run
  return .success (report s outcome o.format)

/-- The files that the command reads. -/
def Options.inputs (o : Options) : List String := o.config.toList ++ [o.input]

end Microlab.Command.Run
