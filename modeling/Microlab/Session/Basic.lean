import Microlab.Disassembly
import Microlab.Session.Config
import Microlab.Session.Log
import Microlab.Session.Walk

/-!
# Sessions

A session holds both machines, a source text, a cursor into its listing and a
log. Only the active machine runs. The other one keeps its state until a reset.
-/

namespace Microlab

structure Session where
  config : Config
  source : String
  i8086 : Cpu .i8086
  i8051 : Cpu .i8051
  cursor : Nat
  running : Bool
  log : Array LogEntry

/-- An operation that needs the other processor. -/
structure WrongArchitecture where
  operation : String
  expected : Arch
  active : Arch
  deriving DecidableEq, Repr

def WrongArchitecture.message (e : WrongArchitecture) : String :=
  s!"{e.operation} needs the {e.expected.name} processor, {e.active.name} is active"

/-- What a run did: how many instructions, whether the machine is halted behind
it, and whether it was cut short. -/
structure RunOutcome where
  executed : Nat
  halted : Bool
  stopped : Bool
  deriving DecidableEq, Repr

namespace Session

def new (config : Config) : Session where
  config := config
  source := ""
  i8086 := .initial .i8086
  i8051 := .initial .i8051
  cursor := 0
  running := false
  log := #[]

abbrev arch (s : Session) : Arch := s.config.arch

def cpu (s : Session) : (a : Arch) → Cpu a
  | .i8086 => s.i8086
  | .i8051 => s.i8051

def setCpu (s : Session) : {a : Arch} → Cpu a → Session
  | .i8086, m => { s with i8086 := m }
  | .i8051, m => { s with i8051 := m }

/-- The machine that runs. -/
def active (s : Session) : Cpu s.arch := s.cpu s.arch

def report (s : Session) (entries : List LogEntry) : Session :=
  { s with log := s.log ++ entries }

def clearLog (s : Session) : Session := { s with log := #[] }

/-- Selects the active machine. Neither machine is reset. -/
def setArch (s : Session) (a : Arch) : Session :=
  { s with config := { s.config with arch := a }, cursor := 0 }.report
    [.info s!"Switched to {a.name} processor"]

def setSource (s : Session) (source : String) : Session := { s with source := source }

/-- The instructions of the source. -/
def program (s : Session) : List Instruction :=
  (SourceLine.parse s.source).map SourceLine.instruction

/-- A listing if all lines assemble, and otherwise the lines that do not. -/
def assemblyReport (a : Assembly) : List LogEntry :=
  .info "--- Assembly ---" ::
    if a.isOk then
      a.instructions.map (fun e => .success e.listing)
        ++ [.info s!"Total instructions: {a.instructions.length}"]
    else a.errors.map fun e => .error e.message

def assemble (s : Session) : Session × Assembly :=
  let a := Microlab.assemble s.arch s.source
  (s.report (assemblyReport a), a)

/-- Assembles the source and takes the bytes apart again. -/
def disassemble (s : Session) : Session × List DisassemblyLine :=
  let lines := Microlab.disassemble s.arch (Microlab.assemble s.arch s.source).bytes
  let entries := lines.map fun l => .info s!"{Text.hex .upper 4 l.address}: {l.text}"
  (s.report (.info "--- Disassembly ---" :: entries), lines)

/-- Assembles the source into the memory of the active machine. -/
def loadProgram (s : Session) : Session × Assembly :=
  let (s, a) := s.assemble
  ((s.setCpu (s.active.loadProgram a.bytes)).report
    [.info s!"Loaded {a.bytes.length} bytes"], a)

def endingReport : Ending → List LogEntry
  | .finished | .halted => []
  | .stopped => [.info "Execution stopped"]
  | .limited => [.info "Step limit reached"]

/-- Walks the listing from the top, within the step limit. -/
def walk (s : Session) (stop : Nat → Bool) : Walk s.arch :=
  .along ⟨s.config.stepLimit, stop⟩ 0 s.active s.program

/-- Runs the listing once from the top. -/
def runUntil (s : Session) (stop : Nat → Bool) : Session × RunOutcome :=
  let walk := s.walk stop
  let executed := walk.traces.length
  let entries :=
    .info "--- Running Program ---" :: walk.traces.mapIdx LogEntry.traced
      ++ endingReport walk.ending ++ [.info "Program execution completed"]
  ({ s.setCpu walk.cpu with cursor := executed, running := false }.report entries,
    { executed := executed
      halted := walk.cpu.halted
      stopped := walk.ending = .stopped || walk.ending = .limited })

def run (s : Session) : Session × RunOutcome := s.runUntil fun _ => false

/-- Executes the instruction under the cursor, unless the listing is at its end or
the machine is halted. -/
def step (s : Session) : Session × Option String :=
  match s.program[s.cursor]? with
  | none => (s.report [.info "Program execution completed"], none)
  | some i =>
    if s.active.halted then (s.report [.info "Processor halted"], none)
    else
      let (next, trace) := s.active.execute i
      ({ s.setCpu next with cursor := s.cursor + 1 }.report [.traced s.cursor trace], some trace)

/-- Runs one instruction outside the listing, without a log entry. -/
def execute (s : Session) (i : Instruction) : Session × String :=
  let (next, trace) := s.active.execute i
  (s.setCpu next, trace)

/-- Resets both machines and the run. Source, configuration and log stay. -/
def reset (s : Session) : Session :=
  { s with
    i8086 := s.i8086.reset
    i8051 := s.i8051.reset
    cursor := 0
    running := false }.report [.info "Simulator reset"]

def stop (s : Session) : Session :=
  { s with running := false }.report [.info "Execution stopped"]

/-- Preloads the external memory of the 8051, if that is the active machine. -/
def loadExternal (s : Session) (address : Word) (bytes : List Byte) :
    Except WrongArchitecture Session :=
  match s.arch with
  | .i8086 => .error ⟨"load_external_memory", .i8051, .i8086⟩
  | .i8051 =>
    .ok <| { s with i8051 := I8051.Machine.loadExternal s.i8051 address bytes }.report
      [.info (s!"Loaded {bytes.length} bytes of external memory at "
        ++ s!"0x{Text.hex .upper 4 address.toNat}")]

def read (s : Session) (address : Address) : Byte := s.active.memory.read address

def write (s : Session) (address : Address) (b : Byte) : Session :=
  s.setCpu (s.active.write address b)

/-- Bytes of the active machine's memory. -/
def memory (s : Session) (start : Address) (count : Nat) : List Byte :=
  s.active.memory.dump start count

/-- The ports of the 8051, if that is the active machine. -/
def ports? (s : Session) : Option (List Byte) :=
  match s.arch with
  | .i8086 => none
  | .i8051 => some (I8051.Machine.ports s.i8051).toList

def snapshot (s : Session) : Snapshot := s.active.snapshot

end Session

end Microlab
