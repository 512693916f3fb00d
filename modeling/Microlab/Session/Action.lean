import Microlab.Session.Basic

/-!
# Session actions

Everything that a user can ask of a session, and what it answers. A history of a
session is a list of actions.
-/

namespace Microlab

namespace Session

inductive Action where
  | setArch (a : Arch)
  | setSource (source : String)
  | assemble
  | disassemble
  | loadProgram
  | run
  | runUntil (stop : Nat → Bool)
  | step
  | execute (i : Instruction)
  | stop
  | reset
  | write (address : Address) (b : Byte)
  | loadExternal (address : Word) (bytes : List Byte)
  | clearLog
  | log
  | source
  | config
  | read (address : Address)
  | memory (start : Address) (count : Nat)
  | ports
  | snapshot

inductive Answer where
  | done
  | assembly (a : Assembly)
  | disassembly (lines : List DisassemblyLine)
  | ran (o : RunOutcome)
  | stepped (trace : Option String)
  | executed (trace : String)
  | refused (e : WrongArchitecture)
  | log (entries : Array LogEntry)
  | source (text : String)
  | config (c : Config)
  | byte (b : Byte)
  | bytes (bs : List Byte)
  | ports (bs : Option (List Byte))
  | snapshot (s : Snapshot)

def perform (s : Session) : Action → Session × Answer
  | .setArch a => (s.setArch a, .done)
  | .setSource source => (s.setSource source, .done)
  | .assemble => s.assemble.map id .assembly
  | .disassemble => s.disassemble.map id .disassembly
  | .loadProgram => s.loadProgram.map id .assembly
  | .run => s.run.map id .ran
  | .runUntil stop => (s.runUntil stop).map id .ran
  | .step => s.step.map id .stepped
  | .execute i => (s.execute i).map id .executed
  | .stop => (s.stop, .done)
  | .reset => (s.reset, .done)
  | .write address b => (s.write address b, .done)
  | .loadExternal address bytes =>
    match s.loadExternal address bytes with
    | .ok next => (next, .done)
    | .error e => (s, .refused e)
  | .clearLog => (s.clearLog, .done)
  | .log => (s, .log s.log)
  | .source => (s, .source s.source)
  | .config => (s, .config s.config)
  | .read address => (s, .byte (s.read address))
  | .memory start count => (s, .bytes (s.memory start count))
  | .ports => (s, .ports s.ports?)
  | .snapshot => (s, .snapshot s.snapshot)

/-- Performs a history from its first action to its last, with all answers. -/
def performAll (s : Session) : List Action → Session × List Answer
  | [] => (s, [])
  | action :: rest =>
    let (next, answer) := s.perform action
    let (last, answers) := next.performAll rest
    (last, answer :: answers)

end Session

end Microlab
