import Microlab.Json.Printer
import Microlab.Session.Basic
import Microlab.Snapshot.Json

/-!
# Reports

The JSON form of what the commands print.
-/

namespace Microlab

def LogEntry.toJson (e : LogEntry) : Json :=
  .ofMembers [("kind", .ofText e.kind.name), ("message", .ofText e.message)]

def RunOutcome.toJson (o : RunOutcome) : Json :=
  .ofMembers
    [("executed", .ofNat o.executed), ("halted", .bool o.halted), ("stopped", .bool o.stopped)]

def SourceLine.toJson (l : SourceLine) : Json :=
  .ofMembers
    [("mnemonic", .ofText l.instruction.mnemonic),
     ("operands", .array (l.instruction.operands.map .ofText)),
     ("line", .ofNat l.number)]

def Encoded.toJson (e : Encoded) : Json :=
  .ofMembers
    [("instruction", e.source.toJson), ("address", .ofNat e.address), ("bytes", .ofBytes e.bytes)]

def EncodeError.toJson : EncodeError → Json
  | unknownInstruction => .ofText "UnknownInstruction"
  | immediateOverflow value bits =>
    .ofMembers
      [("ImmediateOverflow", .ofMembers [("value", .ofInt value), ("bits", .ofNat bits)])]

def AssemblyError.toJson (e : AssemblyError) : Json :=
  .ofMembers
    [("line", .ofNat e.source.number), ("text", .ofText e.text), ("reason", e.reason.toJson)]

def Assembly.toJson (a : Assembly) : Json :=
  .ofMembers
    [("bytes", .ofBytes a.bytes),
     ("instructions", .array (a.instructions.map Encoded.toJson)),
     ("errors", .array (a.errors.map AssemblyError.toJson))]

def DisassemblyLine.toJson (l : DisassemblyLine) : Json :=
  .ofMembers
    [("address", .ofNat l.address),
     ("bytes", .ofBytes l.bytes),
     ("mnemonic", .ofText l.mnemonic),
     ("operands", .ofText l.operandText),
     ("known", .bool l.isKnown)]

end Microlab
