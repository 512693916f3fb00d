import Microlab.Mnemonic
import Microlab.Refusal

/-!
# Steps of a processor

A handler of an instruction checks, reads and writes as it goes along, and then reports
what it did. It may refuse the instruction instead, at any point: the state stands beside
the result, so what was written before a refusal stays written.
-/

namespace Microlab

/-- Goes from one state to the next, and has a result unless it refuses. -/
abbrev Step (σ α : Type) := ExceptT Refusal (StateM σ) α

namespace Step

variable {σ α : Type}

/-- The result, and the state that is left, also by a refusal. -/
def runFrom (x : Step σ α) (s : σ) : Except Refusal α × σ := (ExceptT.run x).run s

/-- The next state and the trace of an instruction that is not refused. -/
def attempt (x : Step σ String) (s : σ) : Except Refusal (σ × String) :=
  match x.runFrom s with
  | (.ok trace, next) => .ok (next, trace)
  | (.error refusal, _) => .error refusal

/-- The state that is left and the trace. The trace of a refused instruction says why. -/
def execute (x : Step σ String) (mnemonic : String) (s : σ) : σ × String :=
  match x.runFrom s with
  | (.ok trace, next) => (next, trace)
  | (.error refusal, left) => (left, refusal.message mnemonic)

/-- Hands an instruction to the handler of its mnemonic. -/
def dispatch (handler? : Mnemonic → Option (Instruction → Step σ String)) (i : Instruction) :
    Step σ String :=
  match (Mnemonic.ofName? i.mnemonic).bind handler? with
  | some handle => handle i
  | none => throw .unknownInstruction

end Step

end Microlab
