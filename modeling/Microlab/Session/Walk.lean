import Microlab.Cpu

/-!
# Walking a listing

A run executes a listing from top to bottom and stops in front of an instruction
if the machine is halted, if a stop is asked for there, or if the limit is
reached; these are checked in this order. Jumps do not redirect the walk.
-/

namespace Microlab

/-- Why a walk ended. -/
inductive Ending where
  | finished
  | halted
  | stopped
  | limited
  deriving DecidableEq, Repr

/-- What bounds a walk: a limit on its instructions, and the indexes in front of
which it stops. -/
structure Bounds where
  limit : Option Nat
  stop : Nat → Bool

def Bounds.isReached (b : Bounds) (index : Nat) : Bool := b.limit.any (· ≤ index)

structure Walk (a : Arch) where
  cpu : Cpu a
  traces : List String
  ending : Ending

namespace Walk

/-- Walks the rest of a listing, whose first instruction has the given index. -/
def along {a : Arch} (bounds : Bounds) (index : Nat) (cpu : Cpu a) :
    List Instruction → Walk a
  | [] => ⟨cpu, [], .finished⟩
  | i :: rest =>
    if cpu.halted then ⟨cpu, [], .halted⟩
    else if bounds.stop index then ⟨cpu, [], .stopped⟩
    else if bounds.isReached index then ⟨cpu, [], .limited⟩
    else
      let (next, trace) := cpu.execute i
      let walk := along bounds (index + 1) next rest
      { walk with traces := trace :: walk.traces }

end Walk

end Microlab
