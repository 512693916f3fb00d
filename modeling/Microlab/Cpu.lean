import Microlab.I8051.Handler
import Microlab.I8086.Handler

/-!
# Processors

What the two machines have in common.
-/

namespace Microlab

def Cpu : Arch → Type
  | .i8086 => I8086.Machine
  | .i8051 => I8051.Machine

namespace Cpu

def initial : (a : Arch) → Cpu a
  | .i8086 => I8086.Machine.initial
  | .i8051 => I8051.Machine.initial

def reset : {a : Arch} → Cpu a → Cpu a
  | .i8086, m => I8086.Machine.reset m
  | .i8051, m => I8051.Machine.reset m

/-- Runs the handler of an instruction: its result, and the state that it leaves. -/
def run : {a : Arch} → Cpu a → Instruction → Except Refusal String × Cpu a
  | .i8086, m, i => (I8086.Handler.handle i).runFrom m
  | .i8051, m, i => (I8051.Handler.handle i).runFrom m

def attempt : {a : Arch} → Cpu a → Instruction → Except Refusal (Cpu a × String)
  | .i8086, m, i => I8086.Machine.attempt m i
  | .i8051, m, i => I8051.Machine.attempt m i

def execute : {a : Arch} → Cpu a → Instruction → Cpu a × String
  | .i8086, m, i => I8086.Machine.execute m i
  | .i8051, m, i => I8051.Machine.execute m i

def halted : {a : Arch} → Cpu a → Bool
  | .i8086, m => I8086.Machine.halted m
  | .i8051, m => I8051.Machine.halted m

def loadProgram : {a : Arch} → Cpu a → List Byte → Cpu a
  | .i8086, m, program => I8086.Machine.loadProgram m program
  | .i8051, m, program => I8051.Machine.loadProgram m program

def memory : {a : Arch} → Cpu a → Memory a.addressBits
  | .i8086, m => I8086.Machine.memory m
  | .i8051, m => I8051.Machine.memory m

def withMemory : {a : Arch} → Cpu a → Memory a.addressBits → Cpu a
  | .i8086, m, memory => ({ m with memory := memory } : I8086.Machine)
  | .i8051, m, memory => ({ m with memory := memory } : I8051.Machine)

def write {a : Arch} (m : Cpu a) (address : Address) (b : Byte) : Cpu a :=
  m.withMemory (m.memory.write address b)

def snapshot : {a : Arch} → Cpu a → Snapshot
  | .i8086, m => I8086.Machine.snapshot m
  | .i8051, m => I8051.Machine.snapshot m

end Cpu

end Microlab
