import Microlab.I8086.Operation
import Microlab.Memory
import Microlab.Snapshot

/-!
# The 8086

Registers, flags, a megabyte of memory and a latch that `HLT` sets. The stack
lies in memory at sixteen times `SS` plus `SP`.
-/

namespace Microlab.I8086

structure Machine where
  registers : Registers
  flags : Flags
  memory : Memory 20
  halted : Bool
  deriving DecidableEq

/-- What running an operation reports. -/
inductive Outcome where
  | done
  | value (w : Word)
  | result (w : Word)
  | compared (zero carry : Bool)
  | stacked (value sp : Word)
  | jumped (ip : Word)
  | taken (ip : Word)
  | notTaken
  deriving DecidableEq, Repr

def Outcome.text : Outcome → String
  | done => ""
  | value w => s!"value: {w.toNat})"
  | result w => s!"result: {w.toNat})"
  | compared zero carry => s!"ZF: {zero}, CF: {carry})"
  | stacked w sp => s!"value: {w.toNat}, SP: 0x{Text.hex .upper 4 sp.toNat})"
  | jumped ip => s!"IP: {ip.toNat})"
  | taken ip => s!"taken, IP: {ip.toNat})"
  | notTaken => "not taken)"

namespace Machine

def initial : Machine where
  registers := { Registers.zero with sp := 0xFFFE }
  flags := .initial
  memory := .blank 20
  halted := false

/-- Resets all but the memory. -/
def resetRegisters (m : Machine) : Machine :=
  { m with
    registers := { Registers.zero with sp := 0xFFFE }
    flags := .initial
    halted := false }

def reset (m : Machine) : Machine := { m.resetRegisters with memory := m.memory.clear }

def read (m : Machine) : Source → Word
  | .register r => m.registers.get r
  | .literal w => w

def write (m : Machine) (r : Register) (w : Word) : Machine :=
  { m with registers := m.registers.set r w }

/-- Computes with two sources at their common width. -/
def compute (m : Machine) (op : Arithmetic) (a b : Source) : Word × Flags :=
  op.evalAt (commonWidth a.width b.width) m.flags (m.read a) (m.read b)

/-- The address of the top of the stack. -/
def stackTop (m : Machine) : Address :=
  m.registers.ss.setWidth 32 * 16 + m.registers.sp.setWidth 32

/-- Adds or subtracts one at the register's width. Carry is kept. -/
def step (m : Machine) (op : Arithmetic) (r : Register) : Machine × Outcome :=
  let (w, flags) := op.evalAt r.width m.flags (m.registers.get r) 1
  ({ m with flags := { flags with carry := m.flags.carry } }.write r w, .result w)

/-- The value is read before the stack pointer moves. -/
def push (m : Machine) (r : WordRegister) : Machine × Outcome :=
  let w := m.registers.getWord r
  let sp := m.registers.sp - 2
  let m := { m with registers := { m.registers with sp := sp } }
  ({ m with memory := m.memory.writeWord m.stackTop w }, .stacked w sp)

/-- The stack pointer moves before the register is written. -/
def pop (m : Machine) (r : WordRegister) : Machine × Outcome :=
  let w := m.memory.readWord m.stackTop
  let registers := { m.registers with sp := m.registers.sp + 2 }.setWord r w
  ({ m with registers := registers }, .stacked w registers.sp)

def jump (m : Machine) (target : Word) : Machine :=
  { m with registers := { m.registers with ip := target } }

def apply (m : Machine) : Operation → Machine × Outcome
  | .move dest source =>
    let w := match dest.width with
      | .byte => (Word.low (m.read source)).setWidth 16
      | .word => m.read source
    (m.write dest w, .value w)
  | .arithmetic op dest source =>
    let (w, flags) := m.compute op (.register dest) source
    ({ m with flags := flags }.write dest w, .result w)
  | .compare left right =>
    let (_, flags) := m.compute .sub left right
    ({ m with flags := flags }, .compared flags.zero flags.carry)
  | .increment dest => m.step .add dest
  | .decrement dest => m.step .sub dest
  | .complement dest =>
    let w := match dest.width with
      | .byte => (~~~ Word.low (m.registers.get dest)).setWidth 16
      | .word => ~~~ m.registers.get dest
    (m.write dest w, .result w)
  | .negate dest =>
    let (w, flags) := Arithmetic.sub.evalAt dest.width m.flags 0 (m.registers.get dest)
    ({ m with flags := flags }.write dest w, .result w)
  | .push r => m.push r
  | .pop r => m.pop r
  | .jump target => (m.jump target, .jumped target)
  | .branch condition target =>
    if m.flags.holds condition then (m.jump target, .taken target) else (m, .notTaken)
  | .idle => (m, .done)
  | .halt => ({ m with halted := true }, .done)

/-- Copies a program to address zero and points `IP` there. -/
def loadProgram (m : Machine) (program : List Byte) : Machine :=
  { m with
    memory := m.memory.load 0 program
    registers := { m.registers with ip := 0 } }

def snapshot (m : Machine) : Snapshot where
  arch := .i8086
  registers := WordRegister.all.map fun r => (r.name, m.registers.getWord r)
  flags :=
    [("CF", m.flags.carry), ("PF", m.flags.parity), ("AF", m.flags.auxiliary),
     ("ZF", m.flags.zero), ("SF", m.flags.sign), ("OF", m.flags.overflow),
     ("IF", m.flags.interrupt), ("DF", m.flags.direction), ("TF", m.flags.trap)]
  ports := []
  halted := m.halted

end Machine

end Microlab.I8086
