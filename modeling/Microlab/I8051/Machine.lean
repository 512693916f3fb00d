import Microlab.I8051.Operation
import Microlab.Memory
import Microlab.Snapshot

/-!
# The 8051

Registers, status word, four ports, external memory and a latch that `HLT` sets.
The parity bit is recomputed whenever the accumulator or the status word is
written.
-/

namespace Microlab.I8051

structure Machine where
  a : Byte
  b : Byte
  bank : Vector Byte 8
  dptr : Word
  pc : Word
  sp : Byte
  psw : Status
  ports : Vector Byte 4
  memory : Memory 16
  halted : Bool
  deriving DecidableEq

/-- What running an operation reports. -/
inductive Outcome where
  | done
  | moved (value : Word) (a b : Byte)
  | fetched (value : Byte) (pointer : Pointer) (address : Word)
  | stored (value : Byte) (address : Word)
  | result (value : Word)
  | rotated (value : Byte) (carry : Bool)
  | product (a b : Byte)
  | quotient (dividend divisor a b : Byte)
  | divisionByZero
  | flipped (carry : Bool)
  | jumped (pc : Word)
  | taken (pc : Word)
  | notTaken
  deriving DecidableEq, Repr

def Outcome.text : Outcome → String
  | done => ""
  | moved w a b => s!"value: {w.toNat}, registers: A={a.toNat}, B={b.toNat})"
  | fetched v p address => s!"0x{Text.hex .upper 1 v.toNat}, {p.name}={address.toNat})"
  | stored v address => s!"Wrote 0x{Text.hex .upper 1 v.toNat} to {address.toNat})"
  | result w => s!"result: {w.toNat})"
  | rotated v carry => s!"result: {v.toNat}, C: {carry})"
  | product a b => s!"A: {a.toNat}, B: {b.toNat})"
  | quotient dividend divisor a b =>
    s!"{dividend.toNat} / {divisor.toNat} = A: {a.toNat}, B: {b.toNat})"
  | divisionByZero => "Division by zero)"
  | flipped carry => s!"Carry: {carry})"
  | jumped pc => s!"PC: {pc.toNat})"
  | taken pc => s!"taken, PC: {pc.toNat})"
  | notTaken => "not taken)"

/-- Parity is set for an odd number of ones. -/
def oddOnes (b : Byte) : Bool := lowByteOnes b.toNat % 2 = 1

namespace Machine

def initial : Machine where
  a := 0
  b := 0
  bank := .replicate 8 0
  dptr := 0
  pc := 0
  sp := 0x07
  psw := .clear
  ports := .replicate 4 0xFF
  memory := .blank 16
  halted := false

/-- Resets all but the memory. -/
def resetRegisters (m : Machine) : Machine :=
  { m with
    a := 0
    b := 0
    bank := .replicate 8 0
    dptr := 0
    pc := 0
    sp := 0x07
    psw := .clear
    ports := .replicate 4 0xFF
    halted := false }

def reset (m : Machine) : Machine := { m.resetRegisters with memory := m.memory.clear }

def setA (m : Machine) (b : Byte) : Machine :=
  { m with a := b, psw := { m.psw with parity := oddOnes b } }

/-- The register's value, a byte being widened with zeros. -/
def get (m : Machine) : Register → Word
  | .a => m.a.setWidth 16
  | .b => m.b.setWidth 16
  | .bank i => (m.bank.get i).setWidth 16
  | .dptr => m.dptr
  | .dpl => (Word.low m.dptr).setWidth 16
  | .dph => (Word.high m.dptr).setWidth 16
  | .pc => m.pc
  | .sp => m.sp.setWidth 16
  | .psw => m.psw.toByte.setWidth 16
  | .ioPort i => (m.ports.get i).setWidth 16

/-- Writes the register's width of the value. A named write to `PC` clears its
high byte; only jumps load all of it. -/
def set (m : Machine) (r : Register) (w : Word) : Machine :=
  match r with
  | .a => m.setA (Word.low w)
  | .b => { m with b := Word.low w }
  | .bank i => { m with bank := m.bank.set i (Word.low w) }
  | .dptr => { m with dptr := w }
  | .dpl => { m with dptr := Word.withLow m.dptr (Word.low w) }
  | .dph => { m with dptr := Word.withHigh m.dptr (Word.low w) }
  | .pc => { m with pc := (Word.low w).setWidth 16 }
  | .sp => { m with sp := Word.low w }
  | .psw => { m with psw := { Status.ofByte (Word.low w) with parity := oddOnes m.a } }
  | .ioPort i => { m with ports := m.ports.set i (Word.low w) }

/-- The part of a value that a register takes. -/
def narrow (r : Register) (w : Word) : Word :=
  match r.width with
  | .byte => (Word.low w).setWidth 16
  | .word => w

def read (m : Machine) : Source → Word
  | .register r => m.get r
  | .literal w => w

/-- Stores a sum in the accumulator and its flags in the status word. -/
def sum (m : Machine) (s : Sum) : Machine × Outcome :=
  ({ m with psw := s.status m.psw }.setA s.value, .result (s.value.setWidth 16))

/-- The high byte of the product goes to `B`, and overflow says if there is one. -/
def multiply (m : Machine) : Machine × Outcome :=
  let product : Word := m.a.setWidth 16 * m.b.setWidth 16
  let m := m.setA (Word.low product)
  let b := Word.high product
  ({ m with b := b, psw := { m.psw with carry := false, overflow := b ≠ 0 } },
    .product m.a b)

/-- Division by zero sets overflow and changes nothing else. -/
def divide (m : Machine) : Machine × Outcome :=
  let (dividend, divisor) := (m.a, m.b)
  if divisor = 0 then ({ m with psw := { m.psw with overflow := true } }, .divisionByZero)
  else
    let m := m.setA (dividend / divisor)
    let b := dividend % divisor
    ({ m with b := b, psw := { m.psw with carry := false, overflow := false } },
      .quotient dividend divisor m.a b)

def rotate (m : Machine) (r : Rotation) : Machine × Outcome :=
  match r.eval m.a m.psw.carry with
  | (value, none) => (m.setA value, .result (value.setWidth 16))
  | (value, some carry) =>
    ({ m with psw := { m.psw with carry := carry } }.setA value, .rotated value carry)

def withCarry (m : Machine) (carry : Bool) : Machine :=
  { m with psw := { m.psw with carry := carry } }

def holds (m : Machine) : Condition → Bool
  | .zero => m.a = 0
  | .notZero => m.a ≠ 0
  | .carry => m.psw.carry
  | .noCarry => !m.psw.carry

def apply (m : Machine) : Operation → Machine × Outcome
  | .move dest source =>
    let w := narrow dest (m.read source)
    let next := m.set dest w
    (next, .moved w next.a next.b)
  | .fetch dest p =>
    let address := m.get p.register
    let value := m.memory.read (address.setWidth 32)
    (m.set dest (value.setWidth 16), .fetched value p address)
  | .store p source =>
    let address := m.get p.register
    let value := Word.low (m.read source)
    ({ m with memory := m.memory.write (address.setWidth 32) value }, .stored value address)
  | .add withCarry source =>
    m.sum (.ofAdd m.a (Word.low (m.read source)) (withCarry && m.psw.carry))
  | .subtract source => m.sum (.ofSub m.a (Word.low (m.read source)) m.psw.carry)
  | .increment dest =>
    let w := narrow dest (m.get dest + 1)
    (m.set dest w, .result w)
  | .decrement dest =>
    let w := narrow dest (m.get dest - 1)
    (m.set dest w, .result w)
  | .multiply => m.multiply
  | .divide => m.divide
  | .logic op dest source =>
    let next := m.set dest (op.eval (m.get dest) (m.read source))
    (next, .result (next.get dest))
  | .rotate r => m.rotate r
  | .clear => (m.setA 0, .done)
  | .complement => (m.setA (~~~ m.a), .result ((~~~ m.a).setWidth 16))
  | .clearCarry => (m.withCarry false, .done)
  | .setCarry => (m.withCarry true, .done)
  | .complementCarry => (m.withCarry (!m.psw.carry), .flipped (!m.psw.carry))
  | .jump target => ({ m with pc := target }, .jumped target)
  | .branch condition target =>
    if m.holds condition then ({ m with pc := target }, .taken target) else (m, .notTaken)
  | .idle => (m, .done)
  | .halt => ({ m with halted := true }, .done)

/-- Copies a program to address zero and points `PC` there. -/
def loadProgram (m : Machine) (program : List Byte) : Machine :=
  { m with memory := m.memory.load 0 program, pc := 0 }

/-- Preloads external memory. -/
def loadExternal (m : Machine) (address : Word) (bytes : List Byte) : Machine :=
  { m with memory := m.memory.load (address.setWidth 32) bytes }

def snapshot (m : Machine) : Snapshot where
  arch := .i8051
  registers :=
    [("A", m.a.setWidth 16), ("B", m.b.setWidth 16)]
      ++ m.bank.toList.mapIdx (fun n b => (s!"R{n}", b.setWidth 16))
      ++ [("DPTR", m.dptr), ("PC", m.pc), ("SP", m.sp.setWidth 16),
          ("PSW", m.psw.toByte.setWidth 16)]
  flags :=
    [("C", m.psw.carry), ("AC", m.psw.auxiliary), ("OV", m.psw.overflow), ("P", m.psw.parity)]
  ports := m.ports.toList
  halted := m.halted

end Machine

end Microlab.I8051
