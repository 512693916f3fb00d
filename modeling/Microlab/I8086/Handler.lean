import Microlab.I8086.Names

/-!
# Handlers of the 8086

How each instruction is run. A handler checks its operands, reads them, sets flags and
writes, one after the other. Operands are read and written by name. The numbers are
computed with in thirty-two bits, of which the width of the operands is kept.
-/

namespace Microlab.I8086

/-- The width at which operands are computed with: bytes, if all of them name one. -/
def operandWidth (operands : List String) : Width :=
  if operands.all fun operand => (half? operand).isSome then .byte else .word

namespace Flags

/-- Zero, sign and even parity of a result. -/
def setResult (f : Flags) (w : Width) (result : BitVec 32) : Flags :=
  let r := result &&& w.mask
  { f with
    zero := r = 0
    sign := r &&& w.sign ≠ 0
    parity := lowByteOnes r.toNat % 2 = 0 }

/-- Adds numbers that fit into the width. -/
def add (f : Flags) (w : Width) (a b : BitVec 32) : BitVec 32 × Flags :=
  let sum := a + b
  let r := sum &&& w.mask
  (r, { f.setResult w r with
    carry := sum > w.mask
    overflow := (a ^^^ r) &&& (b ^^^ r) &&& w.sign ≠ 0
    auxiliary := (a ^^^ b ^^^ r) &&& 0x10 ≠ 0 })

/-- Subtracts numbers that fit into the width. -/
def sub (f : Flags) (w : Width) (a b : BitVec 32) : BitVec 32 × Flags :=
  let r := (a - b) &&& w.mask
  (r, { f.setResult w r with
    carry := a < b
    overflow := (a ^^^ b) &&& (a ^^^ r) &&& w.sign ≠ 0
    auxiliary := (a ^^^ b ^^^ r) &&& 0x10 ≠ 0 })

/-- Combines the bits of numbers. -/
def logic (f : Flags) (w : Width) (r : BitVec 32) : BitVec 32 × Flags :=
  (r, { f.setResult w r with carry := false, overflow := false })

def compute (f : Flags) (op : Arithmetic) (w : Width) (a b : BitVec 32) : BitVec 32 × Flags :=
  match op with
  | .add => f.add w a b
  | .sub => f.sub w a b
  | .and => f.logic w (a &&& b)
  | .or => f.logic w (a ||| b)
  | .xor => f.logic w (a ^^^ b)

end Flags

namespace Machine

/-- A register is read if one has the name, and else a number, or zero. -/
def readOperand (m : Machine) (operand : String) : BitVec 32 :=
  match m.byte? operand with
  | some b => b.setWidth 32
  | none =>
    match m.word? operand with
    | some w => w.setWidth 32
    | none => Arch.i8086.valueOrZero operand

/-- As much of the operand as the width takes. -/
def readAt (m : Machine) (w : Width) (operand : String) : BitVec 32 :=
  m.readOperand operand &&& w.mask

/-- Writes the register of the name, a byte if it is one and a word otherwise. -/
def writeOperand (m : Machine) (operand : String) (value : BitVec 32) : Machine :=
  let (next, written) := m.setByte operand (value.setWidth 8)
  if written then next else (m.setWord operand (value.setWidth 16)).1

end Machine

namespace Handler

def checkDestination (operand : String) : Step Machine Unit :=
  if Arch.i8086.isKeyword operand then pure () else throw (.destination operand)

/-- Computes with two numbers and sets the flags. -/
def compute (op : Arithmetic) (w : Width) (a b : BitVec 32) : Step Machine (BitVec 32) :=
  modifyGet fun m =>
    let (result, flags) := m.flags.compute op w a b
    (result, { m with flags := flags })

def mov (i : Instruction) : Step Machine String := do
  let (dest, source) ← i.two
  checkDestination dest
  let value := (← get).readAt (operandWidth [dest]) source
  modify fun m => m.writeOperand dest value
  return s!"MOV {dest}, {source} (value: {value.toNat})"

def alu (op : Arithmetic) (i : Instruction) : Step Machine String := do
  let (dest, source) ← i.two
  checkDestination dest
  let w := operandWidth [dest, source]
  let a := (← get).readAt w dest
  let b := (← get).readAt w source
  let result ← compute op w a b
  modify fun m => m.writeOperand dest result
  return s!"{i.mnemonic} {dest}, {source} (result: {result.toNat})"

/-- A comparison writes nothing, so its first operand need not be a register. -/
def cmp (i : Instruction) : Step Machine String := do
  let (left, right) ← i.two
  let w := operandWidth [left, right]
  let a := (← get).readAt w left
  let b := (← get).readAt w right
  let _ ← compute .sub w a b
  let m ← get
  return s!"CMP {left}, {right} (ZF: {m.flags.zero}, CF: {m.flags.carry})"

/-- Counts up or down. Carry is kept. -/
def stepByOne (op : Arithmetic) (i : Instruction) : Step Machine String := do
  let dest ← i.one
  checkDestination dest
  let w := operandWidth [dest]
  let a := (← get).readAt w dest
  let carry := (← get).flags.carry
  let result ← compute op w a 1
  modify fun m => { m with flags := { m.flags with carry := carry } }
  modify fun m => m.writeOperand dest result
  return s!"{i.mnemonic} {dest} (result: {result.toNat})"

def not (i : Instruction) : Step Machine String := do
  let dest ← i.one
  checkDestination dest
  let w := operandWidth [dest]
  let result := ~~~ (← get).readOperand dest &&& w.mask
  modify fun m => m.writeOperand dest result
  return s!"NOT {dest} (result: {result.toNat})"

def neg (i : Instruction) : Step Machine String := do
  let dest ← i.one
  checkDestination dest
  let w := operandWidth [dest]
  let a := (← get).readAt w dest
  let result ← compute .sub w 0 a
  modify fun m => m.writeOperand dest result
  return s!"NEG {dest} (result: {result.toNat})"

/-- The value is read before the stack pointer moves. -/
def push (i : Instruction) : Step Machine String := do
  let source ← i.one
  let some value := (← get).word? source | throw (.wordRegister .push source)
  modify fun m => { m with registers := { m.registers with sp := m.registers.sp - 2 } }
  modify fun m => { m with memory := m.memory.writeWord m.stackTop value }
  let sp := (← get).registers.sp
  return s!"PUSH {source} (value: {value.toNat}, SP: 0x{Text.hex .upper 4 sp.toNat})"

/-- The stack pointer moves before the register is written. -/
def pop (i : Instruction) : Step Machine String := do
  let dest ← i.one
  if ((← get).word? dest).isNone then throw (.wordRegister .pop dest)
  let m ← get
  let value := m.memory.readWord m.stackTop
  modify fun m => { m with registers := { m.registers with sp := m.registers.sp + 2 } }
  modify fun m => (m.setWord dest value).1
  let sp := (← get).registers.sp
  return s!"POP {dest} (value: {value.toNat}, SP: 0x{Text.hex .upper 4 sp.toNat})"

/-- Targets are absolute. -/
def branch (condition : Condition) (i : Instruction) : Step Machine String := do
  let taken := (← get).flags.holds condition
  let target ← i.one
  if taken then
    let address : Word := (Arch.i8086.valueOrZero target).setWidth 16
    modify fun m => { m with registers := { m.registers with ip := address } }
    return s!"{i.mnemonic} {target} (taken, IP: {address.toNat})"
  else
    return s!"{i.mnemonic} {target} (not taken)"

def jmp (i : Instruction) : Step Machine String := do
  let target ← i.one
  let address : Word := (Arch.i8086.valueOrZero target).setWidth 16
  modify fun m => { m with registers := { m.registers with ip := address } }
  return s!"JMP {target} (IP: {address.toNat})"

def nop (_ : Instruction) : Step Machine String := return "NOP executed"

def hlt (_ : Instruction) : Step Machine String := do
  modify fun m => { m with halted := true }
  return "HLT - Program halted"

def ofMnemonic? : Mnemonic → Option (Instruction → Step Machine String)
  | .mov => some mov
  | .add => some (alu .add)
  | .sub => some (alu .sub)
  | .cmp => some cmp
  | .and => some (alu .and)
  | .or => some (alu .or)
  | .xor => some (alu .xor)
  | .inc => some (stepByOne .add)
  | .dec => some (stepByOne .sub)
  | .not => some not
  | .neg => some neg
  | .push => some push
  | .pop => some pop
  | .jmp => some jmp
  | .je | .jz => some (branch .zero)
  | .jne | .jnz => some (branch .notZero)
  | .jc => some (branch .carry)
  | .jnc => some (branch .noCarry)
  | .nop => some nop
  | .hlt => some hlt
  | _ => none

/-- The handler of an instruction, run on it. -/
def handle : Instruction → Step Machine String := Step.dispatch ofMnemonic?

end Handler

namespace Machine

/-- Runs one instruction and traces it, or refuses it. -/
def attempt (m : Machine) (i : Instruction) : Except Refusal (Machine × String) :=
  (Handler.handle i).attempt m

/-- Runs one instruction and traces it. The trace of a refused one says why. -/
def execute (m : Machine) (i : Instruction) : Machine × String :=
  (Handler.handle i).execute i.mnemonic m

end Machine

end Microlab.I8086
