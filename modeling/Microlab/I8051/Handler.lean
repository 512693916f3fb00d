import Microlab.I8051.Machine

/-!
# Handlers of the 8051

How each instruction is run. A handler checks its operands, reads them, sets flags and
writes, one after the other. Parity is a flag that follows the accumulator, so a sum or a
rotation sets its own flags first and writes the accumulator then.
-/

namespace Microlab.I8051

namespace Machine

/-- A register is read if one has the name, and else a number, or zero. -/
def readOperand (m : Machine) (operand : String) : BitVec 32 :=
  match Register.ofName? operand with
  | some r => (m.get r).setWidth 32
  | none => Arch.i8051.valueOrZero operand

/-- Writes what the register takes of the value. -/
def writeValue (m : Machine) (r : Register) (value : BitVec 32) : Machine :=
  m.set r (value.setWidth 16)

/-- Takes over the flags of a sum. -/
def setStatus (m : Machine) (s : Sum) : Machine := { m with psw := s.status m.psw }

end Machine

namespace Handler

def destination (operand : String) : Step Machine Register :=
  match Register.ofName? operand with
  | some r => pure r
  | none => throw (.destination operand)

def checkAccumulator (operand : String) : Step Machine Unit :=
  if Register.ofName? operand = some .a then pure () else throw .accumulatorDestination

/-- The accumulator may be named or left out. -/
def checkAccumulatorOnly (i : Instruction) : Step Machine Unit :=
  match i.arguments with
  | [] => pure ()
  | [operand] =>
    if Register.ofName? operand = some .a then pure () else throw .accumulatorOperand
  | _ => throw .accumulatorOperand

def checkPair (i : Instruction) : Step Machine Unit :=
  match i.arguments with
  | [operand] => if Text.sameLetters operand "AB" then pure () else throw .pairOperand
  | _ => throw .pairOperand

def mov (i : Instruction) : Step Machine String := do
  let (dest, source) ← i.two
  let r ← destination dest
  if source.toList.head? = some '@' then throw (.indirectSource dest source)
  let value := (← get).readOperand source &&& r.width.mask
  modify fun m => m.writeValue r value
  let m ← get
  return s!"MOV {dest}, {source} (value: {value.toNat}, registers: A={m.a.toNat}, B={m.b.toNat})"

def fetchAny (dest : String) : Step Machine String := do
  let r ← destination dest
  let address := (← get).dptr
  let value := (← get).memory.read (address.setWidth 32)
  modify fun m => m.writeValue r (value.setWidth 32)
  return s!"MOVX {dest}, @DPTR ({dest}=0x{Text.hex .upper 1 value.toNat}, DPTR={address.toNat})"

def storeAny (source : String) : Step Machine String := do
  let address := (← get).dptr
  let value : Byte := ((← get).readOperand source).setWidth 8
  modify fun m => { m with memory := m.memory.write (address.setWidth 32) value }
  return s!"MOVX @DPTR, {source} (Wrote 0x{Text.hex .upper 1 value.toNat} to {address.toNat})"

def fetchAccumulator (p : Pointer) (dest source : String) : Step Machine String :=
  if Register.ofName? dest = some .a then do
    let address := (← get).get p.register
    let value := (← get).memory.read (address.setWidth 32)
    modify fun m => m.setA value
    return s!"MOVX A, {source} (A=0x{Text.hex .upper 1 value.toNat}, {p.name}={address.toNat})"
  else throw .addressingMode

def storeAccumulator (p : Pointer) (dest source : String) : Step Machine String :=
  if Register.ofName? source = some .a then do
    let address := (← get).get p.register
    let value := (← get).a
    modify fun m => { m with memory := m.memory.write (address.setWidth 32) value }
    return s!"MOVX {dest}, A (Wrote 0x{Text.hex .upper 1 value.toNat} to {address.toNat})"
  else throw .addressingMode

/-- Through `DPTR`, any register is loaded and anything is stored. Through `R0`
and `R1`, only the accumulator is. -/
def movx (i : Instruction) : Step Machine String := do
  let (dest, source) ← i.two
  match Pointer.ofOperand? source, Pointer.ofOperand? dest with
  | some .dptr, none => fetchAny dest
  | none, some .dptr => storeAny source
  | some p, none => fetchAccumulator p dest source
  | none, some p => storeAccumulator p dest source
  | _, _ => throw .addressingMode

def addWith (withCarry : Bool) (i : Instruction) : Step Machine String := do
  let (dest, source) ← i.two
  checkAccumulator dest
  let a := (← get).a
  let b : Byte := ((← get).readOperand source).setWidth 8
  let carry := withCarry && (← get).psw.carry
  let sum := Sum.ofAdd a b carry
  modify fun m => m.setStatus sum
  modify fun m => m.setA sum.value
  return s!"{i.mnemonic} A, {source} (result: {sum.value.toNat})"

def subb (i : Instruction) : Step Machine String := do
  let (dest, source) ← i.two
  checkAccumulator dest
  let a := (← get).a
  let b : Byte := ((← get).readOperand source).setWidth 8
  let carry := (← get).psw.carry
  let difference := Sum.ofSub a b carry
  modify fun m => m.setStatus difference
  modify fun m => m.setA difference.value
  return s!"SUBB A, {source} (result: {difference.value.toNat})"

/-- Counts up or down. -/
def stepByOne (up : Bool) (i : Instruction) : Step Machine String := do
  let dest ← i.one
  let r ← destination dest
  let value : BitVec 32 := ((← get).get r).setWidth 32
  let result := (if up then value + 1 else value - 1) &&& r.width.mask
  modify fun m => m.writeValue r result
  return s!"{i.mnemonic} {dest} (result: {result.toNat})"

/-- The high byte of the product goes to `B`, and overflow says if there is one. -/
def mul (i : Instruction) : Step Machine String := do
  checkPair i
  let m ← get
  let product : Word := m.a.setWidth 16 * m.b.setWidth 16
  modify fun m => m.setA (Word.low product)
  modify fun m => { m with b := Word.high product }
  modify fun m => { m with psw := { m.psw with carry := false } }
  modify fun m => { m with psw := { m.psw with overflow := m.b ≠ 0 } }
  let m ← get
  return s!"MUL AB (A: {m.a.toNat}, B: {m.b.toNat})"

/-- Division by zero sets overflow and changes nothing else. -/
def div (i : Instruction) : Step Machine String := do
  checkPair i
  let m ← get
  let (dividend, divisor) := (m.a, m.b)
  if divisor = 0 then
    modify fun m => { m with psw := { m.psw with overflow := true } }
    return "DIV AB (Division by zero)"
  else
    modify fun m => m.setA (dividend / divisor)
    modify fun m => { m with b := dividend % divisor }
    modify fun m => { m with psw := { m.psw with carry := false, overflow := false } }
    let m ← get
    return s!"DIV AB ({dividend.toNat} / {divisor.toNat} = A: {m.a.toNat}, B: {m.b.toNat})"

/-- What is reported is read back from the destination. -/
def logic (op : Logic) (i : Instruction) : Step Machine String := do
  let (dest, source) ← i.two
  let r ← destination dest
  let result := op.eval (((← get).get r).setWidth 32) ((← get).readOperand source)
  modify fun m => m.writeValue r result
  let shown := (← get).get r
  return s!"{i.mnemonic} {dest}, {source} (result: {shown.toNat})"

/-- A rotation through the carry flag reports the flag too. -/
def rotate (rotation : Rotation) (k : Mnemonic) (i : Instruction) : Step Machine String := do
  checkAccumulatorOnly i
  let m ← get
  match rotation.eval m.a m.psw.carry with
  | (r, none) =>
    modify fun m => m.setA r
    return s!"{k.name} A (result: {r.toNat})"
  | (r, some carry) =>
    modify fun m => m.withCarry carry
    modify fun m => m.setA r
    let m ← get
    return s!"{k.name} A (result: {r.toNat}, C: {m.psw.carry})"

def clr (i : Instruction) : Step Machine String := do
  let operand ← i.one
  if Text.sameLetters operand "A" then
    modify fun m => m.setA 0
    return "CLR A (A = 0)"
  else if Text.sameLetters operand "C" then
    modify fun m => m.withCarry false
    return "CLR C (Carry cleared)"
  else throw (.bitOperand .clr operand)

def setb (i : Instruction) : Step Machine String := do
  let operand ← i.one
  if !Text.sameLetters operand "C" then throw (.bitOperand .setb operand)
  modify fun m => m.withCarry true
  return "SETB C (Carry set)"

def cpl (i : Instruction) : Step Machine String := do
  let operand ← i.one
  if Text.sameLetters operand "A" then
    let r := ~~~ (← get).a
    modify fun m => m.setA r
    return s!"CPL A (result: {r.toNat})"
  else if Text.sameLetters operand "C" then
    modify fun m => m.withCarry (!m.psw.carry)
    let m ← get
    return s!"CPL C (Carry: {m.psw.carry})"
  else throw (.bitOperand .cpl operand)

/-- Targets are absolute. -/
def branch (condition : Condition) (i : Instruction) : Step Machine String := do
  let taken := (← get).holds condition
  let target ← i.one
  if taken then
    let address : Word := (Arch.i8051.valueOrZero target).setWidth 16
    modify fun m => { m with pc := address }
    return s!"{i.mnemonic} {target} (taken, PC: {address.toNat})"
  else
    return s!"{i.mnemonic} {target} (not taken)"

def jump (i : Instruction) : Step Machine String := do
  let target ← i.one
  let address : Word := (Arch.i8051.valueOrZero target).setWidth 16
  modify fun m => { m with pc := address }
  return s!"{i.mnemonic} {target} (PC: {address.toNat})"

def nop (_ : Instruction) : Step Machine String := return "NOP executed"

def hlt (_ : Instruction) : Step Machine String := do
  modify fun m => { m with halted := true }
  return "HLT - Program halted"

def ofMnemonic? : Mnemonic → Option (Instruction → Step Machine String)
  | .mov => some mov
  | .movx => some movx
  | .add => some (addWith false)
  | .addc => some (addWith true)
  | .subb => some subb
  | .inc => some (stepByOne true)
  | .dec => some (stepByOne false)
  | .mul => some mul
  | .div => some div
  | .anl => some (logic .and)
  | .orl => some (logic .or)
  | .xrl => some (logic .xor)
  | .rl => some (rotate .left .rl)
  | .rlc => some (rotate .leftCarry .rlc)
  | .rr => some (rotate .right .rr)
  | .rrc => some (rotate .rightCarry .rrc)
  | .swap => some (rotate .swap .swap)
  | .clr => some clr
  | .setb => some setb
  | .cpl => some cpl
  | .sjmp | .ljmp => some jump
  | .jz => some (branch .zero)
  | .jnz => some (branch .notZero)
  | .jc => some (branch .carry)
  | .jnc => some (branch .noCarry)
  | .nop => some nop
  | .hlt => some hlt
  | _ => none

/-- The handler of an instruction, run on it. -/
def handle : Instruction → Step Machine String := Step.dispatch ofMnemonic?

end Handler

namespace Machine

/-- Runs one instruction and traces it, or refuses it. -/
def attempt (m : Machine) (i : Instruction) : Except Refusal (Machine × String) :=
  (Handler.handle i).attempt m

/-- Runs one instruction and traces it. The trace of a refused one says why. -/
def execute (m : Machine) (i : Instruction) : Machine × String :=
  (Handler.handle i).execute i.mnemonic m

end Machine

end Microlab.I8051
