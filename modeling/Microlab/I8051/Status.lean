import Microlab.Word

/-!
# Status word and arithmetic of the 8051

Sums and differences take the carry in. Carry and auxiliary carry are the bits
above the byte and above its low half.
-/

namespace Microlab.I8051

/-- The bits of `PSW`, the highest first. -/
structure Status where
  carry : Bool
  auxiliary : Bool
  flag0 : Bool
  bank1 : Bool
  bank0 : Bool
  overflow : Bool
  flag1 : Bool
  parity : Bool
  deriving DecidableEq, Repr

namespace Status

def ofByte (b : Byte) : Status where
  carry := b.getLsbD 7
  auxiliary := b.getLsbD 6
  flag0 := b.getLsbD 5
  bank1 := b.getLsbD 4
  bank0 := b.getLsbD 3
  overflow := b.getLsbD 2
  flag1 := b.getLsbD 1
  parity := b.getLsbD 0

def toByte (s : Status) : Byte :=
  BitVec.ofBool s.carry ++ BitVec.ofBool s.auxiliary ++ BitVec.ofBool s.flag0
    ++ BitVec.ofBool s.bank1 ++ BitVec.ofBool s.bank0 ++ BitVec.ofBool s.overflow
    ++ BitVec.ofBool s.flag1 ++ BitVec.ofBool s.parity

def clear : Status := ofByte 0

/-- Names and values, the highest bit first. -/
def inOrder (s : Status) : List (String × Bool) :=
  [("C", s.carry), ("AC", s.auxiliary), ("F0", s.flag0), ("RS1", s.bank1), ("RS0", s.bank0),
   ("OV", s.overflow), ("F1", s.flag1), ("P", s.parity)]

end Status

/-- A sum or difference of bytes with the flags of its own. -/
structure Sum where
  value : Byte
  carry : Bool
  auxiliary : Bool
  overflow : Bool
  deriving DecidableEq, Repr

namespace Sum

def ofAdd (a b : Byte) (carry : Bool) : Sum :=
  let c := BitVec.ofBool carry
  let value := a + b + c.setWidth 8
  { value := value
    carry := (a.setWidth 9 + b.setWidth 9 + c.setWidth 9).msb
    auxiliary :=
      ((a.setWidth 4).setWidth 5 + (b.setWidth 4).setWidth 5 + c.setWidth 5).msb
    overflow := ((a ^^^ value) &&& (b ^^^ value)).msb }

/-- Carry and auxiliary carry are borrows. -/
def ofSub (a b : Byte) (carry : Bool) : Sum :=
  let c := BitVec.ofBool carry
  let value := a - b - c.setWidth 8
  { value := value
    carry := (a.setWidth 9 - b.setWidth 9 - c.setWidth 9).msb
    auxiliary :=
      ((a.setWidth 4).setWidth 5 - (b.setWidth 4).setWidth 5 - c.setWidth 5).msb
    overflow := ((a ^^^ b) &&& (a ^^^ value)).msb }

def status (s : Sum) (before : Status) : Status :=
  { before with
    carry := s.carry
    auxiliary := s.auxiliary
    overflow := s.overflow }

end Sum

inductive Logic where
  | and
  | or
  | xor
  deriving DecidableEq, Repr

def Logic.eval {n : Nat} (op : Logic) (a b : BitVec n) : BitVec n :=
  match op with
  | and => a &&& b
  | or => a ||| b
  | xor => a ^^^ b

inductive Rotation where
  | left
  | right
  | leftCarry
  | rightCarry
  | swap
  deriving DecidableEq, Repr

namespace Rotation

/-- The rotated byte, and the carry if the rotation goes through it. -/
def eval (r : Rotation) (b : Byte) (carry : Bool) : Byte × Option Bool :=
  match r with
  | left => (b.rotateLeft 1, none)
  | right => (b.rotateRight 1, none)
  | leftCarry => (b.setWidth 7 ++ BitVec.ofBool carry, some b.msb)
  | rightCarry => (BitVec.ofBool carry ++ b.extractLsb' 1 7, some (b.getLsbD 0))
  | swap => (b.rotateLeft 4, none)

end Rotation

end Microlab.I8051
