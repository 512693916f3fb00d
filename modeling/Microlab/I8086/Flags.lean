import Microlab.Word

/-!
# Flags and arithmetic of the 8086

Sums and differences are computed at the width of the operands. Carry is the bit
above the result, overflow and the auxiliary carry are read off the signs and the
fifth bits.
-/

namespace Microlab.I8086

structure Flags where
  carry : Bool
  parity : Bool
  auxiliary : Bool
  zero : Bool
  sign : Bool
  trap : Bool
  interrupt : Bool
  direction : Bool
  overflow : Bool
  deriving DecidableEq, Repr

namespace Flags

/-- The flags at their places in the flags word, whose other bits are dropped. -/
def ofWord (w : Word) : Flags where
  carry := w.getLsbD 0
  parity := w.getLsbD 2
  auxiliary := w.getLsbD 4
  zero := w.getLsbD 6
  sign := w.getLsbD 7
  trap := w.getLsbD 8
  interrupt := w.getLsbD 9
  direction := w.getLsbD 10
  overflow := w.getLsbD 11

/-- Only interrupts are enabled. -/
def initial : Flags := ofWord 0x200

/-- Names and values in the order of the flags word. -/
def inOrder (f : Flags) : List (String × Bool) :=
  [("CF", f.carry), ("PF", f.parity), ("AF", f.auxiliary), ("ZF", f.zero), ("SF", f.sign),
   ("TF", f.trap), ("IF", f.interrupt), ("DF", f.direction), ("OF", f.overflow)]

/-- Zero, sign and even parity of the low byte. -/
def describe {w : Nat} (f : Flags) (value : BitVec w) : Flags :=
  { f with
    zero := value = 0
    sign := value.msb
    parity := lowByteOnes value.toNat % 2 = 0 }

end Flags

/-- A sum or difference with the flags of its own. -/
structure Sum (w : Nat) where
  value : BitVec w
  carry : Bool
  auxiliary : Bool
  overflow : Bool

namespace Sum

def ofAdd {w : Nat} (a b : BitVec w) : Sum w where
  value := a + b
  carry := (a.setWidth (w + 1) + b.setWidth (w + 1)).msb
  auxiliary := (a ^^^ b ^^^ (a + b)).getLsbD 4
  overflow := ((a ^^^ (a + b)) &&& (b ^^^ (a + b))).msb

/-- Carry is the borrow. -/
def ofSub {w : Nat} (a b : BitVec w) : Sum w where
  value := a - b
  carry := (a.setWidth (w + 1) - b.setWidth (w + 1)).msb
  auxiliary := (a ^^^ b ^^^ (a - b)).getLsbD 4
  overflow := ((a ^^^ b) &&& (a ^^^ (a - b))).msb

def flags {w : Nat} (s : Sum w) (f : Flags) : Flags :=
  { f.describe s.value with
    carry := s.carry
    auxiliary := s.auxiliary
    overflow := s.overflow }

end Sum

inductive Arithmetic where
  | add
  | sub
  | and
  | or
  | xor
  deriving DecidableEq, Repr

namespace Arithmetic

/-- The result, and the flags after it. Logic clears carry and overflow and
leaves the auxiliary carry alone. -/
def eval {w : Nat} (op : Arithmetic) (f : Flags) (a b : BitVec w) : BitVec w × Flags :=
  match op with
  | add => ((Sum.ofAdd a b).value, (Sum.ofAdd a b).flags f)
  | sub => ((Sum.ofSub a b).value, (Sum.ofSub a b).flags f)
  | and => (a &&& b, logic (a &&& b))
  | or => (a ||| b, logic (a ||| b))
  | xor => (a ^^^ b, logic (a ^^^ b))
where
  logic (value : BitVec w) : Flags := { f.describe value with carry := false, overflow := false }

/-- Computes at the given width; the result is widened with zeros. -/
def evalAt (op : Arithmetic) (width : Width) (f : Flags) (a b : Word) : Word × Flags :=
  match width with
  | .byte =>
    let (value, flags) := op.eval f (Word.low a) (Word.low b)
    (value.setWidth 16, flags)
  | .word => op.eval f a b

end Arithmetic

end Microlab.I8086
