/-!
# Bytes, words and addresses

The processors move bytes and sixteen-bit words. A word is stored low byte first
or high byte first, as the byte order says. Addresses are wider than the memory of
either processor, and wrap.
-/

namespace Microlab

abbrev Byte := BitVec 8

abbrev Word := BitVec 16

abbrev Address := BitVec 32

/-- How many of the low eight bits are set. Both processors take parity from it. -/
def lowByteOnes (n : Nat) : Nat := (List.range 8).countP n.testBit

inductive Width where
  | byte
  | word
  deriving DecidableEq, Repr

namespace Width

def bits : Width → Nat
  | byte => 8
  | word => 16

/-- All bits of the width, and none above it. -/
def mask : Width → BitVec 32
  | byte => 0xFF
  | word => 0xFFFF

/-- The highest bit of the width. -/
def sign : Width → BitVec 32
  | byte => 0x80
  | word => 0x8000

/-- How many bytes a value of this width takes. -/
def bytes : Width → Nat
  | byte => 1
  | word => 2

end Width

namespace Word

def low (w : Word) : Byte := w.setWidth 8

def high (w : Word) : Byte := w.extractLsb' 8 8

def ofHalves (high low : Byte) : Word := high ++ low

def withLow (w : Word) (b : Byte) : Word := ofHalves w.high b

def withHigh (w : Word) (b : Byte) : Word := ofHalves b w.low

end Word

inductive ByteOrder where
  | little
  | big
  deriving DecidableEq, Repr

namespace ByteOrder

def split : ByteOrder → Word → List Byte
  | little, w => [Word.low w, Word.high w]
  | big, w => [Word.high w, Word.low w]

/-- The word whose bytes stand in memory as `first`, `second`. -/
def join : ByteOrder → Byte → Byte → Word
  | little, first, second => Word.ofHalves second first
  | big, first, second => Word.ofHalves first second

end ByteOrder

end Microlab
