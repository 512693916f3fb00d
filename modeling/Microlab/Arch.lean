import Microlab.Word

/-!
# Architectures

The two processor families, and how each of them reads numbers and lays out its
memory.
-/

namespace Microlab

inductive Arch where
  | i8086
  | i8051
  deriving DecidableEq, Repr

namespace Arch

instance : Inhabited Arch := ⟨i8086⟩

def name : Arch → String
  | i8086 => "8086"
  | i8051 => "8051"

def ofName? (s : String) : Option Arch :=
  if s = name i8086 then some i8086 else if s = name i8051 then some i8051 else none

/-- The radix of a literal that does not mark its own. -/
def radix : Arch → Nat
  | i8086 => 10
  | i8051 => 16

/-- The order of the bytes of a sixteen-bit field in an instruction. -/
def byteOrder : Arch → ByteOrder
  | i8086 => .little
  | i8051 => .big

def addressBits : Arch → Nat
  | i8086 => 20
  | i8051 => 16

end Arch

end Microlab
