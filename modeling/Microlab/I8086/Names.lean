import Microlab.I8086.Machine

/-!
# Registers by name

The contents of the registers, read and written by name. Names are looked up as given,
in any letter case and with blanks around them; the bytes are found through the words
that they are halves of.
-/

namespace Microlab.I8086

/-- The name of the word that a byte is a half of, and whether it is the high half. -/
def half? (name : String) : Option (String × Bool) :=
  Text.named?
    [("AL", ("AX", false)), ("AH", ("AX", true)), ("BL", ("BX", false)), ("BH", ("BX", true)),
     ("CL", ("CX", false)), ("CH", ("CX", true)), ("DL", ("DX", false)), ("DH", ("DX", true))]
    (Text.trimmed name)

/-- Where a word is kept: what is there, and the registers with something else there. -/
structure Slot where
  value : Word
  put : Word → Registers

namespace Registers

def slot? (rs : Registers) (name : String) : Option Slot :=
  Text.named?
    [("AX", ⟨rs.ax, fun w => { rs with ax := w }⟩), ("BX", ⟨rs.bx, fun w => { rs with bx := w }⟩),
     ("CX", ⟨rs.cx, fun w => { rs with cx := w }⟩), ("DX", ⟨rs.dx, fun w => { rs with dx := w }⟩),
     ("SI", ⟨rs.si, fun w => { rs with si := w }⟩), ("DI", ⟨rs.di, fun w => { rs with di := w }⟩),
     ("BP", ⟨rs.bp, fun w => { rs with bp := w }⟩), ("SP", ⟨rs.sp, fun w => { rs with sp := w }⟩),
     ("IP", ⟨rs.ip, fun w => { rs with ip := w }⟩), ("CS", ⟨rs.cs, fun w => { rs with cs := w }⟩),
     ("DS", ⟨rs.ds, fun w => { rs with ds := w }⟩), ("SS", ⟨rs.ss, fun w => { rs with ss := w }⟩),
     ("ES", ⟨rs.es, fun w => { rs with es := w }⟩)]
    (Text.trimmed name)

def word? (rs : Registers) (name : String) : Option Word :=
  Text.named?
    [("AX", rs.ax), ("BX", rs.bx), ("CX", rs.cx), ("DX", rs.dx), ("SI", rs.si), ("DI", rs.di),
     ("BP", rs.bp), ("SP", rs.sp), ("IP", rs.ip), ("CS", rs.cs), ("DS", rs.ds), ("SS", rs.ss),
     ("ES", rs.es)]
    (Text.trimmed name)

def byte? (rs : Registers) (name : String) : Option Byte := do
  let (parent, high) ← half? name
  let w ← rs.word? parent
  return if high then Word.high w else Word.low w

def replaceWord? (rs : Registers) (name : String) (w : Word) : Option Registers :=
  (rs.slot? name).map fun slot => slot.put w

/-- Writes one half of a word and leaves the other half alone. -/
def replaceByte? (rs : Registers) (name : String) (b : Byte) : Option Registers := do
  let (parent, high) ← half? name
  let slot ← rs.slot? parent
  return slot.put (if high then Word.withHigh slot.value b else Word.withLow slot.value b)

end Registers

namespace Machine

def word? (m : Machine) (name : String) : Option Word := m.registers.word? name

def byte? (m : Machine) (name : String) : Option Byte := m.registers.byte? name

/-- Writes a register if there is one of the name, and says whether there is. -/
def replace (m : Machine) : Option Registers → Machine × Bool
  | some registers => ({ m with registers := registers }, true)
  | none => (m, false)

def setWord (m : Machine) (name : String) (w : Word) : Machine × Bool :=
  m.replace (m.registers.replaceWord? name w)

def setByte (m : Machine) (name : String) (b : Byte) : Machine × Bool :=
  m.replace (m.registers.replaceByte? name b)

end Machine

end Microlab.I8086
