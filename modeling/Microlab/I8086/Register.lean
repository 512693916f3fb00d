import Microlab.Text.Letter
import Microlab.Word

/-!
# Registers of the 8086

Thirteen words. The bytes of `AX`, `BX`, `CX` and `DX` have names of their own.
-/

namespace Microlab.I8086

inductive WordRegister where
  | ax | bx | cx | dx | si | di | bp | sp | ip | cs | ds | ss | es
  deriving DecidableEq, Repr

inductive ByteRegister where
  | al | ah | bl | bh | cl | ch | dl | dh
  deriving DecidableEq, Repr

inductive Register where
  | word (r : WordRegister)
  | byte (r : ByteRegister)
  deriving DecidableEq, Repr

namespace WordRegister

def name : WordRegister → String
  | ax => "AX" | bx => "BX" | cx => "CX" | dx => "DX"
  | si => "SI" | di => "DI" | bp => "BP" | sp => "SP" | ip => "IP"
  | cs => "CS" | ds => "DS" | ss => "SS" | es => "ES"

def all : List WordRegister := [ax, bx, cx, dx, si, di, bp, sp, ip, cs, ds, ss, es]

end WordRegister

namespace ByteRegister

def name : ByteRegister → String
  | al => "AL" | ah => "AH" | bl => "BL" | bh => "BH"
  | cl => "CL" | ch => "CH" | dl => "DL" | dh => "DH"

def all : List ByteRegister := [al, ah, bl, bh, cl, ch, dl, dh]

def parent : ByteRegister → WordRegister
  | al | ah => .ax
  | bl | bh => .bx
  | cl | ch => .cx
  | dl | dh => .dx

def isHigh : ByteRegister → Bool
  | ah | bh | ch | dh => true
  | al | bl | cl | dl => false

end ByteRegister

/-- The words that stand for something of the processor. -/
def keywords : List String :=
  ["AX", "BX", "CX", "DX", "SI", "DI", "BP", "SP", "IP", "CS", "DS", "SS", "ES",
   "AL", "AH", "BL", "BH", "CL", "CH", "DL", "DH"]

namespace Register

def width : Register → Width
  | word _ => .word
  | byte _ => .byte

/-- The register of a name, in any letter case and with blanks around it. -/
def ofName? (s : String) : Option Register :=
  Text.named?
    (WordRegister.all.map (fun r => (r.name, word r))
      ++ ByteRegister.all.map (fun r => (r.name, byte r)))
    (Text.trimmed s)

def word? : Register → Option WordRegister
  | word r => some r
  | byte _ => none

def byte? : Register → Option ByteRegister
  | word _ => none
  | byte r => some r

end Register

/-- The contents of the thirteen words. -/
structure Registers where
  ax : Word
  bx : Word
  cx : Word
  dx : Word
  si : Word
  di : Word
  bp : Word
  sp : Word
  ip : Word
  cs : Word
  ds : Word
  ss : Word
  es : Word
  deriving DecidableEq, Repr

namespace Registers

def zero : Registers := ⟨0, 0, 0, 0, 0, 0, 0, 0, 0, 0, 0, 0, 0⟩

def getWord (rs : Registers) : WordRegister → Word
  | .ax => rs.ax
  | .bx => rs.bx
  | .cx => rs.cx
  | .dx => rs.dx
  | .si => rs.si
  | .di => rs.di
  | .bp => rs.bp
  | .sp => rs.sp
  | .ip => rs.ip
  | .cs => rs.cs
  | .ds => rs.ds
  | .ss => rs.ss
  | .es => rs.es

def setWord (rs : Registers) (r : WordRegister) (w : Word) : Registers :=
  match r with
  | .ax => { rs with ax := w }
  | .bx => { rs with bx := w }
  | .cx => { rs with cx := w }
  | .dx => { rs with dx := w }
  | .si => { rs with si := w }
  | .di => { rs with di := w }
  | .bp => { rs with bp := w }
  | .sp => { rs with sp := w }
  | .ip => { rs with ip := w }
  | .cs => { rs with cs := w }
  | .ds => { rs with ds := w }
  | .ss => { rs with ss := w }
  | .es => { rs with es := w }

def getByte (rs : Registers) (r : ByteRegister) : Byte :=
  if r.isHigh then Word.high (rs.getWord r.parent) else Word.low (rs.getWord r.parent)

/-- Writes one half of a word and leaves the other half alone. -/
def setByte (rs : Registers) (r : ByteRegister) (b : Byte) : Registers :=
  let w := rs.getWord r.parent
  rs.setWord r.parent (if r.isHigh then Word.withHigh w b else Word.withLow w b)

/-- The register's value, a byte being widened with zeros. -/
def get (rs : Registers) : Register → Word
  | .word r => rs.getWord r
  | .byte r => (rs.getByte r).setWidth 16

/-- Writes the register's width of the value. -/
def set (rs : Registers) (r : Register) (w : Word) : Registers :=
  match r with
  | .word r => rs.setWord r w
  | .byte r => rs.setByte r (Word.low w)

theorem getWord_setWord (rs : Registers) (r s : WordRegister) (w : Word) :
    (rs.setWord r w).getWord s = if s = r then w else rs.getWord s := by
  cases r <;> cases s <;> rfl

end Registers

end Microlab.I8086
