import Microlab.Text.Letter
import Microlab.Word

/-!
# Register names of the 8051

`ACC` is another name of the accumulator, and `DPL` and `DPH` name the halves of
`DPTR`. The carry flag and the register pair of multiplication are keywords, but
no registers.
-/

namespace Microlab.I8051

inductive Register where
  | a
  | b
  | bank (index : Fin 8)
  | dptr
  | dpl
  | dph
  | pc
  | sp
  | psw
  | ioPort (index : Fin 4)
  deriving DecidableEq, Repr

namespace Register

abbrev r0 : Register := bank 0

abbrev r1 : Register := bank 1

/-- The names that are spelled out. -/
def words : List (String × Register) :=
  [("A", a), ("ACC", a), ("B", b), ("DPTR", dptr), ("DPL", dpl), ("DPH", dph), ("PC", pc),
   ("SP", sp), ("PSW", psw)]

/-- The number of a digit, if there are as many registers. -/
def index? (n : Nat) (digit : Char) : Option (Fin n) :=
  if h : digit.isDigit = true ∧ digit.toNat - 48 < n then some ⟨digit.toNat - 48, h.2⟩ else none

/-- The names of a letter and a digit. -/
def numbered? (s : String) : Option Register :=
  match Text.upper s.toList with
  | ['R', digit] => (index? 8 digit).map bank
  | ['P', digit] => (index? 4 digit).map ioPort
  | _ => none

/-- The register of a name, in any letter case and with blanks around it. -/
def ofName? (s : String) : Option Register :=
  let name := Text.trimmed s
  (Text.named? words name).or (numbered? name)

/-- A named write reaches the whole of `DPTR` and eight bits of any other
register. -/
def width : Register → Width
  | dptr => .word
  | _ => .byte

end Register

/-- The words that stand for something of the processor: the register names, the carry
flag `C` and the pair `AB`. -/
def keywords : List String :=
  ["A", "ACC", "B", "C", "AB", "R0", "R1", "R2", "R3", "R4", "R5", "R6", "R7", "DPTR", "DPL",
   "DPH", "PC", "SP", "PSW", "P0", "P1", "P2", "P3"]

end Microlab.I8051
