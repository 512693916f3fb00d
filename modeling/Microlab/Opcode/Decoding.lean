import Microlab.Opcode.Encoding
import Microlab.Text.Numeral

/-!
# Decoding

A byte string is decoded by the first opcode in the table that matches its start.
Registers are spelled by their names and fields in hexadecimal.
-/

namespace Microlab

/-- An instruction recovered from bytes, and how many bytes it takes. -/
structure Decoded where
  mnemonic : Mnemonic
  operands : List String
  length : Nat
  deriving DecidableEq, Repr

/-- A field's value as the template wants it spelled. -/
def Field.spell (f : Field) (v : Nat) : String :=
  (if f.marker = .required then "#0x" else "0x") ++ Text.hex .upper 1 v

/-- Spells the operands of a template, given the registers and the bytes after
the opcode. -/
def Pattern.spellAll? (order : ByteOrder) :
    List Pattern → List (BitVec 3) → List Byte → Option (List String)
  | [], _, _ => some []
  | exact word :: ps, rs, bs => (spellAll? order ps rs bs).map (word :: ·)
  | register c :: ps, r :: rs, bs => (spellAll? order ps rs bs).map (c.name r :: ·)
  | register _ :: _, [], _ => none
  | field f :: ps, rs, bs =>
    match f.width, bs with
    | .byte, b :: bs => (spellAll? order ps rs bs).map (f.spell b.toNat :: ·)
    | .word, a :: b :: bs => (spellAll? order ps rs bs).map (f.spell (order.join a b).toNat :: ·)
    | _, _ => none

namespace Opcode

/-- Matches the bytes behind the leading ones: the register indexes they hold,
and the bytes that follow. -/
def registers? (o : Opcode) : List Byte → Option (List (BitVec 3) × List Byte)
  | [] => none
  | b :: bs =>
    match o.form with
    | .plain =>
      if o.operands.any Pattern.isRegister then
        let offset := b - o.last
        if offset.toNat < 8 then some ([offset.setWidth 3], bs) else none
      else if b = o.last then some ([], bs) else none
    | form =>
      match bs with
      | [] => none
      | m :: bs =>
        let reg := m.extractLsb' 3 3
        let rm := m.extractLsb' 0 3
        if b ≠ o.last ∨ m.extractLsb' 6 2 ≠ 0b11 then none
        else match form with
          | .extension digit => if reg = digit then some ([rm], bs) else none
          | _ => some ([reg, rm], bs)

/-- An instruction is not looked for in fewer bytes than it takes. -/
def decode? (o : Opcode) (order : ByteOrder) (bytes : List Byte) : Option Decoded := do
  guard (o.length ≤ bytes.length)
  let rest ← o.lead.isPrefixOf? bytes
  let (registers, rest) ← o.registers? rest
  let operands ← Pattern.spellAll? order o.operands registers rest
  return ⟨o.mnemonic, operands, o.length⟩

theorem length_of_decode? {o : Opcode} {order : ByteOrder} {bs : List Byte} {d : Decoded}
    (h : o.decode? order bs = some d) : d.length = o.length := by
  unfold decode? at h
  obtain ⟨-, -, h⟩ := Option.bind_eq_some_iff.mp h
  simp only [Option.bind_eq_bind, Option.bind_eq_some_iff, Option.pure_def,
    Option.some.injEq] at h
  obtain ⟨_, _, _, _, _, _, rfl⟩ := h
  rfl

end Opcode

/-- Decodes the instruction at the start of the bytes. -/
def Arch.decode? (arch : Arch) (bytes : List Byte) : Option Decoded :=
  arch.opcodes.findSome? fun o => o.decode? arch.byteOrder bytes

theorem Arch.length_pos_of_mem {arch : Arch} {o : Opcode} (h : o ∈ arch.opcodes) :
    0 < o.length := by
  have hall : ∀ o ∈ arch.opcodes, 0 < o.length := by cases arch <;> decide +kernel
  exact hall o h

theorem Arch.length_pos_of_decode? {arch : Arch} {bs : List Byte} {d : Decoded}
    (h : arch.decode? bs = some d) : 0 < d.length := by
  obtain ⟨o, hmem, ho⟩ := List.exists_of_findSome?_eq_some h
  rw [Opcode.length_of_decode? ho]
  exact Arch.length_pos_of_mem hmem

namespace Decoded

def operandText (d : Decoded) : String := ", ".intercalate d.operands

/-- The instruction as a source line. -/
def render (d : Decoded) : String := Instruction.render ⟨d.mnemonic.name, d.operands⟩

end Decoded

example : (Arch.i8086.decode? [0xBB, 0x14, 0x00]).map Decoded.render = some "MOV BX, 0x14" := by
  decide +kernel

example : (Arch.i8051.decode? [0x90, 0x85, 0x00]).map Decoded.render
    = some "MOV DPTR, #0x8500" := by
  decide +kernel

end Microlab
