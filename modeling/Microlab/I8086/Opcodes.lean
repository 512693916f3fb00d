import Microlab.Opcode.Entry

/-!
# Opcodes of the 8086

Registers and immediates only; no operand is in memory. The arithmetic group
has six opcodes for each operation, numbered by its digit: two short ones for
the accumulator, two with an immediate, and two between registers.
-/

namespace Microlab.I8086

/-- The six opcodes of an arithmetic or logic operation. -/
def arithmetic (m : Mnemonic) (digit : BitVec 3) : List Opcode :=
  let base : Byte := digit.setWidth 8 <<< 3
  [⟨m, [], base + 5, 3, .plain, [.exact "AX", .imm16]⟩,
   ⟨m, [], base + 4, 2, .plain, [.exact "AL", .imm8]⟩,
   ⟨m, [], 0x81, 4, .extension digit, [.r16, .imm16]⟩,
   ⟨m, [], 0x80, 3, .extension digit, [.r8, .imm8]⟩,
   ⟨m, [], base + 3, 2, .registerPair, [.r16, .r16]⟩,
   ⟨m, [], base + 2, 2, .registerPair, [.r8, .r8]⟩]

def moves : List Opcode :=
  [⟨.mov, [], 0xB8, 3, .plain, [.r16, .imm16]⟩,
   ⟨.mov, [], 0xB0, 2, .plain, [.r8, .imm8]⟩,
   ⟨.mov, [], 0x8B, 2, .registerPair, [.r16, .r16]⟩,
   ⟨.mov, [], 0x8A, 2, .registerPair, [.r8, .r8]⟩]

def unary : List Opcode :=
  [⟨.inc, [], 0x40, 1, .plain, [.r16]⟩,
   ⟨.inc, [], 0xFE, 2, .extension 0, [.r8]⟩,
   ⟨.dec, [], 0x48, 1, .plain, [.r16]⟩,
   ⟨.dec, [], 0xFE, 2, .extension 1, [.r8]⟩,
   ⟨.not, [], 0xF7, 2, .extension 2, [.r16]⟩,
   ⟨.not, [], 0xF6, 2, .extension 2, [.r8]⟩,
   ⟨.neg, [], 0xF7, 2, .extension 3, [.r16]⟩,
   ⟨.neg, [], 0xF6, 2, .extension 3, [.r8]⟩,
   ⟨.mul, [], 0xF7, 2, .extension 4, [.r16]⟩,
   ⟨.imul, [], 0xF7, 2, .extension 5, [.r16]⟩,
   ⟨.div, [], 0xF7, 2, .extension 6, [.r16]⟩,
   ⟨.idiv, [], 0xF7, 2, .extension 7, [.r16]⟩]

/-- Shifts and rotations by one place; only `SHL` also counts in `CL`. -/
def shifts : List Opcode :=
  [⟨.shl, [], 0xD1, 2, .extension 4, [.r16, .exact "1"]⟩,
   ⟨.shl, [], 0xD3, 2, .extension 4, [.r16, .exact "CL"]⟩,
   ⟨.shr, [], 0xD1, 2, .extension 5, [.r16, .exact "1"]⟩,
   ⟨.sar, [], 0xD1, 2, .extension 7, [.r16, .exact "1"]⟩,
   ⟨.rol, [], 0xD1, 2, .extension 0, [.r16, .exact "1"]⟩,
   ⟨.ror, [], 0xD1, 2, .extension 1, [.r16, .exact "1"]⟩]

def stack : List Opcode :=
  [⟨.push, [], 0x50, 1, .plain, [.r16]⟩,
   ⟨.pop, [], 0x58, 1, .plain, [.r16]⟩]

/-- `JE` and `JZ` are one opcode, and so are `JNE` and `JNZ`. -/
def transfers : List Opcode :=
  [⟨.jmp, [], 0xEB, 2, .plain, [.rel8]⟩,
   ⟨.jmp, [], 0xE9, 3, .plain, [.rel16]⟩,
   ⟨.je, [], 0x74, 2, .plain, [.rel8]⟩,
   ⟨.jz, [], 0x74, 2, .plain, [.rel8]⟩,
   ⟨.jne, [], 0x75, 2, .plain, [.rel8]⟩,
   ⟨.jnz, [], 0x75, 2, .plain, [.rel8]⟩,
   ⟨.jl, [], 0x7C, 2, .plain, [.rel8]⟩,
   ⟨.jg, [], 0x7F, 2, .plain, [.rel8]⟩,
   ⟨.jc, [], 0x72, 2, .plain, [.rel8]⟩,
   ⟨.jnc, [], 0x73, 2, .plain, [.rel8]⟩,
   ⟨.call, [], 0xE8, 3, .plain, [.rel16]⟩,
   ⟨.ret, [], 0xC3, 1, .plain, []⟩]

def control : List Opcode :=
  [⟨.nop, [], 0x90, 1, .plain, []⟩,
   ⟨.hlt, [], 0xF4, 1, .plain, []⟩]

def opcodes : List Opcode :=
  moves
    ++ arithmetic .add 0 ++ arithmetic .or 1 ++ arithmetic .and 4
    ++ arithmetic .sub 5 ++ arithmetic .xor 6 ++ arithmetic .cmp 7
    ++ unary ++ shifts ++ stack ++ transfers ++ control

end Microlab.I8086
