import Microlab.Opcode.Entry

/-!
# Opcodes of the 8051

Register `B` is the direct byte `F0`, so the opcodes that spell `B` have that
byte as their second and stand in front of the general direct ones. `HLT` takes
the unused byte `A5`.
-/

namespace Microlab.I8051

abbrev acc : Pattern := .exact "A"

/-- The four opcodes of an operation on the accumulator. -/
def accumulator (m : Mnemonic) (base : Byte) : List Opcode :=
  [⟨m, [], base + 4, 2, .plain, [acc, .markedImm8]⟩,
   ⟨m, [base + 5], 0xF0, 2, .plain, [acc, .exact "B"]⟩,
   ⟨m, [], base + 8, 1, .plain, [acc, .rn]⟩,
   ⟨m, [], base + 5, 2, .plain, [acc, .direct]⟩]

def moves : List Opcode :=
  [⟨.mov, [], 0x74, 2, .plain, [acc, .markedImm8]⟩,
   ⟨.mov, [], 0xE8, 1, .plain, [acc, .rn]⟩,
   ⟨.mov, [0xE5], 0xF0, 2, .plain, [acc, .exact "B"]⟩,
   ⟨.mov, [], 0xE6, 1, .plain, [acc, .exact "@R0"]⟩,
   ⟨.mov, [], 0xE7, 1, .plain, [acc, .exact "@R1"]⟩,
   ⟨.mov, [], 0xE5, 2, .plain, [acc, .direct]⟩,
   ⟨.mov, [0x75], 0xF0, 3, .plain, [.exact "B", .markedImm8]⟩,
   ⟨.mov, [0xF5], 0xF0, 2, .plain, [.exact "B", acc]⟩,
   ⟨.mov, [], 0x78, 2, .plain, [.rn, .markedImm8]⟩,
   ⟨.mov, [], 0xF8, 1, .plain, [.rn, acc]⟩,
   ⟨.mov, [], 0x90, 3, .plain, [.exact "DPTR", .markedImm16]⟩,
   ⟨.mov, [], 0xF5, 2, .plain, [.direct, acc]⟩,
   ⟨.mov, [], 0x75, 3, .plain, [.direct, .markedImm8]⟩]

def externalMoves : List Opcode :=
  [⟨.movx, [], 0xE0, 1, .plain, [acc, .exact "@DPTR"]⟩,
   ⟨.movx, [], 0xF0, 1, .plain, [.exact "@DPTR", acc]⟩,
   ⟨.movx, [], 0xE2, 1, .plain, [acc, .exact "@R0"]⟩,
   ⟨.movx, [], 0xE3, 1, .plain, [acc, .exact "@R1"]⟩,
   ⟨.movx, [], 0xF2, 1, .plain, [.exact "@R0", acc]⟩,
   ⟨.movx, [], 0xF3, 1, .plain, [.exact "@R1", acc]⟩]

def steps : List Opcode :=
  [⟨.inc, [], 0x04, 1, .plain, [acc]⟩,
   ⟨.inc, [0x05], 0xF0, 2, .plain, [.exact "B"]⟩,
   ⟨.inc, [], 0x08, 1, .plain, [.rn]⟩,
   ⟨.inc, [], 0xA3, 1, .plain, [.exact "DPTR"]⟩,
   ⟨.inc, [], 0x05, 2, .plain, [.direct]⟩,
   ⟨.dec, [], 0x14, 1, .plain, [acc]⟩,
   ⟨.dec, [0x15], 0xF0, 2, .plain, [.exact "B"]⟩,
   ⟨.dec, [], 0x18, 1, .plain, [.rn]⟩,
   ⟨.dec, [], 0x15, 2, .plain, [.direct]⟩]

def products : List Opcode :=
  [⟨.mul, [], 0xA4, 1, .plain, [.exact "AB"]⟩,
   ⟨.div, [], 0x84, 1, .plain, [.exact "AB"]⟩]

def rotations : List Opcode :=
  [⟨.rl, [], 0x23, 1, .plain, [acc]⟩,
   ⟨.rlc, [], 0x33, 1, .plain, [acc]⟩,
   ⟨.rr, [], 0x03, 1, .plain, [acc]⟩,
   ⟨.rrc, [], 0x13, 1, .plain, [acc]⟩,
   ⟨.swap, [], 0xC4, 1, .plain, [acc]⟩]

def bits : List Opcode :=
  [⟨.clr, [], 0xE4, 1, .plain, [acc]⟩,
   ⟨.clr, [], 0xC3, 1, .plain, [.exact "C"]⟩,
   ⟨.setb, [], 0xD3, 1, .plain, [.exact "C"]⟩,
   ⟨.cpl, [], 0xF4, 1, .plain, [acc]⟩,
   ⟨.cpl, [], 0xB3, 1, .plain, [.exact "C"]⟩]

def jumps : List Opcode :=
  [⟨.sjmp, [], 0x80, 2, .plain, [.rel8]⟩,
   ⟨.ljmp, [], 0x02, 3, .plain, [.addr16]⟩,
   ⟨.jz, [], 0x60, 2, .plain, [.rel8]⟩,
   ⟨.jnz, [], 0x70, 2, .plain, [.rel8]⟩,
   ⟨.jc, [], 0x40, 2, .plain, [.rel8]⟩,
   ⟨.jnc, [], 0x50, 2, .plain, [.rel8]⟩]

def control : List Opcode :=
  [⟨.nop, [], 0x00, 1, .plain, []⟩,
   ⟨.hlt, [], 0xA5, 1, .plain, []⟩]

def opcodes : List Opcode :=
  moves ++ externalMoves
    ++ accumulator .add 0x20 ++ accumulator .addc 0x30 ++ accumulator .subb 0x90
    ++ steps ++ products
    ++ accumulator .anl 0x50 ++ accumulator .orl 0x40 ++ accumulator .xrl 0x60
    ++ rotations ++ bits ++ jumps ++ control

end Microlab.I8051
