import Microlab.Text.Letter

/-!
# Mnemonics

The operation names of both processors. Some names belong to one of them only.
-/

namespace Microlab

inductive Mnemonic where
  | mov | movx | push | pop
  | add | addc | sub | subb | cmp | inc | dec | neg
  | mul | imul | div | idiv
  | and | or | xor | not | anl | orl | xrl | clr | setb | cpl
  | shl | shr | sar | rol | ror | rl | rlc | rr | rrc | swap
  | jmp | sjmp | ljmp | je | jz | jne | jnz | jl | jg | jc | jnc | call | ret
  | nop | hlt
  deriving DecidableEq, Repr

namespace Mnemonic

def name : Mnemonic → String
  | mov => "MOV" | movx => "MOVX" | push => "PUSH" | pop => "POP"
  | add => "ADD" | addc => "ADDC" | sub => "SUB" | subb => "SUBB"
  | cmp => "CMP" | inc => "INC" | dec => "DEC" | neg => "NEG"
  | mul => "MUL" | imul => "IMUL" | div => "DIV" | idiv => "IDIV"
  | and => "AND" | or => "OR" | xor => "XOR" | not => "NOT"
  | anl => "ANL" | orl => "ORL" | xrl => "XRL"
  | clr => "CLR" | setb => "SETB" | cpl => "CPL"
  | shl => "SHL" | shr => "SHR" | sar => "SAR" | rol => "ROL" | ror => "ROR"
  | rl => "RL" | rlc => "RLC" | rr => "RR" | rrc => "RRC" | swap => "SWAP"
  | jmp => "JMP" | sjmp => "SJMP" | ljmp => "LJMP"
  | je => "JE" | jz => "JZ" | jne => "JNE" | jnz => "JNZ" | jl => "JL" | jg => "JG"
  | jc => "JC" | jnc => "JNC" | call => "CALL" | ret => "RET"
  | nop => "NOP" | hlt => "HLT"

def all : List Mnemonic :=
  [mov, movx, push, pop, add, addc, sub, subb, cmp, inc, dec, neg, mul, imul, div, idiv,
   and, or, xor, not, anl, orl, xrl, clr, setb, cpl, shl, shr, sar, rol, ror, rl, rlc, rr,
   rrc, swap, jmp, sjmp, ljmp, je, jz, jne, jnz, jl, jg, jc, jnc, call, ret, nop, hlt]

/-- In any letter case, but with no blanks around it. -/
def ofName? (s : String) : Option Mnemonic :=
  Text.named? (all.map fun m => (m.name, m)) s

end Mnemonic

end Microlab
