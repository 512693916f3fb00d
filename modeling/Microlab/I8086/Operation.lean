import Microlab.I8086.Flags
import Microlab.Resolution

/-!
# Operations of the 8086

What an instruction asks for: an operation, or a refusal. An operand is a register if it
names one and a number otherwise, and an operand that is neither counts as zero.
-/

namespace Microlab.I8086

inductive Source where
  | register (r : Register)
  | literal (w : Word)
  deriving DecidableEq, Repr

namespace Source

def ofOperand (operand : String) : Source :=
  match Register.ofName? operand with
  | some r => register r
  | none => literal (Arch.i8086.literalOrZero operand)

/-- Literals are words, whatever their size. -/
def width : Source → Width
  | register r => r.width
  | literal _ => .word

end Source

def Flags.holds (f : Flags) : Condition → Bool
  | .zero => f.zero
  | .notZero => !f.zero
  | .carry => f.carry
  | .noCarry => !f.carry

inductive Operation where
  | move (dest : Register) (source : Source)
  | arithmetic (op : Arithmetic) (dest : Register) (source : Source)
  | compare (left right : Source)
  | increment (dest : Register)
  | decrement (dest : Register)
  | complement (dest : Register)
  | negate (dest : Register)
  | push (r : WordRegister)
  | pop (r : WordRegister)
  | jump (target : Word)
  | branch (condition : Condition) (target : Word)
  | idle
  | halt
  deriving DecidableEq, Repr

/-- Bytes are computed with only if every operand is a byte register. -/
def commonWidth (a b : Width) : Width :=
  match a, b with
  | .byte, .byte => .byte
  | _, _ => .word

abbrev Resolved : Type := Microlab.Resolved Operation

namespace Operation

abbrev destination (operand : String) : Except Refusal Register :=
  lookup Register.ofName? .destination operand

abbrev wordRegister (m : Mnemonic) (operand : String) : Except Refusal WordRegister :=
  lookup (fun x => (Register.ofName? x).bind Register.word?) (.wordRegister m) operand

def resolveMove (i : Instruction) : Except Refusal Resolved := do
  let (dest, source) ← i.two
  let r ← destination dest
  return ⟨move r (.ofOperand source), s!"MOV {dest}, {source} ("⟩

def resolveArithmetic (op : Arithmetic) (i : Instruction) : Except Refusal Resolved := do
  let (dest, source) ← i.two
  let r ← destination dest
  return ⟨arithmetic op r (.ofOperand source), s!"{i.mnemonic} {dest}, {source} ("⟩

/-- A comparison writes nothing, so its first operand need not be a register. -/
def resolveCompare (i : Instruction) : Except Refusal Resolved := do
  let (left, right) ← i.two
  return ⟨compare (.ofOperand left) (.ofOperand right), s!"CMP {left}, {right} ("⟩

def resolveUnary (op : Register → Operation) (name : String) (i : Instruction) :
    Except Refusal Resolved := do
  let dest ← i.one
  let r ← destination dest
  return ⟨op r, s!"{name} {dest} ("⟩

def resolveStack (op : WordRegister → Operation) (m : Mnemonic) (i : Instruction) :
    Except Refusal Resolved := do
  let operand ← i.one
  let r ← wordRegister m operand
  return ⟨op r, s!"{m.name} {operand} ("⟩

/-- The operation of an instruction with a known mnemonic. -/
def resolveKnown (m : Mnemonic) (i : Instruction) : Except Refusal Resolved :=
  match m with
  | .mov => resolveMove i
  | .add => resolveArithmetic .add i
  | .sub => resolveArithmetic .sub i
  | .and => resolveArithmetic .and i
  | .or => resolveArithmetic .or i
  | .xor => resolveArithmetic .xor i
  | .cmp => resolveCompare i
  | .inc => resolveUnary increment i.mnemonic i
  | .dec => resolveUnary decrement i.mnemonic i
  | .not => resolveUnary complement "NOT" i
  | .neg => resolveUnary negate "NEG" i
  | .push => resolveStack push .push i
  | .pop => resolveStack pop .pop i
  | .jmp => resolveTarget .i8086 jump "JMP" i
  | .je | .jz => resolveTarget .i8086 (branch .zero) i.mnemonic i
  | .jne | .jnz => resolveTarget .i8086 (branch .notZero) i.mnemonic i
  | .jc => resolveTarget .i8086 (branch .carry) i.mnemonic i
  | .jnc => resolveTarget .i8086 (branch .noCarry) i.mnemonic i
  | .nop => .ok ⟨idle, "NOP executed"⟩
  | .hlt => .ok ⟨halt, "HLT - Program halted"⟩
  | _ => .error .unknownInstruction

def resolve (i : Instruction) : Except Refusal Resolved := resolveBy resolveKnown i

end Operation

end Microlab.I8086
