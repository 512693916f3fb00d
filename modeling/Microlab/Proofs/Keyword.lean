import Microlab.Cpu
import Microlab.Proofs.I8051.Operand
import Microlab.Proofs.I8086.Operand

/-!
# Keywords as operands

To the assembler, a keyword without the immediate marker is never a number. The processors
agree as long as they look the operand up among the names. Where they read it as a number
at once, keywords like `A` or `AH` have digits for letters.
-/

namespace Microlab

variable {arch : Arch} {x : String}

/-- What a field takes for a number is no keyword. -/
theorem Field.bind?_of_isKeyword (f : Field) (hkeyword : arch.isKeyword x = true) :
    f.bind? arch x = none := by
  cases hbind : f.bind? arch x with
  | none => rfl
  | some v =>
      exfalso
      cases arch with
      | i8086 =>
          have hname := I8086.Register.ofName?_of_field hbind
          rw [I8086.Register.ofName?_trimmed] at hname
          rw [Arch.isKeyword_i8086, hname] at hkeyword
          cases hkeyword
      | i8051 =>
          have hname := I8051.Register.ofName?_of_field hbind
          have hword := fun word hmem =>
            SameName.sameLetters_eq_false hbind (I8051.bind?_word f word hmem)
          rw [I8051.Register.ofName?_trimmed] at hname
          rw [Arch.isKeyword_i8051, hname] at hkeyword
          simp [hword "C" (by decide), hword "AB" (by decide)] at hkeyword

namespace Cpu

def TakesKeyword : {a : Arch} → Cpu a → Instruction → Nat → String → Prop
  | .i8086, m => I8086.Machine.TakesKeyword m
  | .i8051, m => I8051.Machine.TakesKeyword m

/-- **What a keyword is taken for.** In every state of either processor, an instruction with
a keyword among its operands is refused and changes nothing, or it is accepted and the keyword
is the register that it names, or else the carry flag or the register pair. The exceptions are
jumps, which read any operand as a number, and the second operands of the 8051, which are
numbers unless they are registers. The assembler knows no exceptions. -/
theorem keyword_taken (arch : Arch) (m : Cpu arch) (i : Instruction) (n : Nat) (x : String)
    (hx : i.operands[n]? = some x) (hkeyword : arch.isKeyword x = true) :
    (((∃ r, m.attempt i = .error r) ∧ (m.execute i).1 = m) ∨ m.TakesKeyword i n x) ∧
      ∀ f : Field, f.bind? arch x = none := by
  refine ⟨?_, fun f => f.bind?_of_isKeyword hkeyword⟩
  cases arch with
  | i8086 => exact I8086.Machine.refused_or_takesKeyword m hx hkeyword
  | i8051 => exact I8051.Machine.refused_or_takesKeyword m hx hkeyword

theorem keyword_taken_accumulator :
    let m : Cpu .i8051 := initial .i8051
    (((∃ r, m.attempt ⟨"ADD", ["A", "Acc"]⟩ = .error r) ∧
        (m.execute ⟨"ADD", ["A", "Acc"]⟩).1 = m) ∨ m.TakesKeyword ⟨"ADD", ["A", "Acc"]⟩ 1 "Acc") ∧
      ∀ f : Field, f.bind? .i8051 "Acc" = none :=
  keyword_taken .i8051 (initial .i8051) ⟨"ADD", ["A", "Acc"]⟩ 1 "Acc" rfl (by decide)

/-- A new machine has zero in the accumulator and in the program counter, but a jump to the
accumulator leads to ten, and the carry flag is moved as twelve. -/
theorem jumps_to_keyword :
    let m := I8051.Machine.initial
    let k := I8086.Machine.initial
    m.a = 0 ∧ m.pc = 0 ∧ Arch.i8051.isKeyword "A" = true ∧
      (m.execute ⟨"SJMP", ["A"]⟩).1.pc = 10 ∧
      m.psw.carry = false ∧ Arch.i8051.isKeyword "C" = true ∧
      (m.execute ⟨"MOV", ["A", "C"]⟩).1.a = 12 ∧
      k.registers.ax = 0 ∧ k.registers.ip = 0 ∧ Arch.i8086.isKeyword "AH" = true ∧
      (k.execute ⟨"JMP", ["AH"]⟩).1.registers.ip = 10 := by
  decide +kernel

end Cpu

end Microlab
