import Microlab.I8051.Action
import Microlab.Proofs.I8051.Operation
import Mathlib.Algebra.Ring.Parity
import Mathlib.Data.Fintype.Card

/-!
# The parity bit

Flags are set around writes of the accumulator, and the status word can itself be written,
by name or as the destination of an instruction. The parity bit agrees with the
accumulator through all of this: whatever is done to a machine, the bit is set exactly if
the accumulator has an odd number of ones.
-/

namespace Microlab.I8051

/-- How many bits of the byte are set. -/
def ones (b : Byte) : Nat := Finset.card {i : Fin 8 | b.getLsbD i = true}

theorem oddOnes_iff (b : Byte) : oddOnes b = true ↔ Odd (ones b) := by
  revert b
  unfold ones
  decide +kernel

namespace Machine

/-- The parity bit is that of the accumulator. -/
def HasParity (m : Machine) : Prop := m.psw.parity = oddOnes m.a

variable {m : Machine}

theorem hasParity_initial : initial.HasParity := by
  unfold HasParity
  decide +kernel

/-- A write of the accumulator sets the bit, whatever it was. -/
theorem hasParity_setA (m : Machine) (b : Byte) : (m.setA b).HasParity :=
  rfl

/-- A machine with the same accumulator and parity bit. -/
theorem HasParity.congr {m' : Machine} (h : m.HasParity) (ha : m'.a = m.a)
    (hp : m'.psw.parity = m.psw.parity) : m'.HasParity := by
  unfold HasParity
  rw [ha, hp]
  exact h

theorem HasParity.set (h : m.HasParity) (r : Register) (w : Word) : (m.set r w).HasParity := by
  cases r with
  | a => exact hasParity_setA m _
  -- the written bit is replaced by that of the accumulator
  | psw => exact rfl
  | b | bank | dptr | dpl | dph | pc | sp | ioPort => exact h.congr rfl rfl

theorem HasParity.setRegister (h : m.HasParity) (name : String) (value : BitVec 32) :
    (m.setRegister name value).1.HasParity := by
  unfold Machine.setRegister
  split
  · next r _ => exact h.set r _
  · exact h

theorem HasParity.multiply (m : Machine) : m.multiply.1.HasParity :=
  (hasParity_setA m _).congr rfl rfl

theorem HasParity.divide (h : m.HasParity) : m.divide.1.HasParity := by
  unfold Machine.divide
  dsimp only
  split
  · exact h.congr rfl rfl
  · exact (hasParity_setA m _).congr rfl rfl

theorem HasParity.rotate (m : Machine) (r : Rotation) : (m.rotate r).1.HasParity := by
  unfold Machine.rotate
  split
  · exact hasParity_setA m _
  · exact hasParity_setA _ _

/-- No operation parts the bit from the accumulator. -/
theorem HasParity.apply (h : m.HasParity) (op : Operation) : (m.apply op).1.HasParity := by
  cases op with
  | move dest source => exact h.set dest _
  | fetch dest p => exact h.set dest _
  | store p source => exact h.congr rfl rfl
  | add withCarry source => exact hasParity_setA _ _
  | subtract source => exact hasParity_setA _ _
  | increment dest => exact h.set dest _
  | decrement dest => exact h.set dest _
  | multiply => exact .multiply m
  | divide => exact h.divide
  | logic op dest source => exact h.set dest _
  | rotate r => exact .rotate m r
  | clear => exact hasParity_setA m _
  | complement => exact hasParity_setA m _
  | clearCarry | setCarry | complementCarry => exact h.congr rfl rfl
  | jump target => exact h.congr rfl rfl
  | branch condition target =>
      by_cases hc : m.holds condition = true
      · simp only [Machine.apply, if_pos hc]
        exact h.congr rfl rfl
      · simp only [Machine.apply, if_neg hc]
        exact h
  | idle => exact h
  | halt => exact h.congr rfl rfl

theorem HasParity.execute (h : m.HasParity) (i : Instruction) : (m.execute i).1.HasParity := by
  rw [execute_fst]
  cases asked (Operation.resolve i) with
  | none => exact h
  | some op => exact h.apply op

theorem HasParity.perform (h : m.HasParity) (action : Action) :
    (m.perform action).HasParity := by
  cases action with
  | execute i => exact h.execute i
  | reset => exact hasParity_initial.congr rfl rfl
  | loadProgram program => exact h.congr rfl rfl
  | write address b => exact h.congr rfl rfl
  | loadExternal address bytes => exact h.congr rfl rfl
  | setRegister name value => exact h.setRegister name value
  | setA b => exact hasParity_setA m b

theorem HasParity.performAll (h : m.HasParity) (actions : List Action) :
    (m.performAll actions).HasParity := by
  induction actions generalizing m with
  | nil => exact h
  | cons action rest ih => exact ih (h.perform action)

/-- **The parity bit is always right.** After any history of a new machine it is set
exactly if the accumulator has an odd number of ones. -/
theorem parity_performAll (actions : List Action) :
    (initial.performAll actions).psw.parity = true ↔
      Odd (ones (initial.performAll actions).a) := by
  have h := hasParity_initial.performAll actions
  unfold HasParity at h
  rw [h]
  exact oddOnes_iff _

end Machine

end Microlab.I8051
