import Microlab.Proofs.I8086.Arithmetic
import Microlab.Proofs.I8086.Stack
import Microlab.Proofs.Session.Halt

/-!
# What an 8086 instruction changes

An instruction writes to the register that its first operand names, to the stack and its
pointer if it is about these, and to the instruction pointer if it jumps. It sets flags if it
computes. Of the operation that it asks for we note once which instruction asks for it, and
then look at the operations one by one.
-/

namespace Microlab.I8086

/-! ## What an instruction names -/

/-- The registers have bits in common. The halves of a word have none. -/
def Register.Overlaps : Register → Register → Prop
  | .byte b, .byte c => b = c
  | r, s => r.home = s.home

/-- With these flags, the jump of this name is taken. -/
def Jumps (f : Flags) : Mnemonic → Prop
  | .jmp => True
  | .je | .jz => f.zero = true
  | .jne | .jnz => f.zero = false
  | .jc => f.carry = true
  | .jnc => f.carry = false
  | _ => False

/-- The registers that an instruction is about to write: its destination, what a pop names,
the stack pointer, and the instruction pointer of a jump that is taken. -/
inductive Machine.Targets (m : Machine) (i : Instruction) : Register → Prop where
  | destination {r : Register} (h : destination? i = some r) : Targets m i r
  | popped {r : WordRegister} (h : Stacks .pop i r) : Targets m i (.word r)
  | stackPointer {k : Mnemonic} (hk : k ∈ stackMnemonics) (hi : i.Names k) :
      Targets m i (.word .sp)
  | jump {k : Mnemonic} (hi : i.Names k) (hjump : Jumps m.flags k) : Targets m i (.word .ip)

/-- All that sets flags. -/
def flagMnemonics : List Mnemonic := [.add, .sub, .cmp, .and, .or, .xor, .inc, .dec, .neg]

/-- From a machine to the next one, nothing has changed but what the instruction names. -/
structure Machine.Confined (m : Machine) (i : Instruction) (next : Machine) : Prop where
  refused : ∀ r, m.attempt i = .error r → next = m
  /-- The two bytes that the stack grows by. The pointer wraps at sixteen bits. -/
  memory : ∀ a, next.memory.read a ≠ m.memory.read a → i.Names .push ∧
    ∃ k < 2, a.toNat % 2 ^ 20 =
      (m.registers.ss.toNat * 16 + (m.registers.sp - 2).toNat + k) % 2 ^ 20
  register : ∀ r, next.registers.get r ≠ m.registers.get r →
    ∃ d, m.Targets i d ∧ d.Overlaps r
  sibling : ∀ b c, destination? i = some (.byte b) → c ≠ b →
    next.registers.get (.byte c) = m.registers.get (.byte c)
  flags : next.flags ≠ m.flags → ∃ k ∈ flagMnemonics, i.Names k
  carry : i.Names .inc ∨ i.Names .dec → next.flags.carry = m.flags.carry
  auxiliary : i.Names .and ∨ i.Names .or ∨ i.Names .xor →
    next.flags.auxiliary = m.flags.auxiliary
  trap : next.flags.trap = m.flags.trap
  interrupt : next.flags.interrupt = m.flags.interrupt
  direction : next.flags.direction = m.flags.direction
  halted : next.halted ≠ m.halted → i.Names .hlt ∧ next.halted = true

/-! ## Registers -/

theorem ByteRegister.eq_of_half {b c : ByteRegister} (hparent : b.parent = c.parent)
    (hhalf : b.isHigh = c.isHigh) : b = c := by
  revert hparent hhalf
  cases b <;> cases c <;> decide

namespace Registers

variable {rs rs' : Registers}

theorem getByte_congr {c : ByteRegister} (h : rs'.getWord c.parent = rs.getWord c.parent) :
    rs'.getByte c = rs.getByte c := by
  unfold getByte
  rw [h]

/-- A write to one half leaves the other one alone. -/
theorem getByte_setByte_of_ne {b c : ByteRegister} (h : b ≠ c) (v : Byte) :
    (rs.setByte b v).getByte c = rs.getByte c := by
  by_cases hparent : b.parent = c.parent
  · have hhalf : b.isHigh ≠ c.isHigh := fun heq => h (ByteRegister.eq_of_half hparent heq)
    unfold getByte setByte
    rw [getWord_setWord, if_pos hparent.symm, hparent]
    cases hb : b.isHigh <;> cases hc : c.isHigh
    · exact absurd (hb.trans hc.symm) hhalf
    · exact Word.high_ofHalves _ _
    · exact Word.low_ofHalves _ _
    · exact absurd (hb.trans hc.symm) hhalf
  · exact getByte_congr ((getWord_setWord rs b.parent c.parent _).trans
      (if_neg (Ne.symm hparent)))

/-- A write is not seen in registers that have no bits in common with the written one. -/
theorem get_set_of_not_overlaps {r s : Register} (h : ¬ r.Overlaps s) (w : Word) :
    (rs.set r w).get s = rs.get s := by
  cases s with
  | word t =>
      have hhome : r.home ≠ t := by cases r <;> exact h
      exact rs.getWord_set_of_ne hhome w
  | byte c =>
      refine congrArg (BitVec.setWidth 16) ?_
      cases r with
      | word t => exact getByte_congr (rs.getWord_set_of_ne (r := .word t) h w)
      | byte b => exact getByte_setByte_of_ne h _

end Registers

/-! ## Which instruction asks for an operation -/

/-- What an operation says of the instruction that asks for it. -/
def Operation.AskedBy (i : Instruction) : Operation → Prop
  | move d _ => i.Names .mov ∧ I8086.destination? i = some d
  | arithmetic op d _ => i.Names op.mnemonic ∧ I8086.destination? i = some d
  | compare _ _ => i.Names .cmp
  | increment d => i.Names .inc ∧ I8086.destination? i = some d
  | decrement d => i.Names .dec ∧ I8086.destination? i = some d
  | complement d => i.Names .not ∧ I8086.destination? i = some d
  | negate d => i.Names .neg ∧ I8086.destination? i = some d
  | push r => Stacks .push i r
  | pop r => Stacks .pop i r
  | jump _ => i.Names .jmp
  | branch c _ => ∃ k, i.Names k ∧ ∀ f, f.holds c = true → Jumps f k
  | idle => i.Names .nop
  | halt => i.Names .hlt

namespace Operation

variable {i : Instruction} {op : Operation}

theorem askedBy_of_asked (h : asked (resolve i) = some op) : op.AskedBy i := by
  obtain ⟨m, hi, h⟩ := exists_names_of_asked h
  cases m with
  | mov | add | sub | and | or | xor =>
      obtain ⟨d, s, hargs, h⟩ := Instruction.two_bind_eq_some_iff.mp h
      obtain ⟨r, hd, h⟩ := lookup_bind_eq_some_iff.mp h
      cases h
      exact ⟨hi, (destination?_of_binary hi (by decide) hargs).trans hd⟩
  | inc | dec | not | neg =>
      obtain ⟨d, r, hargs, hd, rfl⟩ := asked_unary h
      exact ⟨hi, (destination?_of_unary hi (by decide) hargs).trans hd⟩
  | cmp =>
      obtain ⟨x, y, -, rfl⟩ := asked_compare hi (by rwa [resolve, resolveBy_of_names hi])
      exact hi
  | push | pop =>
      obtain ⟨x, hargs, h⟩ := Instruction.one_bind_eq_some_iff.mp h
      obtain ⟨r, hx, h⟩ := wordRegister_bind_eq_some_iff.mp h
      cases h
      exact ⟨hi, x, hargs, hx⟩
  | jmp =>
      obtain ⟨x, -, h⟩ := Instruction.one_bind_eq_some_iff.mp h
      cases h
      exact hi
  | je | jz | jne | jnz | jc | jnc =>
      obtain ⟨x, -, h⟩ := Instruction.one_bind_eq_some_iff.mp h
      cases h
      exact ⟨_, hi, fun f hf => by simpa [Flags.holds, Jumps] using hf⟩
  | nop | hlt =>
      cases h
      exact hi
  | _ => cases h

end Operation

namespace Machine

variable {m : Machine} {i : Instruction} {op : Operation}

/-! ## Memory -/

theorem memory_apply_of_ne_push (h : ∀ r, op ≠ .push r) : (m.apply op).1.memory = m.memory := by
  cases op with
  | push r => exact absurd rfl (h r)
  | pop r => rfl
  | _ => exact apply_memory rfl

/-- The pushed word lies where the pointer has moved to. -/
theorem toNat_slot_one (m : Machine) :
    (m.slot 1).toNat = m.registers.ss.toNat * 16 + (m.registers.sp - 2).toNat := by
  have htwo : (2 : Word).toNat = 2 := rfl
  rw [toNat_slot, BitVec.toNat_sub, htwo]
  omega

theorem read_push_of_ne (r : WordRegister) {a : Address}
    (h : ∀ k < 2, a.toNat % 2 ^ 20 ≠
      (m.registers.ss.toNat * 16 + (m.registers.sp - 2).toNat + k) % 2 ^ 20) :
    (m.push r).1.memory.read a = m.memory.read a := by
  have hplace : ∀ k < 2, (m.slot 1 + BitVec.ofNat 32 k).setWidth 20 ≠ a.setWidth 20 := by
    intro k hk heq
    have hss := m.registers.ss.isLt
    have hsp := (m.registers.sp - 2).isLt
    have hnat := congrArg BitVec.toNat heq
    rw [BitVec.toNat_setWidth, BitVec.toNat_setWidth, BitVec.toNat_add, BitVec.toNat_ofNat,
      toNat_slot_one] at hnat
    have := h k hk
    omega
  rw [memory_push, Memory.read_writeWord_of_ne]
  · have hlow := hplace 0 (by decide)
    rwa [BitVec.add_zero] at hlow
  · exact hplace 1 (by decide)

/-! ## Registers and flags -/

/-- A register is only changed by a write to its bits. -/
theorem get_apply (hasks : op.AskedBy i) {s : Register}
    (hs : ∀ d, m.Targets i d → ¬ d.Overlaps s) :
    (m.apply op).1.registers.get s = m.registers.get s := by
  cases op with
  | move d | arithmetic _ d | increment d | decrement d | complement d | negate d =>
      exact Registers.get_set_of_not_overlaps (hs d (.destination hasks.2)) _
  | compare | idle | halt => rfl
  | push r =>
      have hsp := hs (.word .sp) (.stackPointer (by decide) hasks.1)
      exact Registers.get_set_of_not_overlaps hsp (m.registers.sp - 2)
  | pop r =>
      have hsp := hs (.word .sp) (.stackPointer (by decide) hasks.1)
      have hr := hs (.word r) (.popped hasks)
      exact (Registers.get_set_of_not_overlaps hr _).trans
        (Registers.get_set_of_not_overlaps hsp (m.registers.sp + 2))
  | jump target =>
      exact Registers.get_set_of_not_overlaps (hs (.word .ip) (.jump hasks trivial)) target
  | branch condition target =>
      obtain ⟨k, hi, hjump⟩ := hasks
      unfold apply
      dsimp only
      split
      · next hholds =>
        exact Registers.get_set_of_not_overlaps
          (hs (.word .ip) (.jump hi (hjump m.flags hholds))) target
      · rfl

theorem flags_branch (m : Machine) (condition : Condition) (target : Word) :
    (m.apply (.branch condition target)).1.flags = m.flags := by
  unfold apply
  dsimp only
  split <;> rfl

theorem flags_apply (hasks : op.AskedBy i) (h : ∀ k ∈ flagMnemonics, ¬ i.Names k) :
    (m.apply op).1.flags = m.flags := by
  cases op with
  | arithmetic op => exact absurd hasks.1 (h _ (by cases op <;> decide))
  | increment | decrement | negate => exact absurd hasks.1 (h _ (by decide))
  | compare => exact absurd hasks (h _ (by decide))
  | branch condition target => exact m.flags_branch condition target
  | _ => rfl

/-- Of what sets flags, only counting keeps the carry. -/
theorem carry_apply (hasks : op.AskedBy i)
    (h : ∀ k ∈ [Mnemonic.add, .sub, .cmp, .and, .or, .xor, .neg], ¬ i.Names k) :
    (m.apply op).1.flags.carry = m.flags.carry := by
  cases op with
  | arithmetic op => exact absurd hasks.1 (h _ (by cases op <;> decide))
  | negate => exact absurd hasks.1 (h _ (by decide))
  | compare => exact absurd hasks (h _ (by decide))
  | branch condition target =>
      exact congrArg Flags.carry (m.flags_branch condition target)
  | _ => rfl

end Machine

namespace Arithmetic

variable {width : Width} {f : Flags} {a b : Word}

/-- Logic keeps the auxiliary carry. -/
theorem auxiliary_evalAt {op : Arithmetic} (hadd : op ≠ add) (hsub : op ≠ sub) :
    (op.evalAt width f a b).2.auxiliary = f.auxiliary := by
  cases op with
  | add => exact absurd rfl hadd
  | sub => exact absurd rfl hsub
  | and | or | xor => cases width <;> rfl

/-- Nothing that is computed reaches the flags that control the processor. -/
theorem control_evalAt (op : Arithmetic) :
    (op.evalAt width f a b).2.trap = f.trap ∧
      (op.evalAt width f a b).2.interrupt = f.interrupt ∧
      (op.evalAt width f a b).2.direction = f.direction := by
  cases width <;> cases op <;> exact ⟨rfl, rfl, rfl⟩

end Arithmetic

namespace Machine

variable {m : Machine} {i : Instruction} {op : Operation}

theorem auxiliary_apply (hasks : op.AskedBy i)
    (h : ∀ k ∈ [Mnemonic.add, .sub, .cmp, .inc, .dec, .neg], ¬ i.Names k) :
    (m.apply op).1.flags.auxiliary = m.flags.auxiliary := by
  cases op with
  | arithmetic op =>
      refine Arithmetic.auxiliary_evalAt ?_ ?_
      · rintro rfl
        exact h _ (by decide) hasks.1
      · rintro rfl
        exact h _ (by decide) hasks.1
  | increment | decrement | negate => exact absurd hasks.1 (h _ (by decide))
  | compare => exact absurd hasks (h _ (by decide))
  | branch condition target =>
      exact congrArg Flags.auxiliary (m.flags_branch condition target)
  | _ => rfl

theorem control_apply (m : Machine) (op : Operation) :
    (m.apply op).1.flags.trap = m.flags.trap ∧
      (m.apply op).1.flags.interrupt = m.flags.interrupt ∧
      (m.apply op).1.flags.direction = m.flags.direction := by
  cases op with
  | arithmetic op => exact op.control_evalAt
  | compare => exact Arithmetic.sub.control_evalAt
  | increment => exact Arithmetic.add.control_evalAt
  | decrement | negate => exact Arithmetic.sub.control_evalAt
  | branch condition target =>
      rw [m.flags_branch condition target]
      exact ⟨rfl, rfl, rfl⟩
  | _ => exact ⟨rfl, rfl, rfl⟩

/-! ## Instructions -/

/-- Of a byte that is a destination, nothing else in the machine is a part. -/
theorem not_overlaps_of_targets {b c : ByteRegister} (hdest : destination? i = some (.byte b))
    (hc : c ≠ b) {d : Register} (hd : m.Targets i d) : ¬ d.Overlaps (.byte c) := by
  cases hd with
  | destination h =>
      obtain rfl := Option.some.inj (h.symm.trans hdest)
      exact Ne.symm hc
  | popped h =>
      rw [destination?_eq_none h.1 (by decide) (by decide)] at hdest
      cases hdest
  | stackPointer | jump => cases c <;> exact nofun

theorem Confined.refl (m : Machine) (i : Instruction) : m.Confined i m where
  refused := fun _ _ => rfl
  memory := fun _ h => absurd rfl h
  register := fun _ h => absurd rfl h
  sibling := fun _ _ _ _ => rfl
  flags := fun h => absurd rfl h
  carry := fun _ => rfl
  auxiliary := fun _ => rfl
  trap := rfl
  interrupt := rfl
  direction := rfl
  halted := fun h => absurd rfl h

theorem confined_apply (hasked : asked (Operation.resolve i) = some op) :
    m.Confined i (m.apply op).1 := by
  have hasks := Operation.askedBy_of_asked hasked
  -- an instruction has one name, so of two names that it may have one is wrong
  have hother : ∀ {k : Mnemonic} {ks : List Mnemonic}, i.Names k → k ∉ ks →
      ∀ k' ∈ ks, ¬ i.Names k' := by
    intro k ks hi hk k' hk' hi'
    exact hk (hi.unique hi' ▸ hk')
  obtain ⟨htrap, hinterrupt, hdirection⟩ := m.control_apply op
  refine ⟨?_, ?_, ?_, ?_, ?_, ?_, ?_, htrap, hinterrupt, hdirection, ?_⟩
  · intro r hr
    obtain ⟨trace, hran⟩ := Step.exists_attempt_of_asked (Handler.handle_eq i) hasked m
    cases hr.symm.trans hran
  · intro a ha
    by_cases hpush : ∃ r, op = .push r
    · obtain ⟨r, rfl⟩ := hpush
      refine ⟨hasks.1, ?_⟩
      by_contra hplace
      exact ha (read_push_of_ne r fun k hk heq => hplace ⟨k, hk, heq⟩)
    · have hmemory : (m.apply op).1.memory = m.memory :=
        memory_apply_of_ne_push fun r hr => hpush ⟨r, hr⟩
      exact absurd (congrArg (Memory.read · a) hmemory) ha
  · intro r hr
    by_contra hnone
    exact hr (get_apply hasks fun d hd hoverlaps => hnone ⟨d, hd, hoverlaps⟩)
  · intro b c hdest hc
    exact get_apply hasks fun d hd => not_overlaps_of_targets hdest hc hd
  · intro hflags
    by_contra hnone
    exact hflags (flags_apply hasks fun k hk hi => hnone ⟨k, hk, hi⟩)
  · rintro (hi | hi)
    · exact carry_apply hasks (hother hi (by decide))
    · exact carry_apply hasks (hother hi (by decide))
  · rintro (hi | hi | hi)
    · exact auxiliary_apply hasks (hother hi (by decide))
    · exact auxiliary_apply hasks (hother hi (by decide))
    · exact auxiliary_apply hasks (hother hi (by decide))
  · intro hhalted
    by_cases hop : op = .halt
    · subst hop
      exact ⟨hasks, rfl⟩
    · have hsame := m.halted_apply op
      rw [or_iff_left hop, ← Bool.eq_iff_iff] at hsame
      exact absurd hsame hhalted

/-- **An 8086 instruction changes only what it names.** In every state, a refused instruction
changes nothing. Any other leaves the memory alone but for a push, the registers but for those
that it targets, the flags but for those of its kind, and the latch unless it halts. -/
theorem execute_confined (m : Machine) (i : Instruction) : m.Confined i (m.execute i).1 := by
  rw [execute_fst]
  cases hasked : asked (Operation.resolve i) with
  | none => exact .refl m i
  | some op => exact confined_apply hasked

end Machine

end Microlab.I8086
