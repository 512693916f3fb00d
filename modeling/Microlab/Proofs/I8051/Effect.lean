import Microlab.Proofs.I8051.Arithmetic
import Microlab.Proofs.I8051.Refusal
import Microlab.Proofs.Memory
import Microlab.Proofs.Session.Halt

/-!
# What an 8051 instruction changes

As on the 8086, but here the flags are bits of a register. An instruction that names this
register as its destination writes all of them but parity; of any other instruction we say
which flags it may change. Parity follows the accumulator.
-/

namespace Microlab.I8051

open Text

/-! ## What an instruction names -/

/-- The registers have bits in common. The halves of `DPTR` have none. -/
def Register.Overlaps : Register → Register → Prop
  | .dptr, .dpl | .dptr, .dph | .dpl, .dptr | .dph, .dptr => True
  | r, s => r = s

/-- The register is the first operand of an instruction that computes it. -/
inductive HasDestination (i : Instruction) : Register → Prop where
  | unary {k : Mnemonic} {d : String} {r : Register} (hk : k ∈ unaryMnemonics) (hi : i.Names k)
      (hargs : i.arguments = [d]) (hd : Register.ofName? d = some r) : HasDestination i r
  | binary {k : Mnemonic} {d s : String} {r : Register} (hk : k ∈ twoOperandMnemonics)
      (hi : i.Names k) (hargs : i.arguments = [d, s]) (hd : Register.ofName? d = some r) :
      HasDestination i r

/-- The word is the only operand. -/
def HasWord (i : Instruction) (word : String) : Prop :=
  ∃ x, i.arguments = [x] ∧ sameLetters x word = true

namespace Machine

/-- On this machine, the jump of this name is taken. -/
def Jumps (m : Machine) : Mnemonic → Prop
  | .sjmp | .ljmp => True
  | .jz => m.a = 0
  | .jnz => m.a ≠ 0
  | .jc => m.psw.carry = true
  | .jnc => m.psw.carry = false
  | _ => False

/-- The registers that an instruction is about to write: its destination, the accumulator
and `B` where they need not be named, and the program counter of a jump that is taken. -/
inductive Targets (m : Machine) (i : Instruction) : Register → Prop where
  | destination {r : Register} (h : HasDestination i r) : Targets m i r
  | rotated {k : Mnemonic} (hk : k ∈ rotationMnemonics) (hi : i.Names k) : Targets m i .a
  | bits {k : Mnemonic} (hk : k ∈ bitMnemonics) (hi : i.Names k) (hword : HasWord i "A") :
      Targets m i .a
  | product {r : Register} (hi : i.Names .mul) (hr : r = .a ∨ r = .b) : Targets m i r
  | quotient {r : Register} (hi : i.Names .div) (hb : m.b ≠ 0) (hr : r = .a ∨ r = .b) :
      Targets m i r
  | jump {k : Mnemonic} (hi : i.Names k) (hjump : m.Jumps k) : Targets m i .pc

/-- The instructions that set or clear the carry flag. -/
inductive SetsCarry (m : Machine) (i : Instruction) : Prop where
  | computed {k : Mnemonic} (hk : k ∈ [Mnemonic.add, .addc, .subb, .mul, .rlc, .rrc])
      (hi : i.Names k) : SetsCarry m i
  | quotient (hi : i.Names .div) (hb : m.b ≠ 0) : SetsCarry m i
  | named {k : Mnemonic} (hk : k ∈ [Mnemonic.clr, .setb, .cpl]) (hi : i.Names k)
      (hword : HasWord i "C") : SetsCarry m i

/-- From a machine to the next one, no flag has changed but what the instruction is for. -/
structure FlagsConfined (m : Machine) (i : Instruction) (next : Machine) : Prop where
  carry : next.psw.carry ≠ m.psw.carry → m.SetsCarry i
  auxiliary : next.psw.auxiliary ≠ m.psw.auxiliary → ∃ k ∈ sumMnemonics, i.Names k
  overflow : next.psw.overflow ≠ m.psw.overflow →
    ∃ k ∈ sumMnemonics ++ productMnemonics, i.Names k
  parity : next.psw.parity ≠ m.psw.parity → m.Targets i .a
  flag0 : next.psw.flag0 = m.psw.flag0
  bank1 : next.psw.bank1 = m.psw.bank1
  bank0 : next.psw.bank0 = m.psw.bank0
  flag1 : next.psw.flag1 = m.psw.flag1

/-- From a machine to the next one, nothing has changed but what the instruction names. -/
structure Confined (m : Machine) (i : Instruction) (next : Machine) : Prop where
  refused : ∀ r, m.attempt i = .error r → next = m
  /-- The byte that the first operand points to. -/
  memory : ∀ a, next.memory.read a ≠ m.memory.read a → i.Names .movx ∧
    ∃ x s p, i.arguments = [x, s] ∧ Pointer.ofOperand? x = some p ∧
      a.toNat % 2 ^ 16 = (m.get p.register).toNat
  /-- The bits of the status word are the flags. -/
  register : ∀ r ≠ .psw, next.get r ≠ m.get r → ∃ d, m.Targets i d ∧ d.Overlaps r
  flags : ¬ HasDestination i .psw → m.FlagsConfined i next
  halted : next.halted ≠ m.halted → i.Names .hlt ∧ next.halted = true

end Machine

/-! ## Which instruction asks for an operation -/

/-- The instruction of a rotation. -/
def Rotation.mnemonic : Rotation → Mnemonic
  | left => .rl
  | right => .rr
  | leftCarry => .rlc
  | rightCarry => .rrc
  | swap => .swap

/-- What an operation says of the instruction that asks for it. -/
def Operation.AskedBy (i : Instruction) : Operation → Prop
  | move d _ | fetch d _ | increment d | decrement d | logic _ d _ => HasDestination i d
  | store p _ => i.Names .movx ∧
      ∃ x s, i.arguments = [x, s] ∧ Pointer.ofOperand? x = some p
  | add _ _ | subtract _ => HasDestination i .a ∧ ∃ k ∈ sumMnemonics, i.Names k
  | multiply => i.Names .mul
  | divide => i.Names .div
  | rotate r => i.Names r.mnemonic
  | clear => i.Names .clr ∧ HasWord i "A"
  | complement => i.Names .cpl ∧ HasWord i "A"
  | clearCarry => i.Names .clr ∧ HasWord i "C"
  | setCarry => i.Names .setb ∧ HasWord i "C"
  | complementCarry => i.Names .cpl ∧ HasWord i "C"
  | jump _ => ∃ k, i.Names k ∧ ∀ m : Machine, m.Jumps k
  | branch c _ => ∃ k, i.Names k ∧ ∀ m : Machine, m.holds c = true → m.Jumps k
  | idle => i.Names .nop
  | halt => i.Names .hlt

namespace Operation

variable {i : Instruction} {op : Operation}

theorem eq_of_asked_rotate {r : Rotation} {k : Mnemonic}
    (h : asked (resolveRotate r k i) = some op) : op = .rotate r := by
  unfold resolveRotate at h
  dsimp only at h
  split at h
  · cases h
    rfl
  · split at h
    · cases h
      rfl
    · cases h
  · cases h

/-- A word that is asked about selects an operation. -/
theorem asked_ite_word {x word : String} {next : Operation} {lead : String}
    {rest : Except Refusal Resolved} :
    asked (if sameLetters x word = true then .ok ⟨next, lead⟩ else rest) = some op ↔
      sameLetters x word = true ∧ next = op ∨
        sameLetters x word ≠ true ∧ asked rest = some op := by
  by_cases hx : sameLetters x word = true
  · rw [if_pos hx]
    simp [hx, asked, Except.toOption]
  · rw [if_neg hx]
    simp [hx]

theorem askedBy_of_asked_external (hi : i.Names .movx)
    (h : asked (resolveExternal i) = some op) : op.AskedBy i := by
  obtain ⟨d, s, hargs, h⟩ := Instruction.two_bind_eq_some_iff.mp h
  have hstore : ∀ {p}, Pointer.ofOperand? d = some p →
      ∃ x y, i.arguments = [x, y] ∧ Pointer.ofOperand? x = some p := fun hp => ⟨d, s, hargs, hp⟩
  dsimp only at h
  split at h
  · obtain ⟨r, hd, h⟩ := lookup_bind_eq_some_iff.mp h
    cases h
    exact .binary (by decide) hi hargs hd
  · next hd =>
    cases h
    exact ⟨hi, hstore hd⟩
  · split at h
    · next hd =>
      cases h
      exact .binary (by decide) hi hargs hd
    · cases h
  · next hd =>
    split at h
    · cases h
      exact ⟨hi, hstore hd⟩
    · cases h
  · cases h

theorem askedBy_of_asked (h : asked (resolve i) = some op) : op.AskedBy i := by
  obtain ⟨m, hi, h⟩ := exists_names_of_asked h
  cases m with
  | mov =>
      obtain ⟨d, s, hargs, h⟩ := Instruction.two_bind_eq_some_iff.mp h
      obtain ⟨r, hd, h⟩ := lookup_bind_eq_some_iff.mp h
      split at h
      · cases h
      · cases h
        exact .binary (by decide) hi hargs hd
  | movx => exact askedBy_of_asked_external hi h
  | add | addc | subb =>
      obtain ⟨d, s, hargs, hd, rfl⟩ := exists_of_asked_sum h
      exact ⟨.binary (by decide) hi hargs hd, _, by decide, hi⟩
  | inc | dec =>
      obtain ⟨d, r, hargs, hd, rfl⟩ := exists_of_asked_step h
      exact .unary (by decide) hi hargs hd
  | mul | div =>
      obtain rfl := eq_of_asked_pair h
      exact hi
  | anl | orl | xrl =>
      obtain ⟨d, s, r, hargs, hd, rfl⟩ := exists_of_asked_logic h
      exact .binary (by decide) hi hargs hd
  | rl | rr | rlc | rrc | swap =>
      obtain rfl := eq_of_asked_rotate h
      exact hi
  | clr | cpl =>
      obtain ⟨x, hargs, h⟩ := Instruction.one_bind_eq_some_iff.mp h
      rcases asked_ite_word.mp h with ⟨hx, rfl⟩ | ⟨-, h⟩
      · exact ⟨hi, x, hargs, hx⟩
      · rcases asked_ite_word.mp h with ⟨hx, rfl⟩ | ⟨-, h⟩
        · exact ⟨hi, x, hargs, hx⟩
        · cases h
  | setb =>
      obtain ⟨x, hargs, h⟩ := Instruction.one_bind_eq_some_iff.mp h
      rcases asked_ite_word.mp h with ⟨hx, rfl⟩ | ⟨-, h⟩
      · exact ⟨hi, x, hargs, hx⟩
      · cases h
  | sjmp | ljmp =>
      obtain ⟨x, -, h⟩ := Instruction.one_bind_eq_some_iff.mp h
      cases h
      exact ⟨_, hi, fun _ => trivial⟩
  | jz | jnz | jc | jnc =>
      obtain ⟨x, -, h⟩ := Instruction.one_bind_eq_some_iff.mp h
      cases h
      exact ⟨_, hi, fun m hm => by simpa [Machine.holds, Machine.Jumps] using hm⟩
  | nop | hlt =>
      cases h
      exact hi
  | _ => cases h

end Operation

namespace Machine

variable {m : Machine} {i : Instruction} {op : Operation}

/-! ## Writes and computations -/

theorem memory_set (m : Machine) (r : Register) (w : Word) : (m.set r w).memory = m.memory := by
  cases r <;> rfl

/-- A write is not seen in registers that have no bits in common with the written one. -/
theorem get_set_of_not_overlaps {r s : Register} (h : ¬ r.Overlaps s) (hs : s ≠ .psw)
    (w : Word) : (m.set r w).get s = m.get s := by
  cases r with
  | bank j =>
      cases s with
      | bank k =>
          have hne : j.val ≠ k.val := fun heq => h (congrArg Register.bank (Fin.ext heq))
          exact congrArg (BitVec.setWidth 16) (Vector.getElem_set_ne j.isLt k.isLt hne)
      | _ => rfl
  | ioPort j =>
      cases s with
      | ioPort k =>
          have hne : j.val ≠ k.val := fun heq => h (congrArg Register.ioPort (Fin.ext heq))
          exact congrArg (BitVec.setWidth 16) (Vector.getElem_set_ne j.isLt k.isLt hne)
      | _ => rfl
  | dpl =>
      cases s with
      | dptr => exact absurd trivial h
      | dpl => exact absurd rfl h
      | dph => exact congrArg (BitVec.setWidth 16) (Word.high_ofHalves _ _)
      | _ => rfl
  | dph =>
      cases s with
      | dptr => exact absurd trivial h
      | dph => exact absurd rfl h
      | dpl => exact congrArg (BitVec.setWidth 16) (Word.low_ofHalves _ _)
      | _ => rfl
  | dptr =>
      cases s with
      | dptr => exact absurd rfl h
      | dpl | dph => exact absurd trivial h
      | _ => rfl
  | _ => cases s <;> first | exact absurd rfl h | exact absurd rfl hs | rfl

/-- What is computed in the accumulator and `B` is not seen in other registers. -/
theorem get_of_computed (m : Machine) {s : Register} (ha : s ≠ .a) (hb : s ≠ .b) (hs : s ≠ .psw)
    (a b : Byte) (psw : Status) : ({ m with a := a, b := b, psw := psw } : Machine).get s =
      m.get s := by
  cases s <;> first | exact absurd rfl ha | exact absurd rfl hb | exact absurd rfl hs | rfl

theorem get_of_accumulator (m : Machine) {s : Register} (ha : s ≠ .a) (hs : s ≠ .psw)
    (a : Byte) (psw : Status) : ({ m with a := a, psw := psw } : Machine).get s = m.get s := by
  cases s <;> first | exact absurd rfl ha | exact absurd rfl hs | rfl

theorem get_of_jumped (m : Machine) {s : Register} (hs : s ≠ .pc) (target : Word) :
    ({ m with pc := target } : Machine).get s = m.get s := by
  cases s <;> first | exact absurd rfl hs | rfl

theorem psw_set {r : Register} (hr : r ≠ .psw) (w : Word) :
    (m.set r w).psw = { m.psw with parity := (m.set r w).psw.parity } := by
  cases r <;> first | exact absurd rfl hr | rfl

/-- Of the flags, a rotation changes carry and parity. -/
theorem exists_rotate (m : Machine) (r : Rotation) : ∃ a carry parity,
    (m.rotate r).1 = { m with a := a, psw := { m.psw with carry := carry, parity := parity } } ∧
      (carry ≠ m.psw.carry → r = .leftCarry ∨ r = .rightCarry) := by
  cases r with
  | left | right | swap => exact ⟨_, m.psw.carry, _, rfl, absurd rfl⟩
  | leftCarry | rightCarry => exact ⟨_, _, _, rfl, by simp⟩

theorem exists_divide (hb : m.b ≠ 0) : ∃ a b parity,
    m.divide.1 = { m with
      a := a
      b := b
      psw := { m.psw with carry := false, overflow := false, parity := parity } } := by
  unfold divide
  dsimp only
  rw [if_neg hb]
  exact ⟨_, _, _, rfl⟩

theorem exists_branch (m : Machine) (condition : Condition) (target : Word) :
    ∃ pc, (m.apply (.branch condition target)).1 = { m with pc := pc } ∧
      (pc ≠ m.pc → m.holds condition = true) := by
  by_cases h : m.holds condition = true
  · exact ⟨target, by simp only [apply, if_pos h], fun _ => h⟩
  · exact ⟨m.pc, by simp only [apply, if_neg h], absurd rfl⟩

/-! ## Memory and registers -/

theorem memory_apply_of_ne_store (h : ∀ p s, op ≠ .store p s) :
    (m.apply op).1.memory = m.memory := by
  cases op with
  | store p s => exact absurd rfl (h p s)
  | move d | fetch d | increment d | decrement d | logic _ d => exact m.memory_set d _
  | divide =>
      unfold apply divide
      dsimp only
      split <;> rfl
  | rotate r =>
      obtain ⟨_, _, _, h, -⟩ := m.exists_rotate r
      rw [apply, h]
  | branch condition target =>
      obtain ⟨_, h, -⟩ := m.exists_branch condition target
      rw [h]
  | _ => rfl

/-- The addressed byte is the only one that is stored. -/
theorem read_store_of_ne (p : Pointer) (s : Source) {a : Address}
    (h : a.toNat % 2 ^ 16 ≠ (m.get p.register).toNat) :
    (m.apply (.store p s)).1.memory.read a = m.memory.read a := by
  apply Memory.read_write_of_ne
  intro heq
  apply h
  have hnat := congrArg BitVec.toNat heq
  have hp := (m.get p.register).isLt
  rw [BitVec.toNat_setWidth, BitVec.toNat_setWidth, BitVec.toNat_setWidth] at hnat
  omega

/-- A register is only changed by a write to its bits. -/
theorem get_apply (hasks : op.AskedBy i) {s : Register} (hpsw : s ≠ .psw)
    (hs : ∀ d, m.Targets i d → ¬ d.Overlaps s) : (m.apply op).1.get s = m.get s := by
  -- a register has its own bits
  have hne : ∀ d, m.Targets i d → s ≠ d := by
    rintro d hd rfl
    exact hs s hd (by cases s <;> rfl)
  cases op with
  | move d | fetch d | increment d | decrement d | logic _ d =>
      exact get_set_of_not_overlaps (hs d (.destination hasks)) hpsw _
  | add | subtract => exact m.get_of_accumulator (hne .a (.destination hasks.1)) hpsw _ _
  | clear | complement =>
      exact m.get_of_accumulator (hne .a (.bits (by decide) hasks.1 hasks.2)) hpsw _ _
  | multiply =>
      have ha := hne .a (.product hasks (.inl rfl))
      have hb := hne .b (.product hasks (.inr rfl))
      exact m.get_of_computed ha hb hpsw _ _ _
  | divide =>
      by_cases hzero : m.b = 0
      · rw [apply, divide_of_zero m hzero]
        cases s <;> first | exact absurd rfl hpsw | rfl
      · have ha := hne .a (.quotient hasks hzero (.inl rfl))
        have hb := hne .b (.quotient hasks hzero (.inr rfl))
        obtain ⟨_, _, _, h⟩ := exists_divide hzero
        rw [apply, h]
        exact m.get_of_computed ha hb hpsw _ _ _
  | rotate r =>
      obtain ⟨_, _, _, h, -⟩ := m.exists_rotate r
      rw [apply, h]
      exact m.get_of_accumulator (hne .a (.rotated (by cases r <;> decide) hasks)) hpsw _ _
  | jump target =>
      obtain ⟨k, hi, hjump⟩ := hasks
      exact m.get_of_jumped (hne .pc (.jump hi (hjump m))) target
  | branch condition target =>
      obtain ⟨k, hi, hjump⟩ := hasks
      obtain ⟨pc, h, htaken⟩ := m.exists_branch condition target
      rw [h]
      by_cases hpc : pc = m.pc
      · subst hpc
        rfl
      · exact m.get_of_jumped (hne .pc (.jump hi (hjump m (htaken hpc)))) pc
  | clearCarry | setCarry | complementCarry =>
      cases s <;> first | exact absurd rfl hpsw | rfl
  | store | idle | halt => cases s <;> rfl

/-! ## Flags -/

/-- The status word apart, only a write of the accumulator changes parity. -/
theorem parity_set (hpsw : ¬ HasDestination i .psw) {d : Register} (hd : HasDestination i d)
    (w : Word) (hp : (m.set d w).psw.parity ≠ m.psw.parity) : m.Targets i .a := by
  cases d with
  | a => exact .destination hd
  | psw => exact absurd hd hpsw
  | _ => exact absurd rfl hp

/-- The status word differs in four flags at most, and in each of them for a reason. -/
theorem FlagsConfined.of_psw {next : Machine} {carry auxiliary overflow parity : Bool}
    (h : next.psw = { m.psw with
      carry := carry, auxiliary := auxiliary, overflow := overflow, parity := parity })
    (hcarry : carry ≠ m.psw.carry → m.SetsCarry i)
    (hauxiliary : auxiliary ≠ m.psw.auxiliary → ∃ k ∈ sumMnemonics, i.Names k)
    (hoverflow : overflow ≠ m.psw.overflow → ∃ k ∈ sumMnemonics ++ productMnemonics, i.Names k)
    (hparity : parity ≠ m.psw.parity → m.Targets i .a) : m.FlagsConfined i next := by
  constructor <;> rw [h] <;> assumption

/-- Every operation says which flags it sets. -/
theorem flagsConfined_apply (hasks : op.AskedBy i) (hpsw : ¬ HasDestination i .psw) :
    m.FlagsConfined i (m.apply op).1 := by
  cases op with
  | move d | fetch d | increment d | decrement d | logic _ d =>
      have hd : d ≠ .psw := fun h => hpsw (h ▸ hasks)
      exact .of_psw (psw_set hd _) (absurd rfl) (absurd rfl) (absurd rfl)
        (parity_set hpsw hasks _)
  | add | subtract =>
      obtain ⟨hdest, k, hk, hi⟩ := hasks
      have hoverflow : ∃ k ∈ sumMnemonics ++ productMnemonics, i.Names k :=
        ⟨k, List.mem_append_left _ hk, hi⟩
      have hcarry : m.SetsCarry i := .computed (List.mem_append_left [.mul, .rlc, .rrc] hk) hi
      exact .of_psw rfl (fun _ => hcarry) (fun _ => ⟨k, hk, hi⟩) (fun _ => hoverflow)
        fun _ => .destination hdest
  | clear | complement =>
      exact .of_psw rfl (absurd rfl) (absurd rfl) (absurd rfl)
        fun _ => .bits (by decide) hasks.1 hasks.2
  | multiply =>
      exact .of_psw rfl (fun _ => .computed (by decide) hasks) (absurd rfl)
        (fun _ => ⟨_, by decide, hasks⟩) fun _ => .product hasks (.inl rfl)
  | divide =>
      have hoverflow : ∃ k ∈ sumMnemonics ++ productMnemonics, i.Names k :=
        ⟨.div, by decide, hasks⟩
      by_cases hb : m.b = 0
      · have hpsw := congrArg psw (divide_of_zero m hb)
        exact .of_psw hpsw (absurd rfl) (absurd rfl) (fun _ => hoverflow) (absurd rfl)
      · obtain ⟨_, _, _, h⟩ := exists_divide hb
        have hpsw := congrArg psw h
        exact .of_psw hpsw (fun _ => .quotient hasks hb) (absurd rfl)
          (fun _ => hoverflow) fun _ => .quotient hasks hb (.inl rfl)
  | rotate r =>
      obtain ⟨_, carry, _, h, hcarry⟩ := m.exists_rotate r
      have hpsw := congrArg psw h
      refine .of_psw hpsw ?_ (absurd rfl) (absurd rfl)
        fun _ => .rotated (by cases r <;> decide) hasks
      intro hne
      rcases hcarry hne with rfl | rfl
      · exact .computed (by decide) hasks
      · exact .computed (by decide) hasks
  | clearCarry | setCarry | complementCarry =>
      exact .of_psw rfl (fun _ => .named (by decide) hasks.1 hasks.2) (absurd rfl) (absurd rfl)
        (absurd rfl)
  | branch condition target =>
      obtain ⟨_, h, -⟩ := m.exists_branch condition target
      have hpsw := congrArg psw h
      exact .of_psw hpsw (absurd rfl) (absurd rfl) (absurd rfl) (absurd rfl)
  | store | jump | idle | halt =>
      exact .of_psw rfl (absurd rfl) (absurd rfl) (absurd rfl) (absurd rfl)

/-! ## Instructions -/

theorem Confined.refl (m : Machine) (i : Instruction) : m.Confined i m where
  refused := fun _ _ => rfl
  memory := fun _ h => absurd rfl h
  register := fun _ _ h => absurd rfl h
  flags := fun _ => .of_psw rfl (absurd rfl) (absurd rfl) (absurd rfl) (absurd rfl)
  halted := fun h => absurd rfl h

theorem confined_apply (hasked : asked (Operation.resolve i) = some op) :
    m.Confined i (m.apply op).1 := by
  have hasks := Operation.askedBy_of_asked hasked
  refine ⟨?_, ?_, ?_, flagsConfined_apply hasks, ?_⟩
  · intro r hr
    obtain ⟨trace, hran⟩ := Step.exists_attempt_of_asked (Handler.handle_eq i) hasked m
    cases hr.symm.trans hran
  · intro a ha
    by_cases hstore : ∃ p s, op = .store p s
    · obtain ⟨p, s, rfl⟩ := hstore
      obtain ⟨hi, x, y, hargs, hx⟩ := hasks
      refine ⟨hi, x, y, p, hargs, hx, ?_⟩
      by_contra hplace
      exact ha (read_store_of_ne p s hplace)
    · have hmemory : (m.apply op).1.memory = m.memory :=
        memory_apply_of_ne_store fun p s hs => hstore ⟨p, s, hs⟩
      exact absurd (congrArg (Memory.read · a) hmemory) ha
  · intro r hpsw hr
    by_contra hnone
    exact hr (get_apply hasks hpsw fun d hd hoverlaps => hnone ⟨d, hd, hoverlaps⟩)
  · intro hhalted
    by_cases hop : op = .halt
    · subst hop
      exact ⟨hasks, rfl⟩
    · have hsame := m.halted_apply op
      rw [or_iff_left hop, ← Bool.eq_iff_iff] at hsame
      exact absurd hsame hhalted

/-- **An 8051 instruction changes only what it names.** In every state, a refused instruction
changes nothing. Any other leaves the memory alone but for the byte that `MOVX` points to,
the registers but for those that it targets, and the latch unless it halts. A write of the
status word apart, it leaves the flags alone but for those of its kind, and parity as long as
the accumulator is not written. -/
theorem execute_confined_to_named (m : Machine) (i : Instruction) :
    m.Confined i (m.execute i).1 := by
  rw [execute_fst]
  cases hasked : asked (Operation.resolve i) with
  | none => exact .refl m i
  | some op => exact confined_apply hasked

end Machine

end Microlab.I8051
