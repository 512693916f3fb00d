import Microlab.Proofs.I8086.Frame
import Microlab.Proofs.Memory
import Microlab.Proofs.Session.Walk

/-!
# The stack of the 8086

Code in which every push has its pop is a tree. Such code leaves the stack where it was,
and each pop delivers what its push has read, since the code between them writes to deeper
slots only. The stack pointer wraps at sixteen bits and addresses wrap at twenty, but as
long as the slots in use are fewer than the segment holds, none of them overlap.
-/

namespace Microlab.I8086

/-! ## Nested code -/

/-- The instruction does to a word register what the mnemonic says. -/
def Stacks (m : Mnemonic) (i : Instruction) (r : WordRegister) : Prop :=
  i.Names m ∧ ∃ x, i.arguments = [x] ∧ Register.ofName? x = some (.word r)

/-- The instruction is not about the stack: it neither pushes nor pops, and it names neither
of the stack's registers as its destination. -/
structure SparesStack (i : Instruction) : Prop where
  push : ¬ i.Names .push
  pop : ¬ i.Names .pop
  sp : destination? i ≠ some (.word .sp)
  ss : destination? i ≠ some (.word .ss)

/-- The code is well nested, with so many pushes inside one another at most. -/
inductive Nested : Nat → List Instruction → Prop
  | nil : Nested 0 []
  | append {j k : Nat} {before behind : List Instruction} (hbefore : Nested j before)
      (hbehind : Nested k behind) : Nested (max j k) (before ++ behind)
  | saved {k : Nat} {body : List Instruction} {push pop : Instruction} {r d : WordRegister}
      (hpush : Stacks .push push r) (hbody : Nested k body) (hpop : Stacks .pop pop d)
      (hsp : d ≠ .sp) (hss : d ≠ .ss) : Nested (k + 1) (push :: body ++ [pop])
  | other {i : Instruction} (hi : SparesStack i) : Nested 0 [i]

/-! ## Occurrences -/

/-- An occurrence in joined lists is in the first one or in the second one. -/
theorem split_append {α : Type} {xs ys before rest : List α} {x : α}
    (h : xs ++ ys = before ++ x :: rest) :
    (∃ c, xs = before ++ x :: c) ∨ ∃ c, before = xs ++ c ∧ ys = c ++ x :: rest := by
  rcases List.append_eq_append_iff.mp h with ⟨c, hbefore, hys⟩ | ⟨c, hxs, hrest⟩
  · exact Or.inr ⟨c, hbefore, hys⟩
  · cases c with
    | nil =>
        rw [List.append_nil] at hxs
        exact Or.inr ⟨[], by rw [hxs, List.append_nil], hrest.symm⟩
    | cons y c =>
        obtain ⟨rfl, -⟩ := List.cons.inj hrest
        exact Or.inl ⟨c, hxs⟩

theorem eq_of_singleton_eq {α : Type} {x y : α} {before rest : List α}
    (h : [x] = before ++ y :: rest) : before = [] ∧ x = y := by
  cases before with
  | nil => exact ⟨rfl, (List.cons.inj h).1⟩
  | cons z before => simp at h

/-! ## Slots -/

namespace Machine

variable {m m' : Machine}

/-- The address of the `j`th word under the top of the stack. The pointer wraps within the
segment, and the address does not. -/
def slot (m : Machine) (j : Nat) : Address :=
  m.registers.ss.setWidth 32 * 16 + (m.registers.sp - BitVec.ofNat 16 (2 * j)).setWidth 32

/-- The address is one of the two bytes of the `j`th slot. -/
def InSlot (m : Machine) (j : Nat) (address : Address) : Prop :=
  address.setWidth 20 = (m.slot j).setWidth 20 ∨
    address.setWidth 20 = (m.slot j + 1).setWidth 20

theorem toNat_slot (m : Machine) (j : Nat) :
    (m.slot j).toNat =
      m.registers.ss.toNat * 16 + (m.registers.sp.toNat + 65536 - 2 * j % 65536) % 65536 := by
  have hss := m.registers.ss.isLt
  have hsp := m.registers.sp.isLt
  have hsixteen : (16 : Address).toNat = 16 := rfl
  simp only [slot, BitVec.toNat_setWidth, BitVec.toNat_add, BitVec.toNat_mul, BitVec.toNat_sub,
    BitVec.toNat_ofNat, hsixteen]
  omega

/-- The bytes of two slots differ, since the slots are an even distance apart. -/
theorem not_inSlot {i j : Nat} {address : Address} (hij : i < j) (hlt : j - i < 32768)
    (hi : m.InSlot i address) : ¬ m.InSlot j address := by
  have hss := m.registers.ss.isLt
  have hone : (1 : Address).toNat = 1 := rfl
  have hplace : ∀ k, m.InSlot k address →
      address.toNat % 2 ^ 20 = (m.slot k).toNat % 2 ^ 20 ∨
        address.toNat % 2 ^ 20 = ((m.slot k).toNat + 1) % 2 ^ 20 := by
    intro k hk
    have hslot := m.toNat_slot k
    rcases hk with hk | hk
    · left
      have h := congrArg BitVec.toNat hk
      rwa [BitVec.toNat_setWidth, BitVec.toNat_setWidth] at h
    · right
      have h := congrArg BitVec.toNat hk
      rw [BitVec.toNat_setWidth, BitVec.toNat_setWidth, BitVec.toNat_add, hone] at h
      omega
  have hsloti := m.toNat_slot i
  have hslotj := m.toNat_slot j
  intro hj
  rcases hplace i hi with hi | hi <;> rcases hplace j hj with hj | hj <;> omega

/-- The machines have one stack pointer and one stack segment, and their memories differ in
the first slots under the pointer at most. -/
structure Keeps (m m' : Machine) (depth : Nat) : Prop where
  sp : m'.registers.sp = m.registers.sp
  ss : m'.registers.ss = m.registers.ss
  memory : ∀ address, (∀ j, 0 < j → j ≤ depth → ¬ m.InSlot j address) →
    m'.memory.read address = m.memory.read address

theorem Keeps.refl (m : Machine) (depth : Nat) : Keeps m m depth :=
  ⟨rfl, rfl, fun _ _ => rfl⟩

theorem Keeps.inSlot_iff {depth j : Nat} {address : Address} (h : Keeps m m' depth) :
    m'.InSlot j address ↔ m.InSlot j address := by
  unfold InSlot slot
  rw [h.sp, h.ss]

theorem Keeps.trans {j k : Nat} {m'' : Machine} (h : Keeps m m' j) (h' : Keeps m' m'' k) :
    Keeps m m'' (max j k) := by
  refine ⟨h'.sp.trans h.sp, h'.ss.trans h.ss, ?_⟩
  intro address haddress
  have hfirst : m'.memory.read address = m.memory.read address := by
    apply h.memory
    intro l hpos hl
    exact haddress l hpos (Nat.le_trans hl (Nat.le_max_left j k))
  have hsecond : m''.memory.read address = m'.memory.read address := by
    apply h'.memory
    intro l hpos hl
    rw [h.inSlot_iff]
    exact haddress l hpos (Nat.le_trans hl (Nat.le_max_right j k))
  rw [hsecond, hfirst]

/-! ## Single instructions -/

variable {i : Instruction} {r d : WordRegister}

theorem asked_of_stacks {k : Mnemonic} {op : WordRegister → Operation}
    (hk : Operation.resolveKnown k i = Operation.resolveStack op k i) (h : Stacks k i r) :
    asked (Operation.resolve i) = some (op r) := by
  obtain ⟨hi, x, hargs, hx⟩ := h
  rw [Operation.resolve, resolveBy_of_names hi, hk]
  exact Instruction.one_bind_eq_some_iff.mpr
    ⟨x, hargs, Operation.wordRegister_bind_eq_some_iff.mpr ⟨r, hx, rfl⟩⟩

theorem execute_push (h : Stacks .push i r) : (m.execute i).1 = (m.push r).1 := by
  rw [execute_fst, asked_of_stacks rfl h]
  rfl

theorem execute_pop (h : Stacks .pop i r) : (m.execute i).1 = (m.pop r).1 := by
  rw [execute_fst, asked_of_stacks rfl h]
  rfl

theorem keeps_execute (h : SparesStack i) : Keeps m (m.execute i).1 0 := by
  obtain ⟨hmemory, hword⟩ := execute_frame (m := m) h.push h.pop
  have hhome : ∀ s : WordRegister, s = .sp ∨ s = .ss → ∀ d, destination? i = some d →
      d.home ≠ s := by
    intro s hs d hd heq
    cases d with
    | word r =>
        cases heq
        rcases hs with rfl | rfl
        · exact h.sp hd
        · exact h.ss hd
    -- no byte register lies in the stack's registers
    | byte b => rcases hs with rfl | rfl <;> cases b <;> cases heq
  refine ⟨?_, ?_, ?_⟩
  · exact hword .sp (by decide) (hhome .sp (Or.inl rfl))
  · exact hword .ss (by decide) (hhome .ss (Or.inr rfl))
  · intro address _
    rw [hmemory]

/-! ## A push and its pop -/

/-- After a push, each slot is one less deep. -/
theorem inSlot_push {j : Nat} {address : Address} :
    (m.push r).1.InSlot j address ↔ m.InSlot (j + 1) address := by
  have hsp : m.registers.sp - 2 - BitVec.ofNat 16 (2 * j)
      = m.registers.sp - BitVec.ofNat 16 (2 * (j + 1)) := by
    bv_omega
  unfold InSlot slot push
  rw [← hsp]

theorem memory_push (m : Machine) (r : WordRegister) :
    (m.push r).1.memory = m.memory.writeWord (m.slot 1) (m.registers.getWord r) :=
  rfl

theorem stackTop_push (m : Machine) (r : WordRegister) : (m.push r).1.stackTop = m.slot 1 :=
  rfl

theorem getWord_pop {s : WordRegister} (hs : s ≠ d) :
    (m.pop d).1.registers.getWord s
      = ({ m.registers with sp := m.registers.sp + 2 } : Registers).getWord s :=
  (Registers.getWord_setWord _ d s _).trans (if_neg hs)

theorem getWord_pop_self (m : Machine) (d : WordRegister) :
    (m.pop d).1.registers.getWord d = m.memory.readWord m.stackTop :=
  (Registers.getWord_setWord _ d d _).trans (if_pos rfl)

section

variable {k : Nat} (h : Keeps (m.push r).1 m' k)

include h

/-- What happens in deeper slots does not reach the pushed word. -/
theorem Keeps.readWord_pushed (hk : k < 32768) :
    m'.memory.readWord m'.stackTop = m.registers.getWord r := by
  have htop : m'.stackTop = m.slot 1 := by
    rw [← stackTop_push m r]
    unfold stackTop
    rw [h.sp, h.ss]
  have hread : ∀ address, m.InSlot 1 address →
      m'.memory.read address = (m.push r).1.memory.read address := by
    intro address haddress
    apply h.memory
    intro j hpos hj
    rw [inSlot_push]
    exact not_inSlot (by omega) (by omega) haddress
  rw [htop, Memory.readWord_eq_of_read_eq (hread _ (Or.inl rfl)) (hread _ (Or.inr rfl)),
    memory_push, Memory.readWord_writeWord _ (by decide) (by decide)]

theorem Keeps.read_unpushed {address : Address}
    (haddress : ∀ j, 0 < j → j ≤ k + 1 → ¬ m.InSlot j address) :
    m'.memory.read address = m.memory.read address := by
  have hpushed : m'.memory.read address = (m.push r).1.memory.read address := by
    apply h.memory
    intro j hpos hj
    rw [inSlot_push]
    exact haddress (j + 1) (by omega) (by omega)
  have hfirst := haddress 1 (by omega) (by omega)
  rw [hpushed, memory_push, Memory.read_writeWord_of_ne]
  · exact fun heq => hfirst (Or.inl heq.symm)
  · exact fun heq => hfirst (Or.inr heq.symm)

/-- The pop finds the word that the push has stored, and moves the pointer back. -/
theorem keeps_pop (hk : k < 32768) (hsp : d ≠ .sp) (hss : d ≠ .ss) :
    Keeps m (m'.pop d).1 (k + 1) ∧
      (m'.pop d).1.registers.getWord d = m.registers.getWord r := by
  refine ⟨⟨?_, ?_, ?_⟩, ?_⟩
  · have hback : m.registers.sp - 2 + 2 = m.registers.sp := by bv_omega
    refine (getWord_pop (Ne.symm hsp)).trans ?_
    show m'.registers.sp + 2 = _
    rw [h.sp]
    exact hback
  · exact (getWord_pop (Ne.symm hss)).trans h.ss
  · intro address haddress
    exact h.read_unpushed haddress
  · rw [getWord_pop_self, h.readWord_pushed hk]

end

/-! ## Runs -/

/-- The machine after instructions that are executed one after the other. -/
def after (m : Machine) (code : List Instruction) : Machine :=
  (Cpu.executeAll (a := .i8086) m code).1

theorem after_append (m : Machine) (code rest : List Instruction) :
    m.after (code ++ rest) = (m.after code).after rest :=
  Cpu.executeAll_append (a := .i8086) m code rest

theorem after_saved {push pop : Instruction} {body : List Instruction}
    (hpush : Stacks .push push r) (hpop : Stacks .pop pop d) :
    m.after (push :: body ++ [pop]) = (((m.push r).1.after body).pop d).1 := by
  calc m.after (push :: body ++ [pop])
      = ((m.execute push).1.after body).after [pop] := m.after_append (push :: body) [pop]
    _ = (((m.push r).1.after body).execute pop).1 := by
        rw [execute_push hpush]
        rfl
    _ = (((m.push r).1.after body).pop d).1 := execute_pop hpop

/-- Nested code keeps the stack. -/
theorem keeps_after {depth : Nat} {code : List Instruction} (h : Nested depth code)
    (hdepth : depth ≤ 32768) (m : Machine) : Keeps m (m.after code) depth := by
  induction h generalizing m with
  | nil => exact .refl m 0
  | append hbefore hbehind ihbefore ihbehind =>
      rw [Nat.max_le] at hdepth
      rw [after_append]
      exact (ihbefore hdepth.1 m).trans (ihbehind hdepth.2 _)
  | saved hpush hbody hpop hsp hss ih =>
      rw [after_saved hpush hpop]
      exact (keeps_pop (ih (Nat.le_of_succ_le hdepth) _) hdepth hsp hss).1
  | other hi => exact keeps_execute hi

/-! ## What the pops deliver -/

/-- Every pop in the code has a push in front of it, with nested code between them, and
delivers what this has read. -/
def Delivers (m : Machine) (code : List Instruction) : Prop :=
  ∀ before pop rest, code = before ++ pop :: rest → pop.Names .pop →
    ∃ outer push body k r d, before = outer ++ push :: body ∧ Nested k body ∧
      Stacks .push push r ∧ Stacks .pop pop d ∧
      (m.after (before ++ [pop])).registers.getWord d = (m.after outer).registers.getWord r

theorem delivers_singleton (hi : ¬ i.Names .pop) : Delivers m [i] := by
  intro before pop rest hcode hpop
  obtain ⟨-, rfl⟩ := eq_of_singleton_eq hcode
  exact absurd hpop hi

theorem Delivers.append {code rest : List Instruction} (h : Delivers m code)
    (h' : Delivers (m.after code) rest) : Delivers m (code ++ rest) := by
  intro before pop tail hcode hpop
  rcases split_append hcode with ⟨c, hc⟩ | ⟨c, rfl, hc⟩
  · exact h before pop c hc hpop
  · obtain ⟨outer, push, body, k, r, d, rfl, hbody, hpush, hpop, hword⟩ := h' c pop tail hc hpop
    refine ⟨code ++ outer, push, body, k, r, d, ?_, hbody, hpush, hpop, ?_⟩
    · rw [List.append_assoc]
    · rw [List.append_assoc, after_append, after_append m code outer]
      exact hword

theorem delivers_after {depth : Nat} {code : List Instruction} (h : Nested depth code)
    (hdepth : depth ≤ 32768) (m : Machine) : Delivers m code := by
  induction h generalizing m with
  | nil =>
      intro before pop rest hcode
      simp at hcode
  | append hbefore hbehind ihbefore ihbehind =>
      rw [Nat.max_le] at hdepth
      exact (ihbefore hdepth.1 m).append (ihbehind hdepth.2 _)
  | @saved k body push pop r d hpush hbody hpop hsp hss ih =>
      have hk := Nat.le_of_succ_le hdepth
      have hfront : Delivers m (push :: body) := by
        have hnot : ¬ push.Names .pop := fun h => nomatch hpush.1.unique h
        exact (delivers_singleton hnot).append (ih hk _)
      intro before p rest hcode hp
      rcases split_append hcode with ⟨c, hc⟩ | ⟨c, rfl, hc⟩
      · exact hfront before p c hc hp
      · -- the last pop belongs to the first push
        obtain ⟨rfl, rfl⟩ := eq_of_singleton_eq hc
        refine ⟨[], push, body, k, r, d, ?_, hbody, hpush, hpop, ?_⟩
        · rw [List.append_nil, List.nil_append]
        · rw [List.append_nil, after_saved hpush hpop]
          exact (keeps_pop (keeps_after hbody hk _) hdepth hsp hss).2
  | other hi => exact delivers_singleton hi.pop

/-- **Stack discipline.** From any state, well-nested code that is at most 32768 deep leaves
the stack's registers as they were, writes to the slots of its depth at most, and each of
its pops delivers what its push has read. -/
theorem stack_discipline (m : Machine) {depth : Nat} {code : List Instruction}
    (h : Nested depth code) (hdepth : depth ≤ 32768) :
    Keeps m (m.after code) depth ∧ Delivers m code :=
  ⟨keeps_after h hdepth m, delivers_after h hdepth m⟩

/-- The pointer is odd and wraps, and the segment lies across the end of the memory. -/
theorem stack_discipline_wrapped :
    Keeps { initial with registers := { Registers.zero with ss := 0xFFFF, sp := 1 } }
        (after { initial with registers := { Registers.zero with ss := 0xFFFF, sp := 1 } }
          [⟨"PUSH", ["AX"]⟩, ⟨"push", ["SP"]⟩, ⟨"POP", [" cx "]⟩, ⟨"MOV", ["AX", "5"]⟩,
            ⟨"POP", ["BX"]⟩]) 2 ∧
      Delivers { initial with registers := { Registers.zero with ss := 0xFFFF, sp := 1 } }
        [⟨"PUSH", ["AX"]⟩, ⟨"push", ["SP"]⟩, ⟨"POP", [" cx "]⟩, ⟨"MOV", ["AX", "5"]⟩,
          ⟨"POP", ["BX"]⟩] := by
  have hinner : Nested 1 [⟨"push", ["SP"]⟩, ⟨"POP", [" cx "]⟩] :=
    .saved (r := .sp) (d := .cx) ⟨by decide +kernel, _, rfl, by decide +kernel⟩ .nil
      ⟨by decide +kernel, _, rfl, by decide +kernel⟩ (by decide) (by decide)
  have hmove : Nested 0 [⟨"MOV", ["AX", "5"]⟩] :=
    .other ⟨by decide +kernel, by decide +kernel, by decide +kernel, by decide +kernel⟩
  have hcode : Nested 2 [⟨"PUSH", ["AX"]⟩, ⟨"push", ["SP"]⟩, ⟨"POP", [" cx "]⟩,
      ⟨"MOV", ["AX", "5"]⟩, ⟨"POP", ["BX"]⟩] :=
    .saved (r := .ax) (d := .bx) ⟨by decide +kernel, _, rfl, by decide +kernel⟩
      (hinner.append hmove) ⟨by decide +kernel, _, rfl, by decide +kernel⟩
      (by decide) (by decide)
  exact stack_discipline _ hcode (by decide)

end Machine

end Microlab.I8086
