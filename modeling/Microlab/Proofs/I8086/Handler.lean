import Microlab.I8086.Handler
import Microlab.Proofs.I8086.Flags
import Microlab.Proofs.I8086.Names
import Microlab.Proofs.Resolution
import Microlab.Proofs.Word

/-!
# What the handlers of the 8086 do

Each handler comes to finding an operation, or a reason to refuse, and to running the operation
then. So a handler makes all of its checks before its first write. Handlers find registers by
name where operations know them, and compute in thirty-two bits where operations compute in the
bits of their width: the lemmas in front are about these two differences.
-/

namespace Microlab.I8086

/-! ## Flags -/

namespace Flags

variable (f : Flags) {w : Width} (a b : BitVec w.bits)

theorem setResult_widened (v : BitVec w.bits) :
    f.setResult w (v.setWidth 32) = f.describe v := by
  have hzero : v.setWidth 32 = 0 ↔ v = 0 := by
    rw [← BitVec.toNat_inj, ← BitVec.toNat_inj, Width.toNat_widened]
    rfl
  unfold setResult describe
  simp only [Width.widened_and_mask, Width.toNat_widened, hzero, Width.widened_and_sign_iff,
    Bool.decide_eq_true]

/-- The sum needs one bit more than its operands, and the thirty-two bits have it. -/
theorem add_widened : f.add w (a.setWidth 32) (b.setWidth 32) =
    ((a + b).setWidth 32, (Sum.ofAdd a b).flags f) := by
  have hle := w.bits_le
  have hvalue : a.setWidth 32 + b.setWidth 32 &&& w.mask = (a + b).setWidth 32 := by
    rw [w.and_mask, BitVec.setWidth_add _ _ (by omega), Width.narrow_widened,
      Width.narrow_widened]
  have hcarry : a.setWidth 32 + b.setWidth 32 > w.mask ↔ (Sum.ofAdd a b).carry = true := by
    have ha := a.isLt
    have hb := b.isLt
    have hbits : 2 ^ w.bits ≤ 2 ^ 16 := Nat.pow_le_pow_right (by decide) hle
    rw [Sum.carry_ofAdd_iff, gt_iff_lt, BitVec.lt_def, BitVec.toNat_add, w.toNat_mask,
      Width.toNat_widened, Width.toNat_widened]
    omega
  unfold add
  simp only [hvalue, hcarry, setResult_widened, ← BitVec.setWidth_xor, ← BitVec.setWidth_and,
    Width.widened_and_sign_iff, Width.widened_and_sixteen_iff, Bool.decide_eq_true]
  rfl

theorem sub_widened : f.sub w (a.setWidth 32) (b.setWidth 32) =
    ((a - b).setWidth 32, (Sum.ofSub a b).flags f) := by
  have hle := w.bits_le
  have hvalue : a.setWidth 32 - b.setWidth 32 &&& w.mask = (a - b).setWidth 32 := by
    rw [w.and_mask, setWidth_sub (by omega), Width.narrow_widened, Width.narrow_widened]
  have hcarry : a.setWidth 32 < b.setWidth 32 ↔ (Sum.ofSub a b).carry = true := by
    rw [Sum.carry_ofSub_iff, BitVec.lt_def, Width.toNat_widened, Width.toNat_widened]
  unfold sub
  simp only [hvalue, hcarry, setResult_widened, ← BitVec.setWidth_xor, ← BitVec.setWidth_and,
    Width.widened_and_sign_iff, Width.widened_and_sixteen_iff, Bool.decide_eq_true]
  rfl

theorem compute_widened (op : Arithmetic) :
    f.compute op w (a.setWidth 32) (b.setWidth 32) =
      ((op.eval f a b).1.setWidth 32, (op.eval f a b).2) := by
  cases op with
  | add => exact f.add_widened a b
  | sub => exact f.sub_widened a b
  | and | or | xor =>
      simp only [compute, logic, ← BitVec.setWidth_and, ← BitVec.setWidth_or,
        ← BitVec.setWidth_xor, setResult_widened]
      rfl

end Flags

theorem Arithmetic.evalAt_eq (op : Arithmetic) (width : Width) (f : Flags) (x y : Word) :
    op.evalAt width f x y =
      (op.eval f (x.setWidth width.bits) (y.setWidth width.bits)).map (·.setWidth 16) id := by
  cases width with
  | byte => rfl
  | word =>
      show op.eval f x y = (op.eval f (x.setWidth 16) (y.setWidth 16)).map (·.setWidth 16) id
      rw [BitVec.setWidth_eq, BitVec.setWidth_eq]
      exact Prod.ext (BitVec.setWidth_eq _).symm rfl

/-- In thirty-two bits, words are computed with as at the width they are reduced to. -/
theorem Flags.compute_reduced (f : Flags) (op : Arithmetic) (w : Width) (x y : Word) :
    f.compute op w ((x.setWidth w.bits).setWidth 32) ((y.setWidth w.bits).setWidth 32) =
      ((op.evalAt w f x y).1.setWidth 32, (op.evalAt w f x y).2) := by
  rw [compute_widened, Arithmetic.evalAt_eq]
  exact Prod.ext (Width.widened_word _).symm rfl

/-! ## Operands -/

/-- The names of halves are those of the byte registers. -/
theorem isSome_half? (x : String) :
    (half? x).isSome = decide ((Register.ofName? x).map Register.width = some .byte) := by
  rw [half?_eq, Register.ofName?_eq]
  rcases ofName?_eq_none_or x with hnone | hnone
  · cases hbyte : ByteRegister.ofName? x <;> rw [hnone] <;> rfl
  · cases hword : WordRegister.ofName? x <;> rw [hnone] <;> rfl

theorem width_ofOperand (x : String) :
    (Source.ofOperand x).width = ((Register.ofName? x).map Register.width).getD .word := by
  unfold Source.ofOperand
  cases Register.ofName? x <;> rfl

theorem operandWidth_pair (x y : String) :
    operandWidth [x, y] = commonWidth (Source.ofOperand x).width (Source.ofOperand y).width := by
  unfold operandWidth
  rw [width_ofOperand, width_ofOperand, List.all_cons, List.all_cons, List.all_nil,
    isSome_half?, isSome_half?]
  rcases (Register.ofName? x).map Register.width with _ | _ | _ <;>
    rcases (Register.ofName? y).map Register.width with _ | _ | _ <;> rfl

theorem operandWidth_of_ofName? {x : String} {r : Register} (h : Register.ofName? x = some r) :
    operandWidth [x] = r.width := by
  unfold operandWidth
  rw [List.all_cons, List.all_nil, isSome_half?, h]
  cases r <;> rfl

theorem wordRegister_eq (k : Mnemonic) (x : String) :
    Operation.wordRegister k x = lookup WordRegister.ofName? (.wordRegister k) x := by
  have hword : (Register.ofName? x).bind Register.word? = WordRegister.ofName? x := by
    rw [Register.ofName?_eq]
    rcases ofName?_eq_none_or x with hnone | hnone
    · rw [hnone]
      cases ByteRegister.ofName? x <;> rfl
    · rw [hnone]
      cases WordRegister.ofName? x <;> rfl
  unfold Operation.wordRegister lookup
  simp only [hword]

theorem Source.ofOperand_of_ofName? {x : String} {r : Register}
    (h : Register.ofName? x = some r) : Source.ofOperand x = .register r := by
  unfold ofOperand
  rw [h]

namespace Machine

variable (m : Machine)

theorem word?_eq (x : String) :
    m.word? x = (WordRegister.ofName? x).map m.registers.getWord :=
  m.registers.word?_eq x

theorem setWord_of_ofName? {x : String} {r : WordRegister} (h : WordRegister.ofName? x = some r)
    (w : Word) : m.setWord x w = ({ m with registers := m.registers.setWord r w }, true) := by
  unfold setWord
  rw [Registers.replaceWord?_eq, h]
  rfl

theorem setWidth_readOperand (x : String) :
    (m.readOperand x).setWidth 16 = m.read (.ofOperand x) := by
  rw [read_ofOperand]
  unfold readOperand
  cases m.byte? x with
  | some b => exact BitVec.setWidth_setWidth_of_le b (by decide)
  | none =>
      cases m.word? x with
      | some w => exact Word.setWidth_extended w
      | none =>
          rw [Option.map_none, Option.none_or, Option.getD_none]
          exact Arch.i8086.setWidth_valueOrZero x

theorem readAt_eq (w : Width) (x : String) :
    m.readAt w x = ((m.read (.ofOperand x)).setWidth w.bits).setWidth 32 := by
  unfold readAt
  rw [w.and_mask, ← setWidth_readOperand, BitVec.setWidth_setWidth_of_le _ w.bits_le]

theorem compute_readAt (op : Arithmetic) (x y : String) :
    m.flags.compute op (operandWidth [x, y]) (m.readAt (operandWidth [x, y]) x)
        (m.readAt (operandWidth [x, y]) y) =
      ((m.compute op (.ofOperand x) (.ofOperand y)).1.setWidth 32,
        (m.compute op (.ofOperand x) (.ofOperand y)).2) := by
  rw [readAt_eq, readAt_eq, Flags.compute_reduced, operandWidth_pair]
  rfl

theorem writeOperand_extended {x : String} {r : Register} (h : Register.ofName? x = some r)
    (w : Word) : m.writeOperand x (w.setWidth 32) = m.write r w := by
  have hwrite := m.write_of_ofName? h w
  revert hwrite
  unfold writeOperand
  rw [Word.setWidth_extended, Word.truncate_extended]
  rcases m.setByte x (Word.low w) with ⟨next, _ | _⟩
  · intro hwrite
    exact (congrArg Prod.fst hwrite).symm
  · intro hwrite
    exact (congrArg Prod.fst hwrite).symm

/-- A move takes as much of the source as the destination holds. -/
theorem apply_move (r : Register) (source : Source) :
    ∃ w : Word, ((m.read source).setWidth r.width.bits).setWidth 32 = w.setWidth 32 ∧
      m.apply (.move r source) = (m.write r w, .value w) := by
  refine ⟨((m.read source).setWidth r.width.bits).setWidth 16, (Width.widened_word _).symm, ?_⟩
  cases r with
  | byte q => rfl
  | word q =>
      show _ = (m.write (.word q) ((_ : Word).setWidth 16), Outcome.value ((_ : Word).setWidth 16))
      simp only [Register.width, Width.bits, BitVec.setWidth_eq]
      rfl

theorem apply_compare_eq (left right : Source) :
    m.apply (.compare left right) =
      ({ m with flags := (m.compute .sub left right).2 },
        .compared (m.compute .sub left right).2.zero (m.compute .sub left right).2.carry) :=
  rfl

/-- A complement is taken of the whole number, and cut to the width of the register. -/
theorem not_readOperand (w : Width) (x : String) :
    ~~~ m.readOperand x &&& w.mask =
      ((~~~ m.read (.ofOperand x)).setWidth w.bits).setWidth 32 := by
  have hle := w.bits_le
  rw [w.and_mask, ← setWidth_readOperand, BitVec.setWidth_not (by omega),
    BitVec.setWidth_not hle, BitVec.setWidth_setWidth_of_le _ hle]

theorem apply_complement (r : Register) :
    ∃ w : Word, ((~~~ m.read (.register r)).setWidth r.width.bits).setWidth 32 = w.setWidth 32 ∧
      m.apply (.complement r) = (m.write r w, .result w) := by
  refine ⟨((~~~ m.registers.get r).setWidth r.width.bits).setWidth 16,
    (Width.widened_word _).symm, ?_⟩
  cases r with
  | byte q =>
      have hnot : (~~~ m.registers.get (.byte q)).setWidth 8 =
          ~~~ Word.low (m.registers.get (.byte q)) := BitVec.setWidth_not (by decide)
      simp only [Register.width, Width.bits, hnot]
      rfl
  | word q =>
      simp only [apply, Register.width, Width.bits, BitVec.setWidth_eq]

end Machine

/-! ## Handlers -/

namespace Handler

/-- A keyword is accepted as a destination where a register is found. -/
theorem checkDestination_bind {dest : String} {x : Step Machine String}
    {f : Register → Except Refusal Resolved}
    (h : ∀ r, Register.ofName? dest = some r → x = Step.perform Machine.apply Outcome.text (f r)) :
    (checkDestination dest >>= fun _ => x) =
      Step.perform Machine.apply Outcome.text (Operation.destination dest >>= f) := by
  unfold checkDestination Operation.destination lookup
  rw [Arch.isKeyword_i8086]
  cases hr : Register.ofName? dest with
  | none => rfl
  | some r => exact h r hr

theorem mov_eq (i : Instruction) :
    mov i = Step.perform Machine.apply Outcome.text (Operation.resolveMove i) := by
  unfold mov Operation.resolveMove
  apply Step.bind_eq_perform
  rintro ⟨dest, source⟩
  apply checkDestination_bind
  intro r hr
  apply Step.eq_perform_of_runFrom
  intro m
  obtain ⟨w, hw, happly⟩ := m.apply_move r (.ofOperand source)
  simp only [Step.runFrom_bind, Step.runFrom_get, Step.runFrom_modify, Step.runFrom_pure]
  rw [operandWidth_of_ofName? hr, m.readAt_eq, hw, m.writeOperand_extended hr,
    Word.toNat_extended, happly]
  exact Step.ran_eq (append_report (append_label _ (by decide)) _) rfl

theorem alu_eq (op : Arithmetic) (i : Instruction) :
    alu op i = Step.perform Machine.apply Outcome.text (Operation.resolveArithmetic op i) := by
  unfold alu Operation.resolveArithmetic
  apply Step.bind_eq_perform
  rintro ⟨dest, source⟩
  apply checkDestination_bind
  intro r hr
  apply Step.eq_perform_of_runFrom
  intro m
  simp only [compute, Step.runFrom_bind, Step.runFrom_get, Step.runFrom_modifyGet,
    Step.runFrom_modify, Step.runFrom_pure]
  rw [m.compute_readAt, Source.ofOperand_of_ofName? hr, Machine.writeOperand_extended _ hr,
    Word.toNat_extended]
  exact Step.ran_eq (append_report (append_label _ (by decide)) _) rfl

theorem cmp_eq (i : Instruction) :
    cmp i = Step.perform Machine.apply Outcome.text (Operation.resolveCompare i) := by
  unfold cmp Operation.resolveCompare
  apply Step.bind_eq_perform
  rintro ⟨left, right⟩
  apply Step.eq_perform_of_runFrom
  intro m
  simp only [compute, Step.runFrom_bind, Step.runFrom_get, Step.runFrom_modifyGet,
    Step.runFrom_pure]
  rw [m.compute_readAt, m.apply_compare_eq]
  generalize m.compute .sub (.ofOperand left) (.ofOperand right) = computed
  exact Step.ran_eq (append_reports (append_label _ (by decide)) _ _ _) rfl

theorem stepByOne_eq {op : Arithmetic} {operation : Register → Operation}
    (happly : ∀ m : Machine, ∀ r, m.apply (operation r) = m.step op r) (i : Instruction) :
    stepByOne op i =
      Step.perform Machine.apply Outcome.text
        (Operation.resolveUnary operation i.mnemonic i) := by
  unfold stepByOne Operation.resolveUnary
  apply Step.bind_eq_perform
  intro dest
  apply checkDestination_bind
  intro r hr
  apply Step.eq_perform_of_runFrom
  intro m
  have hone : (1 : BitVec 32) = ((1 : Word).setWidth r.width.bits).setWidth 32 := by
    cases r <;> rfl
  simp only [compute, Step.runFrom_bind, Step.runFrom_get, Step.runFrom_modifyGet,
    Step.runFrom_modify, Step.runFrom_pure]
  rw [operandWidth_of_ofName? hr, m.readAt_eq, hone, Flags.compute_reduced,
    Source.ofOperand_of_ofName? hr, Machine.writeOperand_extended _ hr, Word.toNat_extended, happly]
  exact Step.ran_eq (append_report (append_label _ (by decide)) _) rfl

theorem not_eq (i : Instruction) :
    not i =
      Step.perform Machine.apply Outcome.text
        (Operation.resolveUnary .complement "NOT" i) := by
  unfold not Operation.resolveUnary
  apply Step.bind_eq_perform
  intro dest
  apply checkDestination_bind
  intro r hr
  apply Step.eq_perform_of_runFrom
  intro m
  obtain ⟨w, hw, happly⟩ := m.apply_complement r
  simp only [Step.runFrom_bind, Step.runFrom_get, Step.runFrom_modify, Step.runFrom_pure]
  rw [operandWidth_of_ofName? hr, m.not_readOperand, Source.ofOperand_of_ofName? hr, hw,
    m.writeOperand_extended hr, Word.toNat_extended, happly]
  exact Step.ran_eq (append_report (append_named (by decide) dest (by decide)) _) rfl

theorem neg_eq (i : Instruction) :
    neg i =
      Step.perform Machine.apply Outcome.text (Operation.resolveUnary .negate "NEG" i) := by
  unfold neg Operation.resolveUnary
  apply Step.bind_eq_perform
  intro dest
  apply checkDestination_bind
  intro r hr
  apply Step.eq_perform_of_runFrom
  intro m
  have hzero : (0 : BitVec 32) = ((0 : Word).setWidth r.width.bits).setWidth 32 := by
    cases r <;> rfl
  simp only [compute, Step.runFrom_bind, Step.runFrom_get, Step.runFrom_modifyGet,
    Step.runFrom_modify, Step.runFrom_pure]
  rw [operandWidth_of_ofName? hr, m.readAt_eq, hzero, Flags.compute_reduced,
    Source.ofOperand_of_ofName? hr, Machine.writeOperand_extended _ hr, Word.toNat_extended]
  exact Step.ran_eq (append_report (append_named (by decide) dest (by decide)) _) rfl

theorem push_eq (i : Instruction) :
    push i = Step.perform Machine.apply Outcome.text (Operation.resolveStack .push .push i) := by
  unfold push Operation.resolveStack
  apply Step.bind_eq_perform
  intro source
  apply Step.ext
  intro m
  rw [wordRegister_eq, Step.runFrom_bind, Step.runFrom_get]
  dsimp only
  rw [m.word?_eq]
  cases hr : WordRegister.ofName? source with
  | none =>
      rw [lookup_of_none hr]
      rfl
  | some r =>
      rw [lookup_of_some hr]
      simp only [Option.map_some, Step.runFrom_bind, Step.runFrom_get, Step.runFrom_modify,
        Step.runFrom_pure]
      exact Step.ran_eq (append_reports (append_named (by decide) source (by decide)) _ _ _) rfl

theorem pop_eq (i : Instruction) :
    pop i = Step.perform Machine.apply Outcome.text (Operation.resolveStack .pop .pop i) := by
  unfold pop Operation.resolveStack
  apply Step.bind_eq_perform
  intro dest
  apply Step.ext
  intro m
  rw [wordRegister_eq, Step.runFrom_bind, Step.runFrom_get]
  dsimp only
  rw [m.word?_eq]
  cases hr : WordRegister.ofName? dest with
  | none =>
      rw [lookup_of_none hr]
      rfl
  | some r =>
      rw [lookup_of_some hr]
      simp only [Option.map_some, Option.isNone_some, Bool.false_eq_true, if_false,
        Step.runFrom_bind, Step.runFrom_get, Step.runFrom_modify, Step.runFrom_pure,
        Machine.setWord_of_ofName? _ hr]
      exact Step.ran_eq (append_reports (append_named (by decide) dest (by decide)) _ _ _) rfl

/-- The flags are asked before the operand is, which changes nothing. -/
theorem branch_eq (condition : Condition) (i : Instruction) :
    branch condition i =
      Step.perform Machine.apply Outcome.text
        (resolveTarget .i8086 (.branch condition) i.mnemonic i) := by
  unfold branch resolveTarget
  rw [Step.perform_bind]
  apply Step.ext
  intro m
  rw [Step.runFrom_bind, Step.runFrom_get]
  apply Step.runFrom_lift_bind_congr
  intro target
  dsimp only
  rw [Step.runFrom_perform, Arch.setWidth_valueOrZero]
  cases htaken : m.flags.holds condition with
  | false =>
      have happly : m.apply (.branch condition (Arch.i8086.literalOrZero target)) =
          (m, .notTaken) := if_neg (Bool.not_eq_true _ ▸ htaken)
      rw [happly]
      exact Step.ran_eq (append_label _ notTaken_text) rfl
  | true =>
      have happly : m.apply (.branch condition (Arch.i8086.literalOrZero target)) =
          (m.jump (Arch.i8086.literalOrZero target), .taken (Arch.i8086.literalOrZero target)) :=
        if_pos htaken
      rw [happly]
      exact Step.ran_eq (append_report (append_label _ (by decide)) _) rfl

theorem jmp_eq (i : Instruction) :
    jmp i =
      Step.perform Machine.apply Outcome.text (resolveTarget .i8086 .jump "JMP" i) := by
  unfold jmp resolveTarget
  apply Step.bind_eq_perform
  intro target
  apply Step.eq_perform_of_runFrom
  intro m
  rw [Arch.setWidth_valueOrZero]
  exact Step.ran_eq (append_report (append_named (by decide) target (by decide)) _) rfl

/-- **Handlers check before they write.** A handler finds the operation that the instruction
asks for, or refuses the instruction, and changes the machine by this operation alone. -/
theorem handle_eq (i : Instruction) :
    handle i = Step.perform Machine.apply Outcome.text (Operation.resolve i) := by
  unfold handle Operation.resolve Step.dispatch resolveBy
  cases Mnemonic.ofName? i.mnemonic with
  | none => rfl
  | some k =>
      cases k with
      | mov => exact mov_eq i
      | add => exact alu_eq .add i
      | sub => exact alu_eq .sub i
      | and => exact alu_eq .and i
      | or => exact alu_eq .or i
      | xor => exact alu_eq .xor i
      | cmp => exact cmp_eq i
      | inc => exact stepByOne_eq (fun _ _ => rfl) i
      | dec => exact stepByOne_eq (fun _ _ => rfl) i
      | not => exact not_eq i
      | neg => exact neg_eq i
      | push => exact push_eq i
      | pop => exact pop_eq i
      | jmp => exact jmp_eq i
      | je | jz => exact branch_eq .zero i
      | jne | jnz => exact branch_eq .notZero i
      | jc => exact branch_eq .carry i
      | jnc => exact branch_eq .noCarry i
      | _ => rfl

end Handler

end Microlab.I8086
