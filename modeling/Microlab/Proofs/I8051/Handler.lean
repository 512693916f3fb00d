import Microlab.I8051.Handler
import Microlab.Proofs.Resolution
import Microlab.Proofs.Word

/-!
# What the handlers of the 8051 do

Each handler comes to finding an operation, or a reason to refuse, and to running the operation
then. So a handler makes all of its checks before its first write. A handler computes with the
numbers that operands spell and cuts them down when it writes, where an operation has words.
-/

namespace Microlab.I8051

theorem Logic.setWidth_eval (op : Logic) {w : Nat} (a b : BitVec w) (n : Nat) :
    (op.eval a b).setWidth n = op.eval (a.setWidth n) (b.setWidth n) := by
  cases op with
  | and => exact BitVec.setWidth_and
  | or => exact BitVec.setWidth_or
  | xor => exact BitVec.setWidth_xor

/-! ## Operands -/

namespace Machine

variable (m : Machine)

theorem setWidth_readOperand (x : String) :
    (m.readOperand x).setWidth 16 = m.read (.ofOperand x) := by
  unfold readOperand Source.ofOperand
  cases Register.ofName? x with
  | some r => exact Word.setWidth_extended (m.get r)
  | none =>
      dsimp only
      rw [Arch.setWidth_valueOrZero, read]

theorem truncate_readOperand (x : String) :
    (m.readOperand x).setWidth 8 = Word.low (m.read (.ofOperand x)) := by
  rw [← setWidth_readOperand, Word.low_truncated]

theorem narrow_eq (r : Register) (w : Word) :
    narrow r w = (w.setWidth r.width.bits).setWidth 16 := by
  unfold narrow
  cases r.width with
  | byte => rfl
  | word => exact (BitVec.setWidth_eq w).symm

/-- What is cut off is cut off before or after the number is taken for a word. -/
theorem and_mask_eq (r : Register) (v : BitVec 32) :
    v &&& r.width.mask = (narrow r (v.setWidth 16)).setWidth 32 := by
  rw [Width.and_mask, narrow_eq, Width.widened_word,
    BitVec.setWidth_setWidth_of_le _ r.width.bits_le]

/-- One more and one less are the same to the low bits. -/
theorem setWidth_counted (up : Bool) (w : Word) :
    (if up then w.setWidth 32 + 1 else w.setWidth 32 - 1 : BitVec 32).setWidth 16 =
      if up then w + 1 else w - 1 := by
  cases up with
  | false =>
      show (w.setWidth 32 - 1).setWidth 16 = w - 1
      rw [setWidth_sub (by decide), Word.setWidth_extended]
      rfl
  | true =>
      show (w.setWidth 32 + 1).setWidth 16 = w + 1
      rw [BitVec.setWidth_add _ _ (by decide), Word.setWidth_extended]
      rfl

theorem writeValue_extended (r : Register) (w : Word) :
    m.writeValue r (w.setWidth 32) = m.set r w := by
  unfold writeValue
  rw [Word.setWidth_extended]

end Machine

/-! ## Handlers -/

namespace Handler

theorem destination_eq (x : String) :
    destination x = liftM (Operation.destination x) := by
  unfold destination Operation.destination lookup
  cases Register.ofName? x <;> rfl

theorem mov_eq (i : Instruction) :
    mov i = Step.perform Machine.apply Outcome.text (Operation.resolveMove i) := by
  unfold mov Operation.resolveMove
  apply Step.bind_eq_perform
  rintro ⟨dest, source⟩
  dsimp only
  rw [destination_eq]
  apply Step.bind_eq_perform
  intro r
  by_cases hindirect : source.toList.head? = some '@'
  · rw [if_pos hindirect, if_pos hindirect]
    rfl
  · rw [if_neg hindirect, if_neg hindirect]
    apply Step.eq_perform_of_runFrom
    intro m
    simp only [Step.runFrom_bind, Step.runFrom_get, Step.runFrom_modify, Step.runFrom_pure]
    rw [Machine.and_mask_eq, m.setWidth_readOperand, m.writeValue_extended, Word.toNat_extended]
    exact Step.ran_eq
      (append_reports (append_more (append_more (append_label _ (by decide)) _) _) _ _ _) rfl

theorem checkAccumulator_bind {dest : String} {x : Step Machine String} {resolved : Resolved}
    (h : x = Step.perform Machine.apply Outcome.text (.ok resolved)) :
    (checkAccumulator dest >>= fun _ => x) =
      Step.perform Machine.apply Outcome.text
        (if Register.ofName? dest = some .a then pure resolved
          else throw .accumulatorDestination) := by
  unfold checkAccumulator
  by_cases ha : Register.ofName? dest = some .a
  · rw [if_pos ha, if_pos ha]
    exact h
  · rw [if_neg ha, if_neg ha]
    rfl

theorem addWith_eq (withCarry : Bool) (i : Instruction) :
    addWith withCarry i =
      Step.perform Machine.apply Outcome.text
        (Operation.resolveSum (.add withCarry) i.mnemonic i) := by
  unfold addWith Operation.resolveSum
  apply Step.bind_eq_perform
  rintro ⟨dest, source⟩
  apply checkAccumulator_bind
  apply Step.eq_perform_of_runFrom
  intro m
  simp only [Step.runFrom_bind, Step.runFrom_get, Step.runFrom_modify, Step.runFrom_pure]
  rw [m.truncate_readOperand]
  exact Step.ran_eq (append_report (append_label _ (by decide)) _) rfl

theorem subb_eq (i : Instruction) :
    subb i =
      Step.perform Machine.apply Outcome.text (Operation.resolveSum .subtract "SUBB" i) := by
  unfold subb Operation.resolveSum
  apply Step.bind_eq_perform
  rintro ⟨dest, source⟩
  apply checkAccumulator_bind
  apply Step.eq_perform_of_runFrom
  intro m
  simp only [Step.runFrom_bind, Step.runFrom_get, Step.runFrom_modify, Step.runFrom_pure]
  rw [m.truncate_readOperand]
  exact Step.ran_eq (append_report (append_named (by decide) source (by decide)) _) rfl

theorem stepByOne_eq (up : Bool) {operation : Register → Operation}
    (happly : ∀ (m : Machine) r, m.apply (operation r) =
      (m.set r (Machine.narrow r (if up then m.get r + 1 else m.get r - 1)),
        .result (Machine.narrow r (if up then m.get r + 1 else m.get r - 1)))) (i : Instruction) :
    stepByOne up i =
      Step.perform Machine.apply Outcome.text (Operation.resolveStep operation i) := by
  unfold stepByOne Operation.resolveStep
  apply Step.bind_eq_perform
  intro dest
  rw [destination_eq]
  apply Step.bind_eq_perform
  intro r
  apply Step.eq_perform_of_runFrom
  intro m
  simp only [Step.runFrom_bind, Step.runFrom_get, Step.runFrom_modify, Step.runFrom_pure]
  rw [Machine.and_mask_eq, Machine.setWidth_counted, m.writeValue_extended, Word.toNat_extended,
    happly]
  exact Step.ran_eq (append_report (append_label _ (by decide)) _) rfl

theorem logic_eq (op : Logic) (i : Instruction) :
    logic op i = Step.perform Machine.apply Outcome.text (Operation.resolveLogic op i) := by
  unfold logic Operation.resolveLogic
  apply Step.bind_eq_perform
  rintro ⟨dest, source⟩
  dsimp only
  rw [destination_eq]
  apply Step.bind_eq_perform
  intro r
  apply Step.eq_perform_of_runFrom
  intro m
  have hwrite : m.writeValue r (op.eval ((m.get r).setWidth 32) (m.readOperand source)) =
      m.set r (op.eval (m.get r) (m.read (.ofOperand source))) := by
    unfold Machine.writeValue
    rw [op.setWidth_eval, Word.setWidth_extended, m.setWidth_readOperand]
  simp only [Step.runFrom_bind, Step.runFrom_get, Step.runFrom_modify, Step.runFrom_pure]
  rw [hwrite]
  exact Step.ran_eq (append_report (append_label _ (by decide)) _) rfl

theorem branch_eq (condition : Condition) (i : Instruction) :
    branch condition i =
      Step.perform Machine.apply Outcome.text
        (resolveTarget .i8051 (.branch condition) i.mnemonic i) := by
  unfold branch resolveTarget
  rw [Step.perform_bind]
  apply Step.ext
  intro m
  rw [Step.runFrom_bind, Step.runFrom_get]
  apply Step.runFrom_lift_bind_congr
  intro target
  dsimp only
  rw [Step.runFrom_perform, Arch.setWidth_valueOrZero]
  by_cases htaken : m.holds condition
  · have happly : m.apply (.branch condition (Arch.i8051.literalOrZero target)) =
        ({ m with pc := Arch.i8051.literalOrZero target },
          .taken (Arch.i8051.literalOrZero target)) := if_pos htaken
    rw [happly, if_pos htaken]
    exact Step.ran_eq (append_report (append_label _ (by decide)) _) rfl
  · have happly : m.apply (.branch condition (Arch.i8051.literalOrZero target)) =
        (m, .notTaken) := if_neg htaken
    rw [happly, if_neg htaken]
    exact Step.ran_eq (append_label _ notTaken_text) rfl

theorem jump_eq (i : Instruction) :
    jump i =
      Step.perform Machine.apply Outcome.text (resolveTarget .i8051 .jump i.mnemonic i) := by
  unfold jump resolveTarget
  apply Step.bind_eq_perform
  intro target
  apply Step.eq_perform_of_runFrom
  intro m
  rw [Arch.setWidth_valueOrZero]
  exact Step.ran_eq (append_report (append_label _ (by decide)) _) rfl

theorem checkPair_bind {x : Step Machine String} {op : Operation} {k : Mnemonic} {i : Instruction}
    (h : x = Step.perform Machine.apply Outcome.text (.ok ⟨op, s!"{k.name} AB ("⟩)) :
    (checkPair i >>= fun _ => x) =
      Step.perform Machine.apply Outcome.text (Operation.resolvePair op k i) := by
  unfold checkPair Operation.resolvePair
  rcases i.arguments with _ | ⟨operand, _ | ⟨next, rest⟩⟩
  · rfl
  · by_cases hpair : Text.sameLetters operand "AB" = true
    · dsimp only
      rw [if_pos hpair, if_pos hpair]
      exact h
    · dsimp only
      rw [if_neg hpair, if_neg hpair]
      rfl
  · rfl

theorem mul_eq (i : Instruction) :
    mul i = Step.perform Machine.apply Outcome.text (Operation.resolvePair .multiply .mul i) := by
  unfold mul
  apply checkPair_bind
  apply Step.eq_perform_of_runFrom
  intro m
  simp only [Step.runFrom_bind, Step.runFrom_get, Step.runFrom_modify, Step.runFrom_pure]
  exact Step.ran_eq (append_reports (by decide) _ _ _) rfl

theorem divisionByZero_text :
    Mnemonic.div.name ++ " AB (" ++ Outcome.divisionByZero.text = "DIV AB (Division by zero)" := by
  decide

theorem div_eq (i : Instruction) :
    div i = Step.perform Machine.apply Outcome.text (Operation.resolvePair .divide .div i) := by
  unfold div
  apply checkPair_bind
  apply Step.eq_perform_of_runFrom
  intro m
  rw [Step.runFrom_bind, Step.runFrom_get]
  dsimp only
  by_cases hzero : m.b = 0
  · have happly : m.apply .divide =
        ({ m with psw := { m.psw with overflow := true } }, .divisionByZero) := if_pos hzero
    rw [if_pos hzero, happly]
    exact Step.ran_eq divisionByZero_text rfl
  · have happly : m.apply .divide =
        ({ m.setA (m.a / m.b) with
            b := m.a % m.b
            psw := { (m.setA (m.a / m.b)).psw with carry := false, overflow := false } },
          .quotient m.a m.b (m.a / m.b) (m.a % m.b)) := if_neg hzero
    rw [if_neg hzero, happly]
    have hdividend : Mnemonic.div.name ++ " AB (" ++ toString m.a.toNat =
        "DIV AB (" ++ toString m.a.toNat := congrArg (· ++ toString m.a.toNat) (by decide)
    exact Step.ran_eq
      (append_reports (append_more (append_more (append_more hdividend _) _) _) _ _ _) rfl

theorem checkAccumulatorOnly_bind {x : Step Machine String} {r : Rotation} {k : Mnemonic}
    {i : Instruction}
    (h : x = Step.perform Machine.apply Outcome.text (.ok ⟨.rotate r, s!"{k.name} A ("⟩)) :
    (checkAccumulatorOnly i >>= fun _ => x) =
      Step.perform Machine.apply Outcome.text (Operation.resolveRotate r k i) := by
  unfold checkAccumulatorOnly Operation.resolveRotate
  rcases i.arguments with _ | ⟨operand, _ | ⟨next, rest⟩⟩
  · exact h
  · by_cases ha : Register.ofName? operand = some .a
    · dsimp only
      rw [if_pos ha, if_pos ha]
      exact h
    · dsimp only
      rw [if_neg ha, if_neg ha]
      rfl
  · rfl

theorem rotate_eq (rotation : Rotation) (k : Mnemonic) (i : Instruction) :
    rotate rotation k i =
      Step.perform Machine.apply Outcome.text (Operation.resolveRotate rotation k i) := by
  unfold rotate
  apply checkAccumulatorOnly_bind
  apply Step.eq_perform_of_runFrom
  intro m
  rw [Step.runFrom_bind, Step.runFrom_get]
  dsimp only
  have happly : m.apply (.rotate rotation) = m.rotate rotation := rfl
  rw [happly]
  unfold Machine.rotate
  rcases rotation.eval m.a m.psw.carry with ⟨value, _ | carry⟩
  · exact Step.ran_eq (append_report (append_label _ (by decide)) _) rfl
  · exact Step.ran_eq (append_reports (append_label _ (by decide)) _ _ _) rfl

theorem clr_eq (i : Instruction) :
    clr i = Step.perform Machine.apply Outcome.text (Operation.resolveClear i) := by
  unfold clr Operation.resolveClear
  apply Step.bind_eq_perform
  intro operand
  by_cases ha : Text.sameLetters operand "A" = true
  · rw [if_pos ha, if_pos ha]
    exact Step.eq_perform_of_runFrom fun m => Step.ran_eq String.append_empty rfl
  · rw [if_neg ha, if_neg ha]
    by_cases hc : Text.sameLetters operand "C" = true
    · rw [if_pos hc, if_pos hc]
      exact Step.eq_perform_of_runFrom fun m => Step.ran_eq String.append_empty rfl
    · rw [if_neg hc, if_neg hc]
      rfl

theorem setb_eq (i : Instruction) :
    setb i = Step.perform Machine.apply Outcome.text (Operation.resolveSet i) := by
  unfold setb Operation.resolveSet
  apply Step.bind_eq_perform
  intro operand
  cases hc : Text.sameLetters operand "C" with
  | false => rfl
  | true => exact Step.eq_perform_of_runFrom fun m => Step.ran_eq String.append_empty rfl

theorem cpl_eq (i : Instruction) :
    cpl i = Step.perform Machine.apply Outcome.text (Operation.resolveComplement i) := by
  unfold cpl Operation.resolveComplement
  apply Step.bind_eq_perform
  intro operand
  by_cases ha : Text.sameLetters operand "A" = true
  · rw [if_pos ha, if_pos ha]
    apply Step.eq_perform_of_runFrom
    intro m
    exact Step.ran_eq (append_report (by decide) _) rfl
  · rw [if_neg ha, if_neg ha]
    by_cases hc : Text.sameLetters operand "C" = true
    · rw [if_pos hc, if_pos hc]
      apply Step.eq_perform_of_runFrom
      intro m
      exact Step.ran_eq (append_report (by decide) _) rfl
    · rw [if_neg hc, if_neg hc]
      rfl

/-- Through `DPTR`, the name of the pointer is part of the text. -/
theorem fetched_text_dptr (value : Byte) (address : Word) :
    (Outcome.fetched value .dptr address).text =
      "0x" ++ Text.hex .upper 1 value.toNat ++ ", DPTR=" ++ toString address.toNat ++ ")" := by
  have hname : ", DPTR=" = ", " ++ (Pointer.dptr.name ++ "=") := by decide
  rw [hname]
  simp only [Outcome.text, String.append_assoc]
  rfl

theorem fetchAny_eq (dest : String) :
    fetchAny dest =
      Step.perform Machine.apply Outcome.text (do
        let r ← Operation.destination dest
        return ⟨.fetch r .dptr, s!"MOVX {dest}, @DPTR ({dest}="⟩) := by
  unfold fetchAny
  rw [destination_eq]
  apply Step.bind_eq_perform
  intro r
  apply Step.eq_perform_of_runFrom
  intro m
  have hwrite (value : Byte) : m.writeValue r (value.setWidth 32) = m.set r (value.setWidth 16) :=
    congrArg (m.set r) (BitVec.setWidth_setWidth_of_le value (by decide))
  simp only [Step.runFrom_bind, Step.runFrom_get, Step.runFrom_modify, Step.runFrom_pure]
  rw [hwrite]
  refine Step.ran_eq ?_ rfl
  show _ ++ (Outcome.fetched _ .dptr m.dptr).text = _
  rw [fetched_text_dptr]
  exact append_reports (append_label _ (by decide)) _ _ _

theorem storeAny_eq (source : String) :
    storeAny source =
      Step.perform Machine.apply Outcome.text
        (pure ⟨.store .dptr (.ofOperand source), s!"MOVX @DPTR, {source} ("⟩) := by
  unfold storeAny
  apply Step.eq_perform_of_runFrom
  intro m
  simp only [Step.runFrom_bind, Step.runFrom_get, Step.runFrom_modify, Step.runFrom_pure]
  rw [m.truncate_readOperand]
  exact Step.ran_eq (append_reports (append_label _ (by decide)) _ _ _) rfl

theorem fetchAccumulator_eq (p : Pointer) (dest source : String) :
    fetchAccumulator p dest source =
      Step.perform Machine.apply Outcome.text
        (if Register.ofName? dest = some .a then pure ⟨.fetch .a p, s!"MOVX A, {source} (A="⟩
          else throw .addressingMode) := by
  unfold fetchAccumulator
  by_cases ha : Register.ofName? dest = some .a
  · rw [if_pos ha, if_pos ha]
    apply Step.eq_perform_of_runFrom
    intro m
    have hwrite (value : Byte) : m.set .a (value.setWidth 16) = m.setA value :=
      congrArg m.setA (Word.low_setWidth value)
    simp only [Step.runFrom_bind, Step.runFrom_get, Step.runFrom_modify, Step.runFrom_pure]
    rw [← hwrite]
    exact Step.ran_eq
      (append_reports (append_more (append_more (append_label _ (by decide)) _) _) _ _ _) rfl
  · rw [if_neg ha, if_neg ha]
    rfl

theorem storeAccumulator_eq (p : Pointer) (dest source : String) :
    storeAccumulator p dest source =
      Step.perform Machine.apply Outcome.text
        (if Register.ofName? source = some .a then
          pure ⟨.store p (.register .a), s!"MOVX {dest}, A ("⟩
        else throw .addressingMode) := by
  unfold storeAccumulator
  by_cases ha : Register.ofName? source = some .a
  · rw [if_pos ha, if_pos ha]
    apply Step.eq_perform_of_runFrom
    intro m
    have hvalue : Word.low (m.read (.register .a)) = m.a := Word.low_setWidth m.a
    have happly : m.apply (.store p (.register .a)) =
        ({ m with memory := m.memory.write ((m.get p.register).setWidth 32) m.a },
          .stored m.a (m.get p.register)) := by
      simp only [Machine.apply, hvalue]
    rw [happly]
    exact Step.ran_eq (append_reports (append_label _ (by decide)) _ _ _) rfl
  · rw [if_neg ha, if_neg ha]
    rfl

/-- The pointers decide the form before a register is looked for. -/
theorem movx_eq (i : Instruction) :
    movx i = Step.perform Machine.apply Outcome.text (Operation.resolveExternal i) := by
  unfold movx Operation.resolveExternal
  apply Step.bind_eq_perform
  rintro ⟨dest, source⟩
  dsimp only
  cases Pointer.ofOperand? source with
  | none =>
      cases Pointer.ofOperand? dest with
      | none => rfl
      | some p =>
          cases p with
          | dptr => exact storeAny_eq source
          | r0 => exact storeAccumulator_eq .r0 dest source
          | r1 => exact storeAccumulator_eq .r1 dest source
  | some p =>
      cases Pointer.ofOperand? dest with
      | none =>
          cases p with
          | dptr => exact fetchAny_eq dest
          | r0 => exact fetchAccumulator_eq .r0 dest source
          | r1 => exact fetchAccumulator_eq .r1 dest source
      | some q => cases p <;> rfl

/-- **Handlers check before they write.** As on the 8086, a handler changes the machine by the
operation that the instruction asks for, or not at all. -/
theorem handle_eq (i : Instruction) :
    handle i = Step.perform Machine.apply Outcome.text (Operation.resolve i) := by
  unfold handle Operation.resolve Step.dispatch resolveBy
  cases Mnemonic.ofName? i.mnemonic with
  | none => rfl
  | some k =>
      cases k with
      | mov => exact mov_eq i
      | movx => exact movx_eq i
      | add => exact addWith_eq false i
      | addc => exact addWith_eq true i
      | subb => exact subb_eq i
      | inc => exact stepByOne_eq true (fun _ _ => rfl) i
      | dec => exact stepByOne_eq false (fun _ _ => rfl) i
      | mul => exact mul_eq i
      | div => exact div_eq i
      | anl => exact logic_eq .and i
      | orl => exact logic_eq .or i
      | xrl => exact logic_eq .xor i
      | rl => exact rotate_eq .left .rl i
      | rr => exact rotate_eq .right .rr i
      | rlc => exact rotate_eq .leftCarry .rlc i
      | rrc => exact rotate_eq .rightCarry .rrc i
      | swap => exact rotate_eq .swap .swap i
      | clr => exact clr_eq i
      | setb => exact setb_eq i
      | cpl => exact cpl_eq i
      | sjmp | ljmp => exact jump_eq i
      | jz => exact branch_eq .zero i
      | jnz => exact branch_eq .notZero i
      | jc => exact branch_eq .carry i
      | jnc => exact branch_eq .noCarry i
      | _ => rfl

end Handler

end Microlab.I8051
