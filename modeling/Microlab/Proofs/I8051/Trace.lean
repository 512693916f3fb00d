import Microlab.Proofs.I8051.Effect
import Microlab.Proofs.I8051.Names

/-!
# Traces of the 8051

A trace repeats the instruction and reports the number that was computed. Logic reads it back
from its destination, and what goes to the accumulator is a byte anyway. Moves and counting
report what they write: this is what the destination has afterwards, but for the status word,
whose parity bit is recomputed behind the report.
-/

namespace Microlab.I8051

open Text

namespace Operation

variable {i : Instruction} {resolved : Resolved}

theorem eq_of_resolveMove (h : resolveMove i = .ok resolved) :
    ∃ d s r, i.arguments = [d, s] ∧ Register.ofName? d = some r ∧
      resolved = ⟨.move r (.ofOperand s), s!"MOV {d}, {s} ("⟩ := by
  obtain ⟨d, s, hargs, h⟩ := Instruction.two_bind_eq_ok_iff.mp h
  obtain ⟨r, hd, h⟩ := lookup_bind_eq_ok_iff.mp h
  by_cases hat : s.toList.head? = some '@'
  · rw [if_pos hat] at h
    cases h
  · rw [if_neg hat] at h
    exact ⟨d, s, r, hargs, hd, (Except.ok.inj h).symm⟩

theorem eq_of_resolveSum {op : Source → Operation} {name : String}
    (h : resolveSum op name i = .ok resolved) :
    ∃ d s, i.arguments = [d, s] ∧ Register.ofName? d = some .a ∧
      resolved = ⟨op (.ofOperand s), s!"{name} A, {s} ("⟩ := by
  obtain ⟨d, s, hargs, h⟩ := Instruction.two_bind_eq_ok_iff.mp h
  dsimp only at h
  by_cases hd : Register.ofName? d = some .a
  · rw [if_pos hd] at h
    exact ⟨d, s, hargs, hd, (Except.ok.inj h).symm⟩
  · rw [if_neg hd] at h
    cases h

theorem eq_of_resolveStep {op : Register → Operation} (h : resolveStep op i = .ok resolved) :
    ∃ d r, i.arguments = [d] ∧ Register.ofName? d = some r ∧
      resolved = ⟨op r, s!"{i.mnemonic} {d} ("⟩ := by
  obtain ⟨d, hargs, h⟩ := Instruction.one_bind_eq_ok_iff.mp h
  obtain ⟨r, hd, h⟩ := lookup_bind_eq_ok_iff.mp h
  exact ⟨d, r, hargs, hd, (Except.ok.inj h).symm⟩

theorem eq_of_resolveLogic {op : Logic} (h : resolveLogic op i = .ok resolved) :
    ∃ d s r, i.arguments = [d, s] ∧ Register.ofName? d = some r ∧
      resolved = ⟨.logic op r (.ofOperand s), s!"{i.mnemonic} {d}, {s} ("⟩ := by
  obtain ⟨d, s, hargs, h⟩ := Instruction.two_bind_eq_ok_iff.mp h
  obtain ⟨r, hd, h⟩ := lookup_bind_eq_ok_iff.mp h
  exact ⟨d, s, r, hargs, hd, (Except.ok.inj h).symm⟩

theorem eq_of_resolveRotate {r : Rotation} {k : Mnemonic}
    (h : resolveRotate r k i = .ok resolved) : resolved = ⟨rotate r, s!"{k.name} A ("⟩ := by
  unfold resolveRotate at h
  split at h
  · exact (Except.ok.inj h).symm
  · split at h
    · exact (Except.ok.inj h).symm
    · cases h
  · cases h

/-- A complement is that of the accumulator or of the carry flag. -/
theorem eq_of_resolveComplement (h : resolveComplement i = .ok resolved) :
    ∃ x, i.arguments = [x] ∧
      ((sameLetters x "A" = true ∧ resolved = ⟨complement, "CPL A ("⟩) ∨
        (¬ sameLetters x "A" = true ∧ resolved = ⟨complementCarry, "CPL C ("⟩)) := by
  obtain ⟨x, hargs, h⟩ := Instruction.one_bind_eq_ok_iff.mp h
  refine ⟨x, hargs, ?_⟩
  by_cases ha : sameLetters x "A" = true
  · rw [if_pos ha] at h
    exact Or.inl ⟨ha, (Except.ok.inj h).symm⟩
  · rw [if_neg ha] at h
    by_cases hc : sameLetters x "C" = true
    · rw [if_pos hc] at h
      exact Or.inr ⟨ha, (Except.ok.inj h).symm⟩
    · rw [if_neg hc] at h
      cases h

end Operation

namespace Machine

variable {m next : Machine} {i : Instruction} {trace : String}

/-- A byte is reported as the number that it is. -/
theorem byte_text {lead text : String} (h : lead ++ "result: " = text) (b : Byte) :
    lead ++ (Outcome.result (b.setWidth 16)).text = text ++ toString b.toNat ++ ")" := by
  rw [← BitVec.toNat_setWidth_of_le (show 8 ≤ 16 by decide)]
  exact append_report h _

/-! ## What is reported -/

/-- The number is what the register has, or else the register is the status word and has the
number but for the parity bit, which is that of the accumulator. -/
def Shows (m : Machine) (r : Register) (n : Nat) : Prop :=
  if r = .psw then n < 2 ^ 8 ∧ m.get r = (withParity (BitVec.ofNat 8 n) m.a).setWidth 16
  else (m.get r).toNat = n

theorem toNat_narrow (r : Register) (w : Word) :
    (narrow r w).toNat = (w.setWidth r.width.bits).toNat := by
  unfold narrow
  cases r.width with
  | byte => exact BitVec.toNat_setWidth_of_le (by decide)
  | word => exact congrArg BitVec.toNat (BitVec.setWidth_eq w).symm

theorem shows_psw (m : Machine) (w : Word) :
    (m.set .psw (narrow .psw w)).Shows .psw (narrow .psw w).toNat := by
  have hlow : Word.low (narrow .psw w) = Word.low w := Word.low_setWidth _
  have hvalue : (narrow .psw w).toNat = (Word.low w).toNat := toNat_narrow .psw w
  unfold Shows
  rw [if_pos rfl, hvalue, BitVec.ofNat_toNat, BitVec.setWidth_eq]
  refine ⟨BitVec.isLt _, ?_⟩
  show (Status.toByte
    { Status.ofByte (Word.low (narrow .psw w)) with parity := oddOnes m.a }).setWidth 16 = _
  rw [Status.toByte_parity, Status.toByte_ofByte, hlow]
  rfl

/-- What a register takes of a number is shown by it. -/
theorem shows_set_narrow (m : Machine) (r : Register) (w : Word) :
    (m.set r (narrow r w)).Shows r (narrow r w).toNat := by
  by_cases hr : r = .psw
  · subst hr
    exact m.shows_psw w
  · unfold Shows
    rw [if_neg hr, m.toNat_get_set hr, toNat_narrow]
    exact Nat.mod_eq_of_lt (BitVec.isLt _)

theorem toNat_narrow_read (m : Machine) (r : Register) (s : String) :
    (narrow r (m.read (.ofOperand s))).toNat = reduced r.width.bits (m.operand s) := by
  rw [toNat_narrow, m.setWidth_read s (r.width.bits_le), toNat_ofInt]

section

variable {d : String} {r : Register} (hd : Register.ofName? d = some r)

include hd

theorem toNat_narrow_increment :
    (narrow r (m.get r + 1)).toNat = reduced r.width.bits (m.operand d + 1) := by
  have hsum : m.get r + 1 = BitVec.ofInt 16 ((m.get r).toNat + 1) := (ofInt_sum _ _).symm
  rw [toNat_narrow, operand_eq hd, hsum, setWidth_ofInt (r.width.bits_le), toNat_ofInt]

theorem toNat_narrow_decrement :
    (narrow r (m.get r - 1)).toNat = reduced r.width.bits (m.operand d - 1) := by
  have hdifference : m.get r - 1 = BitVec.ofInt 16 ((m.get r).toNat - 1) :=
    (ofInt_difference _ _).symm
  rw [toNat_narrow, operand_eq hd, hdifference, setWidth_ofInt (r.width.bits_le), toNat_ofInt]

end

/-- The trace of an accepted instruction with a destination. -/
structure Reports (m : Machine) (i : Instruction) (next : Machine) (trace : String) : Prop where
  move : i.Names .mov → ∃ d s r, i.arguments = [d, s] ∧ Register.ofName? d = some r ∧
    let value := reduced r.width.bits (m.operand s)
    trace = s!"MOV {d}, {s} (value: {value}, registers: A={next.a.toNat}, B={next.b.toNat})" ∧
      next.Shows r value
  increment : i.Names .inc → ∃ d r, i.arguments = [d] ∧ Register.ofName? d = some r ∧
    let result := reduced r.width.bits (m.operand d + 1)
    trace = s!"{i.mnemonic} {d} (result: {result})" ∧ next.Shows r result
  decrement : i.Names .dec → ∃ d r, i.arguments = [d] ∧ Register.ofName? d = some r ∧
    let result := reduced r.width.bits (m.operand d - 1)
    trace = s!"{i.mnemonic} {d} (result: {result})" ∧ next.Shows r result
  sum : i.Names .add ∨ i.Names .addc → ∃ d s, i.arguments = [d, s] ∧
    Register.ofName? d = some .a ∧ trace = s!"{i.mnemonic} A, {s} (result: {next.a.toNat})"
  difference : i.Names .subb → ∃ d s, i.arguments = [d, s] ∧
    Register.ofName? d = some .a ∧ trace = s!"SUBB A, {s} (result: {next.a.toNat})"
  logic : ∀ op : Logic, i.Names op.mnemonic → ∃ d s r, i.arguments = [d, s] ∧
    Register.ofName? d = some r ∧
      trace = s!"{i.mnemonic} {d}, {s} (result: {(next.get r).toNat})"
  rotate : ∀ r ∈ [Rotation.left, .right, .swap], i.Names r.mnemonic →
    trace = s!"{r.mnemonic.name} A (result: {next.a.toNat})"
  rotateCarry : ∀ r ∈ [Rotation.leftCarry, .rightCarry], i.Names r.mnemonic →
    trace = s!"{r.mnemonic.name} A (result: {next.a.toNat}, C: {next.psw.carry})"
  complement : i.Names .cpl → ∃ x, i.arguments = [x] ∧
    (sameLetters x "A" = true → trace = s!"CPL A (result: {next.a.toNat})")

theorem reports_of_attempt (hran : m.attempt i = .ok (next, trace)) : m.Reports i next trace := by
  obtain ⟨resolved, hresolve, rfl, rfl⟩ := Step.exists_resolved (Handler.handle_eq i) hran
  have hknown : ∀ k, i.Names k → Operation.resolveKnown k i = .ok resolved := by
    intro k hi
    rwa [Operation.resolve, resolveBy_of_names hi] at hresolve
  constructor
  case move =>
    intro hi
    obtain ⟨d, s, r, hargs, hd, rfl⟩ := Operation.eq_of_resolveMove (hknown _ hi)
    refine ⟨d, s, r, hargs, hd, ?_⟩
    rw [← m.toNat_narrow_read r s]
    have hvalue := append_more (append_label ("MOV " ++ d ++ ", " ++ s)
      (by decide : " (" ++ "value: " = " (value: "))
    exact ⟨append_reports (append_more (hvalue _) _) _ _ _, m.shows_set_narrow r _⟩
  case increment =>
    intro hi
    obtain ⟨d, r, hargs, hd, rfl⟩ := Operation.eq_of_resolveStep (hknown _ hi)
    refine ⟨d, r, hargs, hd, ?_⟩
    rw [← toNat_narrow_increment hd]
    exact ⟨append_report (append_label (i.mnemonic ++ " " ++ d) (by decide)) _,
      m.shows_set_narrow r _⟩
  case decrement =>
    intro hi
    obtain ⟨d, r, hargs, hd, rfl⟩ := Operation.eq_of_resolveStep (hknown _ hi)
    refine ⟨d, r, hargs, hd, ?_⟩
    rw [← toNat_narrow_decrement hd]
    exact ⟨append_report (append_label (i.mnemonic ++ " " ++ d) (by decide)) _,
      m.shows_set_narrow r _⟩
  case sum =>
    rintro (hi | hi)
    · obtain ⟨d, s, hargs, hd, rfl⟩ := Operation.eq_of_resolveSum (hknown _ hi)
      exact ⟨d, s, hargs, hd, byte_text (append_label (i.mnemonic ++ " A, " ++ s) (by decide)) _⟩
    · obtain ⟨d, s, hargs, hd, rfl⟩ := Operation.eq_of_resolveSum (hknown _ hi)
      exact ⟨d, s, hargs, hd, byte_text (append_label (i.mnemonic ++ " A, " ++ s) (by decide)) _⟩
  case difference =>
    intro hi
    obtain ⟨d, s, hargs, hd, rfl⟩ := Operation.eq_of_resolveSum (hknown _ hi)
    have hname : "SUBB A, " = "SUBB" ++ " A, " := by decide
    rw [hname]
    exact ⟨d, s, hargs, hd, byte_text (append_label ("SUBB" ++ " A, " ++ s) (by decide)) _⟩
  case logic =>
    intro op hi
    have hop : Operation.resolveLogic op i = .ok resolved := by
      cases op <;> exact hknown _ hi
    obtain ⟨d, s, r, hargs, hd, rfl⟩ := Operation.eq_of_resolveLogic hop
    exact ⟨d, s, r, hargs, hd,
      append_report (append_label (i.mnemonic ++ " " ++ d ++ ", " ++ s) (by decide)) _⟩
  case rotate =>
    intro r hr hi
    have hop : Operation.resolveRotate r r.mnemonic i = .ok resolved := by
      cases r <;> exact hknown _ hi
    obtain rfl := Operation.eq_of_resolveRotate hop
    cases r with
    | left | right | swap => exact byte_text (append_label _ (by decide)) _
    | leftCarry | rightCarry => exact absurd hr (by decide)
  case rotateCarry =>
    intro r hr hi
    have hop : Operation.resolveRotate r r.mnemonic i = .ok resolved := by
      cases r <;> exact hknown _ hi
    obtain rfl := Operation.eq_of_resolveRotate hop
    cases r with
    | left | right | swap => exact absurd hr (by decide)
    | leftCarry | rightCarry => exact append_reports (append_label _ (by decide)) _ _ _
  case complement =>
    intro hi
    obtain ⟨x, hargs, h⟩ := Operation.eq_of_resolveComplement (hknown _ hi)
    refine ⟨x, hargs, fun hx => ?_⟩
    rcases h with ⟨-, rfl⟩ | ⟨hcarry, -⟩
    · exact byte_text (by decide) _
    · exact absurd hx hcarry

end Machine

end Microlab.I8051
