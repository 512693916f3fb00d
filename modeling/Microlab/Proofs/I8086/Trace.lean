import Microlab.Proofs.I8086.Arithmetic

/-!
# Traces of the 8086

A trace repeats the instruction and reports the number that was computed. This is what the
destination has afterwards wherever the number was computed at the width of the destination.
An operation on two operands is computed at their common width, and reports all of it even if
a byte register takes the low half only.
-/

namespace Microlab.I8086

namespace Operation

variable {i : Instruction} {resolved : Resolved}

theorem eq_of_resolveMove (h : resolveMove i = .ok resolved) :
    ∃ d s r, i.arguments = [d, s] ∧ Register.ofName? d = some r ∧
      resolved = ⟨.move r (.ofOperand s), s!"MOV {d}, {s} ("⟩ := by
  obtain ⟨d, s, hargs, h⟩ := Instruction.two_bind_eq_ok_iff.mp h
  obtain ⟨r, hd, h⟩ := lookup_bind_eq_ok_iff.mp h
  exact ⟨d, s, r, hargs, hd, (Except.ok.inj h).symm⟩

theorem eq_of_resolveArithmetic {op : Arithmetic} (h : resolveArithmetic op i = .ok resolved) :
    ∃ d s r, i.arguments = [d, s] ∧ Register.ofName? d = some r ∧
      resolved = ⟨.arithmetic op r (.ofOperand s), s!"{i.mnemonic} {d}, {s} ("⟩ := by
  obtain ⟨d, s, hargs, h⟩ := Instruction.two_bind_eq_ok_iff.mp h
  obtain ⟨r, hd, h⟩ := lookup_bind_eq_ok_iff.mp h
  exact ⟨d, s, r, hargs, hd, (Except.ok.inj h).symm⟩

theorem eq_of_resolveUnary {op : Register → Operation} {name : String}
    (h : resolveUnary op name i = .ok resolved) :
    ∃ d r, i.arguments = [d] ∧ Register.ofName? d = some r ∧
      resolved = ⟨op r, s!"{name} {d} ("⟩ := by
  obtain ⟨d, hargs, h⟩ := Instruction.one_bind_eq_ok_iff.mp h
  obtain ⟨r, hd, h⟩ := lookup_bind_eq_ok_iff.mp h
  exact ⟨d, r, hargs, hd, (Except.ok.inj h).symm⟩

end Operation

namespace Machine

variable {m next : Machine} {i : Instruction} {trace : String}

/-! ## What is reported -/

/-- A register has a number that fits into it. -/
theorem toNat_get_write (m : Machine) {r : Register} {w : Word} (hw : w.toNat < 2 ^ r.width.bits) :
    ((m.write r w).registers.get r).toNat = w.toNat := by
  show ((m.registers.set r w).get r).toNat = _
  rw [Registers.toNat_get_set, Nat.mod_eq_of_lt hw]

/-- What was run has written a number that fits into the register, and reports it. -/
def Shows (r : Register) (report : Word → Outcome) (ran : Machine × Outcome) : Prop :=
  ∃ (m : Machine) (w : Word), w.toNat < 2 ^ r.width.bits ∧ ran = (m.write r w, report w)

theorem Shows.text {r : Register} {report : Word → Outcome} {ran : Machine × Outcome}
    (h : Shows r report ran) : ran.2.text = (report (ran.1.registers.get r)).text := by
  obtain ⟨m, w, hw, rfl⟩ := h
  exact congrArg (fun w => (report w).text) (BitVec.eq_of_toNat_eq (m.toNat_get_write hw)).symm

theorem toNat_widened_lt (b : Byte) : (b.setWidth 16).toNat < 2 ^ 8 := by
  rw [BitVec.toNat_setWidth_of_le (by decide)]
  exact b.isLt

theorem toNat_evalAt_lt (op : Arithmetic) (width : Width) (f : Flags) (x y : Word) :
    (op.evalAt width f x y).1.toNat < 2 ^ width.bits := by
  rw [(op.evalAt_exact width f x y).1, BitVec.toNat_setWidth_of_le width.bits_le]
  exact BitVec.isLt _

theorem shows_move (m : Machine) (r : Register) (source : Source) :
    Shows r .value (m.apply (.move r source)) := by
  cases r with
  | byte r => exact ⟨m, _, toNat_widened_lt _, rfl⟩
  | word r => exact ⟨m, _, BitVec.isLt _, rfl⟩

theorem shows_complement (m : Machine) (r : Register) :
    Shows r .result (m.apply (.complement r)) := by
  cases r with
  | byte r => exact ⟨m, _, toNat_widened_lt _, rfl⟩
  | word r => exact ⟨m, _, BitVec.isLt _, rfl⟩

theorem shows_step (m : Machine) (op : Arithmetic) (r : Register) :
    Shows r .result (m.step op r) :=
  ⟨_, _, toNat_evalAt_lt op r.width m.flags (m.registers.get r) 1, rfl⟩

theorem shows_negate (m : Machine) (r : Register) : Shows r .result (m.apply (.negate r)) :=
  ⟨_, _, toNat_evalAt_lt .sub r.width m.flags 0 (m.registers.get r), rfl⟩

/-- The whole result is reported, and the register takes what its width keeps of it. -/
theorem reports_arithmetic (m : Machine) (op : Arithmetic) {d : String} {r : Register}
    (hd : Register.ofName? d = some r) (s : String) :
    let w := operandBits [d, s]
    let result := reduced w (op.result (reduced w (m.operand d)) (reduced w (m.operand s)))
    let ran := m.apply (.arithmetic op r (.ofOperand s))
    (∃ v : Word, v.toNat = result ∧ ran.2 = .result v) ∧
      (ran.1.registers.get r).toNat = result % 2 ^ r.width.bits ∧
      (r.width.bits = w → (ran.1.registers.get r).toNat = result) := by
  intro w result ran
  have hle := operandBits_le [d, s]
  obtain ⟨hvalue, -⟩ := m.compute_exact op d s
  rw [Source.ofOperand_of_ofName? hd, toNat_ofInt, toNat_ofInt] at hvalue
  have hresult : (m.compute op (.register r) (.ofOperand s)).1.toNat = result := by
    rw [hvalue, BitVec.toNat_setWidth_of_le hle, toNat_ofInt]
  have hget : (ran.1.registers.get r).toNat = result % 2 ^ r.width.bits := by
    rw [← hresult]
    exact Registers.toNat_get_set _ r _
  have hlt : result < 2 ^ w := (toNat_ofInt w _).symm.trans_lt (BitVec.isLt _)
  refine ⟨⟨_, hresult, rfl⟩, hget, fun hw => ?_⟩
  rw [hget, hw, Nat.mod_eq_of_lt hlt]

/-- The trace of an accepted instruction with a destination. Moves, counting, complements and
negations report what the destination has. An operation on two operands reports the whole
result, of which the destination has what its width keeps. -/
structure Reports (m : Machine) (i : Instruction) (next : Machine) (trace : String) : Prop where
  move : i.Names .mov → ∃ d s r, i.arguments = [d, s] ∧ Register.ofName? d = some r ∧
    trace = s!"MOV {d}, {s} (value: {(next.registers.get r).toNat})"
  arithmetic : ∀ op : Arithmetic, i.Names op.mnemonic →
    ∃ d s r, i.arguments = [d, s] ∧ Register.ofName? d = some r ∧
      let w := operandBits [d, s]
      let result := reduced w (op.result (reduced w (m.operand d)) (reduced w (m.operand s)))
      trace = s!"{i.mnemonic} {d}, {s} (result: {result})" ∧
        (next.registers.get r).toNat = result % 2 ^ r.width.bits ∧
        (r.width.bits = w → (next.registers.get r).toNat = result)
  step : i.Names .inc ∨ i.Names .dec → ∃ d r, i.arguments = [d] ∧ Register.ofName? d = some r ∧
    trace = s!"{i.mnemonic} {d} (result: {(next.registers.get r).toNat})"
  complement : i.Names .not → ∃ d r, i.arguments = [d] ∧ Register.ofName? d = some r ∧
    trace = s!"NOT {d} (result: {(next.registers.get r).toNat})"
  negate : i.Names .neg → ∃ d r, i.arguments = [d] ∧ Register.ofName? d = some r ∧
    trace = s!"NEG {d} (result: {(next.registers.get r).toNat})"

/-- One operand is written and reported. -/
theorem reports_unary {op : Register → Operation} {name : String} {resolved : Resolved}
    (h : Operation.resolveUnary op name i = .ok resolved)
    (hshows : ∀ r, Shows r .result (m.apply (op r))) :
    ∃ d r, i.arguments = [d] ∧ Register.ofName? d = some r ∧
      resolved.lead ++ (m.apply resolved.operation).2.text =
        s!"{name} {d} (result: {((m.apply resolved.operation).1.registers.get r).toNat})" := by
  obtain ⟨d, r, hargs, hd, rfl⟩ := Operation.eq_of_resolveUnary h
  refine ⟨d, r, hargs, hd, ?_⟩
  rw [(hshows r).text]
  exact append_report (append_label (name ++ " " ++ d) (by decide)) _

theorem reports_of_attempt (hran : m.attempt i = .ok (next, trace)) : m.Reports i next trace := by
  obtain ⟨resolved, hresolve, rfl, rfl⟩ := Step.exists_resolved (Handler.handle_eq i) hran
  have hknown : ∀ k, i.Names k → Operation.resolveKnown k i = .ok resolved := by
    intro k hi
    rwa [Operation.resolve, resolveBy_of_names hi] at hresolve
  constructor
  case move =>
    intro hi
    obtain ⟨d, s, r, hargs, hd, rfl⟩ := Operation.eq_of_resolveMove (hknown _ hi)
    refine ⟨d, s, r, hargs, hd, ?_⟩
    rw [(m.shows_move r _).text]
    exact append_report (append_label ("MOV " ++ d ++ ", " ++ s) (by decide)) _
  case arithmetic =>
    intro op hi
    have hop : Operation.resolveArithmetic op i = .ok resolved := by
      cases op <;> exact hknown _ hi
    obtain ⟨d, s, r, hargs, hd, rfl⟩ := Operation.eq_of_resolveArithmetic hop
    obtain ⟨⟨v, hv, hout⟩, hget⟩ := m.reports_arithmetic op hd s
    refine ⟨d, s, r, hargs, hd, ?_, hget⟩
    rw [hout, ← hv]
    exact append_report (append_label (i.mnemonic ++ " " ++ d ++ ", " ++ s) (by decide)) _
  case step =>
    rintro (hi | hi)
    · have hop : Operation.resolveUnary .increment i.mnemonic i = .ok resolved := hknown _ hi
      exact reports_unary hop (m.shows_step .add)
    · have hop : Operation.resolveUnary .decrement i.mnemonic i = .ok resolved := hknown _ hi
      exact reports_unary hop (m.shows_step .sub)
  case complement =>
    intro hi
    have hop : Operation.resolveUnary .complement "NOT" i = .ok resolved := hknown _ hi
    have hname : "NOT " = "NOT" ++ " " := by decide
    rw [hname]
    exact reports_unary hop m.shows_complement
  case negate =>
    intro hi
    have hop : Operation.resolveUnary .negate "NEG" i = .ok resolved := hknown _ hi
    have hname : "NEG " = "NEG" ++ " " := by decide
    rw [hname]
    exact reports_unary hop m.shows_negate

end Machine

end Microlab.I8086
