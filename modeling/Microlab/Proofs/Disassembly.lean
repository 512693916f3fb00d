import Microlab.Disassembly
import Microlab.Proofs.Reassembly

/-!
# Walking through the bytes

Each line of a walk takes its bytes off the front of those that are left, and at least
one of them. So a walk ends, and has then covered every byte once. As a walk is nothing
but its bytes and its offset, one that is started behind a line goes on as the first
one would.
-/

namespace Microlab

namespace Disassembly

variable {w v : Disassembly} {l : DisassemblyLine}

/-! ## One line -/

/-- The line at the offset of a walk holds the first bytes of the rest: those of the
instruction that is decoded there, or else a single byte. -/
structure Covers (w : Disassembly) (l : DisassemblyLine) : Prop where
  address : l.address = w.offset
  bytes_append : l.bytes ++ (w.advance l).rest = w.rest
  instruction : ∀ d, l.item = .instruction d →
    w.arch.decode? w.rest = some d ∧ l.bytes.length = d.length
  data : ∀ b, l.item = .data b → w.arch.decode? w.rest = none ∧ l.bytes = [b]

theorem rest_advance (w : Disassembly) (l : DisassemblyLine) :
    (w.advance l).rest = w.rest.drop l.bytes.length := by
  unfold rest advance
  rw [List.drop_drop]

/-- What is decoded does not reach past the end of the bytes. -/
theorem covers_instruction {d : Decoded} (hd : w.arch.decode? w.rest = some d) :
    w.Covers ⟨w.offset, w.rest.take d.length, .instruction d⟩ := by
  obtain ⟨-, -, -, -, -, -, hle, -⟩ := Arch.exists_code_of_decode? hd
  have hlen : (w.rest.take d.length).length = d.length := by
    rw [List.length_take]
    exact Nat.min_eq_left hle
  constructor
  case address => rfl
  case bytes_append =>
    rw [rest_advance, hlen]
    exact List.take_append_drop _ _
  case instruction =>
    intro d' hitem
    obtain rfl := Item.instruction.inj hitem
    exact ⟨hd, hlen⟩
  case data =>
    intro b hitem
    cases hitem

theorem covers_data {b : Byte} {tail : List Byte} (hrest : w.rest = b :: tail)
    (hnone : w.arch.decode? w.rest = none) : w.Covers ⟨w.offset, [b], .data b⟩ := by
  constructor
  case address => rfl
  case bytes_append =>
    rw [rest_advance, hrest]
    rfl
  case instruction =>
    intro d hitem
    cases hitem
  case data =>
    intro b' hitem
    obtain rfl := Item.data.inj hitem
    exact ⟨hnone, rfl⟩

theorem covers_of_line? (h : w.line? = some l) : w.Covers l := by
  unfold line? at h
  split at h
  · cases h
  · next b tail hrest =>
    rw [← hrest] at h
    split at h
    · next d hd =>
      obtain rfl := Option.some.inj h
      exact covers_instruction hd
    · next hnone =>
      obtain rfl := Option.some.inj h
      exact covers_data hrest hnone

namespace Covers

theorem isKnown_eq_false_iff (h : w.Covers l) :
    l.isKnown = false ↔ w.arch.decode? w.rest = none := by
  unfold DisassemblyLine.isKnown
  cases hitem : l.item with
  | instruction d => simp [(h.instruction d hitem).1]
  | data b => simp [(h.data b hitem).1]

theorem length_of_isKnown_eq_false (h : w.Covers l) (hunknown : l.isKnown = false) :
    l.bytes.length = 1 := by
  unfold DisassemblyLine.isKnown at hunknown
  cases hitem : l.item with
  | instruction d => simp [hitem] at hunknown
  | data b => rw [(h.data b hitem).2, List.length_singleton]

theorem offset_advance_le (h : w.Covers l) (hlt : w.offset < w.bytes.length) :
    (w.advance l).offset ≤ w.bytes.length := by
  have hlen := congrArg List.length h.bytes_append
  simp only [List.length_append, rest, advance, List.length_drop] at hlen ⊢
  omega

end Covers

theorem rest_eq_nil_iff : w.rest = [] ↔ w.bytes.length ≤ w.offset :=
  List.drop_eq_nil_iff

theorem next?_eq_none_iff : w.next? = none ↔ w.bytes.length ≤ w.offset := by
  rw [← rest_eq_nil_iff]
  unfold next? line?
  rw [Option.map_eq_none_iff]
  constructor
  · intro h
    split at h
    · assumption
    · split at h <;> cases h
  · intro h
    rw [h]

/-! ## The whole walk -/

theorem steps_of_next?_eq_none (h : w.next? = none) : w.steps = [] := by
  rw [steps]
  split
  · rfl
  · next heq =>
    rw [h] at heq
    cases heq

theorem steps_of_next?_eq_some (h : w.next? = some (l, v)) : w.steps = (l, v) :: v.steps := by
  rw [steps]
  split
  · next heq =>
    rw [h] at heq
    cases heq
  · next heq =>
    rw [h] at heq
    cases heq
    rfl

/-- What holds of a walk at the end, and of a walk whenever it holds behind its next
line, holds of every walk. -/
theorem walk_induction {P : Disassembly → Prop} (hend : ∀ w, w.next? = none → P w)
    (hstep : ∀ w l, w.line? = some l → w.steps = (l, w.advance l) :: (w.advance l).steps →
      P (w.advance l) → P w) (w : Disassembly) : P w := by
  induction w using steps.induct with
  | case1 w h => exact hend w h
  | case2 w l v h ih =>
      have hsteps := steps_of_next?_eq_some h
      obtain ⟨hl, rfl⟩ := next?_eq_some_iff.mp h
      exact hstep w l hl hsteps ih

/-- The lines cover the rest of the bytes. -/
theorem flatMap_bytes_lines (w : Disassembly) :
    w.lines.flatMap DisassemblyLine.bytes = w.rest := by
  induction w using walk_induction with
  | hend w h =>
      unfold lines
      rw [steps_of_next?_eq_none h, rest_eq_nil_iff.mpr (next?_eq_none_iff.mp h)]
      rfl
  | hstep w l hl hsteps ih =>
      unfold lines at ih ⊢
      rw [hsteps, List.map_cons, List.flatMap_cons, ih]
      exact (covers_of_line? hl).bytes_append

/-- There are no more lines than bytes left. -/
theorem length_lines_le (w : Disassembly) : w.lines.length ≤ w.rest.length := by
  unfold lines
  rw [List.length_map]
  induction w using walk_induction with
  | hend w h => simp [steps_of_next?_eq_none h]
  | hstep w l hl hsteps ih =>
      have hlt := length_rest_lt_of_next? (next?_eq_some_iff.mpr ⟨hl, rfl⟩)
      rw [hsteps, List.length_cons]
      omega

theorem last_of_line? (hsteps : w.steps = (l, v) :: v.steps) : w.last = v.last := by
  unfold last
  rw [hsteps, List.map_cons, List.getLast?_cons, Option.getD_some]

/-- A walk ends at the end of the bytes, or where it starts if that is behind it. -/
theorem last_eq (w : Disassembly) :
    w.last = { w with offset := max w.offset w.bytes.length } := by
  induction w using walk_induction with
  | hend w h =>
      have hle := next?_eq_none_iff.mp h
      unfold last
      rw [steps_of_next?_eq_none h, Nat.max_eq_left hle]
      rfl
  | hstep w l hl hsteps ih =>
      have hlt := offset_lt_of_line? hl
      have hle := (covers_of_line? hl).offset_advance_le hlt
      rw [last_of_line? hsteps, ih]
      unfold advance at hle ⊢
      rw [Nat.max_eq_right hle, Nat.max_eq_right (Nat.le_of_lt hlt)]

theorem next?_last (w : Disassembly) : w.last.next? = none := by
  rw [last_eq, next?_eq_none_iff]
  exact Nat.le_max_right _ _

/-- Any line of a walk is the next line of the walk that starts behind the bytes in
front of it, and that walk goes on as the first one does. -/
theorem next?_of_steps_eq {front back : List (DisassemblyLine × Disassembly)}
    (h : w.steps = front ++ (l, v) :: back) :
    Disassembly.next?
      { w with offset := w.offset + (front.flatMap fun s => s.1.bytes).length } = some (l, v) ∧
    v.steps = back := by
  induction w using walk_induction generalizing front with
  | hend w hnone =>
      rw [steps_of_next?_eq_none hnone] at h
      simp at h
  | hstep w k hk hsteps ih =>
      rw [hsteps] at h
      cases front with
      | nil =>
          obtain ⟨hhead, htail⟩ := List.cons.inj h
          obtain ⟨rfl, rfl⟩ := Prod.mk.inj hhead
          exact ⟨next?_eq_some_iff.mpr ⟨hk, rfl⟩, htail⟩
      | cons s front =>
          obtain ⟨rfl, htail⟩ := List.cons.inj h
          obtain ⟨hnext, hback⟩ := ih htail
          refine ⟨?_, hback⟩
          rw [List.flatMap_cons, List.length_append, ← Nat.add_assoc]
          exact hnext

/-- One step of disassembly, where no instruction is decoded, takes one byte. -/
theorem disassembleAt_cons_of_none {arch : Arch} {b : Byte} {bytes : List Byte}
    (h : arch.decode? (b :: bytes) = none) (address : Nat) :
    disassembleAt arch address (b :: bytes)
      = ⟨address, [b], .data b⟩ :: disassembleAt arch (address + 1) bytes := by
  rw [disassembleAt]
  split
  · next d hd =>
    rw [h] at hd
    cases hd
  · rfl

theorem disassembleAt_rest (h : w.Covers l) :
    disassembleAt w.arch w.offset w.rest
      = l :: disassembleAt w.arch (w.advance l).offset (w.advance l).rest := by
  have happend := h.bytes_append
  obtain ⟨address, bytes, item⟩ := l
  obtain rfl := h.address
  cases item with
  | instruction d =>
      obtain ⟨hd, hlen⟩ := h.instruction d rfl
      rw [← happend] at hd ⊢
      exact disassembleAt_append hd hlen.symm _
  | data b =>
      obtain ⟨hnone, rfl⟩ := h.data b rfl
      rw [← happend] at hnone ⊢
      exact disassembleAt_cons_of_none hnone _

/-- The lines of a walk are those of the bytes in one go. -/
theorem lines_eq (w : Disassembly) : w.lines = disassembleAt w.arch w.offset w.rest := by
  induction w using walk_induction with
  | hend w h =>
      unfold lines
      rw [steps_of_next?_eq_none h, rest_eq_nil_iff.mpr (next?_eq_none_iff.mp h), disassembleAt]
      rfl
  | hstep w l hl hsteps ih =>
      rw [disassembleAt_rest (covers_of_line? hl)]
      unfold lines at ih ⊢
      rw [hsteps, List.map_cons, ih]
      rfl

end Disassembly

/-- **Disassembly covers the bytes once, and restarts anywhere.** A walk from an offset
ends: it yields no more lines than there are bytes, and then stands at their end, or
still at the offset if that is behind it. The lines' bytes are the bytes from the offset
on, one after the other, and the lines are those found in one go. A line's address
counts the bytes in front of it. The line is unknown if and only if no opcode decodes
there, and then it has one byte. A walk that is started behind the line yields the lines
after it. -/
theorem disassembly_covers (arch : Arch) (bytes : List Byte) (offset : Nat) :
    let w : Disassembly := ⟨arch, bytes, offset⟩
    w.lines.length ≤ bytes.length - offset ∧
    w.last.next? = none ∧ w.last = ⟨arch, bytes, max offset bytes.length⟩ ∧
    w.lines.flatMap DisassemblyLine.bytes = bytes.drop offset ∧
    (bytes.length ≤ offset → w.next? = none ∧ w.lines = [] ∧ w.last = w) ∧
    w.lines = disassembleFrom arch bytes offset ∧
    ∀ front l v back, w.steps = front ++ (l, v) :: back →
      l.address = offset + (front.flatMap fun s => s.1.bytes).length ∧
      (l.isKnown = false ↔
        ∀ o ∈ arch.opcodes, o.decode? arch.byteOrder (bytes.drop l.address) = none) ∧
      (l.isKnown = false → l.bytes.length = 1) ∧
      v.offset = l.address + l.bytes.length ∧
      (⟨arch, bytes, v.offset⟩ : Disassembly).steps = back := by
  intro w
  refine ⟨?_, w.next?_last, w.last_eq, w.flatMap_bytes_lines, ?_, w.lines_eq, ?_⟩
  · have hle := w.length_lines_le
    rwa [Disassembly.rest, List.length_drop] at hle
  · intro hle
    have hnone : w.next? = none := Disassembly.next?_eq_none_iff.mpr hle
    refine ⟨hnone, ?_, ?_⟩
    · unfold Disassembly.lines
      rw [Disassembly.steps_of_next?_eq_none hnone]
      rfl
    · rw [w.last_eq, Nat.max_eq_left hle]
  · intro front l v back hsteps
    obtain ⟨hnext, hback⟩ := Disassembly.next?_of_steps_eq hsteps
    obtain ⟨hl, hv⟩ := Disassembly.next?_eq_some_iff.mp hnext
    have hcovers := Disassembly.covers_of_line? hl
    have haddress : l.address = offset + (front.flatMap fun s => s.1.bytes).length :=
      hcovers.address
    have hunknown := hcovers.isKnown_eq_false_iff
    rw [Disassembly.rest, ← hcovers.address, Arch.decode?, List.findSome?_eq_none_iff] at hunknown
    refine ⟨haddress, hunknown, hcovers.length_of_isKnown_eq_false, ?_, ?_⟩
    · rw [hv, haddress]
      rfl
    · rw [← hback, hv]
      rfl

/-- A byte that starts no instruction, and an instruction behind it. -/
theorem disassembly_covers_unknown :
    let walk (offset : Nat) : Disassembly := ⟨.i8086, [0x0F, 0x90], offset⟩
    let unknown : DisassemblyLine := ⟨0, [0x0F], .data 0x0F⟩
    let nop : DisassemblyLine := ⟨1, [0x90], .instruction ⟨.nop, [], 1⟩⟩
    (walk 0).steps = [(unknown, walk 1), (nop, walk 2)] ∧
    unknown.bytes.length = 1 ∧ (walk 1).steps = [(nop, walk 2)] ∧
    (walk 3).lines = [] ∧ (walk 3).last = walk 3 := by
  intro walk unknown nop
  have hfirst : (walk 0).next? = some (unknown, walk 1) := by decide +kernel
  have hsecond : (walk 1).next? = some (nop, walk 2) := by decide +kernel
  have hend : (walk 2).next? = none := by decide +kernel
  have hsteps : (walk 0).steps = [] ++ (unknown, walk 1) :: [(nop, walk 2)] := by
    rw [Disassembly.steps_of_next?_eq_some hfirst, Disassembly.steps_of_next?_eq_some hsecond,
      Disassembly.steps_of_next?_eq_none hend, List.nil_append]
  obtain ⟨-, -, -, -, -, -, hline⟩ := disassembly_covers .i8086 [0x0F, 0x90] 0
  obtain ⟨-, -, hlength, -, hrestart⟩ := hline _ _ _ _ hsteps
  obtain ⟨-, -, -, -, hpast, -⟩ := disassembly_covers .i8086 [0x0F, 0x90] 3
  obtain ⟨-, hlines, hlast⟩ := hpast (by decide)
  exact ⟨hsteps, hlength rfl, hrestart, hlines, hlast⟩

end Microlab
