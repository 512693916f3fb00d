import Microlab.Assembly
import Microlab.Opcode.Decoding

/-!
# Disassembly

Bytes are covered from left to right, each of them once: by an instruction where
one is decoded, and by a line of its own where none is. The lines may be asked for
one at a time.
-/

namespace Microlab

inductive Item where
  | instruction (d : Decoded)
  | data (b : Byte)
  deriving DecidableEq, Repr

structure DisassemblyLine where
  address : Nat
  bytes : List Byte
  item : Item
  deriving DecidableEq, Repr

namespace DisassemblyLine

def mnemonic (l : DisassemblyLine) : String :=
  match l.item with
  | .instruction d => d.mnemonic.name
  | .data _ => ".byte"

def operandText (l : DisassemblyLine) : String :=
  match l.item with
  | .instruction d => d.operandText
  | .data b => "0x" ++ Text.hex .upper 2 b.toNat

def isKnown (l : DisassemblyLine) : Bool :=
  match l.item with
  | .instruction _ => true
  | .data _ => false

def text (l : DisassemblyLine) : String :=
  if l.operandText.isEmpty then l.mnemonic else l.mnemonic ++ " " ++ l.operandText

/-- The address as the start of a printed line. -/
def addressText (l : DisassemblyLine) : String := "0x" ++ Text.hex .lower 4 l.address ++ ": "

def render (l : DisassemblyLine) : String := l.addressText ++ l.text

/-- The address just behind the line. -/
def stop (l : DisassemblyLine) : Nat := l.address + l.bytes.length

end DisassemblyLine

/-- Covers the bytes, which start at the given address. -/
def disassembleAt (arch : Arch) (address : Nat) (bytes : List Byte) : List DisassemblyLine :=
  match bytes with
  | [] => []
  | b :: rest =>
    match h : arch.decode? (b :: rest) with
    | some d =>
      ⟨address, (b :: rest).take d.length, .instruction d⟩
        :: disassembleAt arch (address + d.length) ((b :: rest).drop d.length)
    | none => ⟨address, [b], .data b⟩ :: disassembleAt arch (address + 1) rest
termination_by bytes.length
decreasing_by
  · have := Arch.length_pos_of_decode? h
    simp only [List.length_drop, List.length_cons]
    omega
  · simp

def disassemble (arch : Arch) (bytes : List Byte) : List DisassemblyLine :=
  disassembleAt arch 0 bytes

/-- Starts at an offset into the bytes. There is nothing past their end. -/
def disassembleFrom (arch : Arch) (bytes : List Byte) (offset : Nat) : List DisassemblyLine :=
  disassembleAt arch offset (bytes.drop offset)

/-- A walk over the bytes that yields one line at a time. -/
structure Disassembly where
  arch : Arch
  bytes : List Byte
  /-- Where the next line starts. -/
  offset : Nat
  deriving DecidableEq, Repr

namespace Disassembly

/-- The bytes that are not covered yet. -/
def rest (w : Disassembly) : List Byte := w.bytes.drop w.offset

def line? (w : Disassembly) : Option DisassemblyLine :=
  match w.rest with
  | [] => none
  | b :: rest =>
    match w.arch.decode? (b :: rest) with
    | some d => some ⟨w.offset, (b :: rest).take d.length, .instruction d⟩
    | none => some ⟨w.offset, [b], .data b⟩

/-- The walk behind one more line. -/
def advance (w : Disassembly) (l : DisassemblyLine) : Disassembly :=
  { w with offset := w.offset + l.bytes.length }

/-- Yields the next line and moves behind it. A walk at the end of the bytes, or past
it, yields none and stays where it is. -/
def next? (w : Disassembly) : Option (DisassemblyLine × Disassembly) :=
  w.line?.map fun l => (l, w.advance l)

theorem length_pos_of_line? {w : Disassembly} {l : DisassemblyLine} (h : w.line? = some l) :
    0 < l.bytes.length := by
  unfold line? at h
  split at h
  · cases h
  · split at h
    · next b rest _ d hd =>
      obtain rfl := Option.some.inj h
      have hpos := Arch.length_pos_of_decode? hd
      simp only [List.length_take, List.length_cons]
      omega
    · obtain rfl := Option.some.inj h
      simp

theorem offset_lt_of_line? {w : Disassembly} {l : DisassemblyLine} (h : w.line? = some l) :
    w.offset < w.bytes.length := by
  refine Nat.lt_of_not_le fun hle => ?_
  have hrest : w.rest = [] := List.drop_of_length_le hle
  unfold line? at h
  rw [hrest] at h
  cases h

theorem next?_eq_some_iff {w v : Disassembly} {l : DisassemblyLine} :
    w.next? = some (l, v) ↔ w.line? = some l ∧ v = w.advance l := by
  simp only [next?, Option.map_eq_some_iff, Prod.mk.injEq]
  constructor
  · rintro ⟨_, hl, rfl, rfl⟩
    exact ⟨hl, rfl⟩
  · rintro ⟨hl, rfl⟩
    exact ⟨l, hl, rfl, rfl⟩

theorem length_rest_lt_of_next? {w v : Disassembly} {l : DisassemblyLine}
    (h : w.next? = some (l, v)) : v.rest.length < w.rest.length := by
  obtain ⟨hl, rfl⟩ := next?_eq_some_iff.mp h
  have hpos := length_pos_of_line? hl
  have hlt := offset_lt_of_line? hl
  simp only [rest, advance, List.length_drop]
  omega

/-- The lines that the walk yields, each with the walk behind it. -/
def steps (w : Disassembly) : List (DisassemblyLine × Disassembly) :=
  match _ : w.next? with
  | none => []
  | some (l, v) => (l, v) :: steps v
termination_by w.rest.length
decreasing_by exact length_rest_lt_of_next? ‹_›

def lines (w : Disassembly) : List DisassemblyLine := w.steps.map Prod.fst

/-- The walk when it yields no more lines. -/
def last (w : Disassembly) : Disassembly := ((w.steps.map Prod.snd).getLast?).getD w

end Disassembly

end Microlab
