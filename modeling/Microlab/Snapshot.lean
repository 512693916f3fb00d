import Microlab.Arch
import Microlab.Text.Letter
import Microlab.Text.Numeral

/-!
# Snapshots

What a machine shows of its state: registers, flags and ports under their names.
-/

namespace Microlab

structure Snapshot where
  arch : Arch
  registers : List (String × Word)
  flags : List (String × Bool)
  ports : List Byte
  halted : Bool
  deriving DecidableEq, Repr

namespace Snapshot

def register? (s : Snapshot) (name : String) : Option Word := Text.named? s.registers name

def flag? (s : Snapshot) (name : String) : Option Bool := Text.named? s.flags name

/-- Registers are shown in as many digits as they have on the processor. -/
def digits (arch : Arch) (name : String) : Nat :=
  match arch with
  | .i8086 => 4
  | .i8051 => if name = "DPTR" ∨ name = "PC" then 4 else 2

def registerLine (s : Snapshot) : String :=
  s!"[{s.arch.name}] " ++ " ".intercalate (s.registers.map fun (name, w) =>
    s!"{name}={Text.hex .upper (digits s.arch name) w.toNat}")

def flagLine (s : Snapshot) : String :=
  "flags: " ++ " ".intercalate (s.flags.map fun (name, b) => s!"{name}={b.toNat}")

def portLine (s : Snapshot) : String :=
  "ports: " ++ " ".intercalate (s.ports.mapIdx fun n b => s!"P{n}={Text.hex .upper 2 b.toNat}")

def render (s : Snapshot) : String :=
  "\n".intercalate <|
    [s.registerLine, s.flagLine]
      ++ (if s.ports.isEmpty then [] else [s.portLine])
      ++ (if s.halted then ["halted"] else [])

end Snapshot

end Microlab
