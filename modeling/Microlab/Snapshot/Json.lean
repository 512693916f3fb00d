import Microlab.Arch.Json
import Microlab.Snapshot

/-!
# Snapshots as JSON

A snapshot is an object of five members, or an array of them in their order.
Reading wants all five; unknown members are skipped.
-/

namespace Microlab

def Json.ofBytes (bytes : List Byte) : Json := .array (bytes.map fun b => .ofNat b.toNat)

/-- An unsigned number of the given width. -/
def Json.bits? (width : Nat) (j : Json) : Option (BitVec width) :=
  (j.nat?.filter (· < 1 <<< width)).map (BitVec.ofNat width)

namespace Snapshot

def toJson (s : Snapshot) : Json :=
  .ofMembers
    [("arch", .ofText s.arch.name),
     ("registers", .array (s.registers.map fun (name, w) =>
       .array [.ofText name, .ofNat w.toNat])),
     ("flags", .array (s.flags.map fun (name, b) => .array [.ofText name, .bool b])),
     ("ports", .ofBytes s.ports),
     ("halted", .bool s.halted)]

/-- A name and the value that belongs to it. -/
def pair? {α : Type} (value? : Json → Option α) : Json → Option (String × α)
  | .array [name, value] => return (← name.text?, ← value? value)
  | _ => none

def list? {α : Type} (item? : Json → Option α) (j : Json) : Option (List α) :=
  j.items?.bind (·.mapM item?)

def ofParts? (arch registers flags ports halted : Json) : Option Snapshot := do
  return {
    arch := ← Arch.ofJson? arch
    registers := ← list? (pair? (Json.bits? 16)) registers
    flags := ← list? (pair? Json.bool?) flags
    ports := ← list? (Json.bits? 8) ports
    halted := ← halted.bool? }

def ofJson? : Json → Option Snapshot
  | .array [arch, registers, flags, ports, halted] =>
    ofParts? arch registers flags ports halted
  | .object literals => do
    let members ← Json.named? literals
    ofParts? (← Json.only? members "arch") (← Json.only? members "registers")
      (← Json.only? members "flags") (← Json.only? members "ports")
      (← Json.only? members "halted")
  | _ => none

end Snapshot

end Microlab
