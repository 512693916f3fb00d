import Microlab.Arch.Json
import Microlab.Json.Reader

/-!
# Session configuration

A configuration is written as a JSON object with the members `arch` and
`step_limit`, or as an array of the two in this order. What is left out keeps its
default and unknown members are skipped, but a known member may not be repeated.
-/

namespace Microlab

structure Config where
  arch : Arch
  /-- A bound on the instructions of one run. -/
  stepLimit : Option Nat
  deriving DecidableEq, Repr

instance : Inhabited Config := ⟨⟨default, none⟩⟩

namespace Config

/-- Limits are 64-bit numbers. -/
def stepLimit? : Json → Option (Option Nat)
  | .null => some none
  | j => (j.nat?.filter (· < 1 <<< 64)).map some

/-- The member of a name: absent, or read by `value?`. -/
def member? {α : Type} (value? : Json → Option α) (fallback : α)
    (members : List (String × Json)) (name : String) : Option α :=
  match members.filter (·.1 = name) with
  | [] => some fallback
  | [(_, j)] => value? j
  | _ => none

def ofMembers? (members : List (String × Json)) : Option Config := do
  let arch ← member? Arch.ofJson? default members "arch"
  let stepLimit ← member? stepLimit? none members "step_limit"
  return ⟨arch, stepLimit⟩

def ofJson? : Json → Option Config
  | .object members => (Json.named? members).bind ofMembers?
  | .array [] => some default
  | .array [arch] => return ⟨← Arch.ofJson? arch, none⟩
  | .array [arch, limit] => return ⟨← Arch.ofJson? arch, ← stepLimit? limit⟩
  | _ => none

def parse? (text : String) : Option Config := (Json.read? text).bind ofJson?

end Config

end Microlab
