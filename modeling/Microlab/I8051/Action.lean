import Microlab.I8051.Handler

/-!
# Actions on the 8051

Everything that can be done to the machine. A history of the machine is a list of
actions.
-/

namespace Microlab.I8051

inductive Action where
  | execute (i : Instruction)
  | reset
  | loadProgram (program : List Byte)
  | write (address : Address) (b : Byte)
  | loadExternal (address : Word) (bytes : List Byte)
  | setRegister (name : String) (value : BitVec 32)
  | setA (b : Byte)
  deriving DecidableEq, Repr

namespace Machine

def register? (m : Machine) (name : String) : Option Word := (Register.ofName? name).map m.get

/-- Writes the low bits of a value to the register of a name, and says whether there
is one. -/
def setRegister (m : Machine) (name : String) (value : BitVec 32) : Machine × Bool :=
  match Register.ofName? name with
  | some r => (m.set r (value.setWidth 16), true)
  | none => (m, false)

def perform (m : Machine) : Action → Machine
  | .execute i => (m.execute i).1
  | .reset => m.reset
  | .loadProgram program => m.loadProgram program
  | .write address b => { m with memory := m.memory.write address b }
  | .loadExternal address bytes => m.loadExternal address bytes
  | .setRegister name value => (m.setRegister name value).1
  | .setA b => m.setA b

/-- Performs a history from its first action to its last. -/
def performAll (m : Machine) (actions : List Action) : Machine := actions.foldl perform m

end Machine

end Microlab.I8051
