import Microlab.Memory

/-!
# Memory accesses

The accesses that change a memory. A history of a memory is a list of them.
-/

namespace Microlab

namespace Memory

inductive Action where
  | write (address : Address) (b : Byte)
  | writeWord (address : Address) (w : Word)
  | load (address : Address) (bytes : List Byte)
  | clear
  deriving DecidableEq

def perform {n : Nat} (m : Memory n) : Action → Memory n
  | .write address b => m.write address b
  | .writeWord address w => m.writeWord address w
  | .load address bytes => m.load address bytes
  | .clear => m.clear

def performAll {n : Nat} (m : Memory n) (actions : List Action) : Memory n :=
  actions.foldl perform m

end Memory

end Microlab
