import Microlab.Cpu
import Microlab.Proofs.I8051.Names
import Microlab.Proofs.I8086.RegisterFile

/-!
# Register files

Registers are read and written by name. On either processor, the tables of names agree with
the list of keywords, and a write is seen under the names that share bits with the written
one and under no others.
-/

namespace Microlab.Cpu

def RegisterFile : {a : Arch} → Cpu a → Prop
  | .i8086, m => I8086.Machine.RegisterFile m
  | .i8051, m => I8051.Machine.RegisterFile m

/-- **Names are registers, and registers are cells.** In every state of either processor, a
text is a keyword exactly if the tables for reading and for writing know it, but for the carry
flag and the register pair of the 8051. What is written by name is read under each name of the
same register, in part under a name of a half and within the word under its own name; all
other names read as before. -/
theorem registers_by_name (arch : Arch) (m : Cpu arch) : m.RegisterFile := by
  cases arch with
  | i8086 => exact I8086.Machine.registerFile m
  | i8051 => exact I8051.Machine.registerFile m

end Microlab.Cpu
