/-!
# Console log

What a session tells its user, line by line.
-/

namespace Microlab

inductive LogKind where
  | info
  | error
  | success
  deriving DecidableEq, Repr

def LogKind.name : LogKind → String
  | info => "info"
  | error => "error"
  | success => "success"

structure LogEntry where
  kind : LogKind
  message : String
  deriving DecidableEq, Repr

namespace LogEntry

def info (message : String) : LogEntry := ⟨.info, message⟩

def error (message : String) : LogEntry := ⟨.error, message⟩

def success (message : String) : LogEntry := ⟨.success, message⟩

/-- The entry of the instruction at an index of the listing. -/
def traced (index : Nat) (trace : String) : LogEntry := success s!"[{index}] {trace}"

end LogEntry

end Microlab
