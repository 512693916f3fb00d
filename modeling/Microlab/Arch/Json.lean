import Microlab.Arch
import Microlab.Json.Basic

/-!
# Architectures as JSON
-/

namespace Microlab

/-- An architecture is written as its name, or as an object whose one member has
that name and is null. -/
def Arch.ofJson? : Json → Option Arch
  | .string literal => (Json.decode? literal).bind ofName?
  | .object [(literal, .null)] => (Json.decode? literal).bind ofName?
  | _ => none

end Microlab
