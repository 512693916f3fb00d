import Microlab.Text.Blank

/-!
# Letter case

Mnemonics, register names and keywords are compared without regard to the case
of ASCII letters. Other letters are only equal to themselves.
-/

namespace Microlab.Text

def upper (cs : List Char) : List Char := cs.map Char.toUpper

def sameLetters (s t : String) : Bool := upper s.toList == upper t.toList

/-- The value listed under a name, in any letter case. The first one wins. -/
def named? {α : Type} (table : List (String × α)) (name : String) : Option α :=
  (table.find? fun row => sameLetters row.1 name).map Prod.snd

def trimmed (s : String) : String := String.ofList (trim s.toList)

end Microlab.Text
