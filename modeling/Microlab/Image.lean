import Microlab.Literal
import Microlab.Text.Quoted
import Microlab.Word

/-!
# Memory images

The bytes of a file, mapped at a base address of a 32-bit address space. The end
of an image wraps, so an image that reaches the top of the space ends at zero and
has no address inside it.
-/

namespace Microlab

namespace Address

/-- Why a text is no address. -/
inductive ParseError where
  | malformed (text : String)
  | range (e : Literal.RangeError)
  deriving DecidableEq, Repr

def ParseError.message : ParseError → String
  | malformed text => s!"bad address {Text.quoted text}"
  | range e => e.message

/-- Addresses are literals, decimal unless they say otherwise. -/
def parse (text : String) : Except ParseError Address :=
  match Literal.parse? 10 text with
  | none => .error (.malformed text)
  | some v => (Literal.unsigned 32 v).mapError .range

end Address

structure Image where
  base : Address
  bytes : List Byte
  deriving DecidableEq, Repr

namespace Image

inductive LoadError where
  | skip
  | length
  deriving DecidableEq, Repr

def LoadError.message : LoadError → String
  | skip => "--skip exceeds file size"
  | length => "--len exceeds remaining file size after skip"

/-- Maps a part of a file: all of it behind the skipped bytes, or no more than a
given number of bytes. -/
def load (file : List Byte) (base : Address) (skip : Nat) (limit : Option Nat) :
    Except LoadError Image :=
  if file.length < skip then .error .skip
  else
    let payload := file.drop skip
    match limit with
    | none => .ok ⟨base, payload⟩
    | some n => if payload.length < n then .error .length else .ok ⟨base, payload.take n⟩

/-- The address behind the last byte. -/
def stop (m : Image) : Address := m.base + BitVec.ofNat 32 m.bytes.length

def contains (m : Image) (address : Address) : Bool :=
  m.base ≤ address ∧ address < m.stop

/-- The bytes from `first` up to `last`, clipped to the image. -/
def window? (m : Image) (first last : Address) : Option (List Byte) :=
  if last < first ∨ !m.contains first then none
  else
    let start := (first - m.base).toNat
    let stop := ((if last ≤ m.stop then last else m.stop) - m.base).toNat
    some ((m.bytes.take stop).drop start)

end Image

end Microlab
