import Microlab.Word

/-!
# Files

What a command sees of files: the bytes behind a path, or why there are none.
-/

namespace Microlab.Command

/-- Why a file cannot be read or written. -/
inductive FileError where
  | missing
  | directoryExpected
  | fileExpected
  | nameTooLong
  | notText
  | other (message : String)
  deriving DecidableEq, Repr

def FileError.message : FileError → String
  | missing => "No such file or directory (os error 2)"
  | directoryExpected => "Not a directory (os error 20)"
  | fileExpected => "Is a directory (os error 21)"
  | nameTooLong => "File name too long (os error 36)"
  | notText => "stream did not contain valid UTF-8"
  | other message => message

/-- What reading a path yields. -/
abbrev Files := String → Except FileError (List Byte)

def toByteArray (bytes : List Byte) : ByteArray :=
  ⟨(bytes.map fun b => UInt8.ofNat b.toNat).toArray⟩

def ofByteArray (bytes : ByteArray) : List Byte :=
  bytes.toList.map fun b => BitVec.ofNat 8 b.toNat

def utf8 (text : String) : List Byte := ofByteArray text.toUTF8

/-- What reading a path as text yields. -/
def Files.text (files : Files) (path : String) : Except FileError String := do
  let bytes ← files path
  match String.fromUTF8? (toByteArray bytes) with
  | some text => return text
  | none => throw .notText

end Microlab.Command
