import Microlab.Command.Files

/-!
# File systems

Files, directories and devices under their paths from the root. A path is followed
component by component: an empty one and a dot stay where they are, and two dots
lead to the directory above, the root being above itself.
-/

namespace Microlab.Command

/-- What stands under a path. The null device reads as empty and forgets what is
written. -/
inductive Entry where
  | directory
  | file (bytes : List Byte)
  | nullDevice
  deriving DecidableEq, Repr

structure FileSystem where
  entries : List (List String × Entry)
  /-- Where a path starts that does not start at the root. -/
  home : List String
  deriving DecidableEq, Repr

/-- What a path leads to: a directory, or a name in a directory and what else
stands there. -/
inductive Destination where
  | directory
  | name (path : List String) (entry : Option Entry)
  deriving DecidableEq, Repr

namespace FileSystem

def components (path : String) : List String := (path.toList.splitOn '/').map String.ofList

/-- The path of a working directory. No path spells its last component, since a dot
stays where it is. -/
def workingPath : List String := ["tmp", "."]

/-- A working directory with the given files, and the null device. -/
def working (files : List (String × List Byte)) : FileSystem where
  entries :=
    [(workingPath, .directory), (["dev", "null"], .nullDevice)]
      ++ files.map fun (path, bytes) => (workingPath ++ components path, .file bytes)
  home := workingPath

/-- Whatever leads to an entry is a directory. -/
def entry? (fs : FileSystem) (path : List String) : Option Entry :=
  match fs.entries.lookup path with
  | some entry => some entry
  | none => if fs.entries.any fun (p, _) => path.isPrefixOf p then some .directory else none

/-- Follows components from a directory. Slashes behind the last name ask for a
directory, and none is written. -/
def follow (fs : FileSystem) (writing : Bool) (place : List String) :
    List String → Except FileError Destination
  | [] => .ok .directory
  | c :: rest =>
    if c = "" ∨ c = "." then fs.follow writing place rest
    else if c = ".." then fs.follow writing place.dropLast rest
    else if writing && !rest.isEmpty && rest.all (· = "") then .error .fileExpected
    else if 255 < c.utf8ByteSize then .error .nameTooLong
    else
      let path := place ++ [c]
      match fs.entry? path with
      | some .directory => fs.follow writing path rest
      | entry =>
        if rest.isEmpty then .ok (.name path entry)
        else if entry.isSome then .error .directoryExpected
        else .error .missing

def locate (fs : FileSystem) (writing : Bool) (path : String) : Except FileError Destination :=
  if 4096 ≤ path.utf8ByteSize then .error .nameTooLong
  else
    fs.follow writing (if path.toList.head? = some '/' then [] else fs.home) (components path)

def read (fs : FileSystem) : Files := fun path => do
  match ← fs.locate false path with
  | .directory | .name _ (some .directory) => throw .fileExpected
  | .name _ none => throw .missing
  | .name _ (some (.file bytes)) => return bytes
  | .name _ (some .nullDevice) => return []

/-- Writes a file that is there or not. Its directory has to be there. -/
def write (fs : FileSystem) (path : String) (bytes : List Byte) :
    Except FileError FileSystem := do
  match ← fs.locate true path with
  | .directory => throw .fileExpected
  | .name _ (some .nullDevice) => return fs
  | .name path _ => return { fs with entries := (path, .file bytes) :: fs.entries }

example : ((working [("a", [1])]).read "b/../a").toOption = none := by decide +kernel

example : ((working [("b/a", [1])]).read "b/.././b/a").toOption = some [1] := by decide +kernel

end FileSystem

end Microlab.Command
