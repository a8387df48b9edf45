/-
A directory in memory, with files but no directories inside it, and the ways that lead there. It
lies somewhere below the root, and of the directories around it nothing is known but that they are
there: no name is found in them, and a file that is written to one of them is out of sight.

A path is followed name by name. Every name but the last has to lead to a directory; what the last
may lead to depends on whether a file is to be read or to be written.
-/

import JavaClass.CommandLine.Run

namespace JavaClass.CommandLine

/-! ### Paths -/

/-- The directories a path can lead to: the one in memory, or one around it. -/
inductive Place
  | here
  | around
  deriving DecidableEq, Repr

/-- A path taken apart. -/
structure Path where
  start : Place
  names : List String
  endsInSlash : Bool
  deriving DecidableEq, Repr

/-- The most bytes a name can have. -/
def longestName : Nat := 255

/-- The most bytes a path can have. -/
def longestPath : Nat := 4095

/-- Takes a path apart. Names stand between slashes, of which several count as one, and a path that
begins with a slash starts from the root. -/
def Path.ofText (text : String) : Except FileError Path :=
  if text.isEmpty then .error .missing
  else if longestPath < text.utf8ByteSize then .error .nameTooLong
  else
    .ok { start := if text.startsWith "/" then .around else .here
          names := (text.splitOn "/").filter fun name => !name.isEmpty
          endsInSlash := text.endsWith "/" }

/-! ### The directory -/

/-- The files of a directory, by name. -/
structure Directory where
  files : List (String × Bytes)

/-- What a name stands for. -/
inductive Entry
  | directory (place : Place)
  | file (bytes : Bytes)
  deriving DecidableEq, Repr

namespace Directory

/-- The bytes of a file. -/
def file? (directory : Directory) (name : String) : Option Bytes :=
  directory.files.lookup name

/-- The directory with a file written, over the one of that name if there is one. -/
def put (name : String) (bytes : Bytes) (directory : Directory) : Directory :=
  if (directory.file? name).isSome then
    ⟨directory.files.map fun entry => if entry.1 == name then (name, bytes) else entry⟩
  else ⟨directory.files ++ [(name, bytes)]⟩

/-- What a name stands for in a place. One point is the place itself and two are what is around
it; around the root there is the root again. -/
def entry (directory : Directory) (place : Place) (name : String) : Except FileError Entry :=
  if name = "." then .ok (.directory place)
  else if name = ".." then .ok (.directory .around)
  else if longestName < name.utf8ByteSize then .error .nameTooLong
  else
    match place, directory.file? name with
    | .here, some bytes => .ok (.file bytes)
    | _, _ => .error .missing

/-- Follows one name of a path on the way to others. -/
def enter (directory : Directory) (place : Place) (name : String) : Except FileError Place :=
  match directory.entry place name with
  | .ok (.directory next) => .ok next
  | .ok (.file _) => .error .notADirectory
  | .error error => .error error

/-- Follows a path up to its last name. A path without names leads to where it starts, as if its
last name were one point. -/
def follow (directory : Directory) (path : Path) : Except FileError (Place × String) := do
  let place ← path.names.dropLast.foldlM directory.enter path.start
  return (place, path.names.getLast?.getD ".")

/-- The bytes of the file that a path leads to. -/
def read (text : String) (directory : Directory) : Except FileError Bytes := do
  let path ← Path.ofText text
  let (place, name) ← directory.follow path
  match ← directory.entry place name with
  | .directory _ => throw .isADirectory
  | .file bytes => if path.endsInSlash then throw .notADirectory else return bytes

/-- The place and the name of the file to be written that a path leads to, which need not be there
yet. A path that ends in a slash asks for a directory, whatever its last name stands for. -/
def target (text : String) (directory : Directory) : Except FileError (Place × String) := do
  let path ← Path.ofText text
  let (place, name) ← directory.follow path
  if path.endsInSlash then throw .isADirectory
  match directory.entry place name with
  | .ok (.directory _) => throw .isADirectory
  | .ok (.file _) | .error .missing => return (place, name)
  | .error error => throw error

/-- The directory as a place that commands can work in. -/
def system : FileSystem (StateM Directory) where
  read path := fun directory => (directory.read path, directory)
  write path bytes := fun directory =>
    match directory.target path with
    | .ok (.here, name) => (.ok (), directory.put name bytes)
    | .ok (.around, _) => (.ok (), directory)
    | .error error => (.error error, directory)

/-- The files that are there now and were not before, or were different. -/
def changes (before after : Directory) : List (String × Bytes) :=
  after.files.filter fun entry => before.file? entry.1 != some entry.2

end Directory

end JavaClass.CommandLine
