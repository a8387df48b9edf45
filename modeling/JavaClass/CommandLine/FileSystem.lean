/-
Files as commands see them: bytes under a path, to be read or to be written. What stands in the way
of either has one of a few causes. A directory in memory and the files of a machine share these,
and with them the words that a failure is told in.
-/

import JavaClass.Bytes

namespace JavaClass.CommandLine

/-- Why a file cannot be read or written. -/
inductive FileError
  /-- The path leads nowhere. -/
  | missing
  /-- The path leads through a file. -/
  | notADirectory
  /-- The path leads to a directory, where a file is needed. -/
  | isADirectory
  /-- The path, or a name in it, is longer than any can be. -/
  | nameTooLong
  | other (reason : String)
  deriving DecidableEq, Repr

/-- The wording of a file error. Each cause has a number by which the system knows it. -/
def FileError.message : FileError → String
  | .missing => "No such file or directory (os error 2)"
  | .notADirectory => "Not a directory (os error 20)"
  | .isADirectory => "Is a directory (os error 21)"
  | .nameTooLong => "File name too long (os error 36)"
  | .other reason => reason

/-- A place with files in it. Both operations say why they fail, if they do. -/
structure FileSystem (m : Type → Type) where
  read : String → m (Except FileError Bytes)
  write : String → Bytes → m (Except FileError Unit)

end JavaClass.CommandLine
