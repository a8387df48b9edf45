/-
The program: the words it is called with, the files it is told of, and its output. What is shown
goes to standard output and a failure, as one line, to standard error.
-/

import JavaClass.CommandLine.Run

open JavaClass JavaClass.CommandLine

/-- The number of the cause of a failure. Some of the machine's operations give it with its sign
turned round. -/
def causeNumber (code : UInt32) : UInt32 := if code < 0x80000000 then code else -code

/-- The cause of a failure of the machine. -/
def fileErrorOf (error : IO.Error) : FileError :=
  match error with
  | .noFileOrDirectory .. => .missing
  | .inappropriateType _ code _ | .invalidArgument _ code _ =>
    match causeNumber code with
    | 20 => .notADirectory
    | 21 => .isADirectory
    | 36 => .nameTooLong
    | _ => .other (toString error)
  | _ => .other (toString error)

/-- The files of the machine. -/
def machineFiles : FileSystem IO where
  read path := do
    try return .ok (← IO.FS.readBinFile path).toList
    catch error => return .error (fileErrorOf error)
  write path bytes := do
    try return .ok (← IO.FS.writeBinFile path ⟨bytes.toArray⟩)
    catch error => return .error (fileErrorOf error)

/-- Runs the command that the words ask for. -/
def main (words : List String) : IO UInt32 := do
  match Arguments.parse? words with
  | none =>
    IO.eprintln "usage: print CLASS | verify CLASS... | enhance CLASS --output FILE [SETTINGS]"
    return usageExitCode
  | some arguments =>
    let outcome ← run machineFiles arguments
    IO.print outcome.shown
    if let some report := outcome.report then IO.eprintln ("ERROR " ++ report)
    return outcome.exitCode
