/-
Running a command. Files are read and written through whatever offers itself as a file system, so
that what a command does can be told apart from where it does it. A command shows some text and
succeeds, or fails for one reason; texts shown before a failure stay shown.
-/

import JavaClass.ClassFile.Comparison
import JavaClass.CommandLine.Arguments
import JavaClass.CommandLine.FileSystem
import JavaClass.Enhancement.Enhance
import JavaClass.Listing.ClassFile
import JavaClass.Text.Terminal

namespace JavaClass.CommandLine

open Enhancement (FieldAccessors ManagedField Plan Reporting)

/-- What a command has shown, and why it failed, if it did. -/
structure Outcome where
  shown : String
  failure : Option String
  deriving DecidableEq, Repr

/-- The code a command ends with. -/
def Outcome.exitCode (outcome : Outcome) : UInt32 := if outcome.failure.isSome then 1 else 0

/-- The failure, if there was one, as it is told at a terminal. -/
def Outcome.report (outcome : Outcome) : Option String := outcome.failure.map Text.Terminal.text

/-- The code for a command line that is not valid. -/
def usageExitCode : UInt32 := 2

/-- An error with what it is due to: that there were too few bytes is told once for the file and
once for the read that failed. -/
def errorChain : Error → String
  | .truncated shortage => (Error.truncated shortage).message ++ ": " ++ shortage.message
  | error => error.message

/-- A failure in something that was to be done to a file. -/
def failureTo (action file reason : String) : String :=
  s!"could not {action} {file}: " ++ reason

/-! ### Commands on bytes -/

/-- The class that bytes hold. -/
def parseClass (file : String) (bytes : Bytes) : Except String ClassFile :=
  match ClassFile.read bytes with
  | .ok parsed => .ok parsed
  | .error error => .error (failureTo "parse" file (errorChain error))

/-- The first position at which two byte strings differ, if there is one before either ends. -/
def firstDifference (position : Nat) : Bytes → Bytes → Option Nat
  | left :: lefts, right :: rights =>
    if left != right then some position else firstDifference (position + 1) lefts rights
  | _, _ => none

/-- Whether a class is written the way it was read, and read back the way it was written. -/
def verifyClass (file : String) (bytes : Bytes) : Except String Unit := do
  let parsed ← parseClass file bytes
  let written := parsed.write
  if let some position := firstDifference 0 bytes written then
    throw s!"rewritten bytes differ from the input at offset {position}"
  if bytes.length != written.length then
    throw s!"rewritten class is {written.length} bytes, input is {bytes.length}"
  match ClassFile.read written with
  | .error error => throw (errorChain error)
  | .ok reread =>
    match parsed.compare reread with
    | .ok () => return ()
    | .error mismatch => throw ("reread class differs: " ++ mismatch.message)

/-- The plan that settings describe. Managed fields get accessors by their customary names. -/
def planOf (interfaces : List String) (fields : List Enhancement.AddedField)
    (managed : List String) : Plan :=
  { interfaces, addedFields := fields, inheritedFields := []
    managedFields := managed.map fun name =>
      { name, descriptor := none, accessors := FieldAccessors.conventional name } }

/-- The bytes of a class with a plan carried out. -/
def enhanceBytes (verbose : Bool) (plan : Plan) (file : String) (bytes : Bytes) :
    Except String Bytes :=
  let reporting : Reporting := if verbose then .detailed else .progress
  match Enhancement.enhance reporting plan bytes with
  | .ok enhanced => .ok enhanced
  | .error error => .error (failureTo "enhance" file (errorChain error))

/-! ### Commands on files -/

section

variable {m : Type → Type} [Monad m] (system : FileSystem m)

/-- The bytes of a file. -/
def readFile (file : String) : m (Except String Bytes) := do
  match ← system.read file with
  | .ok bytes => return .ok bytes
  | .error error => return .error (failureTo "read" file error.message)

/-- Shows the listing of a class file. -/
def runPrint (file : String) : m Outcome := do
  match (← readFile system file) >>= parseClass file with
  | .ok parsed => return { shown := parsed.listing, failure := none }
  | .error reason => return { shown := "", failure := some reason }

/-- Checks one class file, and says how that went. -/
def runVerifyOne (file : String) : m (Bool × String) := do
  match (← readFile system file) >>= verifyClass file with
  | .ok () => return (true, s!"ok {file}\n")
  | .error reason => return (false, s!"FAILED {file}: " ++ reason ++ "\n")

/-- Checks class files one after the other. -/
def runVerify (files : List String) : m Outcome := do
  let results ← files.mapM (runVerifyOne system)
  let failures := results.countP fun result => !result.1
  return { shown := String.join (results.map Prod.snd)
           failure := if failures = 0 then none
             else some s!"{failures} of {files.length} classes failed verification" }

/-- Carries a plan out on a class file and writes the result. -/
def runEnhance (verbose : Bool) (file output : String) (plan : Plan) : m Outcome := do
  match (← readFile system file) >>= enhanceBytes verbose plan file with
  | .error reason => return { shown := "", failure := some reason }
  | .ok enhanced =>
    match ← system.write output enhanced with
    | .ok () => return { shown := "", failure := none }
    | .error error =>
      return { shown := "", failure := some (failureTo "write" output error.message) }

/-- Runs a command. -/
def run (arguments : Arguments) : m Outcome :=
  match arguments.command with
  | .print file => runPrint system file
  | .verify files => runVerify system files
  | .enhance file output interfaces fields managed =>
    runEnhance system arguments.verbose file output (planOf interfaces fields managed)

end

end JavaClass.CommandLine
