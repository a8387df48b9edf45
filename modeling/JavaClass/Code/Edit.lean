/-
Changes to code, addressed by the offsets it has before any of them. New code is put before an
instruction, or at the very end, or in place of an instruction; it must consist of whole
instructions and have no branches of its own.
-/

import JavaClass.Code.Decoding

namespace JavaClass

/-- A change to code. -/
inductive CodeEdit
  /-- New code before the instruction at an offset, which may also be the end. -/
  | insert (offset : Nat) (code : Bytes)
  /-- New code in place of the instruction at an offset. What led there leads to the new code. -/
  | replace (offset : Nat) (code : Bytes)
  deriving DecidableEq, Repr

namespace CodeEdit

/-- Where the change is. -/
def offset : CodeEdit → Nat
  | .insert offset _ | .replace offset _ => offset

/-- The new code. -/
def code : CodeEdit → Bytes
  | .insert _ code | .replace _ code => code

/-- Whether the new code stands in place of an instruction. -/
def isReplacement : CodeEdit → Bool
  | .insert .. => false
  | .replace .. => true

/-- Whether the new code can be put anywhere: it decodes on its own and does not branch. -/
def checkCode (edit : CodeEdit) : Except Error Unit :=
  match Code.decode edit.code with
  | .error error => .error (.unsupportedEdit (.undecodable edit.offset error))
  | .ok instructions =>
    match instructions.find? fun instruction => !instruction.isBranchFree with
    | some branch => .error (.unsupportedEdit (.containsBranch edit.offset branch.offset))
    | none => .ok ()

/-- Whether the edits can be made to code of `length` bytes whose instructions begin at `starts`,
given the offsets `replaced` by earlier ones. No instruction may be replaced twice. -/
def checkAll (starts : Std.ExtTreeSet Nat) (length : Nat) :
    List Nat → List CodeEdit → Except Error Unit
  | _, [] => .ok ()
  | replaced, edit :: rest => do
    let onInstruction := starts.contains edit.offset
    match edit with
    | .insert offset _ =>
      if !(onInstruction || offset == length) then throw (.invalidOffset offset .edit)
      edit.checkCode
      checkAll starts length replaced rest
    | .replace offset _ =>
      if !onInstruction then throw (.invalidOffset offset .edit)
      if replaced.contains offset then throw (.unsupportedEdit (.replacedTwice offset))
      edit.checkCode
      checkAll starts length (offset :: replaced) rest

end CodeEdit

/-- Edits sorted by where they are; those at one offset keep their order. -/
structure EditTable where
  groups : Std.ExtTreeMap Nat (List CodeEdit)

namespace EditTable

/-- Sorts edits by where they are. -/
def ofList (edits : List CodeEdit) : EditTable :=
  ⟨edits.foldr (fun edit groups =>
    groups.insert edit.offset (edit :: (groups[edit.offset]?).getD [])) ∅⟩

/-- The edits at an offset. -/
def editsAt (table : EditTable) (offset : Nat) : List CodeEdit := (table.groups[offset]?).getD []

/-- The code to put before the instruction at an offset, piece by piece. -/
def insertions (table : EditTable) (offset : Nat) : List Bytes :=
  ((table.editsAt offset).filter fun edit => !edit.isReplacement).map CodeEdit.code

/-- The code to put in place of the instruction at an offset. -/
def replacement? (table : EditTable) (offset : Nat) : Option Bytes :=
  ((table.editsAt offset).find? CodeEdit.isReplacement).map CodeEdit.code

end EditTable

end JavaClass
