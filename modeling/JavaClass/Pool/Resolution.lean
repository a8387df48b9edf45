/-
Following the references inside a pool. Every look-up names the kind of constant it needs and
fails, saying so, if the slot holds another or none.
-/

import JavaClass.Pool.Basic

namespace JavaClass

/-- A reference to a member with every index followed. -/
structure MemberReference where
  owner : String
  name : String
  descriptor : String
  deriving DecidableEq, Repr

/-- The reference as listings show it. -/
def MemberReference.render (reference : MemberReference) : String :=
  reference.owner ++ "." ++ reference.name ++ ":" ++ reference.descriptor

namespace Pool

variable (pool : Pool)

/-- What `select` takes from the constant at an index, which must be of the expected sort. -/
def lookup (expected : ExpectedConstant) (select : Constant → Option α) (index : UInt16) :
    Except Error α :=
  match pool.get index with
  | .error error => .error error
  | .ok constant =>
    match select constant with
    | some found => .ok found
    | none => .error (.kindMismatch index expected constant.kind)

/-- The bytes of a text. -/
def utf8 : UInt16 → Except Error Bytes :=
  pool.lookup (.only .utf8) fun | .utf8 bytes => some bytes | _ => none

/-- The index of the name of a class. -/
def classEntry : UInt16 → Except Error UInt16 :=
  pool.lookup (.only .className) fun | .className name => some name | _ => none

/-- The indices of a name and a descriptor. -/
def nameAndTypeEntry : UInt16 → Except Error (UInt16 × UInt16) :=
  pool.lookup (.only .nameAndType) fun
    | .nameAndType name descriptor => some (name, descriptor)
    | _ => none

/-- The bits of an integer. -/
def integer : UInt16 → Except Error UInt32 :=
  pool.lookup (.only .integer) fun | .integer bits => some bits | _ => none

/-- The bits of a float. -/
def float : UInt16 → Except Error UInt32 :=
  pool.lookup (.only .float) fun | .float bits => some bits | _ => none

/-- The bits of a long. -/
def long : UInt16 → Except Error UInt64 :=
  pool.lookup (.only .long) fun | .long bits => some bits | _ => none

/-- The bits of a double. -/
def double : UInt16 → Except Error UInt64 :=
  pool.lookup (.only .double) fun | .double bits => some bits | _ => none

/-- The indices of the owner and of the name and type of a member. -/
def memberEntry : UInt16 → Except Error (UInt16 × UInt16) :=
  pool.lookup .member fun
    | .field owner nameAndType | .method owner nameAndType
    | .interfaceMethod owner nameAndType => some (owner, nameAndType)
    | _ => none

/-- A text. -/
def text (index : UInt16) : Except Error String := do
  let bytes ← pool.utf8 index
  match Text.ModifiedUtf8.decode bytes with
  | .ok text => return text
  | .error reason => throw (.malformed (.undecodableText reason))

/-- A text as it can be shown, whatever its bytes. -/
def lossyText (index : UInt16) : Except Error String := do
  return Text.ModifiedUtf8.decodeLossy (← pool.utf8 index)

/-- Whether the text at an index has the bytes that `wanted` is written as. -/
def isText (index : UInt16) (wanted : String) : Except Error Bool := do
  return (← pool.utf8 index) == Text.ModifiedUtf8.encode wanted

/-- Whether there is a text at an index and it has the bytes that `wanted` is written as. -/
def holdsText (index : UInt16) (wanted : String) : Bool := pool.isText index wanted matches .ok true

/-- The name of a class. -/
def className (index : UInt16) : Except Error String := do
  pool.text (← pool.classEntry index)

/-- A name and a descriptor. -/
def nameAndType (index : UInt16) : Except Error (String × String) := do
  let (name, descriptor) ← pool.nameAndTypeEntry index
  return (← pool.text name, ← pool.text descriptor)

/-- A member, its name and descriptor being followed before its owner. -/
def memberReference (index : UInt16) : Except Error MemberReference := do
  let (owner, nameAndType) ← pool.memberEntry index
  let (name, descriptor) ← pool.nameAndType nameAndType
  return { owner := ← pool.className owner, name, descriptor }

/-- Whether the references inside one constant lead to constants of the kinds they need. -/
def checkConstant : Constant → Except Error Unit
  | .className name | .string name | .methodType name | .module name | .package name => do
    discard (pool.utf8 name)
  | .field owner nameAndType | .method owner nameAndType
  | .interfaceMethod owner nameAndType => do
    discard (pool.classEntry owner)
    discard (pool.nameAndTypeEntry nameAndType)
  | .nameAndType name descriptor => do
    discard (pool.utf8 name)
    discard (pool.utf8 descriptor)
  | .methodHandle _ reference => discard (pool.get reference)
  | .dynamic _ nameAndType | .invokeDynamic _ nameAndType =>
    discard (pool.nameAndTypeEntry nameAndType)
  | .utf8 _ | .integer _ | .float _ | .long _ | .double _ | .reserved => .ok ()

/-- Whether all references inside the pool lead to constants of the kinds they need. -/
def checkReferences : Except Error Unit := pool.slots.toList.forM pool.checkConstant

end Pool

end JavaClass
