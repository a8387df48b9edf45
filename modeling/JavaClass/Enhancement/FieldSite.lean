/-
Finding the uses of a field. A field is resolved first, to the class that declares it and to its
type; an instruction uses it if it has the right form for a static or an instance field and if its
constant names the field, through its declaring class or through the class the code is in.
-/

import JavaClass.Code.FieldUse
import JavaClass.Code.Instruction
import JavaClass.Descriptor
import JavaClass.Pool.Resolution

namespace JavaClass.Enhancement

/-- A field together with the class that declares it and has its accessors. -/
structure ResolvedField where
  owner : String
  name : String
  type : FieldType
  isStatic : Bool
  ownerIsInterface : Bool
  deriving DecidableEq, Repr

namespace ResolvedField

/-- The parameter through which an accessor gets the instance, if the field belongs to one. -/
def receiver (field : ResolvedField) : List FieldType :=
  if field.isStatic then [] else [.object field.owner]

/-- The type of the method that reads the field. -/
def getterType (field : ResolvedField) : MethodType :=
  { parameters := field.receiver, returns := field.type }

/-- The type of the method that writes the field. -/
def setterType (field : ResolvedField) : MethodType :=
  { parameters := field.receiver ++ [field.type], returns := .void }

/-- The type of the accessor for a direction. -/
def accessorType (field : ResolvedField) : Direction → MethodType
  | .read => field.getterType
  | .write => field.setterType

end ResolvedField

/-- A place in code where a field is used. -/
structure FieldSite where
  offset : Nat
  direction : Direction
  deriving DecidableEq, Repr

/-- The use of a field that an instruction makes, in code of the class `user`. It is an error if
the instruction uses a field of this sort through a constant that names none. -/
def FieldSite.of? (pool : Pool) (field : ResolvedField) (user : String)
    (instruction : Instruction) : Except Error (Option FieldSite) :=
  match FieldUse.ofOpcode? instruction.opcode, instruction.poolIndex? with
  | some use, some index =>
    if use.isStatic != field.isStatic then .ok none
    else do
      let reference ← pool.memberReference index
      let sameOwner := reference.owner == user || reference.owner == field.owner
      if sameOwner && reference.name == field.name &&
          reference.descriptor == field.type.descriptor then
        return some { offset := instruction.offset, direction := use.direction }
      else return none
  | _, _ => .ok none

/-- The uses of a field in code of the class `user`. -/
def FieldSite.findAll (pool : Pool) (field : ResolvedField) (user : String)
    (instructions : List Instruction) : Except Error (List FieldSite) := do
  return (← instructions.mapM (FieldSite.of? pool field user)).filterMap id

end JavaClass.Enhancement
