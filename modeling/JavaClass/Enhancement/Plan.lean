/-
What to do to a class so that its fields can be watched. A plan names interfaces to implement,
fields to add, and fields to manage: a managed field gets accessor methods, and every direct use of
it elsewhere becomes a call of one of them. A model says which classes have a plan.
-/

import JavaClass.Code.FieldUse
import JavaClass.Flags
import JavaClass.Member

namespace JavaClass.Enhancement

/-- The names of the methods that stand in for the uses of a field. Uses in a direction without
an accessor stay as they are. -/
structure FieldAccessors where
  getter : Option String
  setter : Option String
  deriving DecidableEq, Repr

namespace FieldAccessors

/-- The customary names, which are the field's own with an ending. -/
def conventional (field : String) : FieldAccessors :=
  { getter := some (field ++ "$get"), setter := some (field ++ "$set") }

/-- The accessor for a direction. -/
def inDirection (accessors : FieldAccessors) : Direction → Option String
  | .read => accessors.getter
  | .write => accessors.setter

/-- The names of the accessors there are. -/
def names (accessors : FieldAccessors) : List String :=
  accessors.getter.toList ++ accessors.setter.toList

end FieldAccessors

/-- A field to add. -/
structure AddedField where
  name : String
  descriptor : String
  flags : FieldFlags
  deriving DecidableEq, Repr

/-- A field to manage: of all that have its name the first, or the first that has the given
descriptor as well. -/
structure ManagedField where
  name : String
  descriptor : Option String
  accessors : FieldAccessors
  deriving DecidableEq, Repr

/-- A field of a superclass, whose accessors are there already. -/
structure InheritedField where
  owner : String
  field : FieldKey
  isStatic : Bool
  deriving DecidableEq, Repr

/-- Everything to do to a class. -/
structure Plan where
  interfaces : List String
  addedFields : List AddedField
  managedFields : List ManagedField
  inheritedFields : List InheritedField
  deriving DecidableEq, Repr

namespace Plan

/-- The plan to do nothing. -/
def empty : Plan :=
  { interfaces := [], addedFields := [], managedFields := [], inheritedFields := [] }

/-- Whether there is nothing to do. Inherited fields are not done anything to. -/
def isEmpty (plan : Plan) : Bool :=
  plan.interfaces.isEmpty && plan.addedFields.isEmpty && plan.managedFields.isEmpty

/-- Whether a method of this name is one of the accessors that fields are used through. -/
def isAccessor (plan : Plan) (method : String) : Bool :=
  plan.managedFields.any fun field => field.accessors.names.contains method

end Plan

/-- Which classes are to be enhanced, and how. -/
abbrev Model := String → Option Plan

namespace Model

/-- The names of the fields that are managed in a class. -/
def managedFields (model : Model) (className : String) : List String :=
  match model className with
  | none => []
  | some plan => plan.managedFields.map ManagedField.name

end Model

end JavaClass.Enhancement
