/-
Members named by what identifies them. Two members of one class may share a name as long as
their types differ, so it is the pair that names a member.
-/

import JavaClass.Descriptor

namespace JavaClass

/-- A member of a class: its simple name and its type. -/
structure MemberKey (Kind : Type) where
  name : String
  type : Kind
  deriving DecidableEq, Repr

/-- A field named by name and type. -/
abbrev FieldKey := MemberKey FieldType

/-- A method named by name and type. -/
abbrev MethodKey := MemberKey MethodType

/-- The field of that name whose type has that descriptor. -/
def FieldKey.parse (name descriptor : String) : Except DescriptorError FieldKey :=
  (FieldType.parse descriptor).map fun type => ⟨name, type⟩

/-- The method of that name whose type has that descriptor. -/
def MethodKey.parse (name descriptor : String) : Except DescriptorError MethodKey :=
  (MethodType.parse descriptor).map fun type => ⟨name, type⟩

/-- Constructors and static initialisers, which the verifier treats apart. -/
def MethodKey.isInitializer (method : MethodKey) : Bool :=
  method.name == "<init>" || method.name == "<clinit>"

/-- A field as listings name it. -/
def FieldKey.render (field : FieldKey) : String := field.name ++ ":" ++ field.type.descriptor

/-- A method as listings name it. -/
def MethodKey.render (method : MethodKey) : String := method.name ++ method.type.descriptor

end JavaClass
