/-
Class files. A class is its constant pool and, by indices into that pool, its name, its superclass,
its interfaces, its members and its attributes. Nothing here is sorted or normalised: a class is
kept in the order and with the duplicates that it was read with.
-/

import JavaClass.Attribute.Basic
import JavaClass.Flags

namespace JavaClass

/-- The version of the format that a file says it has. -/
structure Version where
  minor : UInt16
  major : UInt16
  deriving DecidableEq, Repr

/-- A field or a method: its flags, the indices of its name and descriptor, and its attributes. -/
structure Member (holder : FlagHolder) where
  flags : Flags holder
  name : UInt16
  descriptor : UInt16
  attributes : Attributes

/-- A field. -/
abbrev Field := Member .field

/-- A method. -/
abbrev Method := Member .method

namespace Member

/-- Whether a member has the given name and, if one is given, the given descriptor. -/
def isCalled {holder : FlagHolder} (pool : Pool) (name : String) (descriptor : Option String)
    (member : Member holder) : Bool :=
  pool.holdsText member.name name &&
    match descriptor with
    | none => true
    | some descriptor => pool.holdsText member.descriptor descriptor

/-- The first member that has the given name and, if one is given, the given descriptor. -/
def locate? {holder : FlagHolder} (pool : Pool) (name : String) (descriptor : Option String)
    (members : List (Member holder)) : Option (Member holder) :=
  members.find? (isCalled pool name descriptor)

end Member

namespace Field

/-- Whether the field belongs to the class and not to its instances. -/
def isStatic (field : Field) : Bool := field.flags.has FieldFlags.accStatic

end Field

namespace Method

/-- Whether the method is called on the class and not on an instance. -/
def isStatic (method : Method) : Bool := method.flags.has MethodFlags.accStatic

/-- The body of a method. -/
def body? (method : Method) : Option Body := Attributes.body? method.attributes

/-- The method with its body replaced. -/
def setBody (body : Body) (method : Method) : Method :=
  { method with attributes := Attributes.setBody body method.attributes }

end Method

/-- A class. -/
structure ClassFile where
  version : Version
  pool : Pool
  flags : ClassFlags
  thisClass : UInt16
  superClass : Option UInt16
  interfaces : List UInt16
  fields : List Field
  methods : List Method
  attributes : Attributes

namespace ClassFile

/-- A public class without members. -/
def create (major : UInt16) (name : String) (superName : Option String) :
    Except Error ClassFile :=
  let names : Interning (UInt16 × Option UInt16) := do
    let thisClass ← Pool.internClass name
    let superClass ← superName.mapM Pool.internClass
    return (thisClass, superClass)
  match names Pool.empty with
  | (.error error, _) => .error error
  | (.ok (thisClass, superClass), pool) =>
    .ok { version := ⟨0, major⟩, pool, flags := ClassFlags.accPublic.union ClassFlags.accSuper
          thisClass, superClass, interfaces := [], fields := [], methods := [], attributes := [] }

/-- The name of a class. -/
def name (file : ClassFile) : Except Error String := file.pool.className file.thisClass

/-- The name of the superclass, if there is one. -/
def superName (file : ClassFile) : Except Error (Option String) :=
  file.superClass.mapM file.pool.className

/-- The names of the interfaces. -/
def interfaceNames (file : ClassFile) : Except Error (List String) :=
  file.interfaces.mapM file.pool.className

/-- Whether the class is an interface. -/
def isInterface (file : ClassFile) : Bool := file.flags.has ClassFlags.accInterface

/-- The first field of the given name and, if one is given, the given descriptor. -/
def field? (file : ClassFile) (name : String) (descriptor : Option String) : Option Field :=
  Member.locate? file.pool name descriptor file.fields

/-- The first method of the given name and descriptor. -/
def method? (file : ClassFile) (name descriptor : String) : Option Method :=
  Member.locate? file.pool name (some descriptor) file.methods

/-- The class with the first method of the given name and descriptor changed. -/
def changeMethod (file : ClassFile) (name descriptor : String) (change : Method → Method) :
    ClassFile :=
  { file with methods := go file.methods }
where
  /-- The methods with the first one of that name changed. -/
  go : List Method → List Method
    | [] => []
    | method :: rest =>
      if method.isCalled file.pool name (some descriptor) then change method :: rest
      else method :: go rest

end ClassFile

end JavaClass
