/-
Attributes: named blocks attached to classes, members and method bodies. The kinds that matter here
are kept as what they mean, every other one as its bytes. A method body is itself the content of an
attribute and has attributes of its own, so the three types are defined together.
-/

import JavaClass.Code.DebugTable
import JavaClass.Code.Decoding
import JavaClass.Code.ExceptionTable
import JavaClass.Code.StackMap

namespace JavaClass

mutual

/-- An attribute: the index of its name and its content. -/
structure Attribute where
  name : UInt16
  content : Content

/-- What an attribute holds. -/
inductive Content
  | code (body : Body)
  | exceptions (classes : List UInt16)
  | lineNumbers (table : LineNumberTable)
  | localVariables (table : LocalVariableTable)
  | localVariableTypes (table : LocalVariableTable)
  | stackMap (table : StackMap)
  | sourceFile (index : UInt16)
  | constantValue (index : UInt16)
  | synthetic
  | deprecated
  | raw (bytes : Bytes)

/-- The body of a method. -/
structure Body where
  maxStack : UInt16
  maxLocals : UInt16
  code : Bytes
  handlers : ExceptionTable
  attributes : List Attribute

end

/-- The attributes of something, in file order. -/
abbrev Attributes := List Attribute

namespace Content

/-- The name under which a content is stored; raw contents may have any other. -/
def storedName? : Content → Option String
  | .code _ => some "Code"
  | .exceptions _ => some "Exceptions"
  | .lineNumbers _ => some "LineNumberTable"
  | .localVariables _ => some "LocalVariableTable"
  | .localVariableTypes _ => some "LocalVariableTypeTable"
  | .stackMap _ => some "StackMapTable"
  | .sourceFile _ => some "SourceFile"
  | .constantValue _ => some "ConstantValue"
  | .synthetic => some "Synthetic"
  | .deprecated => some "Deprecated"
  | .raw _ => none

/-- How listings and comparisons call the kind of a content. -/
def label (content : Content) : String := content.storedName?.getD "Raw"

/-- The method body, if this is one. -/
def body? : Content → Option Body
  | .code body => some body
  | _ => none

/-- The stack map, if this is one. -/
def stackMap? : Content → Option StackMap
  | .stackMap table => some table
  | _ => none

/-- The table of lines, if this is one. -/
def lineNumbers? : Content → Option LineNumberTable
  | .lineNumbers table => some table
  | _ => none

end Content

namespace Attribute

/-- An attribute with a content that has a name of its own, which is put into the pool. -/
def named (content : Content) : Interning Attribute :=
  match content.storedName? with
  | none => throw (.malformed .namelessAttribute)
  | some name => return { name := ← Pool.internText name, content }

/-- An attribute of any name, which is put into the pool. -/
def raw (name : String) (bytes : Bytes) : Interning Attribute := do
  return { name := ← Pool.internText name, content := .raw bytes }

end Attribute

namespace Attributes

/-- The first attribute of a given name. -/
def find? (pool : Pool) (name : String) (attributes : Attributes) : Option Attribute :=
  List.find? (fun entry => pool.holdsText entry.name name) attributes

/-- The first method body. -/
def body? (attributes : Attributes) : Option Body :=
  attributes.findSome? fun entry => entry.content.body?

/-- The first stack map. -/
def stackMap? (attributes : Attributes) : Option StackMap :=
  attributes.findSome? fun entry => entry.content.stackMap?

/-- The attributes with the first method body replaced. -/
def setBody (body : Body) : Attributes → Attributes
  | [] => []
  | entry :: rest =>
    match entry.content with
    | .code _ => { entry with content := .code body } :: rest
    | _ => entry :: setBody body rest

end Attributes

namespace Body

/-- A body with nothing but code. -/
def ofCode (maxStack maxLocals : UInt16) (code : Bytes) : Body :=
  { maxStack, maxLocals, code, handlers := [], attributes := [] }

/-- The instructions of a body. -/
def instructions (body : Body) : Except Error (List Instruction) := Code.decode body.code

/-- The stack map of a body. -/
def stackMap? (body : Body) : Option StackMap := Attributes.stackMap? body.attributes

end Body

end JavaClass
