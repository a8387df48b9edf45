/-
Editing method bodies. When code moves, everything in the body that refers to it by offset moves
through the same map: exception ranges, lines, local variables and stack map frames. Either all of
it can be moved, or the edit fails and the body stays as it was.

Attributes that are kept as bytes may refer to code as well; nobody can tell, and they stay as they
are.
-/

import JavaClass.Attribute.Basic
import JavaClass.Code.Relocation

namespace JavaClass

/-- The content with every offset in it moved. -/
def Content.move (map : OffsetMap) : Content → Except Error Content
  | .lineNumbers table => return .lineNumbers (← table.move map)
  | .localVariables table => return .localVariables (← table.move map)
  | .localVariableTypes table => return .localVariableTypes (← table.move map)
  | .stackMap table => return .stackMap (← table.move map)
  | content => .ok content

/-- The attribute with every offset in it moved. -/
def Attribute.move (map : OffsetMap) (entry : Attribute) : Except Error Attribute := do
  return { entry with content := ← entry.content.move map }

/-- The attributes with all offsets in them moved. -/
def Attributes.move (map : OffsetMap) (attributes : Attributes) : Except Error Attributes :=
  attributes.mapM (Attribute.move map)

/-- What changes a body to produce an `α`. The body is handed on whether or not it succeeds. -/
abbrev Editing (α : Type) := ExceptT Error (StateM Body) α

namespace Body

/-- Applies edits to the code of a body and tells where everything went. A body with a stack map
needs a frame at every target, so no branch may be promoted in a way that makes a new one. -/
def edit (edits : List CodeEdit) : Editing OffsetMap := do
  let body ← get
  let relocation ← Code.relocate body.code edits body.stackMap?.isNone
  let handlers ← ExceptionTable.move relocation.map body.handlers
  let attributes ← Attributes.move relocation.map body.attributes
  set { body with code := relocation.code, handlers, attributes }
  return relocation.map

/-- The body with edits applied to its code, and where everything went. -/
def applyEdits (body : Body) (edits : List CodeEdit) : Except Error (Body × OffsetMap) :=
  match edit edits body with
  | (.ok map, edited) => .ok (edited, map)
  | (.error error, _) => .error error

end Body

end JavaClass
