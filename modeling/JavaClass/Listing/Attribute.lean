/-
Attributes in words. A method body lists its instructions, or says why it has none; an attribute
that is kept as bytes says only how many.
-/

import JavaClass.Attribute.Basic
import JavaClass.Listing.Instruction
import JavaClass.Listing.Line

namespace JavaClass

/-! ### Tables -/

/-- The lines of an exception table. -/
def ExceptionTable.lines (pool : Pool) (indent : Nat) (table : ExceptionTable) : List String :=
  Listing.line indent "Exception Table:" :: table.map fun range =>
    let caught := (range.catchType.map pool.describe).getD "any"
    Listing.line (indent + 2)
      (s!"[{range.startPc.toNat}, {range.endPc.toNat}) -> {range.handlerPc.toNat} " ++ caught)

/-- The lines of a table of lines. -/
def LineNumberTable.lines (indent : Nat) (table : LineNumberTable) : List String :=
  Listing.line indent "LineNumberTable:" :: table.map fun entry =>
    Listing.line (indent + 2) s!"line {entry.line.toNat}: {entry.startPc.toNat}"

/-- The lines of a table of local variables that is called `title`. -/
def LocalVariableTable.lines (pool : Pool) (title : String) (indent : Nat)
    (table : LocalVariableTable) : List String :=
  Listing.line indent (title ++ ":") :: table.map fun entry =>
    Listing.line (indent + 2)
      (s!"slot {entry.slot.toNat} " ++ pool.describe entry.name ++ " " ++
        pool.describe entry.descriptor ++ s!" [{entry.startPc.toNat}, {entry.endPc})")

/-- A type as listings show it. -/
def VerificationType.render (pool : Pool) : VerificationType → String
  | .top => "top"
  | .integer => "integer"
  | .float => "float"
  | .double => "double"
  | .long => "long"
  | .null => "null"
  | .uninitializedThis => "uninitializedthis"
  | .object type => pool.describe type
  | .uninitialized offset => s!"uninitialized({offset.toNat})"

/-- Types between brackets. -/
def VerificationType.renderAll (pool : Pool) (types : List VerificationType) : String :=
  "[" ++ String.intercalate ", " (types.map (VerificationType.render pool)) ++ "]"

/-- What a frame says, as listings show it. -/
def StackMapFrame.render (pool : Pool) : StackMapFrame → String
  | .same _ | .sameExtended _ => "same"
  | .sameLocals _ stack | .sameLocalsExtended _ stack =>
    "same locals, stack " ++ VerificationType.renderAll pool [stack]
  | .chop _ count => s!"chop {count.toNat}"
  | .append _ locals => "append " ++ VerificationType.renderAll pool locals
  | .full _ locals stack =>
    "full locals " ++ VerificationType.renderAll pool locals ++ " stack " ++
      VerificationType.renderAll pool stack

/-- The lines of a stack map. -/
def StackMap.lines (pool : Pool) (indent : Nat) (table : StackMap) : List String :=
  Listing.line indent s!"StackMapTable: {table.length} frames" ::
    (table.zip table.offsets).map fun (frame, offset) =>
      Listing.line (indent + 2) (s!"{offset}: " ++ frame.render pool)

/-- The lines of the instructions of a code array. -/
def Code.lines (pool : Pool) (indent : Nat) (code : Bytes) : List String :=
  match Code.decode code with
  | .ok instructions => instructions.map fun instruction =>
    Listing.line indent
      (Listing.column instruction.offset ++ ": " ++ instruction.render pool)
  | .error error => [Listing.line indent ("<undecodable: " ++ error.message ++ ">")]

/-! ### Attributes -/

mutual

/-- The lines of an attribute. -/
def Attribute.lines (pool : Pool) (indent : Nat) : Attribute → List String
  | ⟨name, content⟩ => content.lines pool indent name

/-- The lines of the content of an attribute whose name is at the index `name`. -/
def Content.lines (pool : Pool) (indent : Nat) (name : UInt16) : Content → List String
  | .code body => body.lines pool indent
  | .exceptions classes =>
    [Listing.line indent ("Exceptions: " ++ String.intercalate ", " (classes.map pool.describe))]
  | .lineNumbers table => LineNumberTable.lines indent table
  | .localVariables table => LocalVariableTable.lines pool "LocalVariableTable" indent table
  | .localVariableTypes table =>
    LocalVariableTable.lines pool "LocalVariableTypeTable" indent table
  | .stackMap table => StackMap.lines pool indent table
  | .sourceFile index => [Listing.line indent ("SourceFile: " ++ pool.describe index)]
  | .constantValue index => [Listing.line indent ("ConstantValue: " ++ pool.describe index)]
  | .synthetic => [Listing.line indent "Synthetic"]
  | .deprecated => [Listing.line indent "Deprecated"]
  | .raw bytes =>
    [Listing.line indent (pool.describe name ++ s!" ({bytes.length} bytes, not decoded)")]

/-- The lines of a method body. -/
def Body.lines (pool : Pool) (indent : Nat) : Body → List String
  | ⟨maxStack, maxLocals, code, handlers, attributes⟩ =>
    let title :=
      s!"Code: max_stack={maxStack.toNat} max_locals={maxLocals.toNat} length={code.length}"
    Listing.line indent title :: (Code.lines pool (indent + 2) code ++
      ((if handlers.isEmpty then [] else ExceptionTable.lines pool (indent + 2) handlers) ++
        Attributes.lines pool (indent + 2) attributes))

/-- The lines of attributes. -/
def Attributes.lines (pool : Pool) (indent : Nat) : List Attribute → List String
  | [] => []
  | entry :: rest => entry.lines pool indent ++ Attributes.lines pool indent rest

end

end JavaClass
