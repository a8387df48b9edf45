/-
Comparing attributes. Every field of every table is compared on its own, except that stack map
frames are compared and shown as a whole.
-/

import JavaClass.Attribute.Basic
import JavaClass.Comparison.Mismatch
import JavaClass.Comparison.Shown
import JavaClass.Text.Quoted

namespace JavaClass

/-! ### Showing frames -/

/-- A type as a comparison shows it. -/
def VerificationType.shown : VerificationType → String
  | .top => "Top"
  | .integer => "Integer"
  | .float => "Float"
  | .double => "Double"
  | .long => "Long"
  | .null => "Null"
  | .uninitializedThis => "UninitializedThis"
  | .object type => Shown.record "Object" [("class", Shown.word type)]
  | .uninitialized offset => Shown.record "Uninitialized" [("offset", Shown.word offset)]

/-- A frame as a comparison shows it. -/
def StackMapFrame.shown (frame : StackMapFrame) : String :=
  let types := Shown.list VerificationType.shown
  let distance := ("offset_delta", Shown.word frame.delta)
  match frame with
  | .same _ => Shown.record "Same" [distance]
  | .sameLocals _ stack =>
    Shown.record "SameLocals1StackItem" [distance, ("stack", stack.shown)]
  | .sameLocalsExtended _ stack =>
    Shown.record "SameLocals1StackItemExtended" [distance, ("stack", stack.shown)]
  | .chop _ count => Shown.record "Chop" [distance, ("k", toString count.toNat)]
  | .sameExtended _ => Shown.record "SameExtended" [distance]
  | .append _ locals => Shown.record "Append" [distance, ("locals", types locals)]
  | .full _ locals stack =>
    Shown.record "Full" [distance, ("locals", types locals), ("stack", types stack)]

/-! ### Comparing tables -/

/-- Compares two words. -/
def Comparison.words (segment : String) : UInt16 → UInt16 → Comparison :=
  Comparison.values segment Shown.word

/-- Compares two exception ranges. -/
def ExceptionRange.compare (left right : ExceptionRange) : Comparison := do
  Comparison.words "start_pc" left.startPc right.startPc
  Comparison.words "end_pc" left.endPc right.endPc
  Comparison.words "handler_pc" left.handlerPc right.handlerPc
  Comparison.values "catch_type" (Shown.optional Shown.word) left.catchType right.catchType

/-- Compares two exception tables. -/
def ExceptionTable.compare (left right : ExceptionTable) : Comparison :=
  Comparison.sequences "handlers" ExceptionRange.compare left right

/-- Compares two entries of tables of lines. -/
def LineNumber.compare (left right : LineNumber) : Comparison := do
  Comparison.words "start_pc" left.startPc right.startPc
  Comparison.words "line_number" left.line right.line

/-- Compares two entries of tables of local variables. -/
def LocalVariable.compare (left right : LocalVariable) : Comparison := do
  Comparison.words "start_pc" left.startPc right.startPc
  Comparison.words "length" left.length right.length
  Comparison.words "name" left.name right.name
  Comparison.words "descriptor" left.descriptor right.descriptor
  Comparison.words "index" left.slot right.slot

/-- Compares the frames of two stack maps in pairs, the first of which are at `index`. -/
def StackMap.compareFrom (index : Nat) : StackMap → StackMap → Comparison
  | left :: lefts, right :: rights => do
    Comparison.values s!"frames[{index}]" StackMapFrame.shown left right
    compareFrom (index + 1) lefts rights
  | _, _ => .ok ()

/-- Compares two stack maps. -/
def StackMap.compare (left right : StackMap) : Comparison := do
  Comparison.values "frames.len()" toString left.length right.length
  compareFrom 0 left right

/-! ### Comparing attributes -/

mutual

/-- Compares two attributes. -/
def Attribute.compare : Attribute → Attribute → Comparison
  | ⟨leftName, left⟩, ⟨rightName, right⟩ => do
    Comparison.words "name" leftName rightName
    left.compare right

/-- Compares two contents. -/
def Content.compare : Content → Content → Comparison
  | .code left, .code right => (left.compare right).within "Code"
  | .exceptions left, .exceptions right =>
    (Comparison.values "classes" (Shown.list Shown.word) left right).within "Exceptions"
  | .lineNumbers left, .lineNumbers right =>
    (Comparison.sequences "entries" LineNumber.compare left right).within "LineNumberTable"
  | .localVariables left, .localVariables right =>
    (Comparison.sequences "entries" LocalVariable.compare left right).within
      "LocalVariableTable"
  | .localVariableTypes left, .localVariableTypes right =>
    (Comparison.sequences "entries" LocalVariable.compare left right).within
      "LocalVariableTypeTable"
  | .stackMap left, .stackMap right => (StackMap.compare left right).within "StackMapTable"
  | .sourceFile left, .sourceFile right =>
    (Comparison.words "index" left right).within "SourceFile"
  | .constantValue left, .constantValue right =>
    (Comparison.words "index" left right).within "ConstantValue"
  | .synthetic, .synthetic => .ok ()
  | .deprecated, .deprecated => .ok ()
  | .raw left, .raw right =>
    (Comparison.values "bytes" Text.Quoted.bytes left right).within "Raw"
  | left, right => .error ⟨["kind"], Text.Quoted.text left.label, Text.Quoted.text right.label⟩

/-- Compares two method bodies. -/
def Body.compare : Body → Body → Comparison
  | ⟨leftStack, leftLocals, leftCode, leftHandlers, leftAttributes⟩,
    ⟨rightStack, rightLocals, rightCode, rightHandlers, rightAttributes⟩ => do
    Comparison.words "max_stack" leftStack rightStack
    Comparison.words "max_locals" leftLocals rightLocals
    Comparison.values "code" (Shown.list fun byte : UInt8 => toString byte.toNat)
      leftCode rightCode
    (ExceptionTable.compare leftHandlers rightHandlers).within "exception_table"
    Comparison.within "attributes" do
      Comparison.lengths leftAttributes.length rightAttributes.length
      Attributes.compareFrom 0 leftAttributes rightAttributes

/-- Compares attributes in pairs, the first of which are at `index`. -/
def Attributes.compareFrom (index : Nat) : List Attribute → List Attribute → Comparison
  | left :: lefts, right :: rights =>
    match left.compare right with
    | .error mismatch => .error (mismatch.within (Comparison.position index))
    | .ok () => Attributes.compareFrom (index + 1) lefts rights
  | _, _ => .ok ()

end

/-- Compares the attributes of two things. -/
def Attributes.compare (left right : Attributes) : Comparison :=
  Comparison.within "attributes" do
    Comparison.lengths left.length right.length
    Attributes.compareFrom 0 left right

end JavaClass
