/-
Everything that can go wrong with a class file or an edit of one. An error is its cause, with the
numbers and names that belong to it; `Error.message` alone knows the wording, so that two causes
can be told apart without reading text.
-/

import JavaClass.Bytes
import JavaClass.Descriptor
import JavaClass.Pool.Kind
import JavaClass.Text.ModifiedUtf8

namespace JavaClass

/-- The ways in which bytes fail to be a class file, running out of them apart. -/
inductive Malformation
  | unknownTag (tag : UInt8)
  | undecodableText (reason : Text.ModifiedUtf8.DecodeError)
  | reservedConstant
  | emptyPool
  | constantPastEnd (kind : ConstantKind) (count : Nat)
  | severalBodies (method : String) (bodies : Nat)
  | badMagic (magic : UInt32)
  | unsupportedVersion (major minor : UInt16)
  | extraBytes (count : Nat)
  | namelessAttribute
  | shortAttribute (name : String)
  | longAttribute (name : String) (unread : Nat)
  | unknownVerificationType (tag : UInt8)
  | reservedFrame (tag : UInt8)
  | longCode (length : Nat)
  | crossedSwitchBounds (offset : Nat) (low high : Int)
  | negativePairCount (offset : Nat)
  | cutInstruction (offset : Nat)
  deriving DecidableEq, Repr

/-- The longest code a method may have. -/
def longestCode : Nat := 65535

/-- The wording of a malformation. -/
def Malformation.message : Malformation → String
  | .unknownTag tag => s!"{tag.toNat} is an unknown constant pool tag"
  | .undecodableText reason => s!"bad modified utf8: {reason.message}"
  | .reservedConstant => "cannot add a reserved slot"
  | .emptyPool => "constant pool count of 0"
  | .constantPastEnd kind count =>
    s!"{kind.label} constant in the last slot of a pool of {count}"
  | .severalBodies method bodies => s!"method {method} has {bodies} Code attributes"
  | .badMagic magic => "invalid magic value 0x" ++ Text.hexadecimal 8 magic.toNat
  | .unsupportedVersion major minor =>
    s!"unsupported class file version {major.toNat}.{minor.toNat}"
  | .extraBytes count => s!"classfile has {count} extra bytes at the end"
  | .namelessAttribute => "raw attributes need an explicit name, use Attribute::raw"
  | .shortAttribute name => s!"{name} attribute is shorter than its contents"
  | .longAttribute name unread => s!"{name} attribute has {unread} unread bytes"
  | .unknownVerificationType tag => s!"unknown verification type tag {tag.toNat}"
  | .reservedFrame tag => s!"reserved stack map frame type {tag.toNat}"
  | .longCode length => s!"code length {length} is above the limit of {longestCode}"
  | .crossedSwitchBounds offset low high =>
    s!"tableswitch at {offset} has low {low} above high {high}"
  | .negativePairCount offset => s!"lookupswitch at {offset} has a negative pair count"
  | .cutInstruction offset => s!"instruction at {offset} runs past the end of the code"

/-- What an offset was used for when it turned out not to begin an instruction. -/
inductive OffsetUse
  | targetOutside (instruction : Nat)
  | targetOf (instruction : Nat)
  | target
  | edit
  | lineEntry
  | variableStart
  | variableEnd
  | frame
  | uninitialized
  | rangeStart
  | rangeEnd
  | handler
  | named (use : String)
  deriving DecidableEq, Repr

/-- How messages call the use of an offset. -/
def OffsetUse.label : OffsetUse → String
  | .targetOutside instruction =>
    s!"branch target of the instruction at {instruction} is outside the code"
  | .targetOf instruction => s!"branch target of the instruction at {instruction}"
  | .target => "branch target"
  | .edit => "edit position"
  | .lineEntry => "line number entry"
  | .variableStart => "local variable start"
  | .variableEnd => "local variable end"
  | .frame => "stack map frame"
  | .uninitialized => "uninitialized verification type"
  | .rangeStart => "exception range start"
  | .rangeEnd => "exception range end"
  | .handler => "exception handler"
  | .named use => use

mutual

/-- Why an operation on a class file failed. -/
inductive Error
  | malformed (malformation : Malformation)
  | truncated (shortage : OutOfBytes)
  | indexOutOfRange (index : UInt16) (size : Nat)
  | kindMismatch (index : UInt16) (expected : ExpectedConstant) (found : ConstantKind)
  | poolOverflow
  | constantTooLong (length : Nat)
  | invalidOpcode (opcode : UInt8) (offset : Nat)
  | invalidOffset (offset : Nat) (use : OffsetUse)
  | unsupportedEdit (refusal : EditRefusal)
  | codeTooLarge (length : Nat)
  | duplicateMember (name descriptor : String)
  | fieldNotFound (name : String) (descriptor : Option String)
  | methodNotFound (name descriptor : String)
  | invalidDescriptor (descriptor : String) (reason : DescriptorError)

/-- Why an edit of code was refused. -/
inductive EditRefusal
  | replacedTwice (offset : Nat)
  | undecodable (offset : Nat) (reason : Error)
  | containsBranch (offset branch : Nat)
  | needsFrame (offset : Nat)
  | other (reason : String)

end

deriving instance DecidableEq, Repr for Error, EditRefusal

/-- One word for an error, whatever it is about. -/
def Error.label : Error → String
  | .malformed _ => "MalformedClassFile"
  | .truncated _ => "TruncatedInput"
  | .indexOutOfRange _ _ => "IndexOutOfRange"
  | .kindMismatch _ _ _ => "ConstantKindMismatch"
  | .poolOverflow => "PoolOverflow"
  | .constantTooLong _ => "ConstantTooLong"
  | .invalidOpcode _ _ => "InvalidOpcode"
  | .invalidOffset _ _ => "InvalidOffset"
  | .unsupportedEdit _ => "UnsupportedEdit"
  | .codeTooLarge _ => "CodeTooLarge"
  | .duplicateMember _ _ => "DuplicateMember"
  | .fieldNotFound _ _ => "FieldNotFound"
  | .methodNotFound _ _ => "MethodNotFound"
  | .invalidDescriptor _ _ => "InvalidDescriptor"

mutual

/-- The wording of an error. -/
def Error.message : Error → String
  | .malformed malformation => s!"malformed class file: {malformation.message}"
  | .truncated shortage => s!"truncated input: {shortage.message}"
  | .indexOutOfRange index size =>
    s!"constant pool index {index.toNat} is out of range (pool has {size} slots)"
  | .kindMismatch index expected found =>
    s!"constant pool entry {index.toNat} is {found.label}, expected {expected.label}"
  | .poolOverflow => "constant pool cannot hold more than 65535 slots"
  | .constantTooLong length =>
    s!"utf8 constant of {length} bytes exceeds the 65535 byte limit"
  | .invalidOpcode opcode offset =>
    s!"invalid opcode {Text.quotedByte opcode} at offset {offset}"
  | .invalidOffset offset use =>
    s!"offset {offset} ({use.label}) is not an instruction boundary"
  | .unsupportedEdit refusal => s!"unsupported edit: {refusal.message}"
  | .codeTooLarge length => s!"code length {length} exceeds the {longestCode} byte limit"
  | .duplicateMember name descriptor => s!"member {name}:{descriptor} already exists"
  | .fieldNotFound name descriptor =>
    let field := match descriptor with
      | some descriptor => name ++ ":" ++ descriptor
      | none => name
    s!"field {field} does not resolve in the class or its known ancestry"
  | .methodNotFound name descriptor => s!"method {name}{descriptor} not found"
  | .invalidDescriptor descriptor reason =>
    "invalid descriptor '" ++ descriptor ++ "': " ++ reason.message

/-- The wording of a refused edit. -/
def EditRefusal.message : EditRefusal → String
  | .replacedTwice offset => s!"the instruction at {offset} is replaced twice"
  | .undecodable offset reason =>
    s!"code for the edit at {offset} does not decode: {reason.message}"
  | .containsBranch offset branch =>
    s!"code for the edit at {offset} contains a branch at {branch}"
  | .needsFrame offset =>
    s!"the conditional branch at {offset} needs promotion, which requires a new stack map frame"
  | .other reason => reason

end

end JavaClass
