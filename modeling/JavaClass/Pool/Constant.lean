/-
Constants, and how each is written into a file: its tag, then its contents. Constants refer to
each other by the index of a slot. Numbers are kept as bits, so that two floating point constants
are the same constant exactly if their bits agree, and text is kept as the bytes of its encoding,
whether or not they are well formed.
-/

import JavaClass.Pool.Kind
import JavaClass.Reader

namespace JavaClass

/-- What a slot of the constant pool holds. -/
inductive Constant
  | utf8 (bytes : Bytes)
  | integer (bits : UInt32)
  | float (bits : UInt32)
  | long (bits : UInt64)
  | double (bits : UInt64)
  | className (name : UInt16)
  | string (text : UInt16)
  | field (owner nameAndType : UInt16)
  | method (owner nameAndType : UInt16)
  | interfaceMethod (owner nameAndType : UInt16)
  | nameAndType (name descriptor : UInt16)
  | methodHandle (use : UInt8) (reference : UInt16)
  | methodType (descriptor : UInt16)
  | dynamic (bootstrap nameAndType : UInt16)
  | invokeDynamic (bootstrap nameAndType : UInt16)
  | module (name : UInt16)
  | package (name : UInt16)
  /-- No constant: slot zero, and the slot behind every constant that takes two. -/
  | reserved
  deriving DecidableEq, Repr

namespace Constant

/-- The kind of a constant. -/
def kind : Constant → ConstantKind
  | .utf8 _ => .utf8
  | .integer _ => .integer
  | .float _ => .float
  | .long _ => .long
  | .double _ => .double
  | .className _ => .className
  | .string _ => .string
  | .field .. => .field
  | .method .. => .method
  | .interfaceMethod .. => .interfaceMethod
  | .nameAndType .. => .nameAndType
  | .methodHandle .. => .methodHandle
  | .methodType _ => .methodType
  | .dynamic .. => .dynamic
  | .invokeDynamic .. => .invokeDynamic
  | .module _ => .module
  | .package _ => .package
  | .reserved => .reserved

/-- How many slots a constant takes. -/
def width : Constant → Nat
  | .long _ | .double _ => 2
  | _ => 1

/-! ### Writing -/

/-- What follows the tag. -/
def contents : Constant → Bytes
  | .utf8 bytes => BigEndian.word16 (UInt16.ofNat bytes.length) ++ bytes
  | .integer bits | .float bits => BigEndian.word32 bits
  | .long bits | .double bits => BigEndian.word64 bits
  | .className index | .string index | .methodType index | .module index | .package index =>
    BigEndian.word16 index
  | .field first second | .method first second | .interfaceMethod first second
  | .nameAndType first second | .dynamic first second | .invokeDynamic first second =>
    BigEndian.word16 first ++ BigEndian.word16 second
  | .methodHandle use reference => use :: BigEndian.word16 reference
  | .reserved => []

/-- The bytes of a constant. A reserved slot has none. -/
def write (constant : Constant) : Bytes :=
  match constant.kind.tag? with
  | some tag => tag :: constant.contents
  | none => []

/-! ### Reading -/

/-- Reads two indices. -/
def readPair (make : UInt16 → UInt16 → Constant) : Reader Constant := do
  let first ← Reader.u16
  let second ← Reader.u16
  return make first second

/-- Reads what follows the tag of the given kind. -/
def readContents : ConstantKind → Reader Constant
  | .utf8 => do
    let length ← Reader.u16
    return .utf8 (← Reader.take length.toNat)
  | .integer => return .integer (← Reader.u32)
  | .float => return .float (← Reader.u32)
  | .long => return .long (← Reader.u64)
  | .double => return .double (← Reader.u64)
  | .className => return .className (← Reader.u16)
  | .string => return .string (← Reader.u16)
  | .field => readPair .field
  | .method => readPair .method
  | .interfaceMethod => readPair .interfaceMethod
  | .nameAndType => readPair .nameAndType
  | .methodHandle => do
    let use ← Reader.u8
    return .methodHandle use (← Reader.u16)
  | .methodType => return .methodType (← Reader.u16)
  | .dynamic => readPair .dynamic
  | .invokeDynamic => readPair .invokeDynamic
  | .module => return .module (← Reader.u16)
  | .package => return .package (← Reader.u16)
  | .reserved => return .reserved

/-- Reads a constant, tag first. -/
def read : Reader Constant := do
  let tag ← Reader.u8
  match ConstantKind.ofTag? tag with
  | none => throw (.malformed (.unknownTag tag))
  | some kind => readContents kind

end Constant

end JavaClass
