/-
Attributes in a file: the index of the name, the length of the content in four bytes, and the
content. The content is cut off as a whole before it is read, and has to be used up: too few bytes
inside are not a file that ends early but an attribute that contradicts its length.
-/

import JavaClass.Attribute.Basic

namespace JavaClass

/-! ### Writing -/

/-- Puts the index of a name and a length before a content. -/
def Attribute.frame (name : UInt16) (content : Bytes) : Bytes :=
  BigEndian.word16 name ++ BigEndian.word32 (UInt32.ofNat content.length) ++ content

mutual

/-- The bytes of an attribute. -/
def Attribute.write : Attribute → Bytes
  | ⟨name, content⟩ => Attribute.frame name content.write

/-- The bytes of a content. -/
def Content.write : Content → Bytes
  | .code body => body.write
  | .exceptions classes => writeCounted BigEndian.word16 classes
  | .lineNumbers table => writeCounted LineNumber.write table
  | .localVariables table | .localVariableTypes table => writeCounted LocalVariable.write table
  | .stackMap table => table.write
  | .sourceFile index | .constantValue index => BigEndian.word16 index
  | .synthetic | .deprecated => []
  | .raw bytes => bytes

/-- The bytes of a method body. -/
def Body.write : Body → Bytes
  | ⟨maxStack, maxLocals, code, handlers, attributes⟩ =>
    BigEndian.word16 maxStack ++ BigEndian.word16 maxLocals ++
      BigEndian.word32 (UInt32.ofNat code.length) ++ code ++ handlers.write ++
      BigEndian.word16 (UInt16.ofNat attributes.length) ++ Attributes.writeAll attributes

/-- The bytes of attributes one behind the other. -/
def Attributes.writeAll : List Attribute → Bytes
  | [] => []
  | entry :: rest => entry.write ++ Attributes.writeAll rest

end

/-- The bytes of attributes, their number first. -/
def Attributes.write (attributes : Attributes) : Bytes :=
  BigEndian.word16 (UInt16.ofNat attributes.length) ++ Attributes.writeAll attributes

/-! ### Reading -/

/-- Reads an attribute whose content is read as its name tells. -/
def Attribute.readWith (pool : Pool) (content : String → Reader Content) : Reader Attribute := do
  let name ← Reader.u16
  let length ← Reader.u32
  let bytes ← Reader.take length.toNat
  match pool.text name with
  | .error error => throw error
  | .ok kind =>
    match content kind bytes with
    | .error (.truncated _) => throw (.malformed (.shortAttribute kind))
    | .error error => throw error
    | .ok (content, []) => return { name, content }
    | .ok (_, unread) => throw (.malformed (.longAttribute kind unread.length))

/-- Reads a method body whose attributes are read by `entry`. -/
def Body.readWith (entry : Reader Attribute) : Reader Body := do
  let maxStack ← Reader.u16
  let maxLocals ← Reader.u16
  let length := (← Reader.u32).toNat
  if longestCode < length then throw (.malformed (.longCode length))
  let code ← Reader.take length
  let handlers ← ExceptionTable.read
  let attributes ← Reader.counted entry
  return { maxStack, maxLocals, code, handlers, attributes }

/-- Reads the content of an attribute of a given name, with method bodies nested at most `depth`
deep. A body takes more bytes than the attributes in it, so a depth above the number of bytes
is as good as any. -/
def Content.readWithin (pool : Pool) : Nat → String → Reader Content
  | 0, _ => fun bytes => Reader.short 1 bytes
  | depth + 1, name =>
    match name with
    | "Code" => do
      return .code (← Body.readWith (Attribute.readWith pool (Content.readWithin pool depth)))
    | "Exceptions" => return .exceptions (← Reader.counted Reader.u16)
    | "LineNumberTable" => return .lineNumbers (← Reader.counted LineNumber.read)
    | "LocalVariableTable" => return .localVariables (← Reader.counted LocalVariable.read)
    | "LocalVariableTypeTable" =>
      return .localVariableTypes (← Reader.counted LocalVariable.read)
    | "StackMapTable" => return .stackMap (← StackMap.read)
    | "SourceFile" => return .sourceFile (← Reader.u16)
    | "ConstantValue" => return .constantValue (← Reader.u16)
    | "Synthetic" => return .synthetic
    | "Deprecated" => return .deprecated
    | _ => return .raw (← Reader.remaining)

/-- Reads the content of an attribute of a given name. -/
def Content.read (pool : Pool) (name : String) : Reader Content := fun bytes =>
  Content.readWithin pool (bytes.length + 1) name bytes

/-- Reads an attribute. -/
def Attribute.read (pool : Pool) : Reader Attribute := Attribute.readWith pool (Content.read pool)

/-- Reads attributes. -/
def Attributes.read (pool : Pool) : Reader Attributes := Reader.counted (Attribute.read pool)

end JavaClass
