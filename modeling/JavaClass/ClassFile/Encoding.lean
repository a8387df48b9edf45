/-
Class files as bytes. A file begins with a magic number and a version; then come the constant pool,
the class itself, its members and its attributes, every list behind its length. A file is accepted
if what must be an index of a class, a name or a descriptor is one, and if nothing is left behind
the last attribute.
-/

import JavaClass.Attribute.Encoding
import JavaClass.ClassFile.Basic
import JavaClass.Pool.Description
import JavaClass.Pool.Encoding

namespace JavaClass

namespace ClassFile

/-- The number every class file begins with. -/
def magic : UInt32 := 0xCAFEBABE

/-- The oldest version of the format. -/
def oldestMajor : UInt16 := 45

/-- The newest version of the format that is read. -/
def newestMajor : UInt16 := 69

end ClassFile

/-! ### Writing -/

/-- The bytes of a member. -/
def Member.write {holder : FlagHolder} (member : Member holder) : Bytes :=
  BigEndian.word16 member.flags.bits ++ BigEndian.word16 member.name ++
    BigEndian.word16 member.descriptor ++ Attributes.write member.attributes

/-- The bytes of a class. -/
def ClassFile.write (file : ClassFile) : Bytes :=
  BigEndian.word32 ClassFile.magic ++ BigEndian.word16 file.version.minor ++
    BigEndian.word16 file.version.major ++ file.pool.write ++
    BigEndian.word16 file.flags.bits ++ BigEndian.word16 file.thisClass ++
    BigEndian.word16 (file.superClass.getD 0) ++
    writeCounted BigEndian.word16 file.interfaces ++ writeCounted Member.write file.fields ++
    writeCounted Member.write file.methods ++ Attributes.write file.attributes

/-! ### Reading -/

/-- Reads the version of the format, which must be one that is known. -/
def Version.read : Reader Version := do
  let minor ← Reader.u16
  let major ← Reader.u16
  if major < ClassFile.oldestMajor || ClassFile.newestMajor < major then
    throw (.malformed (.unsupportedVersion major minor))
  return { minor, major }

/-- Reads the index of a class. -/
def readClassIndex (pool : Pool) : Reader UInt16 := do
  let index ← Reader.u16
  discard (pool.classEntry index : Except Error UInt16)
  return index

/-- Reads the index of a class or, for none, zero. -/
def readOptionalClassIndex (pool : Pool) : Reader (Option UInt16) := do
  let index ← Reader.u16
  if index = 0 then return none
  discard (pool.classEntry index : Except Error UInt16)
  return some index

/-- Reads a member. -/
def Member.read {holder : FlagHolder} (pool : Pool) : Reader (Member holder) := do
  let flags ← Reader.u16
  let name ← Reader.u16
  let descriptor ← Reader.u16
  discard (pool.utf8 name : Except Error Bytes)
  discard (pool.utf8 descriptor : Except Error Bytes)
  let attributes ← Attributes.read pool
  return { flags := ⟨flags⟩, name, descriptor, attributes }

/-- Reads a method, which must not have more than one body. -/
def Method.read (pool : Pool) : Reader Method := do
  let method : Method ← Member.read pool
  let bodies := method.attributes.countP fun entry => entry.content.body?.isSome
  if 1 < bodies then throw (.malformed (.severalBodies (pool.describe method.name) bodies))
  return method

/-- Reads a class and leaves what comes behind it. -/
def ClassFile.readFront : Reader ClassFile := do
  let magic ← Reader.u32
  if magic ≠ ClassFile.magic then throw (.malformed (.badMagic magic))
  let version ← Version.read
  let pool ← Pool.read
  let flags ← Reader.u16
  let thisClass ← readClassIndex pool
  let superClass ← readOptionalClassIndex pool
  let interfaces ← Reader.counted (readClassIndex pool)
  let fields ← Reader.counted (Member.read pool)
  let methods ← Reader.counted (Method.read pool)
  let attributes ← Attributes.read pool
  return { version, pool, flags := ⟨flags⟩, thisClass, superClass, interfaces, fields, methods
           attributes }

/-- The class that a file holds. -/
def ClassFile.read (bytes : Bytes) : Except Error ClassFile :=
  match ClassFile.readFront bytes with
  | .error error => .error error
  | .ok (file, []) => .ok file
  | .ok (_, extra) => .error (.malformed (.extraBytes extra.length))

end JavaClass
