/-
What a compiler leaves behind for debuggers: the source lines of offsets and the names of local
variables. Nothing depends on these tables when code runs, but they refer to it by offset and have
to be moved with it.
-/

import JavaClass.Code.OffsetMap
import JavaClass.Reader

namespace JavaClass

/-! ### Lines -/

/-- The source line that begins at an offset. -/
structure LineNumber where
  startPc : UInt16
  line : UInt16
  deriving DecidableEq, Repr

/-- The entries of a table of lines, in any order. -/
abbrev LineNumberTable := List LineNumber

/-- The entry with its offset moved. -/
def LineNumber.move (map : OffsetMap) (entry : LineNumber) : Except Error LineNumber := do
  return { entry with startPc := ← map.move16 .lineEntry entry.startPc }

/-- The bytes of an entry. -/
def LineNumber.write (entry : LineNumber) : Bytes :=
  BigEndian.word16 entry.startPc ++ BigEndian.word16 entry.line

/-- Reads an entry. -/
def LineNumber.read : Reader LineNumber := do
  let startPc ← Reader.u16
  let line ← Reader.u16
  return { startPc, line }

namespace LineNumberTable

/-- The later of two entries, and the second if they begin at the same offset. -/
def later (first : Option LineNumber) (second : LineNumber) : Option LineNumber :=
  match first with
  | none => some second
  | some first => some (if second.startPc < first.startPc then first else second)

/-- The line of the code at `pc`: that of the last entry not behind it. -/
def lineAt (table : LineNumberTable) (pc : UInt16) : Option UInt16 :=
  ((table.filter (·.startPc ≤ pc)).foldl later none).map LineNumber.line

/-- The table with all its offsets moved. -/
def move (map : OffsetMap) (table : LineNumberTable) : Except Error LineNumberTable :=
  table.mapM (LineNumber.move map)

end LineNumberTable

/-! ### Local variables -/

/-- A local variable in a slot, for a stretch of code. The descriptor is the index of a type or, in
a table of generic types, of a signature. -/
structure LocalVariable where
  startPc : UInt16
  length : UInt16
  name : UInt16
  descriptor : UInt16
  slot : UInt16
  deriving DecidableEq, Repr

/-- The entries of a table of local variables. -/
abbrev LocalVariableTable := List LocalVariable

namespace LocalVariable

/-- The offset behind the stretch of code. -/
def endPc (entry : LocalVariable) : Nat := entry.startPc.toNat + entry.length.toNat

/-- The entry with both ends of its stretch moved. Their distance is kept as far as two bytes have
room for it. -/
def move (map : OffsetMap) (entry : LocalVariable) : Except Error LocalVariable := do
  let start ← map.move .variableStart entry.startPc.toNat
  let stop ← map.move .variableEnd entry.endPc
  return { entry with
    startPc := UInt16.ofNat start, length := UInt16.ofNat stop - UInt16.ofNat start }

/-- The bytes of an entry. -/
def write (entry : LocalVariable) : Bytes :=
  BigEndian.word16 entry.startPc ++ BigEndian.word16 entry.length ++
    BigEndian.word16 entry.name ++ BigEndian.word16 entry.descriptor ++
    BigEndian.word16 entry.slot

/-- Reads an entry. -/
def read : Reader LocalVariable := do
  let startPc ← Reader.u16
  let length ← Reader.u16
  let name ← Reader.u16
  let descriptor ← Reader.u16
  let slot ← Reader.u16
  return { startPc, length, name, descriptor, slot }

end LocalVariable

/-- The table with all its offsets moved. -/
def LocalVariableTable.move (map : OffsetMap) (table : LocalVariableTable) :
    Except Error LocalVariableTable :=
  table.mapM (LocalVariable.move map)

end JavaClass
