/-
The exception handlers of a method, in the order in which they are tried. A handler guards the
offsets from a start up to, and without, an end. The first one that guards the place where an
exception was thrown and accepts its class is the one that gets it, so the order of a table is part
of its meaning.
-/

import JavaClass.Code.OffsetMap
import JavaClass.Pool.Resolution

namespace JavaClass

/-- One handler and what it guards. Without a catch type it accepts everything. -/
structure ExceptionRange where
  startPc : UInt16
  endPc : UInt16
  handlerPc : UInt16
  catchType : Option UInt16
  deriving DecidableEq, Repr

namespace ExceptionRange

/-- Whether an offset is guarded. -/
def covers (range : ExceptionRange) (pc : UInt16) : Bool := range.startPc ≤ pc && pc < range.endPc

/-- Whether the handler accepts an exception of class `thrown`. Whether a class is a subclass of
another is for `isSubclass` to say, which is asked for the thrown class and the caught one. -/
def accepts (pool : Pool) (isSubclass : String → String → Bool) (thrown : String)
    (range : ExceptionRange) : Except Error Bool :=
  match range.catchType with
  | none => .ok true
  | some index => do
    let caught ← pool.className index
    return caught == thrown || isSubclass thrown caught

/-- The range with all its offsets moved. -/
def move (map : OffsetMap) (range : ExceptionRange) : Except Error ExceptionRange := do
  let startPc ← map.move16 .rangeStart range.startPc
  let endPc ← map.move16 .rangeEnd range.endPc
  let handlerPc ← map.move16 .handler range.handlerPc
  return { range with startPc, endPc, handlerPc }

/-! ### In a file -/

/-- The bytes of a range. Zero stands for a missing catch type. -/
def write (range : ExceptionRange) : Bytes :=
  BigEndian.word16 range.startPc ++ BigEndian.word16 range.endPc ++
    BigEndian.word16 range.handlerPc ++ BigEndian.word16 (range.catchType.getD 0)

/-- Reads a range. -/
def read : Reader ExceptionRange := do
  let startPc ← Reader.u16
  let endPc ← Reader.u16
  let handlerPc ← Reader.u16
  let catchType ← Reader.u16
  return { startPc, endPc, handlerPc, catchType := if catchType = 0 then none else some catchType }

end ExceptionRange

/-- The handlers of a method, in the order in which they are tried. -/
abbrev ExceptionTable := List ExceptionRange

namespace ExceptionTable

/-- The handler that gets an exception of class `thrown` raised at `pc`. It is an error if the
class that a handler catches cannot be found out and none before that handler gets the exception. -/
def findHandler (pool : Pool) (isSubclass : String → String → Bool) (pc : UInt16)
    (thrown : String) : ExceptionTable → Except Error (Option ExceptionRange)
  | [] => .ok none
  | range :: rest =>
    if range.covers pc then
      match range.accepts pool isSubclass thrown with
      | .error error => .error error
      | .ok true => .ok (some range)
      | .ok false => findHandler pool isSubclass pc thrown rest
    else findHandler pool isSubclass pc thrown rest

/-- The table with all its offsets moved. -/
def move (map : OffsetMap) (table : ExceptionTable) : Except Error ExceptionTable :=
  table.mapM (ExceptionRange.move map)

/-- The bytes of a table. -/
def write (table : ExceptionTable) : Bytes := writeCounted ExceptionRange.write table

/-- Reads a table. -/
def read : Reader ExceptionTable := Reader.counted ExceptionRange.read

end ExceptionTable

end JavaClass
