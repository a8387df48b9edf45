/-
Stack map frames: for offsets where control may arrive from elsewhere, the types of the local
variables and of the operand stack there. A frame says where it applies as the distance to the
frame before, less one, and what it says as a change to that frame, in one of seven forms. The form
is kept, so that a table is written the way it was read.
-/

import JavaClass.Code.OffsetMap
import JavaClass.Reader

namespace JavaClass

/-! ### Types -/

/-- What is known of a value. -/
inductive VerificationType
  | top
  | integer
  | float
  | double
  | long
  | null
  | uninitializedThis
  /-- An instance of a class, by index. -/
  | object (type : UInt16)
  /-- What the instruction at an offset has created and nothing has initialised yet. -/
  | uninitialized (offset : UInt16)
  deriving DecidableEq, Repr

namespace VerificationType

/-- The type with the offset in it moved. -/
def move (map : OffsetMap) : VerificationType → Except Error VerificationType
  | .uninitialized offset => return .uninitialized (← map.move16 .uninitialized offset)
  | type => .ok type

/-- The bytes of a type. -/
def write : VerificationType → Bytes
  | .top => [0]
  | .integer => [1]
  | .float => [2]
  | .double => [3]
  | .long => [4]
  | .null => [5]
  | .uninitializedThis => [6]
  | .object type => 7 :: BigEndian.word16 type
  | .uninitialized offset => 8 :: BigEndian.word16 offset

/-- Reads a type. -/
def read : Reader VerificationType := do
  let tag ← Reader.u8
  match tag.toNat with
  | 0 => return .top
  | 1 => return .integer
  | 2 => return .float
  | 3 => return .double
  | 4 => return .long
  | 5 => return .null
  | 6 => return .uninitializedThis
  | 7 => return .object (← Reader.u16)
  | 8 => return .uninitialized (← Reader.u16)
  | _ => throw (.malformed (.unknownVerificationType tag))

end VerificationType

/-! ### Frames -/

/-- A frame in the form it has in a file. The extended forms say what their plain ones do and have
room for a greater distance. -/
inductive StackMapFrame
  | same (delta : UInt16)
  | sameLocals (delta : UInt16) (stack : VerificationType)
  | sameLocalsExtended (delta : UInt16) (stack : VerificationType)
  /-- The last `count` local variables are gone. -/
  | chop (delta : UInt16) (count : UInt8)
  | sameExtended (delta : UInt16)
  | append (delta : UInt16) (locals : List VerificationType)
  | full (delta : UInt16) (locals stack : List VerificationType)
  deriving DecidableEq, Repr

namespace StackMapFrame

/-- The distance to the frame before, less one; for a first frame its offset. -/
def delta : StackMapFrame → UInt16
  | .same delta | .sameLocals delta _ | .sameLocalsExtended delta _ | .chop delta _
  | .sameExtended delta | .append delta _ | .full delta _ _ => delta

/-- The greatest distance a plain form holds, and one more. -/
def compactLimit : UInt16 := 64

/-- The frame at another distance, in its extended form if the plain one has no room for it. -/
def withDelta (delta : UInt16) : StackMapFrame → StackMapFrame
  | .same _ => if compactLimit ≤ delta then .sameExtended delta else .same delta
  | .sameLocals _ stack =>
    if compactLimit ≤ delta then .sameLocalsExtended delta stack else .sameLocals delta stack
  | .sameLocalsExtended _ stack => .sameLocalsExtended delta stack
  | .chop _ count => .chop delta count
  | .sameExtended _ => .sameExtended delta
  | .append _ locals => .append delta locals
  | .full _ locals stack => .full delta locals stack

/-- The frame with the offsets in its types moved. -/
def moveTypes (map : OffsetMap) : StackMapFrame → Except Error StackMapFrame
  | .sameLocals delta stack => return .sameLocals delta (← stack.move map)
  | .sameLocalsExtended delta stack => return .sameLocalsExtended delta (← stack.move map)
  | .append delta locals => return .append delta (← locals.mapM (VerificationType.move map))
  | .full delta locals stack => do
    let locals ← locals.mapM (VerificationType.move map)
    return .full delta locals (← stack.mapM (VerificationType.move map))
  | frame => .ok frame

/-- The bytes of a frame. The first tells the form and, for some forms, a number with it. -/
def write : StackMapFrame → Bytes
  | .same delta => [delta.toUInt8]
  | .sameLocals delta stack => (64 + delta.toUInt8) :: stack.write
  | .sameLocalsExtended delta stack => 247 :: (BigEndian.word16 delta ++ stack.write)
  | .chop delta count => (251 - count) :: BigEndian.word16 delta
  | .sameExtended delta => 251 :: BigEndian.word16 delta
  | .append delta locals =>
    (251 + UInt8.ofNat locals.length) ::
      (BigEndian.word16 delta ++ locals.flatMap VerificationType.write)
  | .full delta locals stack =>
    255 :: (BigEndian.word16 delta ++ writeCounted VerificationType.write locals ++
      writeCounted VerificationType.write stack)

/-- Reads a frame. -/
def read : Reader StackMapFrame := do
  let tag ← Reader.u8
  if tag < 64 then return .same tag.toUInt16
  else if tag < 128 then return .sameLocals (tag - 64).toUInt16 (← VerificationType.read)
  else if tag < 247 then throw (.malformed (.reservedFrame tag))
  else
    let delta ← Reader.u16
    if tag == 247 then return .sameLocalsExtended delta (← VerificationType.read)
    else if tag < 251 then return .chop delta (251 - tag)
    else if tag == 251 then return .sameExtended delta
    else if tag < 255 then
      return .append delta (← Reader.many VerificationType.read (tag - 251).toNat)
    else
      let locals ← Reader.counted VerificationType.read
      return .full delta locals (← Reader.counted VerificationType.read)

end StackMapFrame

/-! ### Tables -/

/-- The frames of a method, in the order of their offsets. -/
abbrev StackMap := List StackMapFrame

namespace StackMap

/-- The offset of a frame that stands behind one at `previous`. -/
def offsetBehind (previous : Option Nat) (frame : StackMapFrame) : Nat :=
  match previous with
  | none => frame.delta.toNat
  | some previous => previous + frame.delta.toNat + 1

/-- The distance that takes a frame behind one at `previous` to `offset`, as far as two bytes have
room for it. -/
def deltaBehind (previous : Option Nat) (offset : Nat) : UInt16 :=
  match previous with
  | none => UInt16.ofNat offset
  | some previous => UInt16.ofNat offset - UInt16.ofNat previous - 1

/-- The offsets of frames behind one at `previous`, after those already `seen` in reverse order. -/
def offsetsBehind (previous : Option Nat) (seen : List Nat) : StackMap → List Nat
  | [] => seen.reverse
  | frame :: rest =>
    let offset := offsetBehind previous frame
    offsetsBehind (some offset) (offset :: seen) rest

/-- The offsets at which the frames apply. -/
def offsets (table : StackMap) : List Nat := offsetsBehind none [] table

/-- Moves frames behind one that was at `oldPrevious` and is at `newPrevious`, after those already
`seen` in reverse order. -/
def moveBehind (map : OffsetMap) (oldPrevious newPrevious : Option Nat)
    (seen : List StackMapFrame) : StackMap → Except Error StackMap
  | [] => .ok seen.reverse
  | frame :: rest => do
    let old := offsetBehind oldPrevious frame
    let new ← map.move .frame old
    let moved ← (frame.withDelta (deltaBehind newPrevious new)).moveTypes map
    moveBehind map (some old) (some new) (moved :: seen) rest

/-- The table with every frame and every offset inside one moved. -/
def move (map : OffsetMap) (table : StackMap) : Except Error StackMap :=
  moveBehind map none none [] table

/-- The bytes of a table. -/
def write (table : StackMap) : Bytes := writeCounted StackMapFrame.write table

/-- Reads a table. -/
def read : Reader StackMap := Reader.counted StackMapFrame.read

end StackMap

end JavaClass
