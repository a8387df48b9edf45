/-
Where the instructions went. Moving code about leaves a map from the old offset of every
instruction, and from the end of the code, to the new one. Everything that refers to code by
offset is moved through it, and an offset that was not the beginning of an instruction has no
new one.
-/

import Std.Data.ExtTreeMap
import JavaClass.Error

namespace JavaClass

/-- Old offsets and their new ones. -/
structure OffsetMap where
  moves : Std.ExtTreeMap Nat Nat

namespace OffsetMap

/-- The map with the given pairs of an old and a new offset. -/
def ofList (pairs : List (Nat × Nat)) : OffsetMap := ⟨.ofList pairs⟩

/-- The pairs of an old and a new offset, from the lowest old one up. -/
def toList (map : OffsetMap) : List (Nat × Nat) := map.moves.toList

/-- The new offset of an old one. -/
def get? (map : OffsetMap) (offset : Nat) : Option Nat := map.moves[offset]?

/-- The new offset of an old one that was used as `use` says. -/
def move (map : OffsetMap) (use : OffsetUse) (offset : Nat) : Except Error Nat :=
  match map.get? offset with
  | some moved => .ok moved
  | none => .error (.invalidOffset offset use)

/-- The new offset of an old one that was kept in two bytes, in two bytes. -/
def move16 (map : OffsetMap) (use : OffsetUse) (offset : UInt16) : Except Error UInt16 := do
  return UInt16.ofNat (← map.move use offset.toNat)

/-- Whether nothing moved. -/
def isIdentity (map : OffsetMap) : Bool := map.toList.all fun (old, new) => old == new

/-- The length of the code before. -/
def oldLength (map : OffsetMap) : Nat := (map.toList.getLast?.map Prod.fst).getD 0

/-- The length of the code after. -/
def newLength (map : OffsetMap) : Nat := (map.toList.getLast?.map Prod.snd).getD 0

end OffsetMap

end JavaClass
