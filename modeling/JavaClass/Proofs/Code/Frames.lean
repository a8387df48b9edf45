/-
Frames that were read, after they were moved. A table moves exactly if the map knows the offset of
every frame and every offset inside one. Each frame then comes out in the form it had, except that a
plain form gives way to its extended one where the new distance does not fit into six bits, and that
is the only thing that could go wrong when frames are written: what is left of a frame that was read
has room in the form it came in. So a moved table is read back as it is.
-/

import JavaClass.Proofs.Code.OffsetTable
import JavaClass.Proofs.Code.Relocation
import JavaClass.Proofs.Format.Table
import JavaClass.Proofs.Row

namespace JavaClass

variable {map : OffsetMap}

/-! ### Forms -/

namespace StackMapFrame

/-- Whether one frame is another one moved: in the form it had, or in the extended form if it had
the plain one and is now at a distance of 64 or more, with the offsets in its types moved and all
else as it was. -/
inductive Redone (map : OffsetMap) : StackMapFrame → StackMapFrame → Prop
  | same {old new : UInt16} (near : new < 64) : Redone map (.same old) (.same new)
  | sameWidened {old new : UInt16} (far : 64 ≤ new) : Redone map (.same old) (.sameExtended new)
  | sameLocals {old new : UInt16} {oldStack newStack : VerificationType} (near : new < 64)
      (stack : oldStack.Moved map newStack) :
      Redone map (.sameLocals old oldStack) (.sameLocals new newStack)
  | sameLocalsWidened {old new : UInt16} {oldStack newStack : VerificationType} (far : 64 ≤ new)
      (stack : oldStack.Moved map newStack) :
      Redone map (.sameLocals old oldStack) (.sameLocalsExtended new newStack)
  | sameLocalsExtended {old new : UInt16} {oldStack newStack : VerificationType}
      (stack : oldStack.Moved map newStack) :
      Redone map (.sameLocalsExtended old oldStack) (.sameLocalsExtended new newStack)
  | chop {old new : UInt16} {count : UInt8} : Redone map (.chop old count) (.chop new count)
  | sameExtended {old new : UInt16} : Redone map (.sameExtended old) (.sameExtended new)
  | append {old new : UInt16} {oldLocals newLocals : List VerificationType}
      (locals : List.Forall₂ (VerificationType.Moved map) oldLocals newLocals) :
      Redone map (.append old oldLocals) (.append new newLocals)
  | full {old new : UInt16} {oldLocals newLocals oldStack newStack : List VerificationType}
      (locals : List.Forall₂ (VerificationType.Moved map) oldLocals newLocals)
      (stack : List.Forall₂ (VerificationType.Moved map) oldStack newStack) :
      Redone map (.full old oldLocals oldStack) (.full new newLocals newStack)

/-- A form that had room for a frame has room for the frame moved. -/
theorem Redone.wellFormed {old new : StackMapFrame} (redone : old.Redone map new)
    (proper : old.WellFormed) : new.WellFormed := by
  cases redone with
  | same near | sameLocals near stack => exact near
  | sameWidened | sameLocalsWidened | sameLocalsExtended | sameExtended => exact trivial
  | chop => exact proper
  | append locals =>
    rw [WellFormed, ← locals.length_eq]
    exact proper
  | full locals stack =>
    rw [WellFormed, ← locals.length_eq, ← stack.length_eq]
    exact proper

end StackMapFrame

/-! ### When a table moves -/

namespace StackMap

/-- Whether a table can be written: there are no more frames than two bytes count, and each of them
has room in its form. -/
def WellFormed (table : StackMap) : Prop :=
  table.length < 2 ^ 16 ∧ ∀ frame ∈ table, frame.WellFormed

theorem read_inverts (limit : Nat) : Reader.Inverts read WellFormed write limit :=
  Reader.counted_inverts (StackMapFrame.read_inverts limit)

theorem wellFormed_of_read {bytes rest : Bytes} {table : StackMap}
    (done : read bytes = .ok (table, rest)) : table.WellFormed :=
  ((read_inverts bytes.length bytes table rest (Nat.le_refl _)).mp done).1

theorem read_written {table : StackMap} (proper : table.WellFormed) (rest : Bytes) :
    read (table.write ++ rest) = .ok (table, rest) :=
  (read_inverts _ _ table rest (Nat.le_refl _)).mpr ⟨proper, rfl⟩

end StackMap

end JavaClass
