/-
Bodies whose code was edited in place. Every offset stays where it was, so the tables come out of
the move as they went in: handlers, lines and local variables entry by entry, and frames because
equal offsets lie at equal distances. A frame keeps its form as well, provided that the form had
room for the distance in the first place.
-/

import JavaClass.Proofs.Attribute.Editing
import JavaClass.Proofs.Code.InPlace
import JavaClass.Proofs.Format.Attribute
import JavaClass.Proofs.Row

namespace JavaClass

/-- Whether a map sends no offset anywhere but to itself. -/
def OffsetMap.MovesNothing (map : OffsetMap) : Prop :=
  ∀ old new, map.get? old = some new → new = old

theorem Code.Fixes.movesNothing {map : OffsetMap} {instructions : List Instruction} {length : Nat}
    (fixes : Fixes map instructions length) : map.MovesNothing :=
  fun old new found => ((fixes old new).mp found).1

/-! ### Frames -/

theorem StackMapFrame.withDelta_eq_self {frame : StackMapFrame} (proper : frame.WellFormed) :
    frame.withDelta frame.delta = frame := by
  cases frame with
  | same delta | sameLocals delta stack =>
    have near : ¬compactLimit ≤ delta := UInt16.not_le.mpr proper
    exact if_neg near
  | sameLocalsExtended | chop | sameExtended | append | full => rfl

/-- Frames at equal offsets are at equal distances. -/
theorem StackMap.delta_eq_of_offsetsFrom {previous : Option Nat} {old new : StackMap}
    (same : offsetsFrom previous new = offsetsFrom previous old) :
    List.Forall₂ (fun old new => new.delta = old.delta) old new := by
  induction old generalizing previous new with
  | nil =>
    cases new with
    | nil => exact .nil
    | cons => cases same
  | cons frame rest inductionHypothesis =>
    cases new with
    | nil => cases same
    | cons other others =>
      rw [offsetsFrom, offsetsFrom] at same
      obtain ⟨here, later⟩ := List.cons.inj same
      rw [here] at later
      refine .cons ?_ (inductionHypothesis later)
      rw [← deltaBehind_offsetBehind previous other, here, deltaBehind_offsetBehind]

section nothing

variable {map : OffsetMap} (still : map.MovesNothing)

include still

theorem OffsetMap.MovesNothing.eq_of_sendsAll {old new : List Nat} (sends : map.SendsAll old new) :
    new = old :=
  eq_of_forall₂ sends fun offset _ => still offset

theorem OffsetMap.MovesNothing.eq_of_toNat {old new : UInt16}
    (found : map.get? old.toNat = some new.toNat) : new = old :=
  UInt16.toNat_inj.mp (still _ _ found)

/-! ### Tables -/

theorem ExceptionRange.Moved.eq {old new : ExceptionRange} (moved : old.Moved map new) :
    new = old := by
  obtain ⟨startPc, endPc, handlerPc, catchType⟩ := new
  obtain rfl : startPc = old.startPc := still.eq_of_toNat moved.start
  obtain rfl : endPc = old.endPc := still.eq_of_toNat moved.stop
  obtain rfl : handlerPc = old.handlerPc := still.eq_of_toNat moved.handler
  obtain rfl : catchType = old.catchType := moved.catchType
  rfl

theorem LineNumber.Moved.eq {old new : LineNumber} (moved : old.Moved map new) : new = old := by
  obtain ⟨startPc, line⟩ := new
  obtain rfl : startPc = old.startPc := still.eq_of_toNat moved.start
  obtain rfl : line = old.line := moved.line
  rfl

theorem LocalVariable.Moved.eq {old new : LocalVariable} (moved : old.Moved map new) :
    new = old := by
  obtain ⟨startPc, length, name, descriptor, slot⟩ := new
  obtain rfl : startPc = old.startPc := still.eq_of_toNat moved.start
  obtain rfl : name = old.name := moved.name
  obtain rfl : descriptor = old.descriptor := moved.descriptor
  obtain rfl : slot = old.slot := moved.slot
  have stop := still _ _ moved.stop
  obtain rfl : length = old.length :=
    UInt16.toNat_inj.mp (Nat.add_left_cancel (n := old.startPc.toNat) stop)
  rfl

theorem VerificationType.Moved.eq {old new : VerificationType} (moved : old.Moved map new) :
    new = old := by
  cases old with
  | uninitialized old =>
    obtain ⟨offset, rfl, found⟩ := moved
    rw [still.eq_of_toNat found]
  | top | integer | float | double | long | null | uninitializedThis | object => exact moved

theorem StackMapFrame.Retyped.eq {old new : StackMapFrame} (retyped : old.Retyped map new) :
    new = old := by
  have types {old new : List VerificationType}
      (row : List.Forall₂ (VerificationType.Moved map) old new) : new = old :=
    eq_of_forall₂ row fun _ _ _ moved => VerificationType.Moved.eq still moved
  cases old with
  | sameLocals | sameLocalsExtended =>
    obtain ⟨stack, rfl, moved⟩ := retyped
    rw [VerificationType.Moved.eq still moved]
  | append =>
    obtain ⟨locals, rfl, moved⟩ := retyped
    rw [types moved]
  | full =>
    obtain ⟨locals, stack, rfl, localsMoved, stackMoved⟩ := retyped
    rw [types localsMoved, types stackMoved]
  | same | chop | sameExtended => exact retyped

theorem StackMap.Moved.eq {old new : StackMap} (moved : old.Moved map new)
    (proper : ∀ frame ∈ old, frame.WellFormed) : new = old := by
  have offsets := still.eq_of_sendsAll moved.offsets
  rw [offsets_eq, offsets_eq] at offsets
  have row := moved.frames.mp (fun _ _ => And.intro) (delta_eq_of_offsetsFrom offsets)
  refine eq_of_forall₂ row fun frame member other related => ?_
  obtain ⟨retyped, delta⟩ := related
  rw [delta, StackMapFrame.withDelta_eq_self (proper frame member)] at retyped
  exact retyped.eq still

/-! ### Attributes -/

/-- Whether the frames in a content have a form that has room for them. -/
def Content.FramesFit (content : Content) : Prop :=
  ∀ table, content.stackMap? = some table → ∀ frame ∈ table, frame.WellFormed

theorem Content.Moved.eq {old new : Content} (moved : old.Moved map new) (fit : old.FramesFit) :
    new = old := by
  cases old with
  | lineNumbers table =>
    obtain ⟨after, rfl, row⟩ := moved
    rw [eq_of_forall₂ row fun _ _ _ entry => LineNumber.Moved.eq still entry]
  | localVariables table | localVariableTypes table =>
    obtain ⟨after, rfl, row⟩ := moved
    rw [eq_of_forall₂ row fun _ _ _ entry => LocalVariable.Moved.eq still entry]
  | stackMap table =>
    obtain ⟨after, rfl, tableMoved⟩ := moved
    rw [tableMoved.eq still (fit table rfl)]
  | code | exceptions | sourceFile | constantValue | synthetic | deprecated | raw => exact moved

theorem Attribute.Moved.eq {old new : Attribute} (moved : old.Moved map new)
    (fit : old.content.FramesFit) : new = old := by
  obtain ⟨name, content⟩ := old
  obtain ⟨newName, newContent⟩ := new
  obtain rfl : newName = name := moved.name
  obtain rfl : newContent = content := moved.content.eq still fit
  rfl

end nothing

/-! ### Bodies -/

namespace Body

open CodeEdit

/-- Whether the frames in a body have a form that has room for them. -/
def FramesFit (body : Body) : Prop := ∀ entry ∈ body.attributes, entry.content.FramesFit

theorem framesFit_of_wellFormed {pool : Pool} {body : Body} (proper : body.WellFormed pool) :
    body.FramesFit := by
  obtain ⟨-, -, -, attributes⟩ := wellFormed_iff.mp proper
  rintro ⟨name, content⟩ member table found
  obtain ⟨-, -, proper⟩ := attributes _ member
  cases content with
  | stackMap held =>
    obtain rfl := Option.some.inj found
    exact proper.2
  | _ => cases found

/-- Nothing of a body but its code changes when it is edited in place. -/
theorem eq_of_edit_inPlace {body edited : Body} {edits : List CodeEdit} {map : OffsetMap}
    {instructions : List Instruction} (ran : edit edits body = (.ok map, edited))
    (decoded : body.instructions = .ok instructions)
    (inPlace : Code.InPlace instructions edits) (fit : body.FramesFit) :
    ∃ relocation, Code.relocate body.code edits body.stackMap?.isNone = .ok relocation ∧
      Code.Repaired edits body.code instructions relocation ∧
      edited = { body with code := relocation.code } := by
  obtain ⟨⟨relocation, relocated, code, rfl⟩, maxStack, maxLocals, handlers, attributes⟩ :=
    (edit_eq_ok_iff_of_orderly fun _ relocated =>
      (Code.repaired_of_relocate relocated decoded inPlace).orderly decoded).mp ran
  have repaired := Code.repaired_of_relocate relocated decoded inPlace
  have still := repaired.fixes.movesNothing
  refine ⟨relocation, relocated, repaired, ?_⟩
  have sameHandlers : edited.handlers = body.handlers :=
    eq_of_forall₂ handlers fun _ _ _ moved => ExceptionRange.Moved.eq still moved
  have sameAttributes : edited.attributes = body.attributes :=
    eq_of_forall₂ attributes fun entry member _ moved =>
      Attribute.Moved.eq still moved (fit entry member)
  rw [← code, ← maxStack, ← maxLocals, ← sameHandlers, ← sameAttributes]
  cases edited
  rfl

end Body

end JavaClass
