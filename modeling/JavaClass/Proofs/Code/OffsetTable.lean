/-
What moving does to the tables that refer to code. The table that comes out is the one whose offsets
are the new ones of those in the old table, entry by entry, and nothing else comes out. This holds
also where offsets are not kept as such: the end of a stretch of code is kept as a length and the
place of a frame as the distance to the frame before, and both are right because the map keeps the
order of offsets.
-/

import JavaClass.Code.DebugTable
import JavaClass.Code.ExceptionTable
import JavaClass.Code.StackMap
import JavaClass.Proofs.Code.OffsetMap

namespace JavaClass

/-! ### Handlers -/

/-- A handler all of whose offsets went where the map sends them. -/
structure ExceptionRange.Moved (map : OffsetMap) (old new : ExceptionRange) : Prop where
  start : map.get? old.startPc.toNat = some new.startPc.toNat
  stop : map.get? old.endPc.toNat = some new.endPc.toNat
  handler : map.get? old.handlerPc.toNat = some new.handlerPc.toNat
  catchType : new.catchType = old.catchType

/-- The offsets in a handler. -/
def ExceptionRange.recordedOffsets (range : ExceptionRange) : List Nat :=
  [range.startPc.toNat, range.endPc.toNat, range.handlerPc.toNat]

theorem ExceptionRange.Moved.sendsAll {map : OffsetMap} {old new : ExceptionRange}
    (moved : old.Moved map new) : map.SendsAll old.recordedOffsets new.recordedOffsets :=
  .cons moved.start (.cons moved.stop (.cons moved.handler .nil))

theorem ExceptionRange.move_eq_ok_iff {map : OffsetMap} (orderly : map.Orderly)
    {old new : ExceptionRange} : old.move map = .ok new ↔ old.Moved map new := by
  simp only [ExceptionRange.move, Outcome.bind_eq_ok_iff, Outcome.pure_eq_ok_iff,
    orderly.move16_eq_ok_iff]
  constructor
  · intro ⟨startPc, start, endPc, stop, handlerPc, handler, same⟩
    rw [← same]
    exact ⟨start, stop, handler, rfl⟩
  · intro moved
    refine ⟨_, moved.start, _, moved.stop, _, moved.handler, ?_⟩
    rw [← moved.catchType]

theorem ExceptionTable.move_eq_ok_iff {map : OffsetMap} (orderly : map.Orderly)
    {old new : ExceptionTable} :
    ExceptionTable.move map old = .ok new ↔ List.Forall₂ (ExceptionRange.Moved map) old new :=
  Outcome.mapM_eq_ok_iff_of_forall (ExceptionRange.move_eq_ok_iff orderly)

/-! ### Tables for debuggers -/

/-- A line whose offset went where the map sends it. -/
structure LineNumber.Moved (map : OffsetMap) (old new : LineNumber) : Prop where
  start : map.get? old.startPc.toNat = some new.startPc.toNat
  line : new.line = old.line

theorem LineNumber.move_eq_ok_iff {map : OffsetMap} (orderly : map.Orderly)
    {old new : LineNumber} : old.move map = .ok new ↔ old.Moved map new := by
  simp only [LineNumber.move, Outcome.bind_eq_ok_iff, Outcome.pure_eq_ok_iff,
    orderly.move16_eq_ok_iff]
  constructor
  · intro ⟨startPc, start, same⟩
    rw [← same]
    exact ⟨start, rfl⟩
  · intro moved
    refine ⟨_, moved.start, ?_⟩
    rw [← moved.line]

theorem LineNumberTable.move_eq_ok_iff {map : OffsetMap} (orderly : map.Orderly)
    {old new : LineNumberTable} :
    LineNumberTable.move map old = .ok new ↔ List.Forall₂ (LineNumber.Moved map) old new :=
  Outcome.mapM_eq_ok_iff_of_forall (LineNumber.move_eq_ok_iff orderly)

/-- A local variable both ends of whose stretch went where the map sends them. -/
structure LocalVariable.Moved (map : OffsetMap) (old new : LocalVariable) : Prop where
  start : map.get? old.startPc.toNat = some new.startPc.toNat
  stop : map.get? old.endPc = some new.endPc
  name : new.name = old.name
  descriptor : new.descriptor = old.descriptor
  slot : new.slot = old.slot

/-- The offsets of a local variable: the ends of its stretch. -/
def LocalVariable.recordedOffsets (entry : LocalVariable) : List Nat :=
  [entry.startPc.toNat, entry.endPc]

theorem LocalVariable.Moved.sendsAll {map : OffsetMap} {old new : LocalVariable}
    (moved : old.Moved map new) : map.SendsAll old.recordedOffsets new.recordedOffsets :=
  .cons moved.start (.cons moved.stop .nil)

/-- The stretch between two new offsets, the second of them kept as a length. -/
theorem LocalVariable.moved_of_get? {map : OffsetMap} (orderly : map.Orderly)
    {entry : LocalVariable} {start stop : Nat}
    (startFound : map.get? entry.startPc.toNat = some start)
    (stopFound : map.get? entry.endPc = some stop) :
    entry.Moved map { entry with
      startPc := UInt16.ofNat start, length := UInt16.ofNat stop - UInt16.ofNat start } := by
  have ordered : start ≤ stop :=
    (orderly.le_iff startFound stopFound).mpr (Nat.le_add_right _ _)
  have first : (UInt16.ofNat start).toNat = start := orderly.toNat_ofNat startFound
  have length : (UInt16.ofNat stop - UInt16.ofNat start).toNat = stop - start :=
    orderly.toNat_sub startFound stopFound ordered
  refine ⟨?_, ?_, rfl, rfl, rfl⟩
  · rw [startFound, first]
  · rw [stopFound, LocalVariable.endPc, first, length, Nat.add_sub_of_le ordered]

theorem LocalVariable.move_eq_ok_iff {map : OffsetMap} (orderly : map.Orderly)
    {old new : LocalVariable} : old.move map = .ok new ↔ old.Moved map new := by
  simp only [LocalVariable.move, Outcome.bind_eq_ok_iff, Outcome.pure_eq_ok_iff,
    OffsetMap.move_eq_ok_iff]
  constructor
  · intro ⟨start, startFound, stop, stopFound, same⟩
    rw [← same]
    exact LocalVariable.moved_of_get? orderly startFound stopFound
  · intro moved
    refine ⟨_, moved.start, _, moved.stop, ?_⟩
    rw [← moved.name, ← moved.descriptor, ← moved.slot, LocalVariable.endPc, UInt16.ofNat_add,
      UInt16.ofNat_toNat, UInt16.ofNat_toNat, UInt16.add_comm, UInt16.add_sub_cancel]

theorem LocalVariableTable.move_eq_ok_iff {map : OffsetMap} (orderly : map.Orderly)
    {old new : LocalVariableTable} :
    LocalVariableTable.move map old = .ok new ↔
      List.Forall₂ (LocalVariable.Moved map) old new :=
  Outcome.mapM_eq_ok_iff_of_forall (LocalVariable.move_eq_ok_iff orderly)

/-! ### Types in frames -/

/-- A type after the offset in it, if it has one, went where the map sends it. -/
def VerificationType.Moved (map : OffsetMap) : VerificationType → VerificationType → Prop
  | .uninitialized old, new =>
    ∃ offset, new = .uninitialized offset ∧ map.get? old.toNat = some offset.toNat
  | old, new => new = old

/-- The offset in a type, if it has one. -/
def VerificationType.offset? : VerificationType → Option Nat
  | .uninitialized offset => some offset.toNat
  | _ => none

theorem VerificationType.Moved.offset? {map : OffsetMap} {old new : VerificationType}
    (moved : old.Moved map new) :
    Option.Rel (fun old new => map.get? old = some new) old.offset? new.offset? := by
  cases old with
  | uninitialized old =>
    obtain ⟨offset, rfl, found⟩ := moved
    exact .some found
  | top | integer | float | double | long | null | uninitializedThis | object =>
    obtain rfl : new = _ := moved
    exact .none

theorem VerificationType.move_eq_ok_iff {map : OffsetMap} (orderly : map.Orderly)
    {old new : VerificationType} : old.move map = .ok new ↔ old.Moved map new := by
  cases old with
  | uninitialized old =>
    simp only [VerificationType.move, VerificationType.Moved, Outcome.bind_eq_ok_iff,
      Outcome.pure_eq_ok_iff, orderly.move16_eq_ok_iff]
    constructor
    · intro ⟨offset, found, same⟩
      exact ⟨offset, same.symm, found⟩
    · intro ⟨offset, same, found⟩
      exact ⟨offset, found, same.symm⟩
  | top | integer | float | double | long | null | uninitializedThis | object =>
    exact Outcome.pure_eq_ok_iff.trans eq_comm

theorem VerificationType.mapM_move_eq_ok_iff {map : OffsetMap} (orderly : map.Orderly)
    {old new : List VerificationType} :
    old.mapM (VerificationType.move map) = .ok new ↔
      List.Forall₂ (VerificationType.Moved map) old new :=
  Outcome.mapM_eq_ok_iff_of_forall (VerificationType.move_eq_ok_iff orderly)

/-- A frame after the offsets in its types went where the map sends them. -/
def StackMapFrame.Retyped (map : OffsetMap) : StackMapFrame → StackMapFrame → Prop
  | .sameLocals delta old, new => ∃ stack, new = .sameLocals delta stack ∧ old.Moved map stack
  | .sameLocalsExtended delta old, new =>
    ∃ stack, new = .sameLocalsExtended delta stack ∧ old.Moved map stack
  | .append delta old, new =>
    ∃ locals, new = .append delta locals ∧ List.Forall₂ (VerificationType.Moved map) old locals
  | .full delta oldLocals oldStack, new =>
    ∃ locals stack, new = .full delta locals stack ∧
      List.Forall₂ (VerificationType.Moved map) oldLocals locals ∧
      List.Forall₂ (VerificationType.Moved map) oldStack stack
  | old, new => new = old

/-- The types in a frame. -/
def StackMapFrame.types : StackMapFrame → List VerificationType
  | .sameLocals _ stack | .sameLocalsExtended _ stack => [stack]
  | .append _ locals => locals
  | .full _ locals stack => locals ++ stack
  | _ => []

theorem StackMapFrame.Retyped.types {map : OffsetMap} {old new : StackMapFrame}
    (retyped : old.Retyped map new) :
    List.Forall₂ (VerificationType.Moved map) old.types new.types := by
  cases old with
  | sameLocals | sameLocalsExtended =>
    obtain ⟨stack, rfl, moved⟩ := retyped
    exact .cons moved .nil
  | append =>
    obtain ⟨locals, rfl, moved⟩ := retyped
    exact moved
  | full =>
    obtain ⟨locals, stack, rfl, localsMoved, stackMoved⟩ := retyped
    exact List.rel_append localsMoved stackMoved
  | same | chop | sameExtended =>
    obtain rfl : new = _ := retyped
    exact .nil

theorem StackMapFrame.types_withDelta (delta : UInt16) (frame : StackMapFrame) :
    (frame.withDelta delta).types = frame.types := by
  cases frame with
  | same | sameLocals =>
    by_cases far : compactLimit ≤ delta
    · simp only [withDelta, if_pos far, StackMapFrame.types]
    · simp only [withDelta, if_neg far, StackMapFrame.types]
  | sameLocalsExtended | chop | sameExtended | append | full => rfl

theorem StackMapFrame.moveTypes_eq_ok_iff {map : OffsetMap} (orderly : map.Orderly)
    {old new : StackMapFrame} : old.moveTypes map = .ok new ↔ old.Retyped map new := by
  cases old with
  | sameLocals delta old | sameLocalsExtended delta old =>
    simp only [StackMapFrame.moveTypes, StackMapFrame.Retyped, Outcome.bind_eq_ok_iff,
      Outcome.pure_eq_ok_iff, VerificationType.move_eq_ok_iff orderly, eq_comm (b := new),
      and_comm]
  | append delta old =>
    simp only [StackMapFrame.moveTypes, StackMapFrame.Retyped, Outcome.bind_eq_ok_iff,
      Outcome.pure_eq_ok_iff, VerificationType.mapM_move_eq_ok_iff orderly, eq_comm (b := new),
      and_comm]
  | full delta oldLocals oldStack =>
    simp only [StackMapFrame.moveTypes, StackMapFrame.Retyped, Outcome.bind_eq_ok_iff,
      Outcome.pure_eq_ok_iff, VerificationType.mapM_move_eq_ok_iff orderly]
    constructor
    · intro ⟨locals, localsMoved, stack, stackMoved, equal⟩
      exact ⟨locals, stack, equal.symm, localsMoved, stackMoved⟩
    · intro ⟨locals, stack, equal, localsMoved, stackMoved⟩
      exact ⟨locals, localsMoved, stack, stackMoved, equal.symm⟩
  | same | chop | sameExtended => exact Outcome.pure_eq_ok_iff.trans eq_comm

theorem StackMapFrame.Retyped.delta_eq {map : OffsetMap} {old new : StackMapFrame}
    (retyped : old.Retyped map new) : new.delta = old.delta := by
  cases old with
  | sameLocals | sameLocalsExtended | append =>
    obtain ⟨_, rfl, -⟩ := retyped
    rfl
  | full =>
    obtain ⟨_, _, rfl, -⟩ := retyped
    rfl
  | same | chop | sameExtended =>
    obtain rfl : new = _ := retyped
    rfl

theorem StackMapFrame.delta_withDelta (delta : UInt16) (frame : StackMapFrame) :
    (frame.withDelta delta).delta = delta := by
  cases frame with
  | same | sameLocals =>
    by_cases far : compactLimit ≤ delta
    · simp only [withDelta, if_pos far, StackMapFrame.delta]
    · simp only [withDelta, if_neg far, StackMapFrame.delta]
  | sameLocalsExtended | chop | sameExtended | append | full => rfl

/-! ### Frames behind frames -/

namespace StackMap

/-- The offsets of frames behind one at `previous`. -/
def offsetsFrom (previous : Option Nat) : StackMap → List Nat
  | [] => []
  | frame :: rest =>
    offsetBehind previous frame :: offsetsFrom (some (offsetBehind previous frame)) rest

theorem offsetsBehind_eq (previous : Option Nat) (seen : List Nat) (table : StackMap) :
    offsetsBehind previous seen table = seen.reverse ++ offsetsFrom previous table := by
  induction table generalizing previous seen with
  | nil => exact (List.append_nil _).symm
  | cons frame rest inductionHypothesis =>
    rw [offsetsBehind, inductionHypothesis, offsetsFrom, List.reverse_cons, List.append_assoc,
      List.singleton_append]

theorem offsets_eq (table : StackMap) : table.offsets = offsetsFrom none table :=
  offsetsBehind_eq none [] table

variable {map : OffsetMap}

/-- A distance takes a frame to where it is wanted, as long as that is behind the frame before. -/
theorem offsetBehind_of_delta_eq (orderly : map.Orderly) {oldPrevious newPrevious : Option Nat}
    (previous : Option.Rel (fun old new => map.get? old = some new) oldPrevious newPrevious)
    {old frame : StackMapFrame} {new : Nat}
    (found : map.get? (offsetBehind oldPrevious old) = some new)
    (delta : frame.delta = deltaBehind newPrevious new) :
    offsetBehind newPrevious frame = new := by
  cases previous with
  | none =>
    rw [offsetBehind, delta]
    exact orderly.toNat_ofNat found
  | @some oldBefore newBefore before =>
    have ordered : newBefore < new := by
      rw [orderly.lt_iff before found]
      exact Nat.lt_succ_of_le (Nat.le_add_right _ _)
    have between := orderly.toNat_sub before found (Nat.le_of_lt ordered)
    have distance : frame.delta.toNat = new - newBefore - 1 := by
      rw [delta, deltaBehind, UInt16.toNat_sub_of_le, between]
      · rfl
      · rw [UInt16.le_iff_toNat_le, between]
        exact Nat.sub_pos_of_lt ordered
    rw [offsetBehind, distance]
    omega

theorem deltaBehind_offsetBehind (previous : Option Nat) (frame : StackMapFrame) :
    deltaBehind previous (offsetBehind previous frame) = frame.delta := by
  cases previous with
  | none => exact UInt16.ofNat_toNat
  | some before =>
    rw [offsetBehind, deltaBehind, Nat.add_assoc, UInt16.ofNat_add, UInt16.ofNat_add,
      UInt16.ofNat_toNat, UInt16.add_comm, UInt16.add_sub_cancel]
    exact UInt16.add_sub_cancel _ _

/-- A table of frames that went where the map sends them, each in the form it had if that has room
for the new distance, and so did the offsets in their types. -/
structure Moved (map : OffsetMap) (old new : StackMap) : Prop where
  offsets : map.SendsAll old.offsets new.offsets
  frames : List.Forall₂ (fun old new => (old.withDelta new.delta).Retyped map new) old new

/-- The offsets of frames and those in their types. -/
def recordedOffsets (table : StackMap) : List Nat :=
  table.offsets ++ (table.flatMap StackMapFrame.types).filterMap VerificationType.offset?

theorem Moved.sendsAll {old new : StackMap} (moved : old.Moved map new) :
    map.SendsAll old.recordedOffsets new.recordedOffsets := by
  have types : List.Forall₂ (VerificationType.Moved map) (old.flatMap StackMapFrame.types)
      (new.flatMap StackMapFrame.types) := by
    refine List.rel_flatMap moved.frames fun oldFrame newFrame retyped => ?_
    rw [← StackMapFrame.types_withDelta newFrame.delta oldFrame]
    exact retyped.types
  exact moved.offsets.append
    (List.rel_filterMap (fun _ _ typeMoved => VerificationType.Moved.offset? typeMoved) types)

theorem moveBehind_eq_ok_iff (orderly : map.Orderly) {oldPrevious newPrevious : Option Nat}
    (previous : Option.Rel (fun old new => map.get? old = some new) oldPrevious newPrevious)
    {seen : List StackMapFrame} {old result : StackMap} :
    moveBehind map oldPrevious newPrevious seen old = .ok result ↔
      ∃ new, result = seen.reverse ++ new ∧
        map.SendsAll (offsetsFrom oldPrevious old) (offsetsFrom newPrevious new) ∧
        List.Forall₂ (fun old new => (old.withDelta new.delta).Retyped map new) old new := by
  induction old generalizing oldPrevious newPrevious seen result with
  | nil =>
    rw [moveBehind, Except.ok.injEq]
    constructor
    · intro equal
      exact ⟨[], by rw [List.append_nil, equal], .nil, .nil⟩
    · intro ⟨new, equal, _, row⟩
      rw [List.forall₂_nil_left_iff.mp row, List.append_nil] at equal
      exact equal.symm
  | cons frame rest inductionHypothesis =>
    simp only [moveBehind, Outcome.bind_eq_ok_iff, OffsetMap.move_eq_ok_iff,
      StackMapFrame.moveTypes_eq_ok_iff orderly]
    constructor
    · intro ⟨place, found, moved, retyped, later⟩
      have delta := retyped.delta_eq.trans (StackMapFrame.delta_withDelta _ _)
      have here := offsetBehind_of_delta_eq orderly previous found delta
      obtain ⟨new, equal, offsets, frames⟩ := (inductionHypothesis (.some found)).mp later
      rw [← delta] at retyped
      refine ⟨moved :: new, ?_, ?_, .cons retyped frames⟩
      · rw [equal, List.reverse_cons, List.append_assoc, List.singleton_append]
      · rw [offsetsFrom, offsetsFrom, here]
        exact .cons found offsets
    · intro ⟨new, equal, offsets, frames⟩
      cases frames with
      | @cons _ moved _ others retyped frames =>
        rw [offsetsFrom, offsetsFrom, OffsetMap.SendsAll, List.forall₂_cons] at offsets
        obtain ⟨found, offsets⟩ := offsets
        refine ⟨_, found, moved, ?_, (inductionHypothesis (.some found)).mpr
          ⟨others, ?_, offsets, frames⟩⟩
        · rw [deltaBehind_offsetBehind]
          exact retyped
        · rw [equal, List.reverse_cons, List.append_assoc, List.singleton_append]

theorem move_eq_ok_iff (orderly : map.Orderly) {old new : StackMap} :
    StackMap.move map old = .ok new ↔ old.Moved map new := by
  rw [move, moveBehind_eq_ok_iff orderly .none]
  constructor
  · intro ⟨moved, equal, offsets, frames⟩
    obtain rfl : new = moved := equal
    rw [← offsets_eq, ← offsets_eq] at offsets
    exact ⟨offsets, frames⟩
  · intro ⟨offsets, frames⟩
    rw [offsets_eq, offsets_eq] at offsets
    exact ⟨new, rfl, offsets, frames⟩

end StackMap

end JavaClass
