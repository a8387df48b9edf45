/-
Editing a body succeeds as a whole or not at all. The new code, handlers and attributes are worked
out beside the body and put in place together, so a failure leaves the body as it was. After a
success every offset in the body is the new one of the offset that was there before; and since the
map only sends offsets to instructions of the new code and to its end, so do the tables.
-/

import JavaClass.Attribute.Editing
import JavaClass.Proofs.Code.OffsetTable
import JavaClass.Proofs.Code.Relocation

namespace JavaClass

/-! ### Attributes -/

/-- A content after the offsets in it went where the map sends them. What is not known to refer to
code is as it was. -/
def Content.Moved (map : OffsetMap) : Content → Content → Prop
  | .lineNumbers old, new =>
    ∃ table, new = .lineNumbers table ∧ List.Forall₂ (LineNumber.Moved map) old table
  | .localVariables old, new =>
    ∃ table, new = .localVariables table ∧ List.Forall₂ (LocalVariable.Moved map) old table
  | .localVariableTypes old, new =>
    ∃ table, new = .localVariableTypes table ∧ List.Forall₂ (LocalVariable.Moved map) old table
  | .stackMap old, new => ∃ table, new = .stackMap table ∧ old.Moved map table
  | old, new => new = old

/-- The offsets in a content. -/
def Content.recordedOffsets : Content → List Nat
  | .lineNumbers table => table.map fun entry => entry.startPc.toNat
  | .localVariables table | .localVariableTypes table =>
    table.flatMap LocalVariable.recordedOffsets
  | .stackMap table => table.recordedOffsets
  | _ => []

section contents

variable {map : OffsetMap} {old new : Content}

theorem Content.move_eq_ok_iff (orderly : map.Orderly) :
    old.move map = .ok new ↔ old.Moved map new := by
  cases old with
  | lineNumbers table =>
    simp only [Content.move, Content.Moved, Outcome.bind_eq_ok_iff, Outcome.pure_eq_ok_iff,
      LineNumberTable.move_eq_ok_iff orderly, eq_comm (b := new), and_comm]
  | localVariables table | localVariableTypes table =>
    simp only [Content.move, Content.Moved, Outcome.bind_eq_ok_iff, Outcome.pure_eq_ok_iff,
      LocalVariableTable.move_eq_ok_iff orderly, eq_comm (b := new), and_comm]
  | stackMap table =>
    simp only [Content.move, Content.Moved, Outcome.bind_eq_ok_iff, Outcome.pure_eq_ok_iff,
      StackMap.move_eq_ok_iff orderly, eq_comm (b := new), and_comm]
  | code | exceptions | sourceFile | constantValue | synthetic | deprecated | raw =>
    exact Outcome.pure_eq_ok_iff.trans eq_comm

theorem Content.Moved.sendsAll (moved : old.Moved map new) :
    map.SendsAll old.recordedOffsets new.recordedOffsets := by
  cases old with
  | lineNumbers table =>
    obtain ⟨after, rfl, row⟩ := moved
    exact List.rel_map (R := LineNumber.Moved map) (P := fun old new => map.get? old = some new)
      (fun _ _ entryMoved => entryMoved.start) row
  | localVariables table | localVariableTypes table =>
    obtain ⟨after, rfl, row⟩ := moved
    exact List.rel_flatMap row fun _ _ entryMoved => LocalVariable.Moved.sendsAll entryMoved
  | stackMap table =>
    obtain ⟨after, rfl, tableMoved⟩ := moved
    exact tableMoved.sendsAll
  | code | exceptions | sourceFile | constantValue | synthetic | deprecated | raw =>
    obtain rfl : new = _ := moved
    exact .nil

end contents

/-- An attribute of the same name whose content moved. -/
structure Attribute.Moved (map : OffsetMap) (old new : Attribute) : Prop where
  name : new.name = old.name
  content : old.content.Moved map new.content

theorem Attribute.move_eq_ok_iff {map : OffsetMap} (orderly : map.Orderly) {old new : Attribute} :
    old.move map = .ok new ↔ old.Moved map new := by
  simp only [Attribute.move, Outcome.bind_eq_ok_iff, Outcome.pure_eq_ok_iff,
    Content.move_eq_ok_iff orderly]
  constructor
  · intro ⟨content, moved, equal⟩
    rw [← equal]
    exact ⟨rfl, moved⟩
  · intro ⟨name, content⟩
    refine ⟨_, content, ?_⟩
    rw [← name]
    cases new
    rfl

theorem Attributes.move_eq_ok_iff {map : OffsetMap} (orderly : map.Orderly)
    {old new : Attributes} :
    Attributes.move map old = .ok new ↔ List.Forall₂ (Attribute.Moved map) old new :=
  Outcome.mapM_eq_ok_iff_of_forall (Attribute.move_eq_ok_iff orderly)

/-! ### What a failure leaves -/

namespace Editing

variable {α β : Type}

/-- Whether a failure leaves the body as it was. -/
def AllOrNothing (action : Editing α) : Prop :=
  ∀ (body edited : Body) (error : Error), action body = (.error error, edited) → edited = body

theorem AllOrNothing.get_bind {next : Body → Editing α}
    (later : ∀ body, AllOrNothing (next body)) : AllOrNothing (get >>= next) := by
  intro body edited error failed
  exact later body body edited error failed

/-- Something is worked out that may fail, and the body is not touched for it. -/
theorem AllOrNothing.lift_bind {work : Except Error α} {next : α → Editing β}
    (later : ∀ value, AllOrNothing (next value)) :
    AllOrNothing (liftM work >>= next : Editing β) := by
  intro body edited error failed
  cases work with
  | error reason =>
    obtain ⟨-, same⟩ := Prod.mk.inj failed
    exact same.symm
  | ok value => exact later value body edited error failed

/-- A change of the body that cannot fail any more. -/
theorem AllOrNothing.set_bind_pure {changed : Body} {value : α} :
    AllOrNothing (set changed >>= fun _ => pure value : Editing α) := by
  intro body edited error failed
  obtain ⟨impossible, -⟩ := Prod.mk.inj failed
  cases impossible

theorem get_bind (next : Body → Editing α) (body : Body) :
    (get >>= next : Editing α) body = next body body :=
  rfl

theorem lift_bind_eq_ok_iff {work : Except Error α} {next : α → Editing β} {body edited : Body}
    {value : β} : (liftM work >>= next : Editing β) body = (.ok value, edited) ↔
      ∃ found, work = .ok found ∧ next found body = (.ok value, edited) := by
  cases work with
  | error reason =>
    constructor
    · intro failed
      obtain ⟨impossible, -⟩ := Prod.mk.inj failed
      cases impossible
    · intro ⟨_, impossible, _⟩
      cases impossible
  | ok found =>
    constructor
    · intro ran
      exact ⟨found, rfl, ran⟩
    · intro ⟨_, same, ran⟩
      rw [← Except.ok.inj same] at ran
      exact ran

theorem set_bind_pure_eq_ok_iff {changed body edited : Body} {given value : α} :
    (set changed >>= fun _ => pure given : Editing α) body = (.ok value, edited) ↔
      given = value ∧ changed = edited := by
  show (Except.ok given, changed) = _ ↔ _
  rw [Prod.mk.injEq, Except.ok.injEq]

end Editing

/-! ### Bodies -/

namespace Body

open CodeEdit

/-- The offsets in a body, apart from those in its code. -/
def recordedOffsets (body : Body) : List Nat :=
  body.handlers.flatMap ExceptionRange.recordedOffsets ++
    body.attributes.flatMap fun entry => entry.content.recordedOffsets

theorem allOrNothing_edit (edits : List CodeEdit) : Editing.AllOrNothing (edit edits) :=
  .get_bind fun _ => .lift_bind fun _ => .lift_bind fun _ => .lift_bind fun _ => .set_bind_pure

theorem edit_eq_ok_iff {body edited : Body} {edits : List CodeEdit} {map : OffsetMap} :
    edit edits body = (.ok map, edited) ↔
      ∃ relocation, Code.relocate body.code edits body.stackMap?.isNone = .ok relocation ∧
        ∃ handlers, ExceptionTable.move relocation.map body.handlers = .ok handlers ∧
        ∃ attributes, Attributes.move relocation.map body.attributes = .ok attributes ∧
        relocation.map = map ∧
        { body with code := relocation.code, handlers, attributes } = edited := by
  rw [edit]
  simp only [Editing.get_bind, Editing.lift_bind_eq_ok_iff, Editing.set_bind_pure_eq_ok_iff]

/-- A body was edited. Its code is that with the edits applied, conditional branches being promoted
only if there is no stack map; handlers and attributes are the ones it had, in the order they had,
and what is in them went where the map sends it. -/
structure Edited (edits : List CodeEdit) (map : OffsetMap) (old new : Body) : Prop where
  relocated : ∃ relocation, Code.relocate old.code edits old.stackMap?.isNone = .ok relocation ∧
    new.code = relocation.code ∧ map = relocation.map
  maxStack : new.maxStack = old.maxStack
  maxLocals : new.maxLocals = old.maxLocals
  handlers : List.Forall₂ (ExceptionRange.Moved map) old.handlers new.handlers
  attributes : List.Forall₂ (Attribute.Moved map) old.attributes new.attributes

/-- Editing succeeds with a body exactly if that is the body edited, provided that the map keeps the
order of offsets. -/
theorem edit_eq_ok_iff_of_orderly {body edited : Body} {edits : List CodeEdit} {map : OffsetMap}
    (keepsOrder : ∀ relocation,
      Code.relocate body.code edits body.stackMap?.isNone = .ok relocation →
        relocation.map.Orderly) :
    edit edits body = (.ok map, edited) ↔ Edited edits map body edited := by
  rw [edit_eq_ok_iff]
  constructor
  · rintro ⟨relocation, relocated, handlers, handlersMoved, attributes, attributesMoved, rfl, rfl⟩
    have orderly := keepsOrder relocation relocated
    exact {
      relocated := ⟨relocation, relocated, rfl, rfl⟩
      maxStack := rfl
      maxLocals := rfl
      handlers := (ExceptionTable.move_eq_ok_iff orderly).mp handlersMoved
      attributes := (Attributes.move_eq_ok_iff orderly).mp attributesMoved }
  · intro ⟨⟨relocation, relocated, code, same⟩, maxStack, maxLocals, handlers, attributes⟩
    have orderly := keepsOrder relocation relocated
    rw [same] at handlers attributes
    refine ⟨relocation, relocated, _, (ExceptionTable.move_eq_ok_iff orderly).mpr handlers,
      _, (Attributes.move_eq_ok_iff orderly).mpr attributes, same.symm, ?_⟩
    rw [← maxStack, ← maxLocals, ← code]
    cases edited
    rfl

theorem edit_eq_ok_iff_edited {body edited : Body} {edits : List CodeEdit} {map : OffsetMap}
    (addressable : Code.Addressable body.code edits) (noGap : LeaveNoGap edits) :
    edit edits body = (.ok map, edited) ↔ Edited edits map body edited :=
  edit_eq_ok_iff_of_orderly fun _ relocated =>
    Code.orderly_of_relocate addressable relocated noGap

theorem Edited.sendsAll {old new : Body} {edits : List CodeEdit} {map : OffsetMap}
    (edited : Edited edits map old new) :
    map.SendsAll old.recordedOffsets new.recordedOffsets := by
  have handlers := List.rel_flatMap edited.handlers
    fun _ _ moved => ExceptionRange.Moved.sendsAll moved
  have attributes := List.rel_flatMap edited.attributes
    fun _ _ (moved : Attribute.Moved map _ _) => moved.content.sendsAll
  exact OffsetMap.SendsAll.append handlers attributes

end Body

end JavaClass
