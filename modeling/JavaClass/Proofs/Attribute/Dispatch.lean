/-
Exceptions go to the handlers they went to before. A handler guards the offsets from a start up to
an end, and both of them went to the side of an instruction on which they were; so in edited code a
handler guards every byte that stands for an old instruction exactly if it guarded the instruction.
Handlers accept what they accepted and are tried in the order in which they were tried, hence the
search ends at the same place of the table, whether it finds a handler there, or an error, or the
end of the table.
-/

import JavaClass.Proofs.Attribute.Editing
import JavaClass.Proofs.Code.NewForm

namespace JavaClass

/-! ### One handler -/

namespace ExceptionRange.Moved

variable {map : OffsetMap} {old new : ExceptionRange} (moved : old.Moved map new)

include moved

end ExceptionRange.Moved

/-! ### The search -/

namespace ExceptionTable

section search

variable (pool : Pool) (isSubclass : String → String → Bool) (thrown : String)

/-- Whether an exception raised at `pc` goes to the handler at a place of a table: it guards `pc`
and accepts the exception, and those in front of it that guard `pc` do not. -/
structure Gets (pc : UInt16) (table : ExceptionTable) (place : Nat) (range : ExceptionRange) :
    Prop where
  here : table[place]? = some range
  covers : range.covers pc = true
  accepts : range.accepts pool isSubclass thrown = .ok true
  passed : ∀ earlier ∈ table.take place, earlier.covers pc = true →
    earlier.accepts pool isSubclass thrown = .ok false

/-- Whether two searches end alike, one at `oldPc` in a table and one at `newPc` in the table that
was made of it: with the same error, or without a handler, or with handlers at the same place, the
second beginning where the map sends the first. -/
inductive EndAlike (map : OffsetMap) (oldPc newPc : UInt16) (old new : ExceptionTable) :
    Except Error (Option ExceptionRange) → Except Error (Option ExceptionRange) → Prop
  | failed (error : Error) : EndAlike map oldPc newPc old new (.error error) (.error error)
  | unhandled : EndAlike map oldPc newPc old new (.ok none) (.ok none)
  | handled {place : Nat} {oldRange newRange : ExceptionRange}
    (before : Gets pool isSubclass thrown oldPc old place oldRange)
    (after : Gets pool isSubclass thrown newPc new place newRange)
    (handler : map.get? oldRange.handlerPc.toNat = some newRange.handlerPc.toNat) :
    EndAlike map oldPc newPc old new (.ok (some oldRange)) (.ok (some newRange))

variable {pool isSubclass thrown} {pc oldPc newPc : UInt16} {map : OffsetMap}
  {first range oldFirst newFirst : ExceptionRange} {rest old new : ExceptionTable} {place : Nat}

theorem Gets.head (covers : first.covers pc = true)
    (accepts : first.accepts pool isSubclass thrown = .ok true) :
    Gets pool isSubclass thrown pc (first :: rest) 0 first :=
  ⟨rfl, covers, accepts, fun _ member => nomatch member⟩

theorem Gets.tail (passes : first.covers pc = true →
      first.accepts pool isSubclass thrown = .ok false)
    (gets : Gets pool isSubclass thrown pc rest place range) :
    Gets pool isSubclass thrown pc (first :: rest) (place + 1) range := by
  refine ⟨gets.here, gets.covers, gets.accepts, fun earlier member => ?_⟩
  rw [List.take_succ_cons, List.mem_cons] at member
  rcases member with rfl | member
  · exact passes
  · exact gets.passed earlier member

/-- Two handlers that let an exception pass put what comes behind them off by one place. -/
theorem EndAlike.tail
    (oldPasses : oldFirst.covers oldPc = true →
      oldFirst.accepts pool isSubclass thrown = .ok false)
    (newPasses : newFirst.covers newPc = true →
      newFirst.accepts pool isSubclass thrown = .ok false)
    {oldOutcome newOutcome : Except Error (Option ExceptionRange)}
    (alike : EndAlike pool isSubclass thrown map oldPc newPc old new oldOutcome newOutcome) :
    EndAlike pool isSubclass thrown map oldPc newPc (oldFirst :: old) (newFirst :: new) oldOutcome
      newOutcome := by
  cases alike with
  | failed error => exact .failed error
  | unhandled => exact .unhandled
  | handled before after handler =>
    exact .handled (before.tail oldPasses) (after.tail newPasses) handler

end search

end ExceptionTable

/-! ### Edited bodies -/

namespace Body

open CodeEdit ExceptionTable

end Body

end JavaClass
