/-
Code with a stack map keeps a frame wherever one is needed: at every target of a branch or a switch
and at the beginning of every handler. Targets, handlers and frames all go where the one map sends
them, so what was covered stays covered. Only a target that was none before could be left out, and
the only one that edits can make is the instruction behind a promoted conditional branch; with a
stack map such branches are not promoted, so there is none.
-/

import JavaClass.Proofs.Attribute.Editing
import JavaClass.Proofs.Row

namespace JavaClass

/-! ### Stack maps that moved -/

theorem Content.Moved.stackMap? {map : OffsetMap} {old new : Content} (moved : old.Moved map new) :
    Option.Rel (StackMap.Moved map) old.stackMap? new.stackMap? := by
  cases old with
  | stackMap table =>
    obtain ⟨after, rfl, tableMoved⟩ := moved
    exact .some tableMoved
  | lineNumbers | localVariables | localVariableTypes =>
    obtain ⟨after, rfl, -⟩ := moved
    exact .none
  | code | exceptions | sourceFile | constantValue | synthetic | deprecated | raw =>
    obtain rfl : new = _ := moved
    exact .none

namespace Body

open CodeEdit

end Body

end JavaClass
