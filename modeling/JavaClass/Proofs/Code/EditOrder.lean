/-
Edits in another order. Which edits can be made to code does not depend on how they are listed, for
the check asks of each whether it fits and of any two whether they replace the same instruction.
Where they can be made, the table they are sorted into tells what to insert at an offset and what
replaces the instruction there. There is at most one replacement, so only what is inserted at one
offset can come out in another order, and where it does not the code is rebuilt from the same
pieces.
-/

import JavaClass.Proofs.Code.InPlace
import JavaClass.Proofs.Code.Passes
import Mathlib.Data.List.Pairwise

namespace JavaClass

/-! ### What the order leaves alone -/

namespace CodeEdit

open Code

variable {instructions : List Instruction} {length : Nat} {first second : List CodeEdit}

theorem Fit.perm (fit : Fit instructions length first) (perm : first.Perm second) :
    Fit instructions length second where
  placed edit member := fit.placed edit (perm.mem_iff.mpr member)
  once := fit.once.perm perm fun apart replacement other same =>
    apart other replacement same.symm
  decodes edit member := fit.decodes edit (perm.mem_iff.mpr member)

/-- No instruction is replaced twice, so every replacement is the one that is found. -/
theorem Fit.replacementAt?_eq_some_iff (fit : Fit instructions length first) {offset : Nat}
    {code : Bytes} : replacementAt? first offset = some code ↔ .replace offset code ∈ first := by
  refine ⟨mem_of_replacementAt?, fun member => ?_⟩
  obtain ⟨other, found⟩ := Option.isSome_iff_exists.mp (isSome_replacementAt?_of_mem member)
  have symmetric : Std.Symm fun before after : CodeEdit => before.isReplacement = true →
      after.isReplacement = true → before.offset ≠ after.offset :=
    ⟨fun _ _ apart replacement other same => apart other replacement same.symm⟩
  -- What is found first need not be the edit in question, but two edits would replace one offset.
  by_cases same : CodeEdit.replace offset code = .replace offset other
  · rw [found, (CodeEdit.replace.inj same).2]
  · have apart := fit.once.forall member (mem_of_replacementAt? found) same
    exact absurd rfl (apart rfl rfl)

theorem Fit.replacementAt?_perm (fit : Fit instructions length first)
    (perm : first.Perm second) (offset : Nat) :
    replacementAt? first offset = replacementAt? second offset := by
  refine Option.ext fun code => ?_
  rw [fit.replacementAt?_eq_some_iff, (fit.perm perm).replacementAt?_eq_some_iff, perm.mem_iff]

end CodeEdit

namespace Code

open CodeEdit

/-- The pieces are made from what is inserted and what is replaced, offset by offset. -/
theorem pieces_congr {first second : List CodeEdit}
    (inserted : ∀ offset, insertionsAt first offset = insertionsAt second offset)
    (replaced : ∀ offset, replacementAt? first offset = replacementAt? second offset)
    (length : Nat) (instructions : List Instruction) :
    pieces (EditTable.ofList first) length instructions =
      pieces (EditTable.ofList second) length instructions := by
  simp only [pieces, EditTable.insertions_ofList, EditTable.replacement?_ofList, inserted,
    replaced]

/-! ### What comes out -/

section perm

variable {first second : List CodeEdit} (perm : first.Perm second)
  (alike : ∀ offset, insertionsAt first offset = insertionsAt second offset)

include perm alike

/-- Edits that can be made come to the same in both orders, errors included. -/
theorem relocate_eq_of_fit {code : Bytes} {instructions : List Instruction}
    (short : code.length < UInt32.size) (decoded : decode code = .ok instructions)
    (fit : Fit instructions code.length first) (allowed : Bool) :
    relocate code first allowed = relocate code second allowed := by
  have checked {edits : List CodeEdit} (fit : Fit instructions code.length edits) :
      checkAll (.ofList (instructions.map Instruction.offset)) code.length [] edits = .ok () :=
    checkAll_eq_ok_iff.mpr ⟨fit, fun _ _ _ => List.not_mem_nil⟩
  rw [relocate_eq_bind short decoded (checked fit),
    relocate_eq_bind short decoded (checked (fit.perm perm)), settleEdits, settleEdits,
    pieces_congr alike (fit.replacementAt?_perm perm)]

theorem relocate_perm_of_ok {code : Bytes} {allowed : Bool} {relocation : Relocation}
    (relocated : relocate code first allowed = .ok relocation) :
    relocate code second allowed = .ok relocation := by
  obtain ⟨short, _, _, _, decoded, fit, -⟩ := exists_of_relocate relocated
  rw [← relocate_eq_of_fit perm alike short decoded fit, relocated]

end perm

/-- Two lists of the same edits, with the same order of what is inserted at each offset, come to the
same code, map and number of promotions, or both of them fail. -/
theorem relocate_alike_of_perm {first second : List CodeEdit} (perm : first.Perm second)
    (alike : ∀ offset, insertionsAt first offset = insertionsAt second offset) (code : Bytes)
    (allowed : Bool) :
    (∃ relocation, relocate code first allowed = .ok relocation ∧
        relocate code second allowed = .ok relocation) ∨
      ∃ error other, relocate code first allowed = .error error ∧
        relocate code second allowed = .error other := by
  cases firstRan : relocate code first allowed with
  | ok relocation => exact .inl ⟨relocation, rfl, relocate_perm_of_ok perm alike firstRan⟩
  | error error =>
    cases secondRan : relocate code second allowed with
    | ok relocation =>
      have back := relocate_perm_of_ok perm.symm (fun offset => (alike offset).symm) secondRan
      rw [firstRan] at back
      cases back
    | error other => exact .inr ⟨error, other, rfl, rfl⟩

/-- Code put in front of an instruction in two steps, and in place of it in between. -/
def listed : List CodeEdit := [.insert 3 [0], .replace 3 [0, 0xB1], .insert 3 [3, 0x57]]

/-- The same edits, the replacement first. -/
def relisted : List CodeEdit := [.replace 3 [0, 0xB1], .insert 3 [0], .insert 3 [3, 0x57]]

theorem relocate_alike_of_perm_listed :
    listed.Perm relisted ∧ (∀ offset, insertionsAt listed offset = insertionsAt relisted offset) ∧
      ∃ relocation, relocate [0xA7, 0, 3, 0xB1] listed false = .ok relocation ∧
        relocate [0xA7, 0, 3, 0xB1] relisted false = .ok relocation := by
  have perm : listed.Perm relisted := .swap _ _ _
  have alike (offset : Nat) : insertionsAt listed offset = insertionsAt relisted offset := rfl
  refine ⟨perm, alike, ?_⟩
  obtain both | ⟨error, _, failed, -⟩ :=
    relocate_alike_of_perm perm alike [0xA7, 0, 3, 0xB1] false
  · exact both
  · have succeeds : (relocate [0xA7, 0, 3, 0xB1] listed false).isOk = true := by
      decide +kernel
    rw [failed] at succeeds
    cases succeeds

end Code

end JavaClass
