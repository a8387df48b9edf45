/-
Edits as they were given. The table that edits are sorted into answers the same questions as the
list of them does: what to insert at an offset, in the order of the list, and what to put in place
of the instruction there. Edits that passed the check lose nothing on the way, since every one of
them is at an instruction or at the end, and no instruction is replaced twice.
-/

import JavaClass.Code.Edit
import JavaClass.Proofs.Code.Decoding
import JavaClass.Proofs.Outcome

namespace JavaClass

namespace CodeEdit

/-- The code to insert at an offset, in the order in which the edits were given. -/
def insertionsAt (edits : List CodeEdit) (offset : Nat) : List Bytes :=
  edits.filterMap fun edit =>
    match edit with
    | .insert place code => if place = offset then some code else none
    | .replace .. => none

/-- The code to put in place of the instruction at an offset. -/
def replacementAt? (edits : List CodeEdit) (offset : Nat) : Option Bytes :=
  edits.findSome? fun edit =>
    match edit with
    | .insert .. => none
    | .replace place code => if place = offset then some code else none

/-- Whether no instruction is replaced by nothing. -/
def LeaveNoGap (edits : List CodeEdit) : Prop :=
  ∀ edit ∈ edits, edit.isReplacement = true → edit.code ≠ []

theorem mem_of_mem_insertionsAt {edits : List CodeEdit} {offset : Nat} {code : Bytes}
    (member : code ∈ insertionsAt edits offset) : .insert offset code ∈ edits := by
  obtain ⟨edit, inEdits, found⟩ := List.mem_filterMap.mp member
  cases edit with
  | insert place inserted =>
    simp only [Option.ite_none_right_eq_some, Option.some.injEq] at found
    obtain ⟨rfl, rfl⟩ := found
    exact inEdits
  | replace place substitute => cases found

theorem mem_of_replacementAt? {edits : List CodeEdit} {offset : Nat} {code : Bytes}
    (found : replacementAt? edits offset = some code) : .replace offset code ∈ edits := by
  obtain ⟨edit, inEdits, found⟩ := List.exists_of_findSome?_eq_some found
  cases edit with
  | insert place inserted => cases found
  | replace place substitute =>
    simp only [Option.ite_none_right_eq_some, Option.some.injEq] at found
    obtain ⟨rfl, rfl⟩ := found
    exact inEdits

end CodeEdit

/-! ### The table of edits -/

namespace EditTable

open CodeEdit

theorem editsAt_ofList (edits : List CodeEdit) (offset : Nat) :
    (ofList edits).editsAt offset = edits.filter fun edit => edit.offset == offset := by
  induction edits with
  | nil => rfl
  | cons edit rest inductionHypothesis =>
    have step : (ofList (edit :: rest)).editsAt offset =
        if edit.offset = offset then edit :: (ofList rest).editsAt edit.offset
        else (ofList rest).editsAt offset := by
      simp only [ofList, editsAt, List.foldr_cons, Std.ExtTreeMap.getElem?_insert,
        Nat.compare_eq_eq]
      split <;> rfl
    rw [step, List.filter_cons]
    by_cases here : edit.offset = offset
    · simp only [here, if_true, beq_self_eq_true, inductionHypothesis]
    · simp only [here, if_false, beq_iff_eq, inductionHypothesis]

theorem insertions_ofList (edits : List CodeEdit) (offset : Nat) :
    (ofList edits).insertions offset = insertionsAt edits offset := by
  rw [insertions, editsAt_ofList, insertionsAt]
  induction edits with
  | nil => rfl
  | cons edit rest inductionHypothesis =>
    rw [List.filter_cons, List.filterMap_cons, ← inductionHypothesis]
    cases edit with
    | insert place inserted =>
      by_cases here : place = offset
      · simp [CodeEdit.offset, here, isReplacement, CodeEdit.code]
      · simp [CodeEdit.offset, here]
    | replace place substitute =>
      by_cases here : place = offset
      · simp [CodeEdit.offset, here, isReplacement]
      · simp [CodeEdit.offset, here]

theorem replacement?_ofList (edits : List CodeEdit) (offset : Nat) :
    (ofList edits).replacement? offset = replacementAt? edits offset := by
  rw [replacement?, editsAt_ofList, replacementAt?]
  induction edits with
  | nil => rfl
  | cons edit rest inductionHypothesis =>
    rw [List.filter_cons, List.findSome?_cons, ← inductionHypothesis]
    cases edit with
    | insert place inserted =>
      by_cases here : place = offset
      · simp [CodeEdit.offset, here, isReplacement]
      · simp [CodeEdit.offset, here]
    | replace place substitute =>
      by_cases here : place = offset
      · simp [CodeEdit.offset, here, List.find?_cons, isReplacement, CodeEdit.code]
      · simp [CodeEdit.offset, here]

end EditTable

/-! ### Checked edits -/

namespace CodeEdit

open Code

/-- Edits that can be made to code of `length` bytes with the given instructions. -/
structure Fit (instructions : List Instruction) (length : Nat) (edits : List CodeEdit) : Prop where
  placed : ∀ edit ∈ edits, BeginsAt instructions edit.offset ∨
    edit.isReplacement = false ∧ edit.offset = length
  once : edits.Pairwise fun before after => before.isReplacement = true →
    after.isReplacement = true → before.offset ≠ after.offset
  decodes : ∀ edit ∈ edits, ∃ own, decode edit.code = .ok own ∧
    ∀ instruction ∈ own, instruction.isBranchFree = true

theorem fit_cons_iff {instructions : List Instruction} {length : Nat} {edit : CodeEdit}
    {rest : List CodeEdit} :
    Fit instructions length (edit :: rest) ↔
      (BeginsAt instructions edit.offset ∨ edit.isReplacement = false ∧ edit.offset = length) ∧
        (∀ later ∈ rest, edit.isReplacement = true → later.isReplacement = true →
          edit.offset ≠ later.offset) ∧
        (∃ own, decode edit.code = .ok own ∧
          ∀ instruction ∈ own, instruction.isBranchFree = true) ∧
        Fit instructions length rest := by
  constructor
  · intro ⟨placed, once, decodes⟩
    obtain ⟨place, placedLater⟩ := List.forall_mem_cons.mp placed
    obtain ⟨apart, onceLater⟩ := List.pairwise_cons.mp once
    obtain ⟨own, decodesLater⟩ := List.forall_mem_cons.mp decodes
    exact ⟨place, apart, own, placedLater, onceLater, decodesLater⟩
  · intro ⟨place, apart, own, fit⟩
    exact ⟨List.forall_mem_cons.mpr ⟨place, fit.placed⟩, .cons apart fit.once,
      List.forall_mem_cons.mpr ⟨own, fit.decodes⟩⟩

theorem checkCode_eq_ok_iff {edit : CodeEdit} :
    edit.checkCode = .ok () ↔ ∃ own, decode edit.code = .ok own ∧
      ∀ instruction ∈ own, instruction.isBranchFree = true := by
  unfold checkCode
  cases decoded : decode edit.code with
  | error error =>
    exact iff_of_false (fun impossible => nomatch impossible) fun ⟨_, impossible, _⟩ =>
      nomatch impossible
  | ok own =>
    simp only [Except.ok.injEq, exists_eq_left']
    cases found : own.find? fun instruction => !instruction.isBranchFree with
    | some branch =>
      have branches := List.find?_some found
      refine iff_of_false (fun impossible => nomatch impossible) fun free => ?_
      rw [free branch (List.mem_of_find?_eq_some found)] at branches
      cases branches
    | none =>
      refine iff_of_true rfl fun instruction member => ?_
      simpa using List.find?_eq_none.mp found instruction member

theorem checkAll_insert_eq_ok_iff {starts : Std.ExtTreeSet Nat} {length offset : Nat}
    {replaced : List Nat} {code : Bytes} {rest : List CodeEdit} :
    checkAll starts length replaced (.insert offset code :: rest) = .ok () ↔
      (starts.contains offset = true ∨ offset = length) ∧
        (insert offset code).checkCode = .ok () ∧
          checkAll starts length replaced rest = .ok () := by
  simp only [checkAll, CodeEdit.offset, Outcome.refuse_eq_ok_iff, Outcome.bind_eq_ok_iff,
    Bool.not_eq_true', Bool.not_eq_false, Bool.or_eq_true, beq_iff_eq]
  exact and_congr_right fun _ => ⟨fun ⟨_, code, others⟩ => ⟨code, others⟩,
    fun ⟨code, others⟩ => ⟨(), code, others⟩⟩

theorem checkAll_replace_eq_ok_iff {starts : Std.ExtTreeSet Nat} {length offset : Nat}
    {replaced : List Nat} {code : Bytes} {rest : List CodeEdit} :
    checkAll starts length replaced (.replace offset code :: rest) = .ok () ↔
      starts.contains offset = true ∧ offset ∉ replaced ∧
        (replace offset code).checkCode = .ok () ∧
        checkAll starts length (offset :: replaced) rest = .ok () := by
  simp only [checkAll, CodeEdit.offset, Outcome.refuse_eq_ok_iff, Outcome.bind_eq_ok_iff,
    Bool.not_eq_true', Bool.not_eq_false, List.contains_iff_mem]
  exact and_congr_right fun _ => and_congr_right fun _ =>
    ⟨fun ⟨_, code, others⟩ => ⟨code, others⟩, fun ⟨code, others⟩ => ⟨(), code, others⟩⟩

/-- The check accepts edits that can be made, those at the instructions already replaced being
refused. -/
theorem checkAll_eq_ok_iff {instructions : List Instruction} {length : Nat} {replaced : List Nat}
    {edits : List CodeEdit} :
    checkAll (.ofList (instructions.map Instruction.offset)) length replaced edits = .ok () ↔
      Fit instructions length edits ∧
        ∀ edit ∈ edits, edit.isReplacement = true → edit.offset ∉ replaced := by
  induction edits generalizing replaced with
  | nil =>
    exact iff_of_true rfl
      ⟨⟨List.forall_mem_nil _, .nil, List.forall_mem_nil _⟩, List.forall_mem_nil _⟩
  | cons edit rest inductionHypothesis =>
    rw [fit_cons_iff, List.forall_mem_cons]
    cases edit with
    | insert offset code =>
      rw [checkAll_insert_eq_ok_iff, contains_starts_iff, checkCode_eq_ok_iff,
        inductionHypothesis]
      constructor
      · intro ⟨place, own, fit, fresh⟩
        exact ⟨⟨place.imp_right fun last => ⟨rfl, last⟩, (fun _ _ impossible => nomatch impossible),
          own, fit⟩, (fun impossible => nomatch impossible), fresh⟩
      · intro ⟨⟨place, _, own, fit⟩, _, fresh⟩
        exact ⟨place.imp_right And.right, own, fit, fresh⟩
    | replace offset code =>
      rw [checkAll_replace_eq_ok_iff, contains_starts_iff, checkCode_eq_ok_iff,
        inductionHypothesis]
      constructor
      · intro ⟨place, unreplaced, own, fit, fresh⟩
        refine ⟨⟨.inl place, fun later member _ replacement same => ?_, own, fit⟩,
          fun _ => unreplaced, fun later member replacement inReplaced => ?_⟩
        · exact fresh later member replacement (List.mem_cons.mpr (.inl same.symm))
        · exact fresh later member replacement (List.mem_cons_of_mem _ inReplaced)
      · intro ⟨⟨place, apart, own, fit⟩, unreplaced, fresh⟩
        refine ⟨place.resolve_right (fun last => nomatch last.1), unreplaced rfl, own, fit,
          fun later member replacement inReplaced => ?_⟩
        rcases List.mem_cons.mp inReplaced with same | inReplaced
        · exact apart later member rfl replacement same.symm
        · exact fresh later member replacement inReplaced

end CodeEdit

end JavaClass
