/-
Code some of whose instructions gave way to others of the same length. What changed is told from
what stayed instruction by instruction and byte by byte, and revisions can be made one after
another: as long as no instruction changes twice, what changed in one of them is what changed on
the whole, and as many instructions changed as in both of them together.
-/

import JavaClass.Attribute.Basic
import JavaClass.Proofs.Code.InPlace
import JavaClass.Proofs.Row

namespace JavaClass.Code

/-! ### What changed -/

/-- Whether an instruction gave way to another one. -/
def Changed (olds news : List Instruction) (old new : Instruction) : Prop :=
  new ≠ old ∧ ∃ index : Nat, olds[index]? = some old ∧ news[index]? = some new

/-- How many instructions gave way to others. -/
def changes (olds news : List Instruction) : Nat :=
  (olds.zip news).countP fun pair => pair.2 ≠ pair.1

/-- A byte of revised code: it is what it was, or a zero that pads a switch, or part of an
instruction that changed. -/
def ByteRevised (olds news : List Instruction) (position : Nat) (before after : Option UInt8) :
    Prop :=
  after = before ∨
    (∃ instruction ∈ olds, InPadding instruction position ∧ after = some 0) ∨
    ∃ old new, Changed olds news old new ∧ Covers old position

/-- Code whose instructions became others where they were. -/
structure Revised (becomes : Instruction → Instruction → Prop) (before after : Bytes)
    (olds news : List Instruction) : Prop where
  length_eq : after.length = before.length
  old : decode before = .ok olds
  new : decode after = .ok news
  row : List.Forall₂ becomes olds news
  bytes : ∀ position : Nat, ByteRevised olds news position before[position]? after[position]?

theorem Revised.imp {becomes others : Instruction → Instruction → Prop} {before after : Bytes}
    {olds news : List Instruction} (revised : Revised becomes before after olds news)
    (implies : ∀ old new, becomes old new → others old new) :
    Revised others before after olds news :=
  { revised with row := revised.row.imp implies }

theorem changes_self (instructions : List Instruction) : changes instructions instructions = 0 := by
  rw [changes, List.countP_eq_zero]
  intro pair member changed
  have row : List.Forall₂ Eq instructions instructions := List.forall₂_refl _
  exact of_decide_eq_true changed (List.forall₂_zip row member).symm

/-- If some instructions give way to others and the rest stays, as many give way as are counted. -/
theorem changes_eq_countP {becomes : Instruction → Instruction → Prop}
    {gives : Instruction → Prop} [DecidablePred gives] {olds news : List Instruction}
    (row : List.Forall₂ becomes olds news)
    (changed : ∀ old new, becomes old new → (new ≠ old ↔ gives old)) :
    changes olds news = olds.countP fun old => gives old := by
  induction row with
  | nil => rfl
  | @cons old new olds news became _ inductionHypothesis =>
    unfold changes at inductionHypothesis ⊢
    rw [List.zip_cons_cons, List.countP_cons, List.countP_cons, inductionHypothesis]
    congr 2
    rw [decide_eq_true_iff, decide_eq_true_iff]
    exact propext (changed old new became)

theorem Revised.refl {becomes : Instruction → Instruction → Prop} {code : Bytes}
    {instructions : List Instruction} (decoded : decode code = .ok instructions)
    (same : ∀ instruction ∈ instructions, becomes instruction instruction) :
    Revised becomes code code instructions instructions where
  length_eq := rfl
  old := decoded
  new := decoded
  row := List.forall₂_same.mpr same
  bytes := fun _ => .inl rfl

/-! ### One revision after another -/

/-- An instruction that stays or gives way to one that replaces it. -/
def KeptOr (replaces : Instruction → Instruction → Prop) (old new : Instruction) : Prop :=
  new = old ∨ replaces old new

/-- Whether what replaces an instruction is not replaced itself. -/
def Final (replaces : Instruction → Instruction → Prop) : Prop :=
  ∀ old new, replaces old new → ∀ later, ¬replaces new later

section twice

variable {replaces : Instruction → Instruction → Prop} (final : Final replaces)

include final

/-- An instruction changes only once. -/
theorem Final.eq_or_eq {old mid new : Instruction} (first : KeptOr replaces old mid)
    (later : KeptOr replaces mid new) : mid = old ∨ new = mid := by
  obtain same | replaced := first
  · exact .inl same
  · exact .inr (later.resolve_right (final old mid replaced new))

theorem Final.trans {old mid new : Instruction} (first : KeptOr replaces old mid)
    (later : KeptOr replaces mid new) : KeptOr replaces old new := by
  obtain rfl | rfl := final.eq_or_eq first later
  · exact later
  · exact first

variable {olds mids news : List Instruction}

theorem Final.row_trans (first : List.Forall₂ (KeptOr replaces) olds mids)
    (later : List.Forall₂ (KeptOr replaces) mids news) :
    List.Forall₂ (KeptOr replaces) olds news := by
  induction first generalizing news with
  | nil => exact later
  | cons step _ inductionHypothesis =>
    cases later with
    | cons stepLater rest => exact .cons (final.trans step stepLater) (inductionHypothesis rest)

theorem Final.changes_trans (first : List.Forall₂ (KeptOr replaces) olds mids)
    (later : List.Forall₂ (KeptOr replaces) mids news) :
    changes olds news = changes olds mids + changes mids news := by
  induction first generalizing news with
  | nil =>
    cases later
    rfl
  | @cons old mid olds mids step _ inductionHypothesis =>
    cases later with
    | @cons _ new _ news stepLater rest =>
      have count := inductionHypothesis rest
      unfold changes at count ⊢
      rw [List.zip_cons_cons, List.zip_cons_cons, List.zip_cons_cons, List.countP_cons,
        List.countP_cons, List.countP_cons, count]
      obtain rfl | rfl := final.eq_or_eq step stepLater
      · simp only [ne_eq, not_true_eq_false, decide_false, Bool.false_eq_true, if_false]
        omega
      · simp only [ne_eq, not_true_eq_false, decide_false, Bool.false_eq_true, if_false]
        omega

/-- What changed first is what changed on the whole. -/
theorem Final.changed_of_first (later : List.Forall₂ (KeptOr replaces) mids news)
    (first : List.Forall₂ (KeptOr replaces) olds mids) {old mid : Instruction}
    (changed : Changed olds mids old mid) : ∃ new, Changed olds news old new := by
  obtain ⟨different, index, oldFound, midFound⟩ := changed
  obtain ⟨found, sameMid, step⟩ := exists_getElem?_of_forall₂ first oldFound
  obtain rfl := Option.some.inj (midFound.symm.trans sameMid)
  obtain ⟨new, newFound, stepLater⟩ := exists_getElem?_of_forall₂ later midFound
  obtain same | rfl := final.eq_or_eq step stepLater
  · exact absurd same different
  · exact ⟨new, different, index, oldFound, newFound⟩

/-- What changed later had been there from the beginning. -/
theorem Final.changed_of_later (later : List.Forall₂ (KeptOr replaces) mids news)
    (first : List.Forall₂ (KeptOr replaces) olds mids) {mid new : Instruction}
    (changed : Changed mids news mid new) : Changed olds news mid new := by
  obtain ⟨different, index, midFound, newFound⟩ := changed
  obtain ⟨old, oldFound, step⟩ := exists_getElem?_of_forall₂_right first midFound
  obtain ⟨found, sameNew, stepLater⟩ := exists_getElem?_of_forall₂ later midFound
  obtain rfl := Option.some.inj (newFound.symm.trans sameNew)
  obtain rfl | same := final.eq_or_eq step stepLater
  · exact ⟨different, index, oldFound, newFound⟩
  · exact absurd same different

/-- Bytes that were revised twice. What replaces an instruction has no padding. -/
theorem Final.byteRevised_trans
    (bare : ∀ old new, replaces old new → ∀ position, ¬InPadding new position)
    (first : List.Forall₂ (KeptOr replaces) olds mids)
    (later : List.Forall₂ (KeptOr replaces) mids news) {position : Nat}
    {before middle after : Option UInt8}
    (revised : ByteRevised olds mids position before middle)
    (revisedLater : ByteRevised mids news position middle after) :
    ByteRevised olds news position before after := by
  obtain rfl | ⟨mid, member, pads, zero⟩ | ⟨mid, new, changed, covers⟩ := revisedLater
  · obtain same | padding | ⟨old, mid, changed, covers⟩ := revised
    · exact .inl same
    · exact .inr (.inl padding)
    · obtain ⟨new, changed⟩ := final.changed_of_first later first changed
      exact .inr (.inr ⟨old, new, changed, covers⟩)
  · obtain ⟨index, found⟩ := List.mem_iff_getElem?.mp member
    obtain ⟨old, oldFound, rfl | replaced⟩ := exists_getElem?_of_forall₂_right first found
    · exact .inr (.inl ⟨mid, List.mem_of_getElem? oldFound, pads, zero⟩)
    · exact absurd pads (bare old mid replaced position)
  · exact .inr (.inr ⟨mid, new, final.changed_of_later later first changed, covers⟩)

theorem Revised.trans (bare : ∀ old new, replaces old new → ∀ position, ¬InPadding new position)
    {before middle after : Bytes} (first : Revised (KeptOr replaces) before middle olds mids)
    (later : Revised (KeptOr replaces) middle after mids news) :
    Revised (KeptOr replaces) before after olds news where
  length_eq := later.length_eq.trans first.length_eq
  old := first.old
  new := later.new
  row := final.row_trans first.row later.row
  bytes := fun position =>
    final.byteRevised_trans bare first.row later.row (first.bytes position) (later.bytes position)

end twice

/-! ### Edits in place -/

/-- Edits in place revise code, provided that what they put in place of an instruction differs from
it. -/
theorem revised_of_repaired {edits : List CodeEdit} {code : Bytes}
    {instructions : List Instruction} {relocation : Relocation}
    (repaired : Repaired edits code instructions relocation)
    (decoded : decode code = .ok instructions)
    {becomes : Instruction → Instruction → Prop}
    (row : List.Forall₂ becomes instructions (instructions.flatMap (successors edits)))
    (differs : ∀ old ∈ instructions, (CodeEdit.replacementAt? edits old.offset).isSome = true →
      ∀ new, becomes old new → new ≠ old) :
    Revised becomes code relocation.code instructions
      (instructions.flatMap (successors edits)) where
  length_eq := repaired.length_eq
  old := decoded
  new := repaired.new
  row := row
  bytes := by
    intro position
    obtain same | padding | ⟨old, member, covers, replaced⟩ := repaired.bytes position
    · exact .inl same
    · exact .inr (.inl padding)
    · obtain ⟨index, found⟩ := List.mem_iff_getElem?.mp member
      obtain ⟨new, newFound, became⟩ := exists_getElem?_of_forall₂ row found
      exact .inr (.inr
        ⟨old, new, ⟨differs old member replaced new became, index, found, newFound⟩, covers⟩)

end JavaClass.Code

namespace JavaClass

/-! ### Bodies whose code was revised -/

/-- A body with revised code, about which everything else is as it was. -/
structure Body.Revised (replaces : Instruction → Instruction → Prop) (old new : Body) : Prop where
  maxStack : new.maxStack = old.maxStack
  maxLocals : new.maxLocals = old.maxLocals
  handlers : new.handlers = old.handlers
  attributes : new.attributes = old.attributes
  code : ∃ olds news, Code.Revised (Code.KeptOr replaces) old.code new.code olds news

theorem Body.Revised.trans {replaces : Instruction → Instruction → Prop}
    (final : Code.Final replaces)
    (bare : ∀ old new, replaces old new → ∀ position, ¬Code.InPadding new position)
    {old mid new : Body} (first : old.Revised replaces mid) (later : mid.Revised replaces new) :
    old.Revised replaces new where
  maxStack := later.maxStack.trans first.maxStack
  maxLocals := later.maxLocals.trans first.maxLocals
  handlers := later.handlers.trans first.handlers
  attributes := later.attributes.trans first.attributes
  code := by
    obtain ⟨olds, mids, here⟩ := first.code
    obtain ⟨found, news, there⟩ := later.code
    obtain rfl := Except.ok.inj (here.new.symm.trans there.old)
    exact ⟨olds, news, here.trans final bare there⟩

end JavaClass
