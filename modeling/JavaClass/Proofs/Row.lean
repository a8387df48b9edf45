/-
Rows: two lists whose items are related place by place. What stands at a place of one of them has a
partner at the same place of the other, and so has what is found first; a row can be cut where one
of the lists can, and if items are related to none but themselves the lists are the same.
-/

import Mathlib.Data.List.Forall2

namespace JavaClass

section partners

variable {α β : Type} {relation : α → β → Prop} {olds : List α} {news : List β}

theorem exists_getElem?_of_forall₂ (row : List.Forall₂ relation olds news) {index : Nat} {old : α}
    (found : olds[index]? = some old) : ∃ new, news[index]? = some new ∧ relation old new := by
  induction row generalizing index with
  | nil => cases found
  | cons related _ inductionHypothesis =>
    cases index with
    | zero =>
      cases found
      exact ⟨_, rfl, related⟩
    | succ index => exact inductionHypothesis found

theorem exists_getElem?_of_forall₂_right (row : List.Forall₂ relation olds news) {index : Nat}
    {new : β} (found : news[index]? = some new) :
    ∃ old, olds[index]? = some old ∧ relation old new :=
  exists_getElem?_of_forall₂ row.flip found

theorem exists_mem_of_forall₂_right (row : List.Forall₂ relation olds news) {new : β}
    (member : new ∈ news) : ∃ old ∈ olds, relation old new := by
  obtain ⟨index, found⟩ := List.mem_iff_getElem?.mp member
  obtain ⟨old, oldFound, related⟩ := exists_getElem?_of_forall₂_right row found
  exact ⟨old, List.mem_of_getElem? oldFound, related⟩

/-- What is found first on one side has its partner found first on the other. -/
theorem exists_find?_of_forall₂ (row : List.Forall₂ relation olds news) {picks : α → Bool}
    (picksNew : β → Bool) (agree : ∀ old new, relation old new → picksNew new = picks old) {old : α}
    (found : olds.find? picks = some old) :
    ∃ new, news.find? picksNew = some new ∧ relation old new := by
  induction row with
  | nil => cases found
  | @cons first other _ _ related _ inductionHypothesis =>
    have same := agree first other related
    by_cases picked : picks first = true
    · rw [List.find?_cons_of_pos picked] at found
      obtain rfl := Option.some.inj found
      exact ⟨other, List.find?_cons_of_pos (same.trans picked), related⟩
    · rw [List.find?_cons_of_neg picked] at found
      rw [List.find?_cons_of_neg (same ▸ picked)]
      exact inductionHypothesis found

/-- What the items of one side are related to, their partners are related to, if it is carried over.
-/
theorem forall₂_of_partners {γ : Type} {holds : α → γ → Prop} {holdsNew : β → γ → Prop}
    {values : List γ}
    (carried : ∀ old new value, relation old new → holds old value → holdsNew new value)
    (row : List.Forall₂ relation olds news) (held : List.Forall₂ holds olds values) :
    List.Forall₂ holdsNew news values := by
  induction row generalizing values with
  | nil =>
    cases held
    exact .nil
  | cons related _ inductionHypothesis =>
    cases held with
    | cons here later => exact .cons (carried _ _ _ related here) (inductionHypothesis later)

/-- What any two items of one side have to do with each other, their partners have too, if it is
carried over. -/
theorem pairwise_of_forall₂ {apart : α → α → Prop} {apartNew : β → β → Prop}
    (carried : ∀ {first later newFirst newLater}, relation first newFirst →
      relation later newLater → apart first later → apartNew newFirst newLater)
    (row : List.Forall₂ relation olds news) (pairwise : olds.Pairwise apart) :
    news.Pairwise apartNew := by
  induction row with
  | nil => exact .nil
  | cons related rest inductionHypothesis =>
    obtain ⟨first, others⟩ := List.pairwise_cons.mp pairwise
    refine List.pairwise_cons.mpr ⟨fun new member => ?_, inductionHypothesis others⟩
    obtain ⟨old, oldMember, relatedLater⟩ := exists_mem_of_forall₂_right rest member
    exact carried related relatedLater (first old oldMember)

theorem exists_of_forall₂_append {oldsBehind : List α}
    (row : List.Forall₂ relation (olds ++ oldsBehind) news) :
    ∃ front back, news = front ++ back ∧ List.Forall₂ relation olds front ∧
      List.Forall₂ relation oldsBehind back := by
  refine ⟨news.take olds.length, news.drop olds.length, (List.take_append_drop _ _).symm, ?_, ?_⟩
  · exact (List.forall₂_take_append news olds oldsBehind row.flip).flip
  · exact (List.forall₂_drop_append news olds oldsBehind row.flip).flip

/-- Rows of single items, put together. -/
theorem forall₂_flatMap_of_singletons {step : α → List β}
    (single : ∀ old ∈ olds, ∃ new, step old = [new] ∧ relation old new) :
    List.Forall₂ relation olds (olds.flatMap step) := by
  induction olds with
  | nil => exact .nil
  | cons old rest inductionHypothesis =>
    obtain ⟨⟨new, same, related⟩, later⟩ := List.forall_mem_cons.mp single
    rw [List.flatMap_cons, same]
    exact .cons related (inductionHypothesis later)

/-- Rows in which every item has the one partner that a function makes of it. -/
theorem forall₂_iff_eq_map {fits : α → Prop} {make : α → β}
    (means : ∀ old new, relation old new ↔ fits old ∧ new = make old) :
    List.Forall₂ relation olds news ↔ (∀ old ∈ olds, fits old) ∧ news = olds.map make := by
  induction olds generalizing news with
  | nil =>
    rw [List.forall₂_nil_left_iff, List.map_nil]
    exact (and_iff_right (List.forall_mem_nil _)).symm
  | cons old rest inductionHypothesis =>
    simp only [List.forall₂_cons_left_iff, inductionHypothesis, means, List.forall_mem_cons,
      List.map_cons]
    constructor
    · rintro ⟨_, _, ⟨first, rfl⟩, ⟨others, rfl⟩, rfl⟩
      exact ⟨⟨first, others⟩, rfl⟩
    · rintro ⟨⟨first, others⟩, rfl⟩
      exact ⟨_, _, ⟨first, rfl⟩, ⟨others, rfl⟩, rfl⟩

end partners

/-- Items that are related to none but themselves. -/
theorem eq_of_forall₂ {α : Type} {relation : α → α → Prop} {olds news : List α}
    (row : List.Forall₂ relation olds news)
    (same : ∀ old ∈ olds, ∀ new, relation old new → new = old) : news = olds := by
  induction row with
  | nil => rfl
  | cons related _ inductionHypothesis =>
    obtain ⟨first, later⟩ := List.forall_mem_cons.mp same
    rw [first _ related, inductionHypothesis later]

end JavaClass
