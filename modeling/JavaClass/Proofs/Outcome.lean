/-
Computations that may fail, and what it takes for them to succeed: one after another, past a
refusal, and once for every item of a list.
-/

import JavaClass.Error
import Mathlib.Data.List.Forall2

namespace JavaClass.Outcome

variable {ε α β : Type}

theorem bind_of_ok {first : Except ε α} {next : α → Except ε β} {found : α}
    (ran : first = .ok found) : first >>= next = next found := by
  rw [ran]
  rfl

theorem bind_eq_ok_iff {first : Except ε α} {next : α → Except ε β} {value : β} :
    first >>= next = .ok value ↔ ∃ found, first = .ok found ∧ next found = .ok value := by
  cases first with
  | error error => simp [bind, Except.bind]
  | ok found => simp [bind, Except.bind]

theorem bind_eq_error_iff {first : Except ε α} {next : α → Except ε β} {error : ε} :
    first >>= next = .error error ↔
      first = .error error ∨ ∃ found, first = .ok found ∧ next found = .error error := by
  cases first with
  | error error => simp [bind, Except.bind]
  | ok found => simp [bind, Except.bind]

theorem pure_eq_ok_iff {found value : α} : (pure found : Except ε α) = .ok value ↔ found = value :=
  Except.ok.injEq found value ▸ Iff.rfl

theorem map_eq_ok_iff {computation : Except ε α} {function : α → β} {value : β} :
    computation.map function = .ok value ↔
      ∃ found, computation = .ok found ∧ function found = value := by
  cases computation with
  | error error =>
    exact iff_of_false (fun impossible => nomatch impossible)
      fun ⟨_, impossible, _⟩ => nomatch impossible
  | ok found =>
    constructor
    · intro mapped
      exact ⟨found, rfl, Except.ok.inj mapped⟩
    · rintro ⟨_, same, rfl⟩
      rw [← Except.ok.inj same]
      rfl

theorem toOption_eq_some_iff {computation : Except ε α} {value : α} :
    computation.toOption = some value ↔ computation = .ok value := by
  cases computation with
  | error error =>
    refine iff_of_false (fun impossible => ?_) fun impossible => ?_
    · cases impossible
    · cases impossible
  | ok found => rw [Except.toOption, Option.some.injEq, Except.ok.injEq]

theorem discard_eq_ok_iff {computation : Except ε α} {nothing : Unit} :
    discard computation = .ok nothing ↔ ∃ found, computation = .ok found := by
  cases computation with
  | error error => exact iff_of_false (fun impossible => nomatch impossible) fun ⟨_, impossible⟩ =>
      nomatch impossible
  | ok found => exact iff_of_true rfl ⟨found, rfl⟩

theorem discard_eq_error_iff {computation : Except ε α} {error : ε} :
    discard computation = .error error ↔ computation = .error error := by
  cases computation with
  | error reason =>
    show Except.error reason = _ ↔ _
    rw [Except.error.injEq, Except.error.injEq]
  | ok found =>
    refine iff_of_false (fun impossible => ?_) fun impossible => ?_
    · cases impossible
    · cases impossible

/-- A refusal in front of a computation. -/
theorem refuse_eq_ok_iff {refused : Prop} [Decidable refused] {error : ε}
    {next : PUnit → Except ε α} {value : α} :
    (if refused then (throw error : Except ε PUnit) >>= next else next ⟨⟩) = .ok value ↔
      ¬refused ∧ next ⟨⟩ = .ok value := by
  by_cases refuse : refused
  · rw [if_pos refuse]
    exact iff_of_false (fun impossible => nomatch impossible) fun allowed => allowed.1 refuse
  · rw [if_neg refuse]
    exact (and_iff_right refuse).symm

/-- A check that is made under a condition only, in front of a computation. -/
theorem check_eq_ok_iff {condition : Prop} [Decidable condition] {check : Except ε Unit}
    {next : Unit → Except ε α} {value : α} :
    (if condition then check >>= next else next ()) = .ok value ↔
      (condition → check = .ok ()) ∧ next () = .ok value := by
  by_cases holds : condition
  · rw [if_pos holds, bind_eq_ok_iff, forall_prop_of_true holds]
    exact ⟨fun ⟨_, passed, done⟩ => ⟨passed, done⟩, fun ⟨passed, done⟩ => ⟨_, passed, done⟩⟩
  · rw [if_neg holds]
    exact (and_iff_right fun impossible => absurd impossible holds).symm

theorem check_eq_error_iff {condition : Prop} [Decidable condition] {check : Except ε Unit}
    {next : Unit → Except ε α} {error : ε} :
    (if condition then check >>= next else next ()) = .error error ↔
      condition ∧ check = .error error ∨ (condition → check = .ok ()) ∧ next () = .error error := by
  by_cases holds : condition
  · rw [if_pos holds, bind_eq_error_iff, forall_prop_of_true holds, and_iff_right holds]
    exact or_congr_right ⟨fun ⟨_, passed, failed⟩ => ⟨passed, failed⟩,
      fun ⟨passed, failed⟩ => ⟨_, passed, failed⟩⟩
  · rw [if_neg holds, or_iff_right fun impossible => holds impossible.1]
    exact (and_iff_right fun impossible => absurd impossible holds).symm

theorem forM_eq_ok_iff {check : α → Except ε Unit} {items : List α} :
    items.forM check = .ok () ↔ ∀ item ∈ items, check item = .ok () := by
  induction items with
  | nil => exact iff_of_true rfl (List.forall_mem_nil _)
  | cons item rest inductionHypothesis =>
    rw [List.forall_mem_cons, ← inductionHypothesis]
    show (check item >>= fun _ => rest.forM check) = _ ↔ _
    rw [bind_eq_ok_iff]
    exact ⟨fun ⟨_, first, others⟩ => ⟨first, others⟩, fun ⟨first, others⟩ => ⟨_, first, others⟩⟩

/-- Checks one after the other fail as the first of them that fails. -/
theorem exists_of_forM_eq_error {check : α → Except ε Unit} {items : List α} {error : ε}
    (failed : items.forM check = .error error) :
    ∃ before item after, items = before ++ item :: after ∧
      (∀ earlier ∈ before, check earlier = .ok ()) ∧ check item = .error error := by
  induction items with
  | nil => cases failed
  | cons item rest inductionHypothesis =>
    have split : (check item >>= fun _ => rest.forM check) = .error error := failed
    cases checked : check item with
    | error found =>
      rw [checked] at split
      cases split
      exact ⟨[], item, rest, rfl, List.forall_mem_nil _, checked⟩
    | ok nothing =>
      rw [checked] at split
      obtain ⟨before, later, after, rfl, passed, refused⟩ := inductionHypothesis split
      exact ⟨item :: before, later, after, rfl, List.forall_mem_cons.mpr ⟨checked, passed⟩,
        refused⟩

theorem mapM_eq_ok_iff {compute : α → Except ε β} {items : List α} {results : List β} :
    items.mapM compute = .ok results ↔
      List.Forall₂ (fun item result => compute item = .ok result) items results := by
  induction items generalizing results with
  | nil =>
    rw [List.mapM_nil, pure_eq_ok_iff, List.forall₂_nil_left_iff]
    exact eq_comm
  | cons item rest inductionHypothesis =>
    rw [List.mapM_cons, bind_eq_ok_iff, List.forall₂_cons_left_iff]
    simp only [bind_eq_ok_iff, pure_eq_ok_iff, inductionHypothesis]
    constructor
    · rintro ⟨first, computed, others, row, rfl⟩
      exact ⟨first, others, computed, row, rfl⟩
    · rintro ⟨first, others, computed, row, rfl⟩
      exact ⟨first, computed, others, row, rfl⟩

/-- If computations for all items fail, one of them does. -/
theorem exists_of_mapM_eq_error {compute : α → Except ε β} {items : List α} {error : ε}
    (failed : items.mapM compute = .error error) :
    ∃ item ∈ items, compute item = .error error := by
  induction items with
  | nil => cases failed
  | cons item rest inductionHypothesis =>
    rw [List.mapM_cons] at failed
    cases computed : compute item with
    | error found =>
      rw [computed] at failed
      cases failed
      exact ⟨item, List.mem_cons_self, computed⟩
    | ok result =>
      cases others : rest.mapM compute with
      | error found =>
        rw [computed, others] at failed
        cases failed
        obtain ⟨other, member, refused⟩ := inductionHypothesis others
        exact ⟨other, List.mem_cons_of_mem _ member, refused⟩
      | ok results =>
        rw [computed, others] at failed
        cases failed

theorem exists_mapM_eq_ok {compute : α → Except ε β} {items : List α}
    (each : ∀ item ∈ items, ∃ result, compute item = .ok result) :
    ∃ results, items.mapM compute = .ok results := by
  cases computed : items.mapM compute with
  | error error =>
    obtain ⟨item, member, refused⟩ := exists_of_mapM_eq_error computed
    obtain ⟨result, succeeds⟩ := each item member
    rw [succeeds] at refused
    cases refused
  | ok results => exact ⟨results, rfl⟩

/-- What a success means for every item, all of them together mean for the list. -/
theorem mapM_eq_ok_iff_of_forall {compute : α → Except ε β} {relation : α → β → Prop}
    (means : ∀ {item : α} {result : β}, compute item = .ok result ↔ relation item result)
    {items : List α} {results : List β} :
    items.mapM compute = .ok results ↔ List.Forall₂ relation items results := by
  rw [mapM_eq_ok_iff]
  simp only [means]

/-- If every success is what a function gives, so are all of them together. -/
theorem eq_map_of_mapM {compute : α → Except ε β} {function : α → β} {items : List α}
    {results : List β}
    (agrees : ∀ item ∈ items, ∀ result, compute item = .ok result → function item = result)
    (computed : items.mapM compute = .ok results) : results = items.map function := by
  have row := mapM_eq_ok_iff.mp computed
  clear computed
  induction row with
  | nil => rfl
  | cons first _ inductionHypothesis =>
    obtain ⟨here, later⟩ := List.forall_mem_cons.mp agrees
    rw [List.map_cons, here _ first, inductionHypothesis later]

end JavaClass.Outcome
