/-
Computations that may fail and that hand on a state whether or not they succeed. What one of them
comes to is peeled apart step by step, as for computations without a state. What all of them do to
the state, however they end, is a relation that holds between any state and itself and that is
passed on along a chain; it then holds for everything that is composed of such steps, loops
included. Some actions do no more than look at the state they are run on, and fail over what they
see there at most. Some do not look at all of the state, and those can be run on another one that
differs in nothing else.
-/

import JavaClass.Error
import Mathlib.Data.List.Basic
import Mathlib.Order.Defs.Unbundled

namespace JavaClass.Stateful

variable {σ α β : Type}

/-! ### One after another -/

section results

variable {first : ExceptT Error (StateM σ) α} {next : α → ExceptT Error (StateM σ) β}
  {state after : σ}

theorem bind_of_ok {found : α} {middle : σ} (ran : first state = (.ok found, middle)) :
    (first >>= next) state = next found middle := by
  show ExceptT.bindCont next (first state).1 (first state).2 = _
  rw [ran]
  rfl

theorem bind_of_error {error : Error} (failed : first state = (.error error, after)) :
    (first >>= next) state = (.error error, after) := by
  show ExceptT.bindCont next (first state).1 (first state).2 = _
  rw [failed]
  rfl

theorem bind_eq_ok_iff {value : β} :
    (first >>= next) state = (.ok value, after) ↔
      ∃ found middle, first state = (.ok found, middle) ∧
        next found middle = (.ok value, after) := by
  cases ran : first state with
  | mk result reached =>
    cases result with
    | error error =>
      rw [bind_of_error ran]
      refine iff_of_false (fun impossible => ?_) fun ⟨_, _, impossible, _⟩ => ?_
      · cases impossible
      · cases impossible
    | ok found =>
      rw [bind_of_ok ran]
      constructor
      · intro succeeded
        exact ⟨found, reached, rfl, succeeded⟩
      · rintro ⟨_, _, same, succeeded⟩
        cases same
        exact succeeded

theorem bind_eq_error_iff {error : Error} :
    (first >>= next) state = (.error error, after) ↔
      first state = (.error error, after) ∨
        ∃ found middle, first state = (.ok found, middle) ∧
          next found middle = (.error error, after) := by
  cases ran : first state with
  | mk result reached =>
    cases result with
    | error reason =>
      rw [bind_of_error ran]
      constructor
      · intro failed
        cases failed
        exact .inl rfl
      · rintro (failed | ⟨_, _, impossible, -⟩)
        · cases failed
          rfl
        · cases impossible
    | ok found =>
      rw [bind_of_ok ran]
      constructor
      · intro failed
        exact .inr ⟨found, reached, rfl, failed⟩
      · rintro (impossible | ⟨_, _, same, failed⟩)
        · cases impossible
        · cases same
          exact failed

/-- What holds of the state that the first action leaves holds in the end, if the next one keeps it
after what was found. -/
theorem holds_after_bind {property : σ → Prop} (here : property (first state).2)
    (later : ∀ found middle, first state = (.ok found, middle) → property middle →
      property (next found middle).2) :
    property ((first >>= next) state).2 := by
  cases ran : first state with
  | mk result middle =>
    rw [ran] at here
    cases result with
    | error error =>
      rw [bind_of_error ran]
      exact here
    | ok found =>
      rw [bind_of_ok ran]
      exact later found middle ran here

theorem pure_eq_ok_iff {found value : α} :
    (pure found : ExceptT Error (StateM σ) α) state = (.ok value, after) ↔
      found = value ∧ state = after := by
  show (Except.ok found, state) = _ ↔ _
  rw [Prod.mk.injEq, Except.ok.injEq]

theorem not_pure_eq_error {found : α} {error : Error} :
    (pure found : ExceptT Error (StateM σ) α) state ≠ (.error error, after) := by
  intro impossible
  cases impossible

theorem discard_eq_bind (action : ExceptT Error (StateM σ) α) :
    (discard action : ExceptT Error (StateM σ) Unit) = action >>= fun _ => pure () := by
  rw [bind_pure_comp]
  rfl

theorem discard_eq_ok_iff {action : ExceptT Error (StateM σ) α} {nothing : Unit} :
    (discard action : ExceptT Error (StateM σ) Unit) state = (.ok nothing, after) ↔
      ∃ found, action state = (.ok found, after) := by
  rw [discard_eq_bind, bind_eq_ok_iff]
  constructor
  · rintro ⟨found, middle, ran, done⟩
    rw [← (pure_eq_ok_iff.mp done).2]
    exact ⟨found, ran⟩
  · rintro ⟨found, ran⟩
    exact ⟨found, after, ran, rfl⟩

theorem discard_eq_error_iff {action : ExceptT Error (StateM σ) α} {error : Error} :
    (discard action : ExceptT Error (StateM σ) Unit) state = (.error error, after) ↔
      action state = (.error error, after) := by
  rw [discard_eq_bind, bind_eq_error_iff]
  refine or_iff_left ?_
  rintro ⟨_, _, -, impossible⟩
  exact not_pure_eq_error impossible

theorem forM_cons_eq_ok_iff {step : α → ExceptT Error (StateM σ) PUnit} {item : α} {rest : List α}
    {nothing : PUnit} :
    (item :: rest).forM step state = (.ok nothing, after) ↔
      ∃ middle, step item state = (.ok PUnit.unit, middle) ∧
        rest.forM step middle = (.ok nothing, after) := by
  show (step item >>= fun _ => rest.forM step) state = _ ↔ _
  rw [bind_eq_ok_iff]
  constructor
  · rintro ⟨_, middle, first, later⟩
    exact ⟨middle, first, later⟩
  · rintro ⟨middle, first, later⟩
    exact ⟨PUnit.unit, middle, first, later⟩

theorem forM_append_eq_ok_iff {step : α → ExceptT Error (StateM σ) PUnit} {first later : List α}
    {nothing : PUnit} :
    (first ++ later).forM step state = (.ok nothing, after) ↔
      ∃ middle, first.forM step state = (.ok PUnit.unit, middle) ∧
        later.forM step middle = (.ok nothing, after) := by
  induction first generalizing state with
  | nil =>
    constructor
    · intro ran
      exact ⟨state, rfl, ran⟩
    · rintro ⟨middle, none, ran⟩
      rw [(pure_eq_ok_iff.mp none).2]
      exact ran
  | cons item rest inductionHypothesis =>
    simp only [List.cons_append, forM_cons_eq_ok_iff, inductionHypothesis]
    constructor
    · rintro ⟨reached, here, middle, ran, others⟩
      exact ⟨middle, ⟨reached, here, ran⟩, others⟩
    · rintro ⟨middle, ⟨reached, here, ran⟩, others⟩
      exact ⟨reached, here, middle, ran, others⟩

/-- Steps that leave the state alone leave it alone one after the other. -/
theorem forM_of_idle {step : α → ExceptT Error (StateM σ) PUnit} {items : List α}
    (idle : ∀ item ∈ items, step item state = (.ok PUnit.unit, state)) :
    items.forM step state = (.ok PUnit.unit, state) := by
  induction items with
  | nil => rfl
  | cons item rest inductionHypothesis =>
    obtain ⟨first, later⟩ := List.forall_mem_cons.mp idle
    exact forM_cons_eq_ok_iff.mpr ⟨state, first, inductionHypothesis later⟩

theorem foldlM_of_idle {step : β → α → ExceptT Error (StateM σ) β} {items : List α} {found : β}
    (idle : ∀ item ∈ items, step found item state = (.ok found, state)) :
    items.foldlM step found state = (.ok found, state) := by
  induction items with
  | nil => rfl
  | cons item rest inductionHypothesis =>
    obtain ⟨first, later⟩ := List.forall_mem_cons.mp idle
    rw [List.foldlM_cons]
    exact bind_eq_ok_iff.mpr ⟨found, state, first, inductionHypothesis later⟩

/-- If every step leaves the state alone and some of them refuse, the first of these decides. -/
theorem exists_forM_eq_error {step : α → ExceptT Error (StateM σ) PUnit} {items : List α}
    {stops : α → Prop} {refusal : Error → Prop}
    (idle : ∀ item ∈ items, ¬stops item → step item state = (.ok PUnit.unit, state))
    (stop : ∀ item ∈ items, stops item →
      ∃ error, refusal error ∧ step item state = (.error error, state))
    (some : ∃ item ∈ items, stops item) :
    ∃ error, refusal error ∧ items.forM step state = (.error error, state) := by
  induction items with
  | nil =>
    obtain ⟨_, member, -⟩ := some
    cases member
  | cons item rest inductionHypothesis =>
    obtain ⟨idleHere, idleLater⟩ := List.forall_mem_cons.mp idle
    obtain ⟨stopHere, stopLater⟩ := List.forall_mem_cons.mp stop
    by_cases stops : stops item
    · obtain ⟨error, refused, ran⟩ := stopHere stops
      exact ⟨error, refused, bind_of_error ran⟩
    · obtain ⟨other, member, otherStops⟩ := some
      obtain rfl | later := List.mem_cons.mp member
      · exact absurd otherStops stops
      · obtain ⟨error, refused, ran⟩ :=
          inductionHypothesis idleLater stopLater ⟨other, later, otherStops⟩
        exact ⟨error, refused, (bind_of_ok (idleHere stops)).trans ran⟩

end results

/-! ### However it ends -/

/-- Whether an action relates every state to the one it leaves, however it ends. -/
def Always (relation : σ → σ → Prop) (action : ExceptT Error (StateM σ) α) : Prop :=
  ∀ state, relation state (action state).2

namespace Always

variable {relation : σ → σ → Prop}

theorem relates {action : ExceptT Error (StateM σ) α} {state after : σ} {result : Except Error α}
    (always : Always relation action) (ran : action state = (result, after)) :
    relation state after := by
  have related := always state
  rw [ran] at related
  exact related

theorem mono {coarser : σ → σ → Prop} (coarsens : ∀ {state after}, relation state after →
    coarser state after) {action : ExceptT Error (StateM σ) α} (always : Always relation action) :
    Always coarser action :=
  fun state => coarsens (always state)

variable [IsPreorder σ relation]

theorem pure (value : α) : Always relation (pure value : ExceptT Error (StateM σ) α) :=
  fun state => refl_of relation state

theorem throw (error : Error) : Always relation (throw error : ExceptT Error (StateM σ) α) :=
  fun state => refl_of relation state

theorem bind {first : ExceptT Error (StateM σ) α} {next : α → ExceptT Error (StateM σ) β}
    (always : Always relation first) (alwaysNext : ∀ value, Always relation (next value)) :
    Always relation (first >>= next) := by
  intro state
  cases ran : first state with
  | mk result middle =>
    have step := always.relates ran
    cases result with
    | error error =>
      rw [bind_of_error ran]
      exact step
    | ok found =>
      rw [bind_of_ok ran]
      exact trans_of relation step (alwaysNext found middle)

theorem discard {action : ExceptT Error (StateM σ) α} (always : Always relation action) :
    Always relation (discard action : ExceptT Error (StateM σ) Unit) := by
  rw [discard_eq_bind]
  exact always.bind fun _ => .pure ()

theorem mapM {step : α → ExceptT Error (StateM σ) β} (always : ∀ item, Always relation (step item))
    (items : List α) : Always relation (items.mapM step) := by
  induction items with
  | nil => exact .pure []
  | cons item rest inductionHypothesis =>
    rw [List.mapM_cons]
    exact (always item).bind fun _ => inductionHypothesis.bind fun _ => .pure _

theorem forM {step : α → ExceptT Error (StateM σ) PUnit} {items : List α}
    (always : ∀ item ∈ items, Always relation (step item)) : Always relation (items.forM step) := by
  induction items with
  | nil => exact .pure PUnit.unit
  | cons item rest inductionHypothesis =>
    obtain ⟨first, later⟩ := List.forall_mem_cons.mp always
    exact first.bind fun _ => inductionHypothesis later

theorem foldlM {step : β → α → ExceptT Error (StateM σ) β}
    (always : ∀ found item, Always relation (step found item)) (items : List α) (found : β) :
    Always relation (items.foldlM step found) := by
  induction items generalizing found with
  | nil => exact .pure found
  | cons item rest inductionHypothesis =>
    exact (always found item).bind fun next => inductionHypothesis next

end Always

/-! ### Only looking -/

/-- Whether an action leaves the state it is run on alone, and if it fails, then as it may. -/
def Looks (refusal : Error → Prop) (state : σ) (action : ExceptT Error (StateM σ) α) : Prop :=
  ∃ result, action state = (result, state) ∧ ∀ error, result = .error error → refusal error

namespace Looks

variable {refusal : Error → Prop} {state : σ}

theorem of_eq_ok {action : ExceptT Error (StateM σ) α} {value : α}
    (ran : action state = (.ok value, state)) : Looks refusal state action :=
  ⟨.ok value, ran, fun _ impossible => nomatch impossible⟩

/-- Of what comes next it only matters what it does after what was found here. -/
theorem bind {first : ExceptT Error (StateM σ) α} {next : α → ExceptT Error (StateM σ) β}
    (looks : Looks refusal state first)
    (looksNext : ∀ value, first state = (.ok value, state) → Looks refusal state (next value)) :
    Looks refusal state (first >>= next) := by
  obtain ⟨result, ran, fails⟩ := looks
  cases result with
  | error error =>
    refine ⟨.error error, bind_of_error ran, fun reason same => ?_⟩
    rw [← Except.error.inj same]
    exact fails error rfl
  | ok found =>
    obtain ⟨reached, ranNext, failsNext⟩ := looksNext found ran
    exact ⟨reached, (bind_of_ok ran).trans ranNext, failsNext⟩

theorem discard {action : ExceptT Error (StateM σ) α} (looks : Looks refusal state action) :
    Looks refusal state (discard action : ExceptT Error (StateM σ) Unit) := by
  rw [discard_eq_bind]
  exact looks.bind fun _ _ => .of_eq_ok rfl

theorem forM {step : α → ExceptT Error (StateM σ) PUnit} {items : List α}
    (looks : ∀ item ∈ items, Looks refusal state (step item)) :
    Looks refusal state (items.forM step) := by
  induction items with
  | nil => exact .of_eq_ok rfl
  | cons item rest inductionHypothesis =>
    obtain ⟨first, later⟩ := List.forall_mem_cons.mp looks
    exact first.bind fun _ _ => inductionHypothesis later

end Looks

/-! ### What is not looked at -/

/-- Whether an action does not look at what `turn` changes about a state: it ends the same with and
without that change, and the change stays. -/
def Blind (turn : σ → σ) (action : ExceptT Error (StateM σ) α) : Prop :=
  ∀ state, action (turn state) = ((action state).1, turn (action state).2)

namespace Blind

variable {turn : σ → σ}

/-- What the action did with the change it does without. -/
theorem exists_of_apply {action : ExceptT Error (StateM σ) α} {state after : σ}
    {result : Except Error α}
    (here : action (turn state) = ((action state).1, turn (action state).2))
    (ran : action (turn state) = (result, after)) :
    ∃ reached, action state = (result, reached) ∧ after = turn reached := by
  obtain ⟨same, rfl⟩ := Prod.mk.inj (here.symm.trans ran)
  exact ⟨_, Prod.ext same rfl, rfl⟩

theorem exists_of_eq {action : ExceptT Error (StateM σ) α} (blind : Blind turn action)
    {state after : σ} {result : Except Error α} (ran : action (turn state) = (result, after)) :
    ∃ reached, action state = (result, reached) ∧ after = turn reached :=
  exists_of_apply (blind state) ran

theorem pure (value : α) : Blind turn (pure value : ExceptT Error (StateM σ) α) :=
  fun _ => rfl

/-- Of the first action it only matters what it does here. -/
theorem bind_apply {first : ExceptT Error (StateM σ) α} {next : α → ExceptT Error (StateM σ) β}
    {state : σ} (here : first (turn state) = ((first state).1, turn (first state).2))
    (blind : ∀ value, Blind turn (next value)) :
    (first >>= next) (turn state) =
      (((first >>= next) state).1, turn ((first >>= next) state).2) := by
  cases ran : first state with
  | mk result middle =>
    rw [ran] at here
    cases result with
    | error error => rw [bind_of_error here, bind_of_error ran]
    | ok found =>
      rw [bind_of_ok here, bind_of_ok ran]
      exact blind found middle

theorem bind {first : ExceptT Error (StateM σ) α} {next : α → ExceptT Error (StateM σ) β}
    (blind : Blind turn first) (blindNext : ∀ value, Blind turn (next value)) :
    Blind turn (first >>= next) :=
  fun state => bind_apply (blind state) blindNext

theorem discard {action : ExceptT Error (StateM σ) α} (blind : Blind turn action) :
    Blind turn (discard action : ExceptT Error (StateM σ) Unit) := by
  rw [discard_eq_bind]
  exact blind.bind fun _ => .pure ()

theorem forM {step : α → ExceptT Error (StateM σ) PUnit} (blind : ∀ item, Blind turn (step item))
    (items : List α) : Blind turn (items.forM step) := by
  induction items with
  | nil => exact .pure PUnit.unit
  | cons item rest inductionHypothesis => exact (blind item).bind fun _ => inductionHypothesis

end Blind

end JavaClass.Stateful
