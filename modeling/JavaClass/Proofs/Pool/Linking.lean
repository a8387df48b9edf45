/-
Pools that grow by requests. What is asked of a pool, texts, classes, members and numbers, comes
with everything that it refers to, be it granted or not; only a constant that is handed over as it
is may refer to anything. So whatever asks a pool for the former adds to it and leaves no reference
astray, and it is enough to know of an action that it does nothing but ask.
-/

import JavaClass.Proofs.Pool.Representation
import JavaClass.Proofs.Pool.Soundness
import Mathlib.Logic.Relation

namespace JavaClass.Pool

/-- Whether what is asked for comes with what it refers to. -/
def Request.Links : Request → Prop
  | .entry _ => False
  | _ => True

/-- Whether a pool came about from another one by requests for what comes with what it refers to,
whether or not they were granted. -/
def Linked : Pool → Pool → Prop :=
  Relation.ReflTransGen fun before after =>
    ∃ request : Request, request.Links ∧ (request.run before).2 = after

instance : IsPreorder Pool Linked where
  refl _ := .refl
  trans _ _ _ := .trans

theorem Linked.refl (pool : Pool) : pool.Linked pool := refl_of Linked pool

theorem always_linked (request : Request) (links : request.Links) :
    Stateful.Always Linked request.run :=
  fun _ => .single ⟨request, links, rfl⟩

section linked

variable {before after : Pool}

/-- What was asked for was added at the end. -/
theorem Linked.grown (linked : before.Linked after) : before.Extends after := by
  induction linked with
  | refl => exact .refl before
  | tail _ asked inductionHypothesis =>
    obtain ⟨request, -, rfl⟩ := asked
    exact inductionHypothesis.trans (always_run request _)

theorem Sound.ask (sound : before.Sound) {request : Request} (links : request.Links) :
    (request.run before).2.Sound := by
  cases request with
  | entry => exact links.elim
  | text value => exact sound.internText value
  | className name => exact sound.internClass name
  | string value => exact sound.internString value
  | integer value => exact sound.intern rfl
  | nameAndType name descriptor => exact sound.internNameAndType name descriptor
  | field owner name descriptor => exact sound.internMember (.inl rfl) owner name descriptor
  | method owner name descriptor =>
    exact sound.internMember (.inr (.inl rfl)) owner name descriptor
  | interfaceMethod owner name descriptor =>
    exact sound.internMember (.inr (.inr rfl)) owner name descriptor

/-- What was asked for left no reference astray. -/
theorem Linked.sound (linked : before.Linked after) (sound : before.Sound) : after.Sound := by
  induction linked with
  | refl => exact sound
  | tail _ asked inductionHypothesis =>
    obtain ⟨request, links, rfl⟩ := asked
    exact inductionHypothesis.ask links

end linked

/-- A way for pools to grow that allows for all requests for what comes with what it refers to. -/
class IsGrowth (growth : Pool → Pool → Prop) : Prop extends IsPreorder Pool growth where
  of_linked : ∀ {before after : Pool}, before.Linked after → growth before after
  grown : ∀ {before after : Pool}, growth before after → before.Extends after

instance : IsGrowth Linked where
  of_linked := id
  grown := Linked.grown

instance : IsGrowth Extends where
  of_linked := Linked.grown
  grown := id

end JavaClass.Pool
