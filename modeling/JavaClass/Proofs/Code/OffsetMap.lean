/-
What is asked of a map of offsets. Tables keep some offsets as distances from others and all of them
in two bytes, so a map has to keep the order of offsets and must not send any of them further than
code can be long.
-/

import JavaClass.Code.OffsetMap
import JavaClass.Proofs.Outcome

namespace JavaClass.OffsetMap

variable {map : OffsetMap}

/-- The new offset of an old one, where there is one. -/
def destination (map : OffsetMap) (offset : Nat) : Nat := (map.get? offset).getD 0

theorem move_eq_ok_iff {use : OffsetUse} {offset moved : Nat} :
    map.move use offset = .ok moved ↔ map.get? offset = some moved := by
  unfold move
  cases map.get? offset with
  | none => exact iff_of_false (fun impossible => nomatch impossible) fun impossible =>
      nomatch impossible
  | some found => rw [Except.ok.injEq, Option.some.injEq]

/-- Whether the map sends every one of some offsets to the new one beside it. -/
def SendsAll (map : OffsetMap) : List Nat → List Nat → Prop :=
  List.Forall₂ fun old new => map.get? old = some new

theorem SendsAll.append {old new oldLater newLater : List Nat} (first : map.SendsAll old new)
    (later : map.SendsAll oldLater newLater) :
    map.SendsAll (old ++ oldLater) (new ++ newLater) :=
  List.rel_append first later

/-- Whether a map keeps the order of offsets and the new ones are no further than code can be
long. -/
structure Orderly (map : OffsetMap) : Prop where
  lt_iff : ∀ {first second firstNew secondNew : Nat}, map.get? first = some firstNew →
    map.get? second = some secondNew → (firstNew < secondNew ↔ first < second)
  bounded : ∀ {old new : Nat}, map.get? old = some new → new ≤ longestCode

namespace Orderly

variable (orderly : map.Orderly)

include orderly

theorem le_iff {first second firstNew secondNew : Nat} (firstFound : map.get? first = some firstNew)
    (secondFound : map.get? second = some secondNew) : firstNew ≤ secondNew ↔ first ≤ second := by
  rw [← Nat.not_lt, orderly.lt_iff secondFound firstFound, Nat.not_lt]

/-- Two bytes have room for a new offset. -/
theorem toNat_ofNat {old new : Nat} (found : map.get? old = some new) :
    (UInt16.ofNat new).toNat = new := by
  have bounded : new ≤ 65535 := orderly.bounded found
  rw [UInt16.toNat_ofNat', Nat.mod_eq_of_lt]
  omega

/-- Nothing runs over when the distance between two new offsets is counted in two bytes. -/
theorem toNat_sub {first second firstNew secondNew : Nat}
    (firstFound : map.get? first = some firstNew) (secondFound : map.get? second = some secondNew)
    (ordered : firstNew ≤ secondNew) :
    (UInt16.ofNat secondNew - UInt16.ofNat firstNew).toNat = secondNew - firstNew := by
  rw [UInt16.toNat_sub_of_le, orderly.toNat_ofNat firstFound, orderly.toNat_ofNat secondFound]
  rw [UInt16.le_iff_toNat_le, orderly.toNat_ofNat firstFound, orderly.toNat_ofNat secondFound]
  exact ordered

theorem move16_eq_ok_iff {use : OffsetUse} {old new : UInt16} :
    map.move16 use old = .ok new ↔ map.get? old.toNat = some new.toNat := by
  rw [move16, Outcome.bind_eq_ok_iff]
  simp only [Outcome.pure_eq_ok_iff, move_eq_ok_iff]
  constructor
  · intro ⟨moved, found, same⟩
    rw [found, ← same, orderly.toNat_ofNat found]
  · intro found
    exact ⟨new.toNat, found, UInt16.ofNat_toNat⟩

end Orderly

end JavaClass.OffsetMap
