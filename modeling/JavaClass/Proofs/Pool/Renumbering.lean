/-
Pools that differ in the order in which they gained their constants. If two pools come from the same
one and gained the same meanings, each new constant of one has a partner in the other that says the
same, and no two have the same partner. So there are equally many of them, and going over from each
to its partner is a way to renumber the constants: it leaves the old ones where they are and takes
the slots of one pool, and the references in them, to those of the other.
-/

import JavaClass.Proofs.Pool.Holding
import Mathlib.Combinatorics.Enumerative.DoubleCounting
import Mathlib.Data.FinEnum
import Mathlib.Order.Interval.Finset.Nat

namespace JavaClass

/-! ### Renumbering -/

/-- The constant with every reference to another constant moved. -/
def Constant.renumber (move : UInt16 → UInt16) : Constant → Constant
  | .className index => .className (move index)
  | .string index => .string (move index)
  | .field first second => .field (move first) (move second)
  | .method first second => .method (move first) (move second)
  | .interfaceMethod first second => .interfaceMethod (move first) (move second)
  | .nameAndType first second => .nameAndType (move first) (move second)
  | .methodHandle use index => .methodHandle use (move index)
  | .methodType index => .methodType (move index)
  | .dynamic bootstrap index => .dynamic bootstrap (move index)
  | .invokeDynamic bootstrap index => .invokeDynamic bootstrap (move index)
  | .module index => .module (move index)
  | .package index => .package (move index)
  | constant => constant

/-- A constant stays as it is if no reference in it is moved. -/
theorem Constant.renumber_eq_self {move : UInt16 → UInt16} {constant : Constant}
    (fixed : ∀ reference ∈ constant.references, move reference = reference) :
    constant.renumber move = constant := by
  cases constant with
  | field | method | interfaceMethod | nameAndType =>
    obtain ⟨first, second⟩ := List.forall_mem_cons.mp fixed
    rw [renumber, first, second _ List.mem_cons_self]
  | className | string | methodType | module | package | methodHandle | dynamic | invokeDynamic =>
    rw [renumber, fixed _ List.mem_cons_self]
  | utf8 | integer | float | long | double | reserved => rfl

namespace Pool

theorem renumber_methodConstant (move : UInt16 → UInt16) (ofInterface : Bool)
    (first second : UInt16) : (methodConstant ofInterface first second).renumber move =
      methodConstant ofInterface (move first) (move second) := by
  cases ofInterface <;> rfl

/-- Whether two pools that come from the same one are alike but for the numbers of the constants
that are new. -/
structure Renumbers (move : UInt16 → UInt16) (before one other : Pool) : Prop where
  grown : before.Extends one
  grownOther : before.Extends other
  bijective : Function.Bijective move
  fixes : ∀ index : UInt16, index.toNat < before.size → move index = index
  slots : ∀ index : UInt16,
    other.slots[(move index).toNat]? = one.slots[index.toNat]?.map (Constant.renumber move)

/-! ### Partners -/

/-- What an index goes over to: an old one, and one behind all constants, to itself, and a new one
to its partner. -/
def GoesOver (before one other : Pool) (index partner : UInt16) : Prop :=
  (index.toNat < before.size ∨ one.size ≤ index.toNat) ∧ partner = index ∨
    (before.size ≤ index.toNat ∧ before.size ≤ partner.toNat) ∧
      ∃ meaning, one.Holds meaning index ∧ other.Holds meaning partner

section partners

variable {pool one other : Pool} {meanings : List Meaning} (sound : pool.Sound)
  (gains : Gains pool meanings one) (gainsOther : Gains pool meanings other)

include sound gains gainsOther

/-- A new constant of one pool has a partner in the other that is new there. -/
theorem exists_partner {index : UInt16} (behind : pool.size ≤ index.toNat)
    (inside : index.toNat < one.size) :
    ∃ meaning partner, one.Holds meaning index ∧ other.Holds meaning partner ∧
      pool.size ≤ partner.toNat := by
  obtain ⟨meaning, member, holds⟩ := gains.only index behind inside
  obtain ⟨partner, holdsOther⟩ := gainsOther.holds meaning member
  refine ⟨meaning, partner, holds, holdsOther, Nat.not_lt.mp fun early => ?_⟩
  -- Had it been there before, it would have been so in the first pool too.
  have earlier := holdsOther.of_extends sound.assembled sound.references gainsOther.grown early
  rw [holds.unique (earlier.extends gains.grown sound.assembled)] at behind
  exact absurd early (Nat.not_lt.mpr behind)

/-- No two constants have the same partner, so there are no fewer constants in the other pool. -/
theorem size_le_of_gains : one.size ≤ other.size := by
  have assembledOne := gains.grown.assembled sound.assembled
  have assembledOther := gainsOther.grown.assembled sound.assembled
  have index {place : Nat} (inside : place < one.size) : (UInt16.ofNat place).toNat = place :=
    UInt16.toNat_ofNat_of_lt' (Nat.lt_succ_of_le
      (Nat.le_of_lt (Nat.lt_of_lt_of_le inside assembledOne.inStep.countable)))
  have counted : (Finset.Ico pool.size one.size).card ≤ (Finset.Ico pool.size other.size).card := by
    refine Finset.card_le_card_of_forall_subsingleton (fun place partner => ∃ meaning,
      one.Holds meaning (UInt16.ofNat place) ∧ other.Holds meaning (UInt16.ofNat partner))
      (fun place member => ?_) fun partner _ => ?_
    · obtain ⟨behind, inside⟩ := Finset.mem_Ico.mp member
      have same := index inside
      rw [← same] at behind inside
      obtain ⟨meaning, partner, holds, holdsOther, behindOther⟩ :=
        exists_partner sound gains gainsOther behind inside
      refine ⟨partner.toNat, Finset.mem_Ico.mpr ⟨behindOther, holdsOther.lt_size assembledOther⟩,
        meaning, holds, ?_⟩
      rw [UInt16.ofNat_toNat]
      exact holdsOther
    · rintro first ⟨member, meaning, holds, holdsOther⟩ second
        ⟨memberSecond, meaningSecond, holdsSecond, holdsOtherSecond⟩
      obtain rfl := holdsOther.injective assembledOther holdsOtherSecond
      rw [← index (Finset.mem_Ico.mp member).2, holds.unique holdsSecond,
        index (Finset.mem_Ico.mp memberSecond).2]
  rw [Nat.card_Ico, Nat.card_Ico] at counted
  have := gainsOther.grown.size_le
  omega

theorem exists_goesOver (index : UInt16) :
    ∃ partner, GoesOver pool one other index partner := by
  by_cases old : index.toNat < pool.size ∨ one.size ≤ index.toNat
  · exact ⟨index, .inl ⟨old, rfl⟩⟩
  · obtain ⟨behind, inside⟩ : pool.size ≤ index.toNat ∧ index.toNat < one.size := by omega
    obtain ⟨meaning, partner, holds, holdsOther, behindOther⟩ :=
      exists_partner sound gains gainsOther behind inside
    exact ⟨partner, .inr ⟨⟨behind, behindOther⟩, meaning, holds, holdsOther⟩⟩

end partners

/-- An old constant keeps its number. -/
theorem stays_of_goesOver {pool one other : Pool} {move : UInt16 → UInt16}
    (goesOver : ∀ index, GoesOver pool one other index (move index)) {index : UInt16}
    (old : index.toNat < pool.size) : move index = index := by
  obtain ⟨-, stays⟩ | ⟨⟨behind, -⟩, -⟩ := goesOver index
  · exact stays
  · exact absurd old (Nat.not_lt.mpr behind)

section renumbering

variable {pool one other : Pool} {meanings : List Meaning} (sound : pool.Sound)
  (gains : Gains pool meanings one) (gainsOther : Gains pool meanings other)
  {move : UInt16 → UInt16} (goesOver : ∀ index, GoesOver pool one other index (move index))

include sound gainsOther goesOver

theorem injective_of_goesOver (sizes : other.size = one.size) : Function.Injective move := by
  have assembledOther := gainsOther.grown.assembled sound.assembled
  intro first second same
  obtain ⟨old, stays⟩ | ⟨⟨behind, behindPartner⟩, meaning, holds, holdsPartner⟩ := goesOver first
  · obtain ⟨-, staysSecond⟩ | ⟨⟨-, behindPartner⟩, _, -, holdsPartner⟩ := goesOver second
    · rw [← stays, same, staysSecond]
    · have inside := holdsPartner.lt_size assembledOther
      rw [← same, stays] at behindPartner inside
      omega
  · obtain ⟨old, staysSecond⟩ | ⟨-, meaningSecond, holdsSecond, holdsPartnerSecond⟩ :=
      goesOver second
    · have inside := holdsPartner.lt_size assembledOther
      rw [same, staysSecond] at behindPartner inside
      omega
    · rw [← same] at holdsPartnerSecond
      obtain rfl := holdsPartner.injective assembledOther holdsPartnerSecond
      exact holds.unique holdsSecond

include gains

/-- What says the same goes over to each other, be it old or new. -/
theorem move_eq_of_holds {meaning : Meaning} {index partner : UInt16}
    (holds : one.Holds meaning index) (holdsOther : other.Holds meaning partner) :
    move index = partner := by
  have assembledOne := gains.grown.assembled sound.assembled
  obtain ⟨old | behind, same⟩ | ⟨-, shared, holdsShared, holdsPartner⟩ := goesOver index
  · have earlier := holds.of_extends sound.assembled sound.references gains.grown old
    rw [same]
    exact (earlier.extends gainsOther.grown sound.assembled).unique holdsOther
  · exact absurd (holds.lt_size assembledOne) (Nat.not_lt.mpr behind)
  · rw [holdsShared.injective assembledOne holds] at holdsPartner
    exact holdsPartner.unique holdsOther

/-- The constants that say the same refer to constants that go over to each other. -/
theorem slot_of_holds {meaning : Meaning} {index partner : UInt16}
    (holds : one.Holds meaning index) (holdsOther : other.Holds meaning partner) :
    ∃ constant, one.slots[index.toNat]? = some constant ∧
      other.slots[partner.toNat]? = some (constant.renumber move) := by
  have goes {meaning : Meaning} {index partner : UInt16} (holds : one.Holds meaning index)
      (holdsOther : other.Holds meaning partner) : move index = partner :=
    move_eq_of_holds sound gains gainsOther goesOver holds holdsOther
  have slot {constant : Constant} (found : one.find? constant = some index) :
      one.slots[index.toNat]? = some constant :=
    (((gains.grown.assembled sound.assembled).inStep.leads _ _).mp found).2.1
  have slotOther {constant : Constant} (found : other.find? constant = some partner) :
      other.slots[partner.toNat]? = some constant :=
    (((gainsOther.grown.assembled sound.assembled).inStep.leads _ _).mp found).2.1
  cases holds with
  | text found =>
    cases holdsOther with
    | text foundOther => exact ⟨_, slot found, slotOther foundOther⟩
  | className named found =>
    cases holdsOther with
    | className namedOther foundOther =>
      refine ⟨_, slot found, ?_⟩
      rw [Constant.renumber, goes named namedOther]
      exact slotOther foundOther
  | nameAndType named typed found =>
    cases holdsOther with
    | nameAndType namedOther typedOther foundOther =>
      refine ⟨_, slot found, ?_⟩
      rw [Constant.renumber, goes named namedOther, goes typed typedOther]
      exact slotOther foundOther
  | method owned called found =>
    cases holdsOther with
    | method ownedOther calledOther foundOther =>
      refine ⟨_, slot found, ?_⟩
      rw [renumber_methodConstant, goes owned ownedOther, goes called calledOther]
      exact slotOther foundOther

/-- Going over to partners is a way to renumber the constants. -/
theorem renumbers_of_goesOver (sizes : other.size = one.size) : Renumbers move pool one other where
  grown := gains.grown
  grownOther := gainsOther.grown
  bijective := Finite.injective_iff_bijective.mp
    (injective_of_goesOver sound gainsOther goesOver sizes)
  fixes index old := stays_of_goesOver goesOver old
  slots index := by
    obtain ⟨old | behind, stays⟩ | ⟨-, meaning, holds, holdsPartner⟩ := goesOver index
    · have slot : pool.slots[index.toNat]? = some pool.slots[index.toNat] :=
        Array.getElem?_eq_getElem old
      have fixed := Constant.renumber_eq_self fun reference member =>
        stays_of_goesOver goesOver (lt_size_of_slot sound.references slot reference member)
      rw [stays, gains.grown.getElem?_slots slot, gainsOther.grown.getElem?_slots slot,
        Option.map_some, fixed]
    · rw [stays, getElem?_slots_of_size_le behind, getElem?_slots_of_size_le (sizes ▸ behind)]
      rfl
    · obtain ⟨constant, slot, slotPartner⟩ :=
        slot_of_holds sound gains gainsOther goesOver holds holdsPartner
      rw [slot, slotPartner]
      rfl

end renumbering

/-- Pools that gained the same meanings, in whatever order, are alike but for the numbers of the
constants that are new, and what says the same goes over to each other. -/
theorem exists_renumbers {pool one other : Pool} {meanings : List Meaning} (sound : pool.Sound)
    (gains : Gains pool meanings one) (gainsOther : Gains pool meanings other) :
    ∃ move, Renumbers move pool one other ∧ ∀ meaning index partner,
      one.Holds meaning index → other.Holds meaning partner → move index = partner := by
  have sizes : other.size = one.size :=
    Nat.le_antisymm (size_le_of_gains sound gainsOther gains)
      (size_le_of_gains sound gains gainsOther)
  choose move goesOver using exists_goesOver sound gains gainsOther
  exact ⟨move, renumbers_of_goesOver sound gains gainsOther goesOver sizes,
    fun meaning index partner => move_eq_of_holds sound gains gainsOther goesOver⟩

end Pool

end JavaClass
