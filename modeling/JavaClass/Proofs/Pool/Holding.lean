/-
Constants by what they mean. A method that is called is interned with everything it refers to, down
to texts, and each of these constants says something that no other of them says. So what a pool
holds can be said without indices: a meaning has one index at the most, an index has one meaning at
the most, both last while the pool grows, and a pool that gains a constant for a call gains it for
one of the parts of what is called.
-/

import JavaClass.Proofs.Pool.Representation
import JavaClass.Proofs.Pool.Soundness

namespace JavaClass.Pool

/-! ### First slots of pools that grow -/

section growing

variable {before after : Pool} (grown : before.Extends after)

include grown

theorem Extends.getElem?_slots_eq {place : Nat} (inside : place < before.size) :
    after.slots[place]? = before.slots[place]? := by
  have slot : before.slots[place]? = some before.slots[place] := Array.getElem?_eq_getElem inside
  rw [slot, grown.getElem?_slots slot]

theorem Extends.isFirstSlot_iff {constant : Constant} {place : Nat} (inside : place < before.size) :
    after.IsFirstSlot constant place ↔ before.IsFirstSlot constant place := by
  unfold IsFirstSlot
  rw [grown.getElem?_slots_eq inside]
  refine and_congr_right fun _ => forall₂_congr fun earlier less => ?_
  rw [grown.getElem?_slots_eq (Nat.lt_trans less inside)]

variable (assembled : before.Assembled)

include assembled

/-- A table that grows says of the slots that were there what it said. -/
theorem Extends.find?_eq_some_iff {constant : Constant} {index : UInt16}
    (inside : index.toNat < before.size) :
    after.find? constant = some index ↔ before.find? constant = some index := by
  rw [(grown.assembled assembled).inStep.leads, assembled.inStep.leads,
    grown.isFirstSlot_iff inside]

theorem Extends.find? {constant : Constant} {index : UInt16}
    (found : before.find? constant = some index) : after.find? constant = some index :=
  (grown.find?_eq_some_iff assembled (firstSlots_lt_size assembled found)).mpr found

end growing

/-! ### Meanings -/

/-- What a constant says that is interned for the call of a method. -/
inductive Meaning
  | text (value : String)
  | className (name : String)
  | nameAndType (name descriptor : String)
  | method (ofInterface : Bool) (owner name descriptor : String)

/-- The sort of constant that refers to a method. -/
def methodConstant (ofInterface : Bool) : UInt16 → UInt16 → Constant :=
  if ofInterface then .interfaceMethod else .method

theorem methodConstant_inj {ofInterface ofOther : Bool} {first second third fourth : UInt16}
    (same : methodConstant ofInterface first second = methodConstant ofOther third fourth) :
    ofInterface = ofOther ∧ first = third ∧ second = fourth := by
  cases ofInterface <;> cases ofOther <;> cases same <;> exact ⟨rfl, rfl, rfl⟩

theorem references_methodConstant (ofInterface : Bool) (first second : UInt16) :
    (methodConstant ofInterface first second).references = [first, second] := by
  cases ofInterface <;> rfl

theorem isMember_methodConstant (ofInterface : Bool) : IsMember (methodConstant ofInterface) := by
  cases ofInterface
  · exact .inr (.inl rfl)
  · exact .inr (.inr rfl)

theorem width_methodConstant (ofInterface : Bool) (first second : UInt16) :
    (methodConstant ofInterface first second).width = 1 := by
  cases ofInterface <;> rfl

/-- All that has to be said to say something, itself last. -/
def Meaning.parts : Meaning → List Meaning
  | .text value => [.text value]
  | .className name => [.text name] ++ [.className name]
  | .nameAndType name descriptor =>
    [.text name] ++ ([.text descriptor] ++ [.nameAndType name descriptor])
  | .method ofInterface owner name descriptor =>
    ([.text owner] ++ [.className owner]) ++
      (([.text name] ++ ([.text descriptor] ++ [.nameAndType name descriptor])) ++
        [.method ofInterface owner name descriptor])

/-- Whether a pool says something at an index, the first at which it does. -/
inductive Holds (pool : Pool) : Meaning → UInt16 → Prop
  | text {value : String} {index : UInt16}
      (found : pool.find? (.utf8 (Text.ModifiedUtf8.encode value)) = some index) :
      Holds pool (.text value) index
  | className {name : String} {text index : UInt16} (named : Holds pool (.text name) text)
      (found : pool.find? (.className text) = some index) : Holds pool (.className name) index
  | nameAndType {name descriptor : String} {first second index : UInt16}
      (named : Holds pool (.text name) first) (typed : Holds pool (.text descriptor) second)
      (found : pool.find? (.nameAndType first second) = some index) :
      Holds pool (.nameAndType name descriptor) index
  | method {ofInterface : Bool} {owner name descriptor : String} {first second index : UInt16}
      (owned : Holds pool (.className owner) first)
      (called : Holds pool (.nameAndType name descriptor) second)
      (found : pool.find? (methodConstant ofInterface first second) = some index) :
      Holds pool (.method ofInterface owner name descriptor) index

section holding

variable {pool after : Pool} {meaning : Meaning} {index : UInt16}

theorem Holds.extends (grown : pool.Extends after) (assembled : pool.Assembled)
    (holds : pool.Holds meaning index) : after.Holds meaning index := by
  induction holds with
  | text found => exact .text (grown.find? assembled found)
  | className _ found named => exact .className named (grown.find? assembled found)
  | nameAndType _ _ found named typed =>
    exact .nameAndType named typed (grown.find? assembled found)
  | method _ _ found owned called => exact .method owned called (grown.find? assembled found)

/-- A meaning has one index at the most. -/
theorem Holds.unique {other : UInt16} (holds : pool.Holds meaning index)
    (holdsOther : pool.Holds meaning other) : index = other := by
  induction holds generalizing other with
  | text found =>
    cases holdsOther with
    | text foundOther => exact Option.some.inj (found.symm.trans foundOther)
  | className _ found named =>
    cases holdsOther with
    | className namedOther foundOther =>
      obtain rfl := named namedOther
      exact Option.some.inj (found.symm.trans foundOther)
  | nameAndType _ _ found named typed =>
    cases holdsOther with
    | nameAndType namedOther typedOther foundOther =>
      obtain rfl := named namedOther
      obtain rfl := typed typedOther
      exact Option.some.inj (found.symm.trans foundOther)
  | method _ _ found owned called =>
    cases holdsOther with
    | method ownedOther calledOther foundOther =>
      obtain rfl := owned ownedOther
      obtain rfl := called calledOther
      exact Option.some.inj (found.symm.trans foundOther)

variable (assembled : pool.Assembled)

include assembled

theorem Holds.lt_size (holds : pool.Holds meaning index) : index.toNat < pool.size := by
  cases holds with
  | text found | className _ found | nameAndType _ _ found | method _ _ found =>
    exact firstSlots_lt_size assembled found

/-- Constants that are known to have the same first slot are the same. -/
theorem eq_of_find? {first second : Constant} (found : pool.find? first = some index)
    (foundOther : pool.find? second = some index) : first = second :=
  Except.ok.inj ((get_of_find? assembled found).1.symm.trans (get_of_find? assembled foundOther).1)

/-- An index has one meaning at the most. -/
theorem Holds.injective {other : Meaning} (holds : pool.Holds meaning index)
    (holdsOther : pool.Holds other index) : meaning = other := by
  induction holds generalizing other with
  | text found =>
    cases holdsOther with
    | text foundOther =>
      have same := Constant.utf8.inj (eq_of_find? assembled found foundOther)
      rw [Text.ModifiedUtf8.encode_injective same]
    | @method ofInterface _ _ _ _ _ _ _ _ foundOther =>
      cases ofInterface <;> cases eq_of_find? assembled found foundOther
    | className _ foundOther | nameAndType _ _ foundOther =>
      cases eq_of_find? assembled found foundOther
  | className _ found named =>
    cases holdsOther with
    | className namedOther foundOther =>
      cases eq_of_find? assembled found foundOther
      cases named namedOther
      rfl
    | @method ofInterface _ _ _ _ _ _ _ _ foundOther =>
      cases ofInterface <;> cases eq_of_find? assembled found foundOther
    | text foundOther | nameAndType _ _ foundOther =>
      cases eq_of_find? assembled found foundOther
  | nameAndType _ _ found named typed =>
    cases holdsOther with
    | nameAndType namedOther typedOther foundOther =>
      cases eq_of_find? assembled found foundOther
      cases named namedOther
      cases typed typedOther
      rfl
    | @method ofInterface _ _ _ _ _ _ _ _ foundOther =>
      cases ofInterface <;> cases eq_of_find? assembled found foundOther
    | text foundOther | className _ foundOther =>
      cases eq_of_find? assembled found foundOther
  | @method ofInterface _ _ _ _ _ _ _ _ found owned called =>
    cases holdsOther with
    | @method ofOther _ _ _ _ _ _ ownedOther calledOther foundOther =>
      obtain ⟨rfl, rfl, rfl⟩ := methodConstant_inj (eq_of_find? assembled found foundOther)
      cases owned ownedOther
      cases called calledOther
      rfl
    | text foundOther | className _ foundOther | nameAndType _ _ foundOther =>
      cases ofInterface <;> cases eq_of_find? assembled found foundOther

/-! ### Looking up -/

theorem Holds.text_eq {value : String} (holds : pool.Holds (.text value) index) :
    pool.text index = .ok value := by
  cases holds with
  | text found =>
    exact text_of_utf8 (utf8_eq_ok_iff.mpr (get_of_find? assembled found).1)

theorem Holds.className_eq {name : String} (holds : pool.Holds (.className name) index) :
    pool.className index = .ok name := by
  cases holds with
  | className named found =>
    exact className_of_get (get_of_find? assembled found).1 (named.text_eq assembled)

theorem Holds.nameAndType_eq {name descriptor : String}
    (holds : pool.Holds (.nameAndType name descriptor) index) :
    pool.nameAndType index = .ok (name, descriptor) := by
  cases holds with
  | nameAndType named typed found =>
    exact nameAndType_of_get (get_of_find? assembled found).1 (named.text_eq assembled)
      (typed.text_eq assembled)

/-- A method that is held is found again, as the sort of constant that it is. -/
theorem Holds.memberReference_eq {ofInterface : Bool} {owner name descriptor : String}
    (holds : pool.Holds (.method ofInterface owner name descriptor) index) :
    pool.memberReference index = .ok ⟨owner, name, descriptor⟩ ∧
      ∃ first second, pool.get index = .ok (methodConstant ofInterface first second) := by
  cases holds with
  | @method _ _ _ _ first second _ owned called found =>
    have got := (get_of_find? assembled found).1
    exact ⟨memberReference_of_get (isMember_methodConstant ofInterface) got
      (owned.className_eq assembled) (called.nameAndType_eq assembled), first, second, got⟩

/-! ### Pools that grow -/

/-- What an index of a pool that has grown means is what it meant, if the references of the pool
lead where they should. -/
theorem Holds.of_extends (references : pool.checkReferences = .ok ()) (grown : pool.Extends after)
    (holds : after.Holds meaning index) (inside : index.toNat < pool.size) :
    pool.Holds meaning index := by
  have known {constant : Constant} {index : UInt16} (inside : index.toNat < pool.size)
      (found : after.find? constant = some index) :
      pool.find? constant = some index ∧
        ∀ reference ∈ constant.references, reference.toNat < pool.size := by
    have before := (grown.find?_eq_some_iff assembled inside).mp found
    exact ⟨before, lt_size_of_slot references ((assembled.inStep.leads _ _).mp before).2.1⟩
  induction holds with
  | text found => exact .text (known inside found).1
  | className _ found named =>
    obtain ⟨found, within⟩ := known inside found
    exact .className (named (within _ List.mem_cons_self)) found
  | nameAndType _ _ found named typed =>
    obtain ⟨found, within⟩ := known inside found
    obtain ⟨first, second⟩ := List.forall_mem_cons.mp within
    exact .nameAndType (named first) (typed (second _ List.mem_cons_self)) found
  | method _ _ found owned called =>
    obtain ⟨found, within⟩ := known inside found
    rw [references_methodConstant] at within
    obtain ⟨first, second⟩ := List.forall_mem_cons.mp within
    exact .method (owned first) (called (second _ List.mem_cons_self)) found

end holding

/-! ### Interning -/

/-- Whether a pool came about from another one by saying some things and no others: it says all of
them, and at the indices that were added it says nothing else. -/
structure Gains (before : Pool) (meanings : List Meaning) (after : Pool) : Prop where
  grown : before.Extends after
  holds : ∀ meaning ∈ meanings, ∃ index, after.Holds meaning index
  only : ∀ index : UInt16, before.size ≤ index.toNat → index.toNat < after.size →
    ∃ meaning ∈ meanings, after.Holds meaning index

theorem Gains.none (pool : Pool) : Gains pool [] pool where
  grown := .refl pool
  holds := List.forall_mem_nil _
  only _ behind inside := absurd inside (Nat.not_lt.mpr behind)

theorem Gains.append {before middle after : Pool} {first later : List Meaning}
    (assembled : before.Assembled) (gains : Gains before first middle)
    (gainsLater : Gains middle later after) : Gains before (first ++ later) after where
  grown := gains.grown.trans gainsLater.grown
  holds := by
    refine List.forall_mem_append.mpr ⟨fun meaning member => ?_, gainsLater.holds⟩
    obtain ⟨index, holds⟩ := gains.holds meaning member
    exact ⟨index, holds.extends gainsLater.grown (gains.grown.assembled assembled)⟩
  only index behind inside := by
    by_cases early : index.toNat < middle.size
    · obtain ⟨meaning, member, holds⟩ := gains.only index behind early
      exact ⟨meaning, List.mem_append_left _ member,
        holds.extends gainsLater.grown (gains.grown.assembled assembled)⟩
    · obtain ⟨meaning, member, holds⟩ := gainsLater.only index (Nat.not_lt.mp early) inside
      exact ⟨meaning, List.mem_append_right _ member, holds⟩

/-- It does not matter in which order things are said, or how often. -/
theorem Gains.congr {before after : Pool} {meanings others : List Meaning}
    (gains : Gains before meanings after)
    (same : ∀ meaning, meaning ∈ meanings ↔ meaning ∈ others) : Gains before others after where
  grown := gains.grown
  holds meaning member := gains.holds meaning ((same meaning).mpr member)
  only index behind inside := by
    obtain ⟨meaning, member, holds⟩ := gains.only index behind inside
    exact ⟨meaning, (same meaning).mp member, holds⟩

section interning

variable {pool after : Pool} {index : UInt16}

/-- A constant of one slot that is interned is all that is gained. -/
theorem gains_of_intern {constant : Constant} {meaning : Meaning} (assembled : pool.Assembled)
    (narrow : constant.width = 1)
    (interned : Pool.intern constant pool = (.ok index, after))
    (means : ∀ index, after.find? constant = some index → after.Holds meaning index) :
    after.Holds meaning index ∧ Gains pool [meaning] after := by
  have grown := (always_intern constant).relates interned
  have holds : after.Holds meaning index := means index (find?_of_intern interned)
  refine ⟨holds, grown, List.forall_mem_singleton.mpr ⟨index, holds⟩, fun added behind inside => ?_⟩
  refine ⟨meaning, List.mem_singleton_self _, ?_⟩
  obtain ⟨-, rfl⟩ | ⟨-, accepted, rfl, rfl⟩ := intern_eq_ok_iff.mp interned
  · exact absurd inside (Nat.not_lt.mpr behind)
  · have countable := (refusal?_eq_none_iff.mp accepted).2
    rw [size_add, narrow] at inside
    have same : added = UInt16.ofNat pool.size := by
      rw [← UInt16.toNat_inj, toNat_ofNat_size countable]
      omega
    rw [same]
    exact holds

variable (assembled : pool.Assembled)

include assembled

theorem gains_of_internText {value : String}
    (interned : internText value pool = (.ok index, after)) :
    after.Holds (.text value) index ∧ Gains pool [.text value] after :=
  gains_of_intern assembled rfl interned fun _ found => .text found

theorem gains_of_internClass {name : String}
    (interned : internClass name pool = (.ok index, after)) :
    after.Holds (.className name) index ∧ Gains pool (Meaning.parts (.className name)) after := by
  obtain ⟨text, middle, textInterned, interned⟩ := Stateful.bind_eq_ok_iff.mp interned
  obtain ⟨named, gains⟩ := gains_of_internText assembled textInterned
  have assembledMiddle := gains.grown.assembled assembled
  have grown := (always_intern (.className text)).relates interned
  obtain ⟨holds, gainsLater⟩ := gains_of_intern assembledMiddle rfl interned fun _ found =>
    .className (named.extends grown assembledMiddle) found
  exact ⟨holds, gains.append assembled gainsLater⟩

theorem gains_of_internNameAndType {name descriptor : String}
    (interned : internNameAndType name descriptor pool = (.ok index, after)) :
    after.Holds (.nameAndType name descriptor) index ∧
      Gains pool (Meaning.parts (.nameAndType name descriptor)) after := by
  obtain ⟨first, middle, nameInterned, interned⟩ := Stateful.bind_eq_ok_iff.mp interned
  obtain ⟨second, last, descriptorInterned, interned⟩ := Stateful.bind_eq_ok_iff.mp interned
  obtain ⟨named, gainsName⟩ := gains_of_internText assembled nameInterned
  have assembledMiddle := gainsName.grown.assembled assembled
  obtain ⟨typed, gainsDescriptor⟩ := gains_of_internText assembledMiddle descriptorInterned
  have assembledLast := gainsDescriptor.grown.assembled assembledMiddle
  have grown := (always_intern (.nameAndType first second)).relates interned
  obtain ⟨holds, gains⟩ := gains_of_intern assembledLast rfl interned fun _ found =>
    .nameAndType (named.extends (gainsDescriptor.grown.trans grown) assembledMiddle)
      (typed.extends grown assembledLast) found
  exact ⟨holds, gainsName.append assembled (gainsDescriptor.append assembledMiddle gains)⟩

theorem gains_of_internMethod {ofInterface : Bool} {owner name descriptor : String}
    (interned : internMember (methodConstant ofInterface) owner name descriptor pool =
      (.ok index, after)) :
    after.Holds (.method ofInterface owner name descriptor) index ∧
      Gains pool (Meaning.parts (.method ofInterface owner name descriptor)) after := by
  obtain ⟨first, middle, ownerInterned, interned⟩ := Stateful.bind_eq_ok_iff.mp interned
  obtain ⟨second, last, typeInterned, interned⟩ := Stateful.bind_eq_ok_iff.mp interned
  obtain ⟨owned, gainsOwner⟩ := gains_of_internClass assembled ownerInterned
  have assembledMiddle := gainsOwner.grown.assembled assembled
  obtain ⟨called, gainsType⟩ := gains_of_internNameAndType assembledMiddle typeInterned
  have assembledLast := gainsType.grown.assembled assembledMiddle
  have grown := (always_intern (methodConstant ofInterface first second)).relates interned
  obtain ⟨holds, gains⟩ := gains_of_intern assembledLast (width_methodConstant _ _ _) interned
    fun _ found => .method (owned.extends (gainsType.grown.trans grown) assembledMiddle)
      (called.extends grown assembledLast) found
  exact ⟨holds, gainsOwner.append assembled (gainsType.append assembledMiddle gains)⟩

end interning

end JavaClass.Pool
