/-
Pools that only grow. Whatever interns constants, and however it ends, leaves the pool it found
with more constants at the end. An index that was good stays good, and everything that could be
looked up can still be looked up, with the same answer. A snapshot can be taken back to exactly:
the slots that were added lie behind all others, and so do the indices that were entered into the
table of first slots.
-/

import JavaClass.Pool.Resolution
import JavaClass.Proofs.Format.Pool
import JavaClass.Proofs.Outcome
import JavaClass.Proofs.Stateful
import Mathlib.Data.List.Induction

namespace JavaClass.Pool

/-! ### Adding constants -/

theorem addAll_append (pool : Pool) (first later : List Constant) :
    pool.addAll (first ++ later) = (pool.addAll first).addAll later :=
  List.foldl_append

/-- The slots that a constant takes. -/
def slotsOf (constant : Constant) : List Constant :=
  constant :: if constant.width = 2 then [.reserved] else []

theorem slots_add (pool : Pool) (constant : Constant) :
    (pool.add constant).slots.toList = pool.slots.toList ++ slotsOf constant := by
  by_cases wide : constant.width = 2
  · simp [add, slotsOf, wide]
  · simp [add, slotsOf, wide]

theorem slots_addAll (pool : Pool) (constants : List Constant) :
    (pool.addAll constants).slots.toList = pool.slots.toList ++ constants.flatMap slotsOf := by
  induction constants generalizing pool with
  | nil => exact (List.append_nil _).symm
  | cons constant later inductionHypothesis =>
    show ((pool.add constant).addAll later).slots.toList = _
    rw [inductionHypothesis, slots_add, List.flatMap_cons, List.append_assoc]

theorem firstSlots_add (pool : Pool) (constant : Constant) :
    (pool.add constant).firstSlots =
      pool.firstSlots.insertIfNew constant.write (UInt16.ofNat pool.size) :=
  rfl

/-- Whether a pool came about from another one by adding constants, as far as there was room. -/
def Extends (before after : Pool) : Prop :=
  ∃ constants : List Constant, (∀ constant ∈ constants, constant.Storable) ∧
    after = before.addAll constants ∧ (before.size ≤ mostSlots → after.size ≤ mostSlots)

theorem Extends.refl (pool : Pool) : pool.Extends pool :=
  ⟨[], List.forall_mem_nil _, rfl, id⟩

theorem Extends.trans {before middle after : Pool} (first : before.Extends middle)
    (later : middle.Extends after) : before.Extends after := by
  obtain ⟨added, storable, rfl, room⟩ := first
  obtain ⟨addedLater, storableLater, rfl, roomLater⟩ := later
  refine ⟨added ++ addedLater, ?_, (addAll_append _ _ _).symm, roomLater ∘ room⟩
  exact List.forall_mem_append.mpr ⟨storable, storableLater⟩

instance : IsPreorder Pool Extends where
  refl := Extends.refl
  trans _ _ _ := Extends.trans

theorem extends_add {pool : Pool} {constant : Constant} (accepted : pool.refusal? constant = none) :
    pool.Extends (pool.add constant) := by
  obtain ⟨storable, room⟩ := refusal?_eq_none_iff.mp accepted
  exact ⟨[constant], List.forall_mem_singleton.mpr storable, rfl, fun _ => room⟩

/-- What holds of the empty pool and is kept when a constant is added holds of every assembled
pool. -/
@[elab_as_elim]
theorem Assembled.induction {motive : (pool : Pool) → pool.Assembled → Prop}
    (empty : ∀ assembled, motive empty assembled)
    (add : ∀ (pool : Pool) (constant : Constant) (_ : constant.Storable)
      (_ : (pool.add constant).size ≤ mostSlots) (earlier : pool.Assembled) (assembled),
      motive pool earlier → motive (pool.add constant) assembled)
    {pool : Pool} (assembled : pool.Assembled) : motive pool assembled := by
  obtain ⟨constants, storable, rfl, countable⟩ := id assembled
  induction constants using List.reverseRecOn with
  | nil => exact empty _
  | append_singleton earlier constant inductionHypothesis =>
    have split := addAll_append_singleton Pool.empty earlier constant
    obtain ⟨storableEarlier, last⟩ := List.forall_mem_append.mp storable
    have less : (Pool.empty.addAll earlier).size ≤ mostSlots := by
      rw [split, size_add] at countable
      omega
    have before : (Pool.empty.addAll earlier).Assembled := ⟨earlier, storableEarlier, rfl, less⟩
    revert assembled countable
    rw [split]
    intro assembled countable
    exact add _ _ (List.forall_mem_singleton.mp last) countable before assembled
      (inductionHypothesis storableEarlier before less)

section extended

variable {before after : Pool} (grown : before.Extends after)

include grown

theorem Extends.assembled (assembled : before.Assembled) : after.Assembled := by
  obtain ⟨constants, storable, rfl, room⟩ := assembled
  obtain ⟨added, addedStorable, rfl, stillRoom⟩ := grown
  refine ⟨constants ++ added, ?_, (addAll_append _ _ _).symm, stillRoom room⟩
  exact List.forall_mem_append.mpr ⟨storable, addedStorable⟩

theorem Extends.slots_prefix : before.slots.toList <+: after.slots.toList := by
  obtain ⟨added, -, rfl, -⟩ := grown
  rw [slots_addAll]
  exact List.prefix_append _ _

theorem Extends.size_le : before.size ≤ after.size := by
  obtain ⟨added, -, rfl, -⟩ := grown
  have more := size_addAll before added
  omega

/-- A pool that has become no larger is the one it was. -/
theorem Extends.eq_of_size_le (full : after.size ≤ before.size) : after = before := by
  obtain ⟨added, -, rfl, -⟩ := grown
  rw [eq_nil_of_size_addAll full]
  rfl

end extended

/-! ### Interning -/

theorem always_intern (constant : Constant) : Stateful.Always Extends (intern constant) := by
  intro pool
  obtain same | ⟨accepted, added⟩ := intern_snd constant pool
  · rw [same]
    exact .refl pool
  · rw [added]
    exact extends_add accepted

theorem intern_eq_ok_iff {pool after : Pool} {constant : Constant} {index : UInt16} :
    intern constant pool = (.ok index, after) ↔
      pool.find? constant = some index ∧ after = pool ∨
        pool.find? constant = none ∧ pool.refusal? constant = none ∧
          index = UInt16.ofNat pool.size ∧ after = pool.add constant := by
  unfold intern push
  cases pool.find? constant with
  | some known =>
    simp only [Option.some.injEq, reduceCtorEq, false_and, or_false]
    rw [Prod.mk.injEq, Except.ok.injEq, eq_comm (a := pool)]
  | none =>
    simp only [reduceCtorEq, false_and, true_and, false_or]
    cases pool.refusal? constant with
    | some error =>
      simp only [reduceCtorEq, false_and, iff_false]
      intro impossible
      cases impossible
    | none =>
      simp only [true_and]
      rw [Prod.mk.injEq, Except.ok.injEq, eq_comm (a := index), eq_comm (a := after)]

theorem intern_eq_error_iff {pool after : Pool} {constant : Constant} {error : Error} :
    intern constant pool = (.error error, after) ↔
      pool.find? constant = none ∧ pool.refusal? constant = some error ∧ after = pool := by
  unfold intern push
  cases pool.find? constant with
  | some known =>
    refine iff_of_false (fun impossible => ?_) fun impossible => ?_
    · cases impossible
    · cases impossible.1
  | none =>
    simp only [true_and]
    cases pool.refusal? constant with
    | some refused =>
      simp only [Option.some.injEq]
      rw [Prod.mk.injEq, Except.error.injEq, eq_comm (a := pool)]
    | none =>
      refine iff_of_false (fun impossible => ?_) fun impossible => ?_
      · cases impossible
      · cases impossible.1

theorem always_internText (text : String) : Stateful.Always Extends (internText text) :=
  always_intern _

theorem always_internClass (name : String) : Stateful.Always Extends (internClass name) :=
  (always_internText name).bind fun _ => always_intern _

theorem always_internString (text : String) : Stateful.Always Extends (internString text) :=
  (always_internText text).bind fun _ => always_intern _

theorem always_internNameAndType (name descriptor : String) :
    Stateful.Always Extends (internNameAndType name descriptor) :=
  (always_internText name).bind fun _ => (always_internText descriptor).bind fun _ =>
    always_intern _

theorem always_internMember (make : UInt16 → UInt16 → Constant) (owner name descriptor : String) :
    Stateful.Always Extends (internMember make owner name descriptor) :=
  (always_internClass owner).bind fun _ => (always_internNameAndType name descriptor).bind
    fun _ => always_intern _

theorem always_internIntegers (count : Nat) (first : Int) (found : Option UInt16) :
    Stateful.Always Extends (internIntegers count first found) := by
  induction count generalizing first found with
  | zero => exact .pure found
  | succ count inductionHypothesis =>
    exact (always_intern _).bind fun index => inductionHypothesis (first + 1) (some index)

/-! ### Looking up -/

theorem get_eq_ok_iff {pool : Pool} {index : UInt16} {constant : Constant} :
    pool.get index = .ok constant ↔
      constant ≠ .reserved ∧ pool.slots[index.toNat]? = some constant := by
  unfold get
  cases pool.slots[index.toNat]? with
  | none => exact iff_of_false nofun (Option.some_ne_none _ ·.2.symm)
  | some held =>
    rw [Option.some.injEq]
    cases held with
    | reserved => exact iff_of_false nofun fun here => here.1 here.2.symm
    | _ =>
      rw [Except.ok.injEq]
      refine ⟨?_, And.right⟩
      rintro rfl
      exact ⟨Constant.noConfusion, rfl⟩

section lookups

variable {pool : Pool} {index : UInt16}

theorem lookup_eq_ok_iff {α : Type} {expected : ExpectedConstant} {select : Constant → Option α}
    {value : α} :
    pool.lookup expected select index = .ok value ↔
      ∃ constant, pool.get index = .ok constant ∧ select constant = some value := by
  unfold lookup
  cases pool.get index with
  | error error => simp
  | ok constant => cases selected : select constant <;> simp [selected]

/-- Looking for constants of one form only. -/
theorem lookup_eq_ok_iff_get {α : Type} {expected : ExpectedConstant}
    {select : Constant → Option α} (make : α → Constant)
    (selects : ∀ constant value, select constant = some value ↔ constant = make value) {value : α} :
    pool.lookup expected select index = .ok value ↔ pool.get index = .ok (make value) := by
  simp only [lookup_eq_ok_iff, selects, exists_eq_right]

theorem utf8_eq_ok_iff {bytes : Bytes} :
    pool.utf8 index = .ok bytes ↔ pool.get index = .ok (.utf8 bytes) :=
  lookup_eq_ok_iff_get .utf8 fun constant _ => by cases constant <;> simp

theorem classEntry_eq_ok_iff {name : UInt16} :
    pool.classEntry index = .ok name ↔ pool.get index = .ok (.className name) :=
  lookup_eq_ok_iff_get .className fun constant _ => by cases constant <;> simp

theorem nameAndTypeEntry_eq_ok_iff {name descriptor : UInt16} :
    pool.nameAndTypeEntry index = .ok (name, descriptor) ↔
      pool.get index = .ok (.nameAndType name descriptor) :=
  lookup_eq_ok_iff_get (fun pair : UInt16 × UInt16 => .nameAndType pair.1 pair.2)
    fun constant _ => by cases constant <;> simp [Prod.ext_iff]

end lookups

section lookup

variable {before after : Pool} (grown : before.Extends after) {index : UInt16}

include grown

/-- A slot that was there is as it was. -/
theorem Extends.getElem?_slots {place : Nat} {constant : Constant}
    (found : before.slots[place]? = some constant) : after.slots[place]? = some constant := by
  obtain ⟨behind, same⟩ := grown.slots_prefix
  rw [← Array.getElem?_toList] at found ⊢
  obtain ⟨inside, -⟩ := List.getElem?_eq_some_iff.mp found
  rw [← same, List.getElem?_append_left inside, found]

theorem Extends.get {constant : Constant} (found : before.get index = .ok constant) :
    after.get index = .ok constant := by
  obtain ⟨proper, slot⟩ := get_eq_ok_iff.mp found
  exact get_eq_ok_iff.mpr ⟨proper, grown.getElem?_slots slot⟩

theorem Extends.lookup {α : Type} {expected : ExpectedConstant} {select : Constant → Option α}
    {value : α} (found : before.lookup expected select index = .ok value) :
    after.lookup expected select index = .ok value := by
  obtain ⟨constant, got, selected⟩ := lookup_eq_ok_iff.mp found
  exact lookup_eq_ok_iff.mpr ⟨constant, grown.get got, selected⟩

theorem Extends.utf8 {bytes : Bytes} (found : before.utf8 index = .ok bytes) :
    after.utf8 index = .ok bytes :=
  grown.lookup found

theorem Extends.text {text : String} (found : before.text index = .ok text) :
    after.text index = .ok text := by
  simp only [Pool.text, Outcome.bind_eq_ok_iff] at found ⊢
  obtain ⟨bytes, read, decoded⟩ := found
  exact ⟨bytes, grown.utf8 read, decoded⟩

theorem Extends.className {name : String} (found : before.className index = .ok name) :
    after.className index = .ok name := by
  simp only [Pool.className, Outcome.bind_eq_ok_iff] at found ⊢
  obtain ⟨entry, read, name⟩ := found
  exact ⟨entry, grown.lookup read, grown.text name⟩

theorem Extends.nameAndType {pair : String × String}
    (found : before.nameAndType index = .ok pair) : after.nameAndType index = .ok pair := by
  simp only [Pool.nameAndType, Outcome.bind_eq_ok_iff, Outcome.pure_eq_ok_iff] at found ⊢
  obtain ⟨entries, read, name, nameFound, descriptor, descriptorFound, same⟩ := found
  exact ⟨entries, grown.lookup read, name, grown.text nameFound, descriptor,
    grown.text descriptorFound, same⟩

theorem Extends.memberReference {reference : MemberReference}
    (found : before.memberReference index = .ok reference) :
    after.memberReference index = .ok reference := by
  simp only [Pool.memberReference, Outcome.bind_eq_ok_iff, Outcome.pure_eq_ok_iff] at found ⊢
  obtain ⟨entries, read, pair, pairFound, owner, ownerFound, same⟩ := found
  exact ⟨entries, grown.lookup read, pair, grown.nameAndType pairFound, owner,
    grown.className ownerFound, same⟩

end lookup

/-! ### Going back -/

/-- What the table of first slots says of the slots below a limit. -/
def firstSlotsBelow (pool : Pool) (limit : Nat) :=
  pool.firstSlots.filter fun _ index => index.toNat < limit

theorem getElem?_firstSlotsBelow (pool : Pool) (limit : Nat) (bytes : Bytes) :
    (pool.firstSlotsBelow limit)[bytes]? =
      pool.firstSlots[bytes]?.filter fun index => index.toNat < limit :=
  Std.ExtTreeMap.getElem?_filter'

/-- A constant that is added is not entered below the slots that were there. -/
theorem firstSlotsBelow_add {pool : Pool} {constant : Constant} {limit : Nat}
    (behind : limit ≤ pool.size) (countable : pool.size ≤ mostSlots) :
    (pool.add constant).firstSlotsBelow limit = pool.firstSlotsBelow limit := by
  refine Std.ExtTreeMap.ext_getElem? fun bytes => ?_
  rw [getElem?_firstSlotsBelow, getElem?_firstSlotsBelow, firstSlots_add,
    Std.ExtTreeMap.getElem?_insertIfNew]
  split
  · rename_i entered
    have absent : pool.firstSlots[bytes]? = none := by
      rw [← Std.compare_eq_iff_eq.mp entered.1]
      exact Std.ExtTreeMap.getElem?_eq_none entered.2
    have index : (UInt16.ofNat pool.size).toNat = pool.size := by
      have below : pool.size < 2 ^ 16 := Nat.lt_succ_of_le countable
      rw [UInt16.toNat_ofNat', Nat.mod_eq_of_lt below]
    rw [absent, Option.filter_none, Option.filter_some, index, if_neg]
    simpa using behind
  · rfl

theorem firstSlotsBelow_addAll {pool : Pool} {constants : List Constant} {limit : Nat}
    (behind : limit ≤ pool.size) (countable : (pool.addAll constants).size ≤ mostSlots) :
    (pool.addAll constants).firstSlotsBelow limit = pool.firstSlotsBelow limit := by
  induction constants generalizing pool with
  | nil => rfl
  | cons constant later inductionHypothesis =>
    have size := size_add pool constant
    have more := size_addAll (pool.add constant) later
    have countableLater : ((pool.add constant).addAll later).size ≤ mostSlots := countable
    show ((pool.add constant).addAll later).firstSlotsBelow limit = _
    rw [inductionHypothesis (by omega) countableLater, firstSlotsBelow_add behind (by omega)]

/-- Every slot that is entered in the table is one of the pool. -/
theorem firstSlots_lt_size {pool : Pool} (assembled : pool.Assembled) {bytes : Bytes}
    {index : UInt16} (entered : pool.firstSlots[bytes]? = some index) :
    index.toNat < pool.size := by
  induction assembled using Assembled.induction with
  | empty _ =>
    have none : empty.firstSlots[bytes]? = none := Std.ExtTreeMap.getElem?_empty
    rw [none] at entered
    cases entered
  | add pool constant _ _ _ _ inductionHypothesis =>
    have positive := width_pos constant
    rw [firstSlots_add, Std.ExtTreeMap.getElem?_insertIfNew] at entered
    rw [size_add]
    split at entered
    · have within := Nat.mod_le pool.size (2 ^ 16)
      rw [← Option.some.inj entered, UInt16.toNat_ofNat']
      omega
    · have before := inductionHypothesis entered
      omega

theorem firstSlotsBelow_size {pool : Pool} (assembled : pool.Assembled) :
    pool.firstSlotsBelow pool.size = pool.firstSlots := by
  refine Std.ExtTreeMap.ext_getElem? fun bytes => ?_
  rw [getElem?_firstSlotsBelow]
  cases entered : pool.firstSlots[bytes]? with
  | none => rfl
  | some index =>
    exact Option.filter_some_pos (decide_eq_true (firstSlots_lt_size assembled entered))

/-- Going back to a snapshot gives the pool back, whatever was added to it since. -/
theorem Extends.rollback {before after : Pool} (grown : before.Extends after)
    (assembled : before.Assembled) : after.rollback before.snapshot = before := by
  unfold Pool.rollback snapshot
  by_cases full : after.size ≤ before.size
  · rw [if_pos full]
    exact grown.eq_of_size_le full
  · have countable : after.size ≤ mostSlots := by
      obtain ⟨-, -, -, room⟩ := grown.assembled assembled
      exact room
    have slots : after.slots.take before.size = before.slots := by
      refine Array.toList_inj.mp ?_
      rw [Array.take_eq_extract, Array.toList_extract, List.extract_eq_take_drop, List.drop_zero]
      exact (List.prefix_iff_eq_take.mp grown.slots_prefix).symm
    have table : after.firstSlotsBelow before.size = before.firstSlots := by
      obtain ⟨added, -, rfl, -⟩ := grown
      rw [firstSlotsBelow_addAll (Nat.le_refl _) countable, firstSlotsBelow_size assembled]
    rw [if_neg full]
    show Pool.mk _ (after.firstSlotsBelow before.size) = _
    rw [slots, table]

end JavaClass.Pool
