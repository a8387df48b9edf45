/-
How a pool represents its constants. The slots and the table of first slots say the same thing
twice, and they stay in step whatever is interned, with or without success, and however often the
pool is taken back. A slot is reserved at the front and behind every constant that takes two, and
nowhere else; the table leads to the first of the slots that hold a constant, and knows the
constants that are there and no others.

A snapshot is only a size, so taking a pool back to one is only sound while the slots below it are
those that were there when it was taken. They are as long as the pool was not taken back any
further since.
-/

import JavaClass.Proofs.Pool.Interning
import Mathlib.Data.Nat.Find

namespace JavaClass.Pool

/-! ### Slots -/

theorem getElem?_slots_add (pool : Pool) (constant : Constant) (place : Nat) :
    (pool.add constant).slots[place]? =
      if place < pool.size then pool.slots[place]? else (slotsOf constant)[place - pool.size]? := by
  have size : pool.slots.toList.length = pool.size := Array.length_toList
  rw [← Array.getElem?_toList, slots_add, List.getElem?_append, size, Array.getElem?_toList]

/-- A slot behind all others is not there. -/
theorem getElem?_slots_of_size_le {pool : Pool} {place : Nat} (behind : pool.size ≤ place) :
    pool.slots[place]? = none :=
  Array.getElem?_eq_none behind

/-- Whether the constant in a slot takes the next slot too. -/
def IsWideAt (pool : Pool) (place : Nat) : Prop :=
  (∃ bits, pool.slots[place]? = some (.long bits)) ∨
    ∃ bits, pool.slots[place]? = some (.double bits)

theorem isWideAt_iff {pool : Pool} {place : Nat} :
    pool.IsWideAt place ↔ ∃ constant, pool.slots[place]? = some constant ∧ constant.width = 2 := by
  constructor
  · rintro (⟨bits, slot⟩ | ⟨bits, slot⟩)
    · exact ⟨_, slot, rfl⟩
    · exact ⟨_, slot, rfl⟩
  · rintro ⟨constant, slot, wide⟩
    cases constant with
    | long bits => exact .inl ⟨bits, slot⟩
    | double bits => exact .inr ⟨bits, slot⟩
    | _ => cases wide

theorem slotsOf_of_wide {constant : Constant} (wide : constant.width = 2) :
    slotsOf constant = [constant, .reserved] := by
  rw [slotsOf, if_pos wide]

theorem slotsOf_of_narrow {constant : Constant} (narrow : constant.width ≠ 2) :
    slotsOf constant = [constant] := by
  rw [slotsOf, if_neg narrow]

theorem eq_of_mem_slotsOf {constant held : Constant} (member : held ∈ slotsOf constant)
    (proper : held ≠ .reserved) : held = constant := by
  by_cases wide : constant.width = 2
  · rw [slotsOf_of_wide wide] at member
    exact (List.mem_cons.mp member).resolve_right fun behind =>
      proper (List.mem_singleton.mp behind)
  · rw [slotsOf_of_narrow wide] at member
    exact List.mem_singleton.mp member

theorem ne_reserved_of_storable {constant : Constant} (storable : constant.Storable) :
    constant ≠ .reserved := by
  rintro rfl
  exact storable

/-- Behind the slots that were there come those of the constant that was added. -/
theorem reserved_iff_of_add {pool : Pool} {constant : Constant} (storable : constant.Storable)
    {place : Nat} (inductionHypothesis : ∀ place,
      pool.slots[place + 1]? = some .reserved ↔ pool.IsWideAt place) :
    (pool.add constant).slots[place + 1]? = some .reserved ↔
      (pool.add constant).IsWideAt place := by
  rw [isWideAt_iff]
  simp only [getElem?_slots_add]
  obtain before | last | behind : place + 1 < pool.size ∨ place + 1 = pool.size ∨
    pool.size ≤ place := by omega
  · rw [if_pos before, if_pos (by omega), inductionHypothesis, isWideAt_iff]
  · -- The last slot that was there is of no wide constant, since none is reserved behind it.
    rw [if_neg (by omega), if_pos (by omega), last, Nat.sub_self, ← isWideAt_iff,
      ← inductionHypothesis, last, getElem?_slots_of_size_le (Nat.le_refl _)]
    refine iff_of_false (fun same => ?_) (Option.some_ne_none _ ·.symm)
    exact ne_reserved_of_storable storable (Option.some.inj same)
  · rw [if_neg (by omega), if_neg (by omega)]
    obtain ⟨further, rfl⟩ := Nat.exists_eq_add_of_le behind
    rw [Nat.add_assoc, Nat.add_sub_cancel_left, Nat.add_sub_cancel_left]
    by_cases wide : constant.width = 2
    · rw [slotsOf_of_wide wide]
      match further with
      | 0 => simp [wide]
      | 1 => simp [Constant.width]
      | more + 2 => simp
    · rw [slotsOf_of_narrow wide]
      match further with
      | 0 => simp [wide]
      | more + 1 => simp

theorem reserved_iff_of_assembled {pool : Pool} (assembled : pool.Assembled) (place : Nat) :
    pool.slots[place + 1]? = some .reserved ↔ pool.IsWideAt place := by
  induction assembled using Assembled.induction generalizing place with
  | empty _ =>
    rw [isWideAt_iff, getElem?_slots_of_size_le (Nat.le_add_left 1 place)]
    refine iff_of_false (Option.some_ne_none _ ·.symm) ?_
    rintro ⟨constant, slot, wide⟩
    cases place with
    | zero =>
      obtain rfl := Option.some.inj slot
      cases wide
    | succ place =>
      rw [getElem?_slots_of_size_le (Nat.le_add_left 1 place)] at slot
      cases slot
  | add pool constant storable _ _ _ inductionHypothesis =>
    exact reserved_iff_of_add storable inductionHypothesis

theorem storable_of_slot {pool : Pool} (assembled : pool.Assembled) {place : Nat}
    {constant : Constant} (proper : constant ≠ .reserved)
    (slot : pool.slots[place]? = some constant) : constant.Storable := by
  induction assembled using Assembled.induction with
  | empty _ =>
    have member := List.mem_of_getElem? (Array.getElem?_toList.trans slot)
    exact absurd (List.mem_singleton.mp member) proper
  | add pool added storable _ _ _ inductionHypothesis =>
    rw [getElem?_slots_add] at slot
    split at slot
    · exact inductionHypothesis slot
    · rw [eq_of_mem_slotsOf (List.mem_of_getElem? slot) proper]
      exact storable

/-! ### The table of first slots -/

/-- Whether a slot is the first that holds a constant. -/
def IsFirstSlot (pool : Pool) (constant : Constant) (place : Nat) : Prop :=
  pool.slots[place]? = some constant ∧ ∀ earlier < place, pool.slots[earlier]? ≠ some constant

theorem exists_isFirstSlot {pool : Pool} {constant : Constant}
    (held : ∃ place : Nat, pool.slots[place]? = some constant) :
    ∃ first, pool.IsFirstSlot constant first :=
  ⟨Nat.find held, Nat.find_spec held, fun _ less => Nat.find_min held less⟩

theorem IsFirstSlot.unique {pool : Pool} {constant : Constant} {first second : Nat}
    (one : pool.IsFirstSlot constant first) (other : pool.IsFirstSlot constant second) :
    first = second := by
  obtain less | same | more := Nat.lt_trichotomy first second
  · exact (other.2 first less one.1).elim
  · exact same
  · exact (one.2 second more other.1).elim

/-- What was added is entered unless it was there already, and nothing else changes. -/
theorem find?_add {pool : Pool} {constant : Constant} (storable : constant.Storable)
    (wanted : Constant) :
    (pool.add constant).find? wanted =
      if constant = wanted ∧ pool.find? constant = none then some (UInt16.ofNat pool.size)
      else pool.find? wanted := by
  unfold find?
  rw [firstSlots_add, Std.ExtTreeMap.getElem?_insertIfNew]
  refine if_congr (and_congr ?_ ?_) rfl rfl
  · rw [Std.compare_eq_iff_eq]
    exact ⟨Constant.eq_of_write_eq storable, congrArg Constant.write⟩
  · rw [Std.ExtTreeMap.mem_iff_isSome_getElem?, Option.not_isSome_iff_eq_none]

/-- What was interned is known to the table. -/
theorem find?_of_intern {pool after : Pool} {constant : Constant} {index : UInt16}
    (interned : intern constant pool = (.ok index, after)) : after.find? constant = some index := by
  obtain ⟨found, rfl⟩ | ⟨unknown, accepted, rfl, rfl⟩ := intern_eq_ok_iff.mp interned
  · exact found
  · rw [find?_add (refusal?_eq_none_iff.mp accepted).1, if_pos ⟨rfl, unknown⟩]

theorem IsFirstSlot.lt_size {pool : Pool} {constant : Constant} {place : Nat}
    (first : pool.IsFirstSlot constant place) : place < pool.size :=
  (Array.getElem?_eq_some_iff.mp first.1).1

/-- Slots that are added behind leave the first slot of what was there where it is. -/
theorem isFirstSlot_add_of_lt {pool : Pool} {constant added : Constant} {place : Nat}
    (before : place < pool.size) :
    (pool.add added).IsFirstSlot constant place ↔ pool.IsFirstSlot constant place := by
  unfold IsFirstSlot
  rw [getElem?_slots_add, if_pos before]
  refine and_congr_right fun _ => forall₂_congr fun earlier less => ?_
  rw [getElem?_slots_add, if_pos (Nat.lt_trans less before)]

/-- What is held somewhere is known to a table that leads to first slots. -/
theorem isSome_find?_of_slot {pool : Pool} (countable : pool.size ≤ mostSlots)
    {constant : Constant}
    (leads : ∀ index : UInt16,
      pool.find? constant = some index ↔ pool.IsFirstSlot constant index.toNat)
    {place : Nat} (slot : pool.slots[place]? = some constant) :
    (pool.find? constant).isSome := by
  obtain ⟨first, isFirst⟩ := exists_isFirstSlot ⟨place, slot⟩
  have below : first < 2 ^ 16 := Nat.lt_succ_of_le
    (Nat.le_trans (Nat.le_of_lt isFirst.lt_size) countable)
  have index : (UInt16.ofNat first).toNat = first := by
    rw [UInt16.toNat_ofNat', Nat.mod_eq_of_lt below]
  rw [(leads (UInt16.ofNat first)).mpr (index.symm ▸ isFirst)]
  rfl

/-- The table says of every constant which slot is the first that holds it. -/
theorem find?_eq_some_iff_of_assembled {pool : Pool} (assembled : pool.Assembled)
    {constant : Constant} (proper : constant ≠ .reserved) (index : UInt16) :
    pool.find? constant = some index ↔ pool.IsFirstSlot constant index.toNat := by
  induction assembled using Assembled.induction generalizing index with
  | empty _ =>
    have unknown : Pool.empty.find? constant = none := Std.ExtTreeMap.getElem?_empty
    rw [unknown]
    refine iff_of_false (Option.some_ne_none _ ·.symm) fun first => proper ?_
    exact List.mem_singleton.mp (List.mem_of_getElem? (Array.getElem?_toList.trans first.1))
  | add pool added storable countable _ _ inductionHypothesis =>
    have less : pool.size ≤ mostSlots := by
      rw [size_add] at countable
      omega
    rw [find?_add storable]
    split
    · rename_i new
      obtain ⟨rfl, unknown⟩ := new
      have size := toNat_ofNat_size countable
      have isFirst : (pool.add added).IsFirstSlot added pool.size := by
        refine ⟨getElem?_slots_add_size _ _, fun earlier before slot => ?_⟩
        rw [getElem?_slots_add, if_pos before] at slot
        have known := isSome_find?_of_slot less inductionHypothesis slot
        rw [unknown] at known
        cases known
      constructor
      · intro same
        rw [← Option.some.inj same, size]
        exact isFirst
      · intro first
        rw [isFirst.unique first, UInt16.ofNat_toNat]
    · rename_i old
      rw [inductionHypothesis]
      by_cases before : index.toNat < pool.size
      · exact (isFirstSlot_add_of_lt before).symm
      · refine iff_of_false (fun first => before first.lt_size) fun first => ?_
        obtain ⟨slot, none⟩ := first
        rw [getElem?_slots_add, if_neg before] at slot
        obtain rfl := eq_of_mem_slotsOf (List.mem_of_getElem? slot) proper
        obtain ⟨known, found⟩ := Option.isSome_iff_exists.mp
          (Option.isSome_iff_ne_none.mpr fun unknown => old ⟨rfl, unknown⟩)
        have isFirst := (inductionHypothesis known).mp found
        refine none known.toNat (by have := isFirst.lt_size; omega) ?_
        rw [getElem?_slots_add, if_pos isFirst.lt_size]
        exact isFirst.1

/-- The mark of a reserved slot is no constant that could be looked up. -/
theorem find?_reserved_of_assembled {pool : Pool} (assembled : pool.Assembled) :
    pool.find? .reserved = none := by
  cases found : pool.find? .reserved with
  | none => rfl
  | some index =>
    obtain ⟨held, -, storable, written⟩ := exists_of_entered assembled found
    exact absurd written (Constant.write_ne_nil storable)

/-! ### Slots and table in step -/

/-- What holds of the slots of a pool and of its table of first slots. -/
structure InStep (pool : Pool) : Prop where
  /-- Slot zero is reserved. -/
  front : pool.slots[0]? = some .reserved
  /-- A later slot is reserved exactly if the slot before it holds a constant that takes two. -/
  reserved : ∀ place, pool.slots[place + 1]? = some .reserved ↔ pool.IsWideAt place
  /-- The slots can be counted. -/
  countable : pool.size ≤ mostSlots
  /-- No text is too long. -/
  short : ∀ (place : Nat) (bytes : Bytes), pool.slots[place]? = some (.utf8 bytes) →
    bytes.length ≤ longestText
  /-- The table leads to the first slot that holds a constant. -/
  leads : ∀ (constant : Constant) (index : UInt16), pool.find? constant = some index ↔
    constant ≠ .reserved ∧ pool.IsFirstSlot constant index.toNat
  /-- The table knows the constants that are held, and no others. -/
  knows : ∀ constant : Constant, (pool.find? constant).isSome ↔
    constant ≠ .reserved ∧ ∃ place : Nat, pool.slots[place]? = some constant

theorem Assembled.inStep {pool : Pool} (assembled : pool.Assembled) : pool.InStep := by
  have countable : pool.size ≤ mostSlots := by
    obtain ⟨-, -, -, room⟩ := assembled
    exact room
  have leads : ∀ (constant : Constant) (index : UInt16), pool.find? constant = some index ↔
      constant ≠ .reserved ∧ pool.IsFirstSlot constant index.toNat := by
    intro constant index
    by_cases proper : constant = .reserved
    · rw [proper, find?_reserved_of_assembled assembled]
      exact iff_of_false (Option.some_ne_none _ ·.symm) fun first => first.1 rfl
    · rw [find?_eq_some_iff_of_assembled assembled proper]
      exact (and_iff_right proper).symm
  refine ⟨?_, reserved_iff_of_assembled assembled, countable, ?_, leads, fun constant => ?_⟩
  · obtain ⟨constants, -, rfl, -⟩ := assembled
    exact slots_addAll_zero empty constants (by decide)
  · intro place bytes slot
    exact storable_of_slot assembled Constant.noConfusion slot
  · constructor
    · intro known
      obtain ⟨index, found⟩ := Option.isSome_iff_exists.mp known
      obtain ⟨proper, first⟩ := (leads constant index).mp found
      exact ⟨proper, index.toNat, first.1⟩
    · rintro ⟨proper, place, slot⟩
      exact isSome_find?_of_slot countable (find?_eq_some_iff_of_assembled assembled proper) slot

/-! ### Everything that can be asked of a pool -/

/-- What a pool can be asked to intern. Numbers are asked for as the constants that they are. -/
inductive Request
  | entry (constant : Constant)
  | text (value : String)
  | className (name : String)
  | string (value : String)
  | integer (value : Int32)
  | nameAndType (name descriptor : String)
  | field (owner name descriptor : String)
  | method (owner name descriptor : String)
  | interfaceMethod (owner name descriptor : String)

/-- Interning what is asked for. -/
def Request.run : Request → Interning UInt16
  | .entry constant => intern constant
  | .text value => internText value
  | .className name => internClass name
  | .string value => internString value
  | .integer value => internInteger value
  | .nameAndType name descriptor => internNameAndType name descriptor
  | .field owner name descriptor => internField owner name descriptor
  | .method owner name descriptor => internMethod owner name descriptor
  | .interfaceMethod owner name descriptor => internInterfaceMethod owner name descriptor

theorem always_run (request : Request) : Stateful.Always Extends request.run := by
  cases request with
  | entry constant => exact always_intern constant
  | text value => exact always_internText value
  | className name => exact always_internClass name
  | string value => exact always_internString value
  | integer value => exact always_intern _
  | nameAndType name descriptor => exact always_internNameAndType name descriptor
  | field owner name descriptor | method owner name descriptor
  | interfaceMethod owner name descriptor => exact always_internMember _ owner name descriptor

/-- A pool that was used in any way, and the snapshots that it can still be taken back to: those
that were taken of it and below which it was not taken back since. -/
inductive Used : Pool → List Snapshot → Prop
  | empty : Used empty []
  | read {bytes rest : Bytes} {pool : Pool} (read : Pool.read bytes = .ok (pool, rest)) :
      Used pool []
  | ask {pool : Pool} {snapshots : List Snapshot} (used : Used pool snapshots)
      (request : Request) : Used (request.run pool).2 snapshots
  | snapshot {pool : Pool} {snapshots : List Snapshot} (used : Used pool snapshots) :
      Used pool (pool.snapshot :: snapshots)
  | rollback {pool : Pool} {snapshots : List Snapshot} (used : Used pool snapshots)
      {snapshot : Snapshot} (taken : snapshot ∈ snapshots) :
      Used (pool.rollback snapshot) (snapshots.filter fun other => other.size ≤ snapshot.size)

/-- What a pool and its snapshots come from: pools of which each was extended to the next, in some
order, and all of them to what the pool is now. -/
structure Tracked (pool : Pool) (earlier : List Pool) : Prop where
  assembled : pool.Assembled
  assembledEarlier : ∀ one ∈ earlier, one.Assembled
  extended : ∀ one ∈ earlier, one.Extends pool
  ordered : ∀ one ∈ earlier, ∀ other ∈ earlier, one.Extends other ∨ other.Extends one

theorem Tracked.extends {pool after : Pool} {earlier : List Pool} (tracked : Tracked pool earlier)
    (grown : pool.Extends after) : Tracked after earlier where
  assembled := grown.assembled tracked.assembled
  assembledEarlier := tracked.assembledEarlier
  extended one member := (tracked.extended one member).trans grown
  ordered := tracked.ordered

theorem Tracked.snapshot {pool : Pool} {earlier : List Pool} (tracked : Tracked pool earlier) :
    Tracked pool (pool :: earlier) where
  assembled := tracked.assembled
  assembledEarlier := List.forall_mem_cons.mpr ⟨tracked.assembled, tracked.assembledEarlier⟩
  extended := List.forall_mem_cons.mpr ⟨.refl pool, tracked.extended⟩
  ordered := by
    intro one member other otherMember
    obtain rfl | before := List.mem_cons.mp member
    · obtain rfl | otherBefore := List.mem_cons.mp otherMember
      · exact .inl (.refl _)
      · exact .inr (tracked.extended other otherBefore)
    · obtain rfl | otherBefore := List.mem_cons.mp otherMember
      · exact .inl (tracked.extended one before)
      · exact tracked.ordered one before other otherBefore

/-- Of the pools that came before, those that are no larger than the one that is gone back to are
extended to it. -/
theorem Tracked.rollback {pool target : Pool} {earlier : List Pool}
    (tracked : Tracked pool earlier) (member : target ∈ earlier) :
    Tracked target (earlier.filter fun one => one.size ≤ target.size) where
  assembled := tracked.assembledEarlier target member
  assembledEarlier one kept := tracked.assembledEarlier one (List.mem_of_mem_filter kept)
  extended one kept := by
    obtain ⟨before, within⟩ := List.mem_filter.mp kept
    obtain grown | shrunk := tracked.ordered one before target member
    · exact grown
    · rw [shrunk.eq_of_size_le (of_decide_eq_true within)]
      exact .refl target
  ordered one kept other otherKept :=
    tracked.ordered one (List.mem_of_mem_filter kept) other (List.mem_of_mem_filter otherKept)

theorem Used.exists_tracked {pool : Pool} {snapshots : List Snapshot}
    (used : Used pool snapshots) :
    ∃ earlier : List Pool, snapshots = earlier.map Pool.snapshot ∧ Tracked pool earlier := by
  induction used with
  | empty =>
    exact ⟨[], rfl, Obtained.empty.assembled, List.forall_mem_nil _, List.forall_mem_nil _,
      List.forall_mem_nil _⟩
  | read read =>
    exact ⟨[], rfl, (Obtained.read read).assembled, List.forall_mem_nil _, List.forall_mem_nil _,
      List.forall_mem_nil _⟩
  | ask _ request inductionHypothesis =>
    obtain ⟨earlier, taken, tracked⟩ := inductionHypothesis
    exact ⟨earlier, taken, tracked.extends ((always_run request).relates rfl)⟩
  | @snapshot pool _ _ inductionHypothesis =>
    obtain ⟨earlier, rfl, tracked⟩ := inductionHypothesis
    exact ⟨pool :: earlier, rfl, tracked.snapshot⟩
  | rollback _ taken inductionHypothesis =>
    obtain ⟨earlier, rfl, tracked⟩ := inductionHypothesis
    obtain ⟨target, member, rfl⟩ := List.mem_map.mp taken
    have back := (tracked.extended target member).rollback (tracked.assembledEarlier target member)
    refine ⟨earlier.filter fun one => one.size ≤ target.size, ?_, ?_⟩
    · rw [List.filter_map]
      rfl
    · rw [back]
      exact tracked.rollback member

/-- However a pool is used, its slots and its table of first slots stay in step. -/
theorem inStep_of_used {pool : Pool} {snapshots : List Snapshot} (used : Used pool snapshots) :
    pool.InStep := by
  obtain ⟨earlier, -, tracked⟩ := used.exists_tracked
  exact tracked.assembled.inStep

/-- A pool that was taken back behind a long number, and then asked for a class. -/
def usedForClass : Pool :=
  let long := ((Request.entry (.long 1)).run empty).2
  ((Request.className "A").run (long.rollback empty.snapshot)).2

theorem inStep_of_used_usedForClass : Used usedForClass [empty.snapshot] ∧ usedForClass.InStep := by
  have used : Used usedForClass [empty.snapshot] :=
    ((Used.empty.snapshot.ask (.entry (.long 1))).rollback List.mem_cons_self).ask
      (.className "A")
  exact ⟨used, inStep_of_used used⟩

end JavaClass.Pool
