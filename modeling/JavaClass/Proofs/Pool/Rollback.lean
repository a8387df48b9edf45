/-
Taking a pool back. A snapshot is a size and the table of first slots is not kept with it, so the
old table has to be found again in the new one: what is dropped is what leads behind the snapshot.
That is right because the table leads to first slots. A constant that was there before is entered
with a slot in front of the snapshot, however often it is asked for again and however many
duplicates of it a file had, and one that came later is entered with a slot behind it.

What makes a pool one that can be taken back to is said of its slots and its table alone. Such a
pool is nothing but the constants in its slots added one after the other, and whatever it is asked
for, with or without success, only adds more of them.
-/

import JavaClass.Proofs.Pool.Representation

namespace JavaClass.Pool

/-! ### Pools whose slots and table are in step -/

/-- A pool whose slots and table are in step and whose table has entries for constants only. -/
structure Coherent (pool : Pool) : Prop extends InStep pool where
  /-- Bytes that are entered are those of a constant. -/
  written : ∀ bytes ∈ pool.firstSlots, ∃ constant : Constant, constant.write = bytes

theorem Assembled.coherent {pool : Pool} (assembled : pool.Assembled) : pool.Coherent where
  toInStep := assembled.inStep
  written bytes member := by
    obtain ⟨constant, -, -, written⟩ :=
      exists_of_entered assembled (Std.ExtTreeMap.getElem?_eq_some_getElem member)
    exact ⟨constant, written⟩

/-- Slots that begin with a constant: one of them is reserved exactly if the slot in front of it
holds a constant that takes two. -/
structure Chained (slots : List Constant) : Prop where
  front : slots[0]? ≠ some .reserved
  behind : ∀ place : Nat, slots[place + 1]? = some .reserved ↔
    ∃ constant, slots[place]? = some constant ∧ constant.width = 2

theorem Chained.tail {constant : Constant} {rest : List Constant}
    (chained : Chained (constant :: rest)) (narrow : constant.width ≠ 2) : Chained rest where
  front reserved := by
    obtain ⟨held, here, wide⟩ := (chained.behind 0).mp reserved
    exact narrow (Option.some.inj here ▸ wide)
  behind place := chained.behind (place + 1)

theorem Chained.exists_of_wide {constant : Constant} {rest : List Constant}
    (chained : Chained (constant :: rest)) (wide : constant.width = 2) :
    ∃ later, rest = .reserved :: later ∧ Chained later := by
  have next : rest[0]? = some .reserved := (chained.behind 0).mpr ⟨constant, rfl, wide⟩
  cases rest with
  | nil => cases next
  | cons mark later =>
    obtain rfl : mark = .reserved := Option.some.inj next
    refine ⟨later, rfl, fun front => ?_, fun place => chained.behind (place + 2)⟩
    obtain ⟨held, here, wideHeld⟩ := (chained.behind 1).mp front
    rw [← Option.some.inj here] at wideHeld
    cases wideHeld

/-- Chained slots are those of constants, one behind the other. -/
theorem Chained.exists_flatMap {slots : List Constant} (chained : Chained slots) :
    ∃ constants : List Constant, slots = constants.flatMap slotsOf ∧ .reserved ∉ constants := by
  induction count : slots.length using Nat.strongRecOn generalizing slots with
  | ind length inductionHypothesis =>
    subst count
    cases slots with
    | nil => exact ⟨[], rfl, List.not_mem_nil⟩
    | cons constant rest =>
      have proper : .reserved ≠ constant := fun same => chained.front (same ▸ rfl)
      by_cases wide : constant.width = 2
      · obtain ⟨later, rfl, chainedLater⟩ := chained.exists_of_wide wide
        have shorter : later.length < (constant :: .reserved :: later).length :=
          Nat.lt_succ_of_le (Nat.le_succ _)
        obtain ⟨constants, rfl, properLater⟩ := inductionHypothesis _ shorter chainedLater rfl
        refine ⟨constant :: constants, ?_, List.not_mem_cons_of_ne_of_not_mem proper properLater⟩
        rw [List.flatMap_cons, slotsOf_of_wide wide]
        rfl
      · obtain ⟨constants, rfl, properLater⟩ :=
          inductionHypothesis _ (Nat.lt_succ_self _) (chained.tail wide) rfl
        refine ⟨constant :: constants, ?_, List.not_mem_cons_of_ne_of_not_mem proper properLater⟩
        rw [List.flatMap_cons, slotsOf_of_narrow wide]
        rfl

/-- Behind the reserved slot at the front, the slots of a pool are chained. -/
theorem InStep.exists_chained {pool : Pool} (inStep : pool.InStep) :
    ∃ slots, pool.slots.toList = .reserved :: slots ∧ Chained slots := by
  have front : pool.slots.toList[0]? = some .reserved := Array.getElem?_toList.trans inStep.front
  have behind (place : Nat) : pool.slots.toList[place + 1]? = some .reserved ↔
      ∃ constant, pool.slots.toList[place]? = some constant ∧ constant.width = 2 := by
    simp only [Array.getElem?_toList]
    exact (inStep.reserved place).trans isWideAt_iff
  generalize pool.slots.toList = all at front behind
  cases all with
  | nil => cases front
  | cons mark slots =>
    obtain rfl : mark = .reserved := Option.some.inj front
    refine ⟨slots, rfl, fun next => ?_, fun place => behind (place + 1)⟩
    obtain ⟨held, here, wide⟩ := (behind 0).mp next
    rw [← Option.some.inj here] at wide
    cases wide

/-- Of two pools with the same slots, one that is in step enters nothing that the other does not. -/
theorem Coherent.entered_of_slots_eq {pool other : Pool} (coherent : pool.Coherent)
    (inStep : other.InStep) (slots : pool.slots = other.slots) {bytes : Bytes} {index : UInt16}
    (entered : pool.firstSlots[bytes]? = some index) :
    other.firstSlots[bytes]? = some index := by
  have member : bytes ∈ pool.firstSlots := by
    rw [Std.ExtTreeMap.mem_iff_isSome_getElem?, entered]
    rfl
  obtain ⟨constant, rfl⟩ := coherent.written bytes member
  have first := (coherent.leads constant index).mp entered
  rw [IsFirstSlot, slots] at first
  exact (inStep.leads constant index).mpr first

/-- A pool is determined by its slots. -/
theorem Coherent.eq_of_slots_eq {pool other : Pool} (coherent : pool.Coherent)
    (otherCoherent : other.Coherent) (slots : pool.slots = other.slots) : pool = other := by
  have table : pool.firstSlots = other.firstSlots := by
    refine Std.ExtTreeMap.ext_getElem? fun bytes => Option.ext fun index => ?_
    exact ⟨coherent.entered_of_slots_eq otherCoherent.toInStep slots,
      otherCoherent.entered_of_slots_eq coherent.toInStep slots.symm⟩
  cases pool
  cases other
  rw [mk.injEq]
  exact ⟨slots, table⟩

/-- A pool in step is what comes of adding the constants in its slots to an empty one. -/
theorem Coherent.assembled {pool : Pool} (coherent : pool.Coherent) : pool.Assembled := by
  obtain ⟨slots, all, chained⟩ := coherent.exists_chained
  obtain ⟨constants, rfl, proper⟩ := chained.exists_flatMap
  have same : pool.slots = (empty.addAll constants).slots :=
    Array.toList_inj.mp (all.trans (slots_addAll empty constants).symm)
  have storable : ∀ constant ∈ constants, constant.Storable := by
    intro constant member
    have inSlots : constant ∈ pool.slots.toList := by
      rw [all]
      exact List.mem_cons_of_mem _ (List.mem_flatMap.mpr ⟨constant, member, List.mem_cons_self⟩)
    obtain ⟨place, here⟩ := List.mem_iff_getElem?.mp inSlots
    cases constant with
    | utf8 bytes => exact coherent.short place bytes (Array.getElem?_toList.symm.trans here)
    | reserved => exact proper member
    | _ => trivial
  have countable : (empty.addAll constants).size ≤ mostSlots := by
    rw [size, ← same]
    exact coherent.countable
  have assembled : (empty.addAll constants).Assembled := ⟨constants, storable, rfl, countable⟩
  rw [coherent.eq_of_slots_eq assembled.coherent same]
  exact assembled

/-! ### Asking and going back -/

/-- What comes of asking a pool for one thing after the other, refused or not, and the pool then. -/
def askAll : List Request → Pool → List (Except Error UInt16) × Pool
  | [], pool => ([], pool)
  | request :: rest, pool =>
    let (answer, asked) := request.run pool
    let (answers, after) := askAll rest asked
    (answer :: answers, after)

theorem extends_askAll (requests : List Request) (pool : Pool) :
    pool.Extends (askAll requests pool).2 := by
  induction requests generalizing pool with
  | nil => exact .refl pool
  | cons request rest inductionHypothesis =>
    exact ((always_run request).relates rfl).trans (inductionHypothesis _)

/-- Whatever a pool in step is asked for, and whatever comes of it, going back to the snapshot that
was taken before gives it back: every slot and the table of first slots, and with them the answers
to everything that it is asked for later. -/
theorem rollback_askAll {pool : Pool} (coherent : pool.Coherent) (requests : List Request) :
    let restored := (askAll requests pool).2.rollback pool.snapshot
    restored.slots = pool.slots ∧ restored.firstSlots = pool.firstSlots ∧
      (∀ constant, restored.find? constant = pool.find? constant) ∧
      ∀ later, askAll later restored = askAll later pool := by
  have restored : (askAll requests pool).2.rollback pool.snapshot = pool :=
    (extends_askAll requests pool).rollback coherent.assembled
  simp only [restored, implies_true, and_self]

/-- A pool as a file may have it, with a text that is there twice. -/
def poolOfTwins : Pool := empty.addAll [.utf8 [65], .utf8 [65], .className 2]

theorem coherent_poolOfTwins : poolOfTwins.Coherent := by
  refine Assembled.coherent ⟨_, ?_, rfl, by decide⟩
  have short : [(65 : UInt8)].length ≤ longestText := by decide
  exact List.forall_mem_cons.mpr ⟨short, List.forall_mem_cons.mpr ⟨short,
    List.forall_mem_singleton.mpr trivial⟩⟩

/-- A class that refers to the first of the two texts and a long number are added, a reserved slot
is refused, and the text is found. -/
theorem rollback_askAll_poolOfTwins :
    let requests : List Request := [.className "A", .entry (.long 7), .entry .reserved, .text "A"]
    poolOfTwins.Coherent ∧
      (askAll requests poolOfTwins).1 =
        [.ok 4, .ok 5, .error (.malformed .reservedConstant), .ok 1] ∧
      (askAll requests poolOfTwins).2.size = 7 ∧
      let restored := (askAll requests poolOfTwins).2.rollback poolOfTwins.snapshot
      restored.slots = poolOfTwins.slots ∧ restored.firstSlots = poolOfTwins.firstSlots ∧
        (∀ constant, restored.find? constant = poolOfTwins.find? constant) ∧
        ∀ later, askAll later restored = askAll later poolOfTwins := by
  refine ⟨coherent_poolOfTwins, ?_, ?_, rollback_askAll coherent_poolOfTwins _⟩
  · decide +kernel
  · decide +kernel

end JavaClass.Pool
