/-
What interning promises. A constant that is there is found where it first stands, one that cannot be
kept is refused, and any other is added behind all that is there. An index that was given for
something goes on to mean it, whatever is asked for later: it is given again when the same is asked
for again, and never for another constant. What is asked for in several steps, such as a member of a
class, is found again by following the indices down to the texts, also in a pool that was read and
has some of its constants twice.
-/

import JavaClass.Proofs.Pool.Holding
import JavaClass.Proofs.Pool.Rollback

namespace JavaClass.Pool

/-! ### What is there -/

section table

variable {pool : Pool} (assembled : pool.Assembled) {constant : Constant}

include assembled

/-- The table leads to the first index at which a constant is. -/
theorem find?_eq_some_iff_get {index : UInt16} :
    pool.find? constant = some index ↔
      pool.get index = .ok constant ∧ ∀ earlier < index, pool.get earlier ≠ .ok constant := by
  have inStep := assembled.inStep
  rw [inStep.leads, get_eq_ok_iff, and_assoc]
  refine and_congr_right fun proper => and_congr_right fun slot => ?_
  simp only [ne_eq, get_eq_ok_iff, proper, not_false_eq_true, true_and]
  constructor
  · intro first earlier less
    exact first earlier.toNat less
  · intro first earlier less
    have code : (UInt16.ofNat earlier).toNat = earlier :=
      Text.Utf16.toNat_ofNat_of_lt (Nat.lt_trans less index.toNat_lt)
    rw [← code]
    exact first _ (UInt16.lt_iff_toNat_lt.mpr (code.symm ▸ less))

/-- The table does not know what is nowhere. -/
theorem find?_eq_none_iff_get :
    pool.find? constant = none ↔ ∀ index, pool.get index ≠ .ok constant := by
  constructor
  · intro unknown index got
    obtain ⟨proper, slot⟩ := get_eq_ok_iff.mp got
    have known := (assembled.inStep.knows constant).mpr ⟨proper, _, slot⟩
    rw [unknown] at known
    cases known
  · intro absent
    refine Option.eq_none_iff_forall_ne_some.mpr fun index found => ?_
    exact absent index ((find?_eq_some_iff_get assembled).mp found).1

end table

/-! ### One constant -/

/-- Why a pool has no place for a constant that it does not hold. -/
inductive Refuses (pool : Pool) : Constant → Error → Prop
  | reserved : Refuses pool .reserved (.malformed .reservedConstant)
  | tooLong {bytes : Bytes} (long : longestText < bytes.length) :
      Refuses pool (.utf8 bytes) (.constantTooLong bytes.length)
  | full {constant : Constant} (storable : constant.Storable)
      (crowded : mostSlots < pool.size + constant.width) : Refuses pool constant .poolOverflow

theorem refusal?_eq_some_iff {pool : Pool} {constant : Constant} {error : Error} :
    pool.refusal? constant = some error ↔ pool.Refuses constant error := by
  constructor
  · intro refused
    cases constant with
    | reserved =>
      obtain rfl := Option.some.inj refused
      exact .reserved
    | utf8 bytes =>
      simp only [refusal?] at refused
      split at refused
      · rename_i long
        obtain rfl := Option.some.inj refused
        exact .tooLong long
      · rename_i short
        split at refused
        · rename_i crowded
          obtain rfl := Option.some.inj refused
          exact .full (Nat.not_lt.mp short) crowded
        · cases refused
    | _ =>
      simp only [refusal?] at refused
      split at refused
      · rename_i crowded
        obtain rfl := Option.some.inj refused
        exact .full trivial crowded
      · cases refused
  · intro refuses
    cases refuses with
    | reserved => rfl
    | tooLong long =>
      simp only [refusal?]
      rw [if_pos long]
    | full storable crowded =>
      cases constant with
      | reserved => exact storable.elim
      | utf8 bytes =>
        simp only [refusal?]
        rw [if_neg (Nat.not_lt.mpr storable), if_pos crowded]
      | _ =>
        simp only [refusal?]
        rw [if_pos crowded]

/-- What can come of interning a constant, and the pool then: it is found where it first stands and
nothing changes, it is refused and nothing changes, or it is added behind everything. -/
inductive Interned (pool : Pool) (constant : Constant) : Except Error UInt16 × Pool → Prop
  | found {index : UInt16} (here : pool.get index = .ok constant)
      (first : ∀ earlier < index, pool.get earlier ≠ .ok constant) :
      Interned pool constant (.ok index, pool)
  | refused {error : Error} (absent : ∀ index, pool.get index ≠ .ok constant)
      (refuses : pool.Refuses constant error) : Interned pool constant (.error error, pool)
  | added {index : UInt16} {after : Pool} (absent : ∀ index, pool.get index ≠ .ok constant)
      (accepts : ∀ error, ¬pool.Refuses constant error) (behind : index.toNat = pool.size)
      (slots : after.slots.toList = pool.slots.toList ++ slotsOf constant) :
      Interned pool constant (.ok index, after)

theorem interned_intern {pool : Pool} (assembled : pool.Assembled) (constant : Constant) :
    pool.Interned constant (intern constant pool) := by
  cases found : pool.find? constant with
  | some index =>
    obtain ⟨here, first⟩ := (find?_eq_some_iff_get assembled).mp found
    rw [intern_eq_ok_iff.mpr (.inl ⟨found, rfl⟩)]
    exact .found here first
  | none =>
    have absent := (find?_eq_none_iff_get assembled).mp found
    cases refused : pool.refusal? constant with
    | some error =>
      rw [intern_eq_error_iff.mpr ⟨found, refused, rfl⟩]
      exact .refused absent (refusal?_eq_some_iff.mp refused)
    | none =>
      rw [intern_eq_ok_iff.mpr (.inr ⟨found, refused, rfl, rfl⟩)]
      refine .added absent (fun error refuses => ?_) ?_ (slots_add pool constant)
      · rw [refusal?_eq_some_iff.mpr refuses] at refused
        cases refused
      · exact toNat_ofNat_size (refusal?_eq_none_iff.mp refused).2

/-! ### Asking again -/

/-- Whether an action that has succeeded finds everything there when it is taken again. -/
def Repeats {α : Type} (action : Interning α) : Prop :=
  ∀ ⦃pool after later : Pool⦄ ⦃value : α⦄, pool.Assembled → action pool = (.ok value, after) →
    after.Extends later → action later = (.ok value, later)

theorem repeats_intern (constant : Constant) : Repeats (intern constant) := by
  intro pool after later index assembled interned grown
  have known := grown.find? (assembled_of_always assembled (always_intern constant) interned)
    (find?_of_intern interned)
  exact intern_eq_ok_iff.mpr (.inl ⟨known, rfl⟩)

/-- What is found in the first of two steps is found in what the second one left. -/
theorem Repeats.bind {α β : Type} {first : Interning α} {next : α → Interning β}
    (repeats : Repeats first) (repeatsNext : ∀ found, Repeats (next found))
    (always : Stateful.Always Extends first)
    (alwaysNext : ∀ found, Stateful.Always Extends (next found)) : Repeats (first >>= next) := by
  intro pool after later value assembled ran grown
  obtain ⟨found, middle, firstRan, nextRan⟩ := Stateful.bind_eq_ok_iff.mp ran
  have assembledMiddle := assembled_of_always assembled always firstRan
  have grownMiddle := ((alwaysNext found).relates nextRan).trans grown
  rw [Stateful.bind_of_ok (repeats assembled firstRan grownMiddle)]
  exact repeatsNext found assembledMiddle nextRan grown

/-- What refers to one thing is found again once that is. -/
theorem Repeats.intern {first : Interning UInt16} (repeats : Repeats first)
    (always : Stateful.Always Extends first) (make : UInt16 → Constant) :
    Repeats (first >>= fun found => intern (make found)) :=
  repeats.bind (fun _ => repeats_intern _) always fun _ => always_intern _

theorem repeats_internText (text : String) : Repeats (internText text) :=
  repeats_intern _

theorem repeats_internClass (name : String) : Repeats (internClass name) :=
  (repeats_internText name).intern (always_internText name) .className

theorem repeats_internString (text : String) : Repeats (internString text) :=
  (repeats_internText text).intern (always_internText text) .string

theorem repeats_internNameAndType (name descriptor : String) :
    Repeats (internNameAndType name descriptor) :=
  (repeats_internText name).bind
    (fun _ => (repeats_internText descriptor).intern (always_internText descriptor) _)
    (always_internText name) fun _ => (always_internText descriptor).bind fun _ => always_intern _

theorem repeats_internMember (make : UInt16 → UInt16 → Constant) (owner name descriptor : String) :
    Repeats (internMember make owner name descriptor) :=
  have always := always_internNameAndType name descriptor
  (repeats_internClass owner).bind
    (fun _ => (repeats_internNameAndType name descriptor).intern always _)
    (always_internClass owner) fun _ => always.bind fun _ => always_intern _

theorem repeats_run (request : Request) : Repeats request.run := by
  cases request with
  | entry constant => exact repeats_intern constant
  | text value => exact repeats_internText value
  | className name => exact repeats_internClass name
  | string value => exact repeats_internString value
  | integer value => exact repeats_intern _
  | nameAndType name descriptor => exact repeats_internNameAndType name descriptor
  | field owner name descriptor | method owner name descriptor
  | interfaceMethod owner name descriptor => exact repeats_internMember _ owner name descriptor

/-! ### What was asked for -/

/-- What an index means that was given for a request. -/
def Request.MeantBy (pool : Pool) (index : UInt16) : Request → Prop
  | .entry constant => pool.get index = .ok constant
  | .text value => pool.text index = .ok value
  | .className name => pool.className index = .ok name
  | .string value => ∃ text, pool.get index = .ok (.string text) ∧ pool.text text = .ok value
  | .integer value => pool.integer index = .ok value.toUInt32
  | .nameAndType name descriptor => pool.nameAndType index = .ok (name, descriptor)
  | .field owner name descriptor =>
    pool.memberReference index = .ok ⟨owner, name, descriptor⟩ ∧
      ∃ first second, pool.get index = .ok (.field first second)
  | .method owner name descriptor =>
    pool.memberReference index = .ok ⟨owner, name, descriptor⟩ ∧
      ∃ first second, pool.get index = .ok (.method first second)
  | .interfaceMethod owner name descriptor =>
    pool.memberReference index = .ok ⟨owner, name, descriptor⟩ ∧
      ∃ first second, pool.get index = .ok (.interfaceMethod first second)

theorem Request.MeantBy.extends {before after : Pool} {index : UInt16} {request : Request}
    (meant : request.MeantBy before index) (grown : before.Extends after) :
    request.MeantBy after index := by
  cases request with
  | entry constant => exact grown.get meant
  | text value => exact grown.text meant
  | className name => exact grown.className meant
  | string value =>
    obtain ⟨text, got, found⟩ := meant
    exact ⟨text, grown.get got, grown.text found⟩
  | integer value => exact grown.lookup meant
  | nameAndType name descriptor => exact grown.nameAndType meant
  | field owner name descriptor | method owner name descriptor
  | interfaceMethod owner name descriptor =>
    obtain ⟨found, first, second, got⟩ := meant
    exact ⟨grown.memberReference found, first, second, grown.get got⟩

theorem meantBy_of_run {pool after : Pool} (assembled : pool.Assembled) {request : Request}
    {index : UInt16} (ran : request.run pool = (.ok index, after)) :
    request.MeantBy after index := by
  cases request with
  | entry constant => exact get_of_intern assembled ran
  | text value => exact text_of_internText assembled ran
  | className name => exact className_of_internClass assembled ran
  | string value =>
    obtain ⟨text, middle, textInterned, interned⟩ := Stateful.bind_eq_ok_iff.mp ran
    have assembledMiddle := assembled_of_always assembled (always_internText value) textInterned
    have grown := (always_intern (.string text)).relates interned
    exact ⟨text, get_of_intern assembledMiddle interned,
      grown.text (text_of_internText assembled textInterned)⟩
  | integer value =>
    have got := get_of_intern assembled ran
    simp only [Request.MeantBy, integer, lookup, got]
  | nameAndType name descriptor => exact nameAndType_of_internNameAndType assembled ran
  | field owner name descriptor => exact memberReference_of_internMember assembled (.inl rfl) ran
  | method owner name descriptor =>
    exact memberReference_of_internMember assembled (.inr (.inl rfl)) ran
  | interfaceMethod owner name descriptor =>
    exact memberReference_of_internMember assembled (.inr (.inr rfl)) ran

/-- What interning promises of a pool. -/
structure Faithful (pool : Pool) : Prop where
  /-- A constant is found, refused or added. -/
  interned : ∀ constant, pool.Interned constant (intern constant pool)
  /-- Whatever is asked for, an index that was good leads where it led. -/
  kept : ∀ (request : Request) (index : UInt16) (constant : Constant),
    pool.get index = .ok constant → (request.run pool).2.get index = .ok constant
  /-- An index that was given means what was asked for, and goes on to do so. -/
  meant : ∀ (request : Request) (index : UInt16) (after : Pool),
    request.run pool = (.ok index, after) →
      ∀ more, request.MeantBy (askAll more after).2 index
  /-- The same that is asked for again is given the same index, and nothing changes. -/
  again : ∀ (request : Request) (index : UInt16) (after : Pool),
    request.run pool = (.ok index, after) →
      ∀ more, request.run (askAll more after).2 = (.ok index, (askAll more after).2)
  /-- No other constant is given the index of one. -/
  apart : ∀ (constant : Constant) (index : UInt16) (after : Pool),
    intern constant pool = (.ok index, after) →
      ∀ more other, (intern other (askAll more after).2).1 = .ok index → other = constant

theorem Assembled.faithful {pool : Pool} (assembled : pool.Assembled) : pool.Faithful where
  interned := interned_intern assembled
  kept request index constant got := ((always_run request).relates rfl).get got
  meant request index after ran more :=
    (meantBy_of_run assembled ran).extends (extends_askAll more after)
  again request index after ran more :=
    repeats_run request assembled ran (extends_askAll more after)
  apart constant index after interned more other same := by
    have grown := extends_askAll more after
    have assembledAfter := assembled_of_always assembled (always_intern constant) interned
    have otherGot := get_of_intern (grown.assembled assembledAfter) (Prod.ext same rfl)
    have grownLast := (always_intern other).relates (Prod.ext same rfl)
    have got := (grown.trans grownLast).get (get_of_intern assembled interned)
    exact Except.ok.inj (otherGot.symm.trans got)

/-- However a pool was used, it goes on to keep what interning promises. -/
theorem faithful_of_used {pool : Pool} {snapshots : List Snapshot} (used : Used pool snapshots) :
    pool.Faithful := by
  obtain ⟨earlier, -, tracked⟩ := used.exists_tracked
  exact tracked.assembled.faithful

/-- A pool in a file, with a text that is there twice and a class that is named by the second. -/
def bytesOfTwins : Bytes := [0, 4, 1, 0, 1, 65, 1, 0, 1, 65, 7, 0, 2]

/-- The first of the two texts is found, and for a field of the class a second class is added, which
is named by it. -/
theorem faithful_of_used_twins :
    ∃ pool, Pool.read bytesOfTwins = .ok (pool, []) ∧ Used pool [] ∧ pool.Faithful ∧
      (internText "A" pool).1 = .ok 1 ∧ (internField "A" "x" "I" pool).1 = .ok 8 ∧
      (internField "A" "x" "I" pool).2.memberReference 8 = .ok ⟨"A", "x", "I"⟩ := by
  have asked : (Pool.read bytesOfTwins).map (fun found =>
      (found.2, (internText "A" found.1).1, (internField "A" "x" "I" found.1).1)) =
      .ok ([], .ok 1, .ok 8) := by
    decide +kernel
  obtain ⟨⟨pool, rest⟩, read, answers⟩ := Outcome.map_eq_ok_iff.mp asked
  simp only [Prod.mk.injEq] at answers
  obtain ⟨rfl, text, field⟩ := answers
  have faithful := faithful_of_used (Used.read read)
  have meant := faithful.meant (.field "A" "x" "I") 8 _ (Prod.ext field rfl) []
  exact ⟨pool, read, .read read, faithful, text, field, meant.1⟩

end JavaClass.Pool
