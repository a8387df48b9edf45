/-
Descriptions of constants. A description follows the references of a constant, those of the
constants it comes to, and so on, so it is not plain that it ends. In a pool that was read it ends
unless a method handle leads back to itself: a reference leads to a constant of lesser rank, texts
and numbers being the least, and only a method handle may refer to a constant of any kind. So what
goes around in a circle are method handles alone. Without such a circle the number of constants that
can be reached gets less with every reference, and it is at most the number of slots; the bound on
the depth of a description is then never felt.

What comes out is the constant with every reference followed, shown as a whole. Its texts are kept
as bytes, since a pool may hold some that cannot be decoded.
-/

import JavaClass.Pool.Description
import JavaClass.Proofs.Pool.Soundness
import Mathlib.Data.FinEnum
import Mathlib.Logic.Relation

namespace JavaClass

/-! ### References -/

/-- What is shown for a constant depends on what is shown for those it refers to. -/
theorem Constant.describeBy_congr {follow other : UInt16 → String} {constant : Constant}
    (agree : ∀ reference ∈ constant.references, follow reference = other reference) :
    constant.describeBy follow = constant.describeBy other := by
  cases constant with
  | className | string | methodType | module | package | methodHandle | dynamic | invokeDynamic =>
    simp only [describeBy, List.forall_mem_singleton.mp agree]
  | field | method | interfaceMethod | nameAndType =>
    obtain ⟨first, later⟩ := List.forall_mem_cons.mp agree
    simp only [describeBy, first, List.forall_mem_singleton.mp later]
  | utf8 | integer | float | long | double | reserved => rfl

/-- How far a constant is from the texts and numbers, for constants other than method handles. These
come last, since they may refer to any. -/
def Constant.rank : Constant → Nat
  | .utf8 _ | .integer _ | .float _ | .long _ | .double _ | .reserved => 0
  | .className _ | .string _ | .nameAndType .. | .methodType _ | .module _ | .package _ => 1
  | .field .. | .method .. | .interfaceMethod .. | .dynamic .. | .invokeDynamic .. => 2
  | .methodHandle .. => 3

theorem Constant.rank_le (constant : Constant) : constant.rank ≤ 3 := by
  cases constant <;> simp [rank]

namespace Pool

/-- Whether what is at an index refers to another index. -/
def RefersTo (pool : Pool) (index next : UInt16) : Prop :=
  ∃ constant, pool.get index = .ok constant ∧ next ∈ constant.references

/-- Whether what is at an index is a method handle for another index. -/
def Handles (pool : Pool) (index next : UInt16) : Prop :=
  ∃ use, pool.get index = .ok (.methodHandle use next)

/-- Whether no method handle leads back to itself through method handles. -/
def HandlesEnd (pool : Pool) : Prop := ∀ index, ¬Relation.TransGen pool.Handles index index

/-- What is shown at an index depends on what is shown where it refers to. -/
theorem describeBy_congr {pool : Pool} {follow other : UInt16 → String} {index : UInt16}
    (agree : ∀ next, pool.RefersTo index next → follow next = other next) :
    pool.describeBy follow index = pool.describeBy other index := by
  unfold describeBy
  cases got : pool.get index with
  | error error => rfl
  | ok constant =>
    exact Constant.describeBy_congr fun reference member => agree reference ⟨constant, got, member⟩

/-! ### Where references lead -/

/-- References that were checked lead to constants of lesser rank, those of a method handle
apart. -/
theorem exists_get_of_checkConstant {pool : Pool} {constant : Constant}
    (checked : pool.checkConstant constant = .ok ()) {reference : UInt16}
    (refers : reference ∈ constant.references) :
    ∃ found, pool.get reference = .ok found ∧
      (found.rank < constant.rank ∨ ∃ use, constant = .methodHandle use reference) := by
  cases constant with
  | className | string | methodType | module | package =>
    obtain rfl := List.mem_singleton.mp refers
    obtain ⟨bytes, found⟩ := Outcome.discard_eq_ok_iff.mp checked
    exact ⟨_, utf8_eq_ok_iff.mp found, .inl Nat.zero_lt_one⟩
  | nameAndType =>
    simp only [checkConstant, Outcome.bind_eq_ok_iff, Outcome.discard_eq_ok_iff] at checked
    obtain ⟨_, ⟨_, name⟩, _, descriptor⟩ := checked
    obtain rfl | rfl := List.mem_pair.mp refers
    · exact ⟨_, utf8_eq_ok_iff.mp name, .inl Nat.zero_lt_one⟩
    · exact ⟨_, utf8_eq_ok_iff.mp descriptor, .inl Nat.zero_lt_one⟩
  | field | method | interfaceMethod =>
    simp only [checkConstant, Outcome.bind_eq_ok_iff, Outcome.discard_eq_ok_iff] at checked
    obtain ⟨_, ⟨_, owner⟩, _, pair⟩ := checked
    obtain rfl | rfl := List.mem_pair.mp refers
    · exact ⟨_, classEntry_eq_ok_iff.mp owner, .inl Nat.one_lt_two⟩
    · exact ⟨_, nameAndTypeEntry_eq_ok_iff.mp pair, .inl Nat.one_lt_two⟩
  | dynamic | invokeDynamic =>
    obtain rfl := List.mem_singleton.mp refers
    obtain ⟨_, pair⟩ := Outcome.discard_eq_ok_iff.mp checked
    exact ⟨_, nameAndTypeEntry_eq_ok_iff.mp pair, .inl Nat.one_lt_two⟩
  | methodHandle use =>
    obtain rfl := List.mem_singleton.mp refers
    obtain ⟨found, got⟩ := Outcome.discard_eq_ok_iff.mp checked
    exact ⟨found, got, .inr ⟨use, rfl⟩⟩
  | utf8 | integer | float | long | double | reserved => cases refers

/-- The rank of what is at an index. -/
def rankAt (pool : Pool) (index : UInt16) : Nat :=
  match pool.get index with
  | .error _ => 0
  | .ok constant => constant.rank

theorem rankAt_of_get {pool : Pool} {index : UInt16} {constant : Constant}
    (got : pool.get index = .ok constant) : pool.rankAt index = constant.rank := by
  rw [rankAt, got]

theorem rankAt_le (pool : Pool) (index : UInt16) : pool.rankAt index ≤ 3 := by
  cases got : pool.get index with
  | error error => rw [rankAt, got]; exact Nat.zero_le 3
  | ok constant => exact (rankAt_of_get got).trans_le constant.rank_le

theorem rankAt_of_handles {pool : Pool} {index next : UInt16} (handles : pool.Handles index next) :
    pool.rankAt index = 3 := by
  obtain ⟨use, got⟩ := handles
  exact rankAt_of_get got

section checked

variable {pool : Pool} (references : pool.checkReferences = .ok ()) {index next : UInt16}

include references

/-- One reference leads to a constant, and down in rank unless it is that of a method handle. -/
theorem exists_get_of_refersTo (refers : pool.RefersTo index next) :
    (∃ found, pool.get next = .ok found) ∧
      (pool.rankAt next < pool.rankAt index ∨ pool.Handles index next) := by
  obtain ⟨constant, got, member⟩ := refers
  have checked := checkConstant_of_get references got
  obtain ⟨found, gotNext, less⟩ := exists_get_of_checkConstant checked member
  refine ⟨⟨found, gotNext⟩, ?_⟩
  rw [rankAt_of_get got, rankAt_of_get gotNext]
  refine less.imp_right ?_
  rintro ⟨use, rfl⟩
  exact ⟨use, got⟩

/-- Going from reference to reference leads down in rank or along method handles only. A handle has
the greatest rank, so nothing leads up to one. -/
theorem lt_or_transGen_handles (leads : Relation.TransGen pool.RefersTo index next) :
    pool.rankAt next < pool.rankAt index ∨ Relation.TransGen pool.Handles index next := by
  induction leads with
  | single refers =>
    exact (exists_get_of_refersTo references refers).2.imp_right .single
  | @tail middle last leads refers inductionHypothesis =>
    obtain less | handles := (exists_get_of_refersTo references refers).2
    · obtain lessBefore | handlesBefore := inductionHypothesis
      · exact .inl (less.trans lessBefore)
      · obtain ⟨_, first, -⟩ := Relation.TransGen.head'_iff.mp handlesBefore
        rw [rankAt_of_handles first]
        exact .inl (less.trans_le (rankAt_le pool middle))
    · have greatest := rankAt_of_handles handles
      obtain lessBefore | handlesBefore := inductionHypothesis
      · have bound := rankAt_le pool index
        omega
      · exact .inr (handlesBefore.tail handles)

/-- What leads back to itself is a method handle and does so through method handles. -/
theorem not_transGen_refersTo (handlesEnd : pool.HandlesEnd) :
    ¬Relation.TransGen pool.RefersTo index index := by
  intro leads
  obtain less | handles := lt_or_transGen_handles references leads
  · exact Nat.lt_irrefl _ less
  · exact handlesEnd index handles

theorem exists_get_of_transGen (leads : Relation.TransGen pool.RefersTo index next) :
    ∃ found, pool.get next = .ok found := by
  obtain ⟨_, -, refers⟩ := Relation.TransGen.tail'_iff.mp leads
  exact (exists_get_of_refersTo references refers).1

end checked

/-! ### The end of references -/

open Classical in
/-- The indices that references lead to from an index. -/
noncomputable def reached (pool : Pool) (index : UInt16) : Finset UInt16 :=
  Finset.univ.filter fun next => Relation.TransGen pool.RefersTo index next

theorem mem_reached_iff {pool : Pool} {index next : UInt16} :
    next ∈ pool.reached index ↔ Relation.TransGen pool.RefersTo index next := by
  simp [reached]

section ending

variable {pool : Pool} (references : pool.checkReferences = .ok ())

include references

theorem card_reached_le (index : UInt16) : (pool.reached index).card ≤ pool.size := by
  have inside : Set.MapsTo UInt16.toNat (pool.reached index) (Finset.range pool.size) := by
    intro next member
    obtain ⟨found, got⟩ := exists_get_of_transGen references (mem_reached_iff.mp member)
    exact Finset.mem_coe.mpr (Finset.mem_range.mpr (lt_size_of_get got))
  rw [← Finset.card_range pool.size]
  exact Finset.card_le_card_of_injOn UInt16.toNat inside
    fun _ _ _ _ same => UInt16.toNat_inj.mp same

variable (handlesEnd : pool.HandlesEnd)

include handlesEnd

/-- Less can be reached from what a constant refers to: it is not reached from there itself. -/
theorem card_reached_lt {index next : UInt16} (refers : pool.RefersTo index next) :
    (pool.reached next).card < (pool.reached index).card := by
  refine Finset.card_lt_card
    (Finset.ssubset_iff_subset_ne.mpr ⟨fun last member => ?_, fun same => ?_⟩)
  · exact mem_reached_iff.mpr (.head refers (mem_reached_iff.mp member))
  · have member : next ∈ pool.reached index := mem_reached_iff.mpr (.single refers)
    rw [← same] at member
    exact not_transGen_refersTo references handlesEnd (mem_reached_iff.mp member)

theorem wellFounded_refersTo : WellFounded fun next index => pool.RefersTo index next :=
  Subrelation.wf (card_reached_lt references handlesEnd)
    (measure fun index => (pool.reached index).card).wf

/-- With a depth above the number of constants that can be reached, one more makes no difference. -/
theorem describeWithin_eq {depth other : Nat} {index : UInt16}
    (enough : (pool.reached index).card < depth) (enoughOther : (pool.reached index).card < other) :
    pool.describeWithin depth index = pool.describeWithin other index := by
  induction depth generalizing other index with
  | zero => exact absurd enough (Nat.not_lt_zero _)
  | succ depth inductionHypothesis =>
    obtain ⟨other, rfl⟩ := Nat.exists_eq_succ_of_ne_zero (Nat.ne_zero_of_lt enoughOther)
    refine describeBy_congr fun next refers => ?_
    have less := card_reached_lt references handlesEnd refers
    exact inductionHypothesis (by omega) (by omega)

/-- Descriptions obey the recursion that sets no bound. -/
theorem describe_eq_describeBy : pool.describe = pool.describeBy pool.describe := by
  funext index
  refine describeBy_congr fun next refers => ?_
  have less := card_reached_lt references handlesEnd refers
  have bound := card_reached_le references index
  exact describeWithin_eq references handlesEnd (by omega) (by omega)

/-- There is nothing else that obeys it. -/
theorem eq_describe_of_eq_describeBy {follow : UInt16 → String}
    (unrolls : follow = pool.describeBy follow) : follow = pool.describe := by
  funext index
  induction index using (wellFounded_refersTo references handlesEnd).induction with
  | _ index inductionHypothesis =>
    rw [unrolls, describe_eq_describeBy references handlesEnd]
    exact describeBy_congr inductionHypothesis

end ending

end Pool

/-! ### Constants in full -/

/-- A constant with every reference followed, down to texts and numbers. -/
inductive ResolvedConstant
  | utf8 (bytes : Bytes)
  | integer (bits : UInt32)
  | float (bits : UInt32)
  | long (bits : UInt64)
  | double (bits : UInt64)
  | className (name : Bytes)
  | string (text : Bytes)
  | field (owner name descriptor : Bytes)
  | method (owner name descriptor : Bytes)
  | interfaceMethod (owner name descriptor : Bytes)
  | nameAndType (name descriptor : Bytes)
  | methodHandle (use : UInt8) (target : ResolvedConstant)
  | methodType (descriptor : Bytes)
  | dynamic (bootstrap : UInt16) (name descriptor : Bytes)
  | invokeDynamic (bootstrap : UInt16) (name descriptor : Bytes)
  | module (name : Bytes)
  | package (name : Bytes)
  deriving DecidableEq, Repr

namespace ResolvedConstant

/-- A text as it is shown. -/
abbrev shown (bytes : Bytes) : String := Text.ModifiedUtf8.decodeLossy bytes

/-- A name and a descriptor as they are shown. -/
def shownPair (name descriptor : Bytes) : String := shown name ++ ":" ++ shown descriptor

/-- The constant as listings show it. -/
def render : ResolvedConstant → String
  | .utf8 bytes => shown bytes
  | .integer bits => toString bits.toInt32.toInt
  | .float bits => Text.Decimal.single.render bits.toNat ++ "f"
  | .long bits => toString bits.toInt64.toInt ++ "L"
  | .double bits => Text.Decimal.double.render bits.toNat ++ "d"
  | .string text => "\"" ++ shown text ++ "\""
  | .className name | .methodType name | .module name | .package name => shown name
  | .field owner name descriptor | .method owner name descriptor
  | .interfaceMethod owner name descriptor => shown owner ++ "." ++ shownPair name descriptor
  | .nameAndType name descriptor => shownPair name descriptor
  | .methodHandle use target => s!"kind {use.toNat} " ++ target.render
  | .dynamic bootstrap name descriptor | .invokeDynamic bootstrap name descriptor =>
    s!"bootstrap {bootstrap.toNat} " ++ shownPair name descriptor

end ResolvedConstant

namespace Pool

/-- Whether there is a class of a name at an index. -/
def HoldsClassNamed (pool : Pool) (index : UInt16) (name : Bytes) : Prop :=
  ∃ text, pool.classEntry index = .ok text ∧ pool.utf8 text = .ok name

/-- Whether there is a certain name and type at an index. -/
def HoldsPair (pool : Pool) (index : UInt16) (name descriptor : Bytes) : Prop :=
  ∃ first second, pool.nameAndTypeEntry index = .ok (first, second) ∧
    pool.utf8 first = .ok name ∧ pool.utf8 second = .ok descriptor

/-- Which constant comes of one that stands in a pool when every reference is followed. -/
inductive Resolves (pool : Pool) : Constant → ResolvedConstant → Prop
  | utf8 (bytes : Bytes) : Resolves pool (.utf8 bytes) (.utf8 bytes)
  | integer (bits : UInt32) : Resolves pool (.integer bits) (.integer bits)
  | float (bits : UInt32) : Resolves pool (.float bits) (.float bits)
  | long (bits : UInt64) : Resolves pool (.long bits) (.long bits)
  | double (bits : UInt64) : Resolves pool (.double bits) (.double bits)
  | className {index : UInt16} {name : Bytes} (named : pool.utf8 index = .ok name) :
      Resolves pool (.className index) (.className name)
  | string {index : UInt16} {text : Bytes} (found : pool.utf8 index = .ok text) :
      Resolves pool (.string index) (.string text)
  | field {owner pair : UInt16} {ownerName name descriptor : Bytes}
      (owned : pool.HoldsClassNamed owner ownerName)
      (called : pool.HoldsPair pair name descriptor) :
      Resolves pool (.field owner pair) (.field ownerName name descriptor)
  | method {owner pair : UInt16} {ownerName name descriptor : Bytes}
      (owned : pool.HoldsClassNamed owner ownerName)
      (called : pool.HoldsPair pair name descriptor) :
      Resolves pool (.method owner pair) (.method ownerName name descriptor)
  | interfaceMethod {owner pair : UInt16} {ownerName name descriptor : Bytes}
      (owned : pool.HoldsClassNamed owner ownerName)
      (called : pool.HoldsPair pair name descriptor) :
      Resolves pool (.interfaceMethod owner pair) (.interfaceMethod ownerName name descriptor)
  | nameAndType {first second : UInt16} {name descriptor : Bytes}
      (named : pool.utf8 first = .ok name) (described : pool.utf8 second = .ok descriptor) :
      Resolves pool (.nameAndType first second) (.nameAndType name descriptor)
  | methodHandle {use : UInt8} {reference : UInt16} {held : Constant} {target : ResolvedConstant}
      (got : pool.get reference = .ok held) (resolves : Resolves pool held target) :
      Resolves pool (.methodHandle use reference) (.methodHandle use target)
  | methodType {index : UInt16} {descriptor : Bytes}
      (described : pool.utf8 index = .ok descriptor) :
      Resolves pool (.methodType index) (.methodType descriptor)
  | dynamic {bootstrap pair : UInt16} {name descriptor : Bytes}
      (called : pool.HoldsPair pair name descriptor) :
      Resolves pool (.dynamic bootstrap pair) (.dynamic bootstrap name descriptor)
  | invokeDynamic {bootstrap pair : UInt16} {name descriptor : Bytes}
      (called : pool.HoldsPair pair name descriptor) :
      Resolves pool (.invokeDynamic bootstrap pair) (.invokeDynamic bootstrap name descriptor)
  | module {index : UInt16} {name : Bytes} (named : pool.utf8 index = .ok name) :
      Resolves pool (.module index) (.module name)
  | package {index : UInt16} {name : Bytes} (named : pool.utf8 index = .ok name) :
      Resolves pool (.package index) (.package name)

section resolving

variable {pool : Pool} {index : UInt16}

theorem HoldsClassNamed.unique {first second : Bytes} (here : pool.HoldsClassNamed index first)
    (there : pool.HoldsClassNamed index second) : first = second := by
  obtain ⟨text, entry, named⟩ := here
  obtain ⟨other, otherEntry, otherNamed⟩ := there
  obtain rfl := Except.ok.inj (entry.symm.trans otherEntry)
  exact Except.ok.inj (named.symm.trans otherNamed)

theorem HoldsPair.unique {name otherName descriptor otherDescriptor : Bytes}
    (here : pool.HoldsPair index name descriptor)
    (there : pool.HoldsPair index otherName otherDescriptor) :
    name = otherName ∧ descriptor = otherDescriptor := by
  obtain ⟨first, second, entry, named, described⟩ := here
  obtain ⟨other, last, otherEntry, otherNamed, otherDescribed⟩ := there
  obtain ⟨rfl, rfl⟩ := Prod.mk.inj (Except.ok.inj (entry.symm.trans otherEntry))
  exact ⟨Except.ok.inj (named.symm.trans otherNamed),
    Except.ok.inj (described.symm.trans otherDescribed)⟩

/-- There is only one constant that comes of it. -/
theorem Resolves.unique {constant : Constant} {resolved other : ResolvedConstant}
    (here : pool.Resolves constant resolved) (there : pool.Resolves constant other) :
    resolved = other := by
  induction here generalizing other with
  | utf8 | integer | float | long | double =>
    cases there
    rfl
  | className named | string named | methodType named | module named | package named =>
    cases there
    simp_all
  | nameAndType named described =>
    cases there
    simp_all
  | field owned called | method owned called | interfaceMethod owned called =>
    cases there
    grind [HoldsClassNamed.unique, HoldsPair.unique]
  | dynamic called | invokeDynamic called =>
    cases there
    grind [HoldsPair.unique]
  | methodHandle got _ inductionHypothesis =>
    cases there with
    | methodHandle otherGot resolves =>
      obtain rfl := Except.ok.inj (got.symm.trans otherGot)
      rw [inductionHypothesis resolves]

theorem describe_of_utf8 {bytes : Bytes} (found : pool.utf8 index = .ok bytes) :
    pool.describe index = Text.ModifiedUtf8.decodeLossy bytes := by
  show pool.describeBy _ index = _
  rw [describeBy, utf8_eq_ok_iff.mp found]
  rfl

section unrolling

variable (unrolls : pool.describe = pool.describeBy pool.describe)

include unrolls

theorem describe_of_get {constant : Constant} (got : pool.get index = .ok constant) :
    pool.describe index = constant.describeBy pool.describe := by
  rw [unrolls, describeBy, got, ← unrolls]

theorem HoldsClassNamed.describe_eq {name : Bytes} (holds : pool.HoldsClassNamed index name) :
    pool.describe index = ResolvedConstant.shown name := by
  obtain ⟨text, entry, named⟩ := holds
  rw [describe_of_get unrolls (classEntry_eq_ok_iff.mp entry)]
  exact describe_of_utf8 named

theorem HoldsPair.describe_eq {name descriptor : Bytes}
    (holds : pool.HoldsPair index name descriptor) :
    pool.describe index = ResolvedConstant.shownPair name descriptor := by
  obtain ⟨first, second, entry, named, described⟩ := holds
  rw [describe_of_get unrolls (nameAndTypeEntry_eq_ok_iff.mp entry), Constant.describeBy,
    describe_of_utf8 named, describe_of_utf8 described]
  rfl

/-- What is shown for a constant is the constant in full. -/
theorem Resolves.describeBy_eq {constant : Constant} {resolved : ResolvedConstant}
    (resolves : pool.Resolves constant resolved) :
    constant.describeBy pool.describe = resolved.render := by
  induction resolves with
  | utf8 | integer | float | long | double => rfl
  | className found | string found | methodType found | module found | package found =>
    rw [Constant.describeBy, describe_of_utf8 found]
    rfl
  | field owned called | method owned called | interfaceMethod owned called =>
    rw [Constant.describeBy, owned.describe_eq unrolls, called.describe_eq unrolls]
    rfl
  | nameAndType named described =>
    rw [Constant.describeBy, describe_of_utf8 named, describe_of_utf8 described]
    rfl
  | methodHandle got _ inductionHypothesis =>
    rw [Constant.describeBy, describe_of_get unrolls got, inductionHypothesis]
    rfl
  | dynamic called | invokeDynamic called =>
    rw [Constant.describeBy, called.describe_eq unrolls]
    rfl

end unrolling

section resolvable

variable (references : pool.checkReferences = .ok ())

include references

theorem exists_holdsClassNamed {text : UInt16} (entry : pool.classEntry index = .ok text) :
    ∃ name, pool.HoldsClassNamed index name := by
  obtain ⟨name, named⟩ := exists_utf8_of_classEntry references entry
  exact ⟨name, text, entry, named⟩

theorem exists_holdsPair {entries : UInt16 × UInt16}
    (entry : pool.nameAndTypeEntry index = .ok entries) :
    ∃ name descriptor, pool.HoldsPair index name descriptor := by
  obtain ⟨first, second⟩ := entries
  have checked := checkConstant_of_get references (nameAndTypeEntry_eq_ok_iff.mp entry)
  simp only [checkConstant, Outcome.bind_eq_ok_iff, Outcome.discard_eq_ok_iff] at checked
  obtain ⟨_, ⟨name, named⟩, descriptor, described⟩ := checked
  exact ⟨name, descriptor, first, second, entry, named, described⟩

/-- A constant can be resolved if those can that it refers to; of these only the target of a method
handle is not resolved already. -/
theorem exists_resolves_of_targets {constant : Constant} (got : pool.get index = .ok constant)
    (targets : ∀ next, pool.RefersTo index next → ∀ held, pool.get next = .ok held →
      ∃ resolved, pool.Resolves held resolved) :
    ∃ resolved, pool.Resolves constant resolved := by
  have checked := checkConstant_of_get references got
  cases constant with
  | utf8 | integer | float | long | double => exact ⟨_, by constructor⟩
  | reserved => exact absurd rfl (get_eq_ok_iff.mp got).1
  | className | string | methodType | module | package =>
    obtain ⟨bytes, found⟩ := Outcome.discard_eq_ok_iff.mp checked
    exact ⟨_, by constructor; exact found⟩
  | nameAndType =>
    simp only [checkConstant, Outcome.bind_eq_ok_iff, Outcome.discard_eq_ok_iff] at checked
    obtain ⟨_, ⟨name, named⟩, descriptor, described⟩ := checked
    exact ⟨_, .nameAndType named described⟩
  | field | method | interfaceMethod =>
    simp only [checkConstant, Outcome.bind_eq_ok_iff, Outcome.discard_eq_ok_iff] at checked
    obtain ⟨_, ⟨text, entry⟩, entries, pair⟩ := checked
    obtain ⟨ownerName, owned⟩ := exists_holdsClassNamed references entry
    obtain ⟨name, descriptor, called⟩ := exists_holdsPair references pair
    exact ⟨_, by constructor; exacts [owned, called]⟩
  | dynamic | invokeDynamic =>
    obtain ⟨entries, pair⟩ := Outcome.discard_eq_ok_iff.mp checked
    obtain ⟨name, descriptor, called⟩ := exists_holdsPair references pair
    exact ⟨_, by constructor; exact called⟩
  | methodHandle use reference =>
    obtain ⟨held, gotTarget⟩ := Outcome.discard_eq_ok_iff.mp checked
    obtain ⟨target, resolves⟩ :=
      targets reference ⟨_, got, List.mem_singleton_self reference⟩ held gotTarget
    exact ⟨_, .methodHandle gotTarget resolves⟩

theorem exists_resolves (handlesEnd : pool.HandlesEnd) {constant : Constant}
    (got : pool.get index = .ok constant) : ∃ resolved, pool.Resolves constant resolved := by
  induction index using (wellFounded_refersTo references handlesEnd).induction
    generalizing constant with
  | _ index inductionHypothesis =>
    exact exists_resolves_of_targets references got fun next refers held gotNext =>
      inductionHypothesis next refers gotNext

end resolvable

end resolving

/-! ### Pools that were read -/

/-- What it means that the descriptions of a pool end and leave nothing open. -/
structure DescribesInFull (pool : Pool) : Prop where
  /-- References do not go on for ever. -/
  ends : WellFounded fun next index => pool.RefersTo index next
  /-- Descriptions are what is shown if references are followed however far they go. -/
  unrolls : ∀ follow, follow = pool.describeBy follow ↔ follow = pool.describe
  /-- They are not cut off by the depth they are given. -/
  enough : ∀ depth, pool.size < depth → pool.describeWithin depth = pool.describe
  /-- No reference that is followed from a constant leads where there is none. -/
  leads : ∀ {index next constant}, pool.get index = .ok constant →
    Relation.ReflTransGen pool.RefersTo index next → ∃ found, pool.get next = .ok found
  /-- A constant is shown in full. -/
  shows : ∀ {index constant}, pool.get index = .ok constant →
    ∃ resolved, (∀ other, pool.Resolves constant other ↔ other = resolved) ∧
      pool.describe index = resolved.render

theorem describesInFull_of_handlesEnd {pool : Pool} (references : pool.checkReferences = .ok ())
    (handlesEnd : pool.HandlesEnd) : pool.DescribesInFull where
  ends := wellFounded_refersTo references handlesEnd
  unrolls follow := by
    constructor
    · exact eq_describe_of_eq_describeBy references handlesEnd
    · rintro rfl
      exact describe_eq_describeBy references handlesEnd
  enough depth above := by
    funext index
    have bound := card_reached_le references index
    exact describeWithin_eq references handlesEnd (by omega) (by omega)
  leads {index next constant} got path := by
    obtain rfl | leads := Relation.reflTransGen_iff_eq_or_transGen.mp path
    · exact ⟨constant, got⟩
    · exact exists_get_of_transGen references leads
  shows {index constant} got := by
    obtain ⟨resolved, resolves⟩ := exists_resolves references handlesEnd got
    have unrolls := describe_eq_describeBy references handlesEnd
    refine ⟨resolved, fun other => ⟨fun there => there.unique resolves, ?_⟩, ?_⟩
    · rintro rfl
      exact resolves
    · rw [describe_of_get unrolls got, resolves.describeBy_eq unrolls]

/-- A method handle that leads back to itself gives references that go on for ever. -/
theorem DescribesInFull.handlesEnd {pool : Pool} (inFull : pool.DescribesInFull) :
    pool.HandlesEnd := by
  intro index circle
  have refers : ∀ first next, pool.Handles first next → pool.RefersTo first next :=
    fun first next ⟨use, got⟩ => ⟨_, got, List.mem_singleton_self next⟩
  have back := Relation.transGen_swap.mpr (Relation.TransGen.mono refers _ _ circle)
  exact inFull.ends.transGen.asymmetric index index back back

/-- In a pool that was read every description ends, and shows the constant with all references
followed, unless a method handle leads back to itself through method handles. -/
theorem describesInFull_iff_of_read {bytes rest : Bytes} {pool : Pool}
    (read : Pool.read bytes = .ok (pool, rest)) : pool.DescribesInFull ↔ pool.HandlesEnd := by
  have proper := ((read_inverts _ _ _ _ (Nat.le_refl _)).mp read).1
  exact ⟨DescribesInFull.handlesEnd, describesInFull_of_handlesEnd proper.2⟩

/-- Where constants refer to what stands before them only, no method handle leads back to itself. -/
theorem handlesEnd_of_descending {pool : Pool}
    (descending : ∀ slot ∈ pool.slots.toList.zipIdx, ∀ reference ∈ slot.1.references,
      reference.toNat < slot.2) : pool.HandlesEnd := by
  have less {index next : UInt16} (leads : Relation.TransGen pool.Handles index next) :
      next.toNat < index.toNat := by
    induction leads using Relation.TransGen.trans_induction_on with
    | @single index next handles =>
      obtain ⟨use, got⟩ := handles
      obtain ⟨-, slot⟩ := get_eq_ok_iff.mp got
      have member : (Constant.methodHandle use next, index.toNat) ∈ pool.slots.toList.zipIdx :=
        List.mem_zipIdx_iff_getElem?.mpr (Array.getElem?_toList.trans slot)
      exact descending _ member next (List.mem_singleton_self next)
    | trans _ _ first later => exact later.trans first
  exact fun index circle => Nat.lt_irrefl _ (less circle)

/-- A pool in a file, with a method, a method handle for it, another one for that, a constant that
takes two slots and a call that is computed. -/
def bytesOfHandles : Bytes :=
  [0, 12, 1, 0, 1, 65, 7, 0, 1, 1, 0, 1, 109, 1, 0, 3, 40, 41, 86, 12, 0, 3, 0, 4, 10, 0, 2, 0, 5,
    15, 6, 0, 6, 15, 5, 0, 7, 5, 0, 0, 0, 0, 0, 0, 0, 7, 18, 0, 9, 0, 5]

/-- The outer handle is shown with the inner one and the method in full. -/
theorem describesInFull_iff_of_read_handles :
    ∃ pool, Pool.read bytesOfHandles = .ok (pool, []) ∧ pool.HandlesEnd ∧ pool.DescribesInFull ∧
      pool.get 8 = .ok (.methodHandle 5 7) ∧ pool.describe 8 = "kind 5 kind 6 A.m:()V" := by
  have computed : (Pool.read bytesOfHandles).map (fun found =>
      decide (found.2 = [] ∧
        (found.1.slots.toList.zipIdx.all fun slot =>
          slot.1.references.all fun reference => reference.toNat < slot.2) ∧
        found.1.get 8 = .ok (.methodHandle 5 7) ∧
        found.1.describe 8 = "kind 5 kind 6 A.m:()V")) = .ok true := by
    decide +kernel
  obtain ⟨⟨pool, rest⟩, read, answers⟩ := Outcome.map_eq_ok_iff.mp computed
  obtain ⟨rfl, descending, got, described⟩ := of_decide_eq_true answers
  simp only [List.all_eq_true, decide_eq_true_eq] at descending
  have handlesEnd := handlesEnd_of_descending descending
  exact ⟨pool, read, handlesEnd, (describesInFull_iff_of_read read).mpr handlesEnd, got, described⟩

end Pool

end JavaClass
