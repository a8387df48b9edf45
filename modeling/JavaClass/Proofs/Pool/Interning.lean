/-
What interning gives. In a pool that was assembled, the table of first slots is right: an index it
has for some bytes is that of a constant that is written as these bytes, and constants that can be
stored are told apart by the bytes they are written as. So an index that comes out of interning is
that of the constant that was asked for, whether it was there before or is new, and the texts,
classes and members that were interned are found again at their indices.
-/

import JavaClass.Proofs.Pool.Growth
import JavaClass.Proofs.Pool.Spelling

namespace JavaClass

/-! ### Constants and their bytes -/

namespace Constant

theorem write_ne_nil {constant : Constant} (storable : constant.Storable) :
    constant.write ≠ [] := by
  obtain ⟨tag, tagged⟩ := tag_of_storable storable
  rw [write, tagged]
  exact List.cons_ne_nil _ _

/-- A constant that is written like one that can be stored can be stored. -/
theorem storable_of_write_eq {stored constant : Constant} (storable : stored.Storable)
    (same : stored.write = constant.write) : constant.Storable := by
  cases constant with
  | reserved => exact write_ne_nil storable same
  | utf8 bytes =>
    cases stored with
    | utf8 held =>
      have lengths := congrArg List.length same
      simp only [write, kind, ConstantKind.tag?, contents, List.length_cons, List.length_append,
        BigEndian.length_word16] at lengths
      show bytes.length ≤ Pool.longestText
      have short : held.length ≤ Pool.longestText := storable
      omega
    | reserved => exact storable.elim
    | _ =>
      obtain ⟨tags, -⟩ := List.cons.inj same
      cases tags
  | _ => trivial

/-- Constants that can be stored are told apart by their bytes. -/
theorem eq_of_write_eq {first second : Constant} (storable : first.Storable)
    (same : first.write = second.write) : first = second := by
  have other := storable_of_write_eq storable same
  have readFirst := (read_inverts (first.write ++ []).length (first.write ++ []) first []
    (Nat.le_refl _)).mpr ⟨storable, rfl⟩
  have readSecond := (read_inverts (second.write ++ []).length (second.write ++ []) second []
    (Nat.le_refl _)).mpr ⟨other, rfl⟩
  rw [same, readSecond] at readFirst
  exact (Prod.mk.inj (Except.ok.inj readFirst)).1.symm

end Constant

namespace Pool

/-! ### The table of first slots -/

theorem getElem?_slots_add_size (pool : Pool) (constant : Constant) :
    (pool.add constant).slots[pool.size]? = some constant := by
  have size : pool.size = pool.slots.toList.length := Array.length_toList.symm
  rw [← Array.getElem?_toList, slots_add, size, List.getElem?_append_right (Nat.le_refl _),
    Nat.sub_self]
  rfl

/-- The index of a slot that is about to be added. -/
theorem toNat_ofNat_size {pool : Pool} {constant : Constant}
    (countable : (pool.add constant).size ≤ mostSlots) :
    (UInt16.ofNat pool.size).toNat = pool.size := by
  have below : pool.size < 2 ^ 16 := by
    rw [size_add] at countable
    exact Nat.lt_succ_of_le (Nat.le_trans (Nat.le_add_right _ _) countable)
  rw [UInt16.toNat_ofNat', Nat.mod_eq_of_lt below]

/-- What is entered in the table stands where the table says. -/
theorem exists_of_entered {pool : Pool} (assembled : pool.Assembled) {bytes : Bytes}
    {index : UInt16} (entered : pool.firstSlots[bytes]? = some index) :
    ∃ constant, pool.slots[index.toNat]? = some constant ∧ constant.Storable ∧
      constant.write = bytes := by
  induction assembled using Assembled.induction with
  | empty _ =>
    have none : Pool.empty.firstSlots[bytes]? = none := Std.ExtTreeMap.getElem?_empty
    rw [none] at entered
    cases entered
  | add pool constant storable countable _ _ inductionHypothesis =>
    rw [firstSlots_add, Std.ExtTreeMap.getElem?_insertIfNew] at entered
    split at entered
    · rename_i here
      rw [← Option.some.inj entered, toNat_ofNat_size countable]
      exact ⟨constant, getElem?_slots_add_size _ _, storable,
        Std.compare_eq_iff_eq.mp here.1⟩
    · obtain ⟨held, slot, heldStorable, written⟩ := inductionHypothesis entered
      have grown : pool.Extends (pool.add constant) :=
        extends_add (refusal?_eq_none_iff.mpr ⟨storable, countable⟩)
      exact ⟨held, grown.getElem?_slots slot, heldStorable, written⟩

theorem get_eq_ok_of_slot {pool : Pool} {index : UInt16} {constant : Constant}
    (slot : pool.slots[index.toNat]? = some constant) (storable : constant.Storable) :
    pool.get index = .ok constant := by
  refine get_eq_ok_iff.mpr ⟨?_, slot⟩
  rintro rfl
  exact storable

/-- A constant that the table knows is held where it says, and can be stored. -/
theorem get_of_find? {pool : Pool} (assembled : pool.Assembled) {constant : Constant}
    {index : UInt16} (found : pool.find? constant = some index) :
    pool.get index = .ok constant ∧ constant.Storable := by
  obtain ⟨held, slot, storable, same⟩ := exists_of_entered assembled found
  obtain rfl := Constant.eq_of_write_eq storable same
  exact ⟨get_eq_ok_of_slot slot storable, storable⟩

/-- A constant that is none of those added is not known to the table. -/
theorem find?_addAll_eq_none {constants : List Constant} {wanted : Constant}
    (storable : ∀ constant ∈ constants, constant.Storable) (absent : wanted ∉ constants)
    {pool : Pool} (unknown : pool.find? wanted = none) :
    (pool.addAll constants).find? wanted = none := by
  induction constants generalizing pool with
  | nil => exact unknown
  | cons constant later inductionHypothesis =>
    obtain ⟨first, storableLater⟩ := List.forall_mem_cons.mp storable
    have other : wanted ≠ constant := fun same => absent (same ▸ List.mem_cons_self)
    have absentLater : wanted ∉ later := fun member => absent (List.mem_cons_of_mem _ member)
    refine inductionHypothesis storableLater absentLater ?_
    unfold find? at unknown ⊢
    rw [firstSlots_add, Std.ExtTreeMap.getElem?_insertIfNew, if_neg, unknown]
    intro entered
    exact other (Constant.eq_of_write_eq first (Std.compare_eq_iff_eq.mp entered.1)).symm

/-! ### Following indices -/

/-- The three sorts of references to members. -/
def IsMember (make : UInt16 → UInt16 → Constant) : Prop :=
  make = .field ∨ make = .method ∨ make = .interfaceMethod

section following

variable {pool : Pool} {index first second : UInt16} {owner name descriptor : String}

theorem className_of_get (got : pool.get index = .ok (.className first))
    (named : pool.text first = .ok name) : pool.className index = .ok name := by
  simp only [className, classEntry, lookup, got, Outcome.bind_eq_ok_iff]
  exact ⟨first, rfl, named⟩

theorem nameAndType_of_get (got : pool.get index = .ok (.nameAndType first second))
    (named : pool.text first = .ok name) (typed : pool.text second = .ok descriptor) :
    pool.nameAndType index = .ok (name, descriptor) := by
  simp only [nameAndType, nameAndTypeEntry, lookup, got, Outcome.bind_eq_ok_iff,
    Outcome.pure_eq_ok_iff]
  exact ⟨_, rfl, name, named, descriptor, typed, rfl⟩

theorem memberReference_of_get {make : UInt16 → UInt16 → Constant} (member : IsMember make)
    (got : pool.get index = .ok (make first second)) (owned : pool.className first = .ok owner)
    (called : pool.nameAndType second = .ok (name, descriptor)) :
    pool.memberReference index = .ok ⟨owner, name, descriptor⟩ := by
  have entry : pool.memberEntry index = .ok (first, second) := by
    unfold memberEntry lookup
    rw [got]
    obtain rfl | rfl | rfl := member
    · rfl
    · rfl
    · rfl
  simp only [memberReference, entry, Outcome.bind_eq_ok_iff, Outcome.pure_eq_ok_iff]
  exact ⟨_, rfl, _, called, owner, owned, rfl⟩

end following

/-! ### Interning -/

section interning

variable {pool after : Pool} (assembled : pool.Assembled)

include assembled

theorem get_of_intern {constant : Constant} {index : UInt16}
    (interned : intern constant pool = (.ok index, after)) : after.get index = .ok constant := by
  obtain ⟨found, rfl⟩ | ⟨-, accepted, rfl, rfl⟩ := intern_eq_ok_iff.mp interned
  · exact (get_of_find? assembled found).1
  · obtain ⟨storable, countable⟩ := refusal?_eq_none_iff.mp accepted
    refine get_eq_ok_of_slot ?_ storable
    rw [toNat_ofNat_size countable]
    exact getElem?_slots_add_size _ _

theorem utf8_of_internText {text : String} {index : UInt16}
    (interned : internText text pool = (.ok index, after)) :
    after.utf8 index = .ok (Text.ModifiedUtf8.encode text) :=
  utf8_eq_ok_iff.mpr (get_of_intern assembled interned)

theorem text_of_internText {text : String} {index : UInt16}
    (interned : internText text pool = (.ok index, after)) : after.text index = .ok text :=
  text_of_utf8 (utf8_of_internText assembled interned)

/-- What is interned in two steps is interned in a pool that the first step left. -/
theorem assembled_of_always {α : Type} {action : Interning α} {result : Except Error α}
    (always : Stateful.Always Extends action) (ran : action pool = (result, after)) :
    after.Assembled :=
  Extends.assembled (always.relates ran) assembled

theorem className_of_internClass {name : String} {index : UInt16}
    (interned : internClass name pool = (.ok index, after)) : after.className index = .ok name := by
  obtain ⟨text, middle, textInterned, interned⟩ := Stateful.bind_eq_ok_iff.mp interned
  have assembledMiddle := assembled_of_always assembled (always_internText name) textInterned
  have grown := (always_intern (.className text)).relates interned
  exact className_of_get (get_of_intern assembledMiddle interned)
    (grown.text (text_of_internText assembled textInterned))

theorem nameAndType_of_internNameAndType {name descriptor : String} {index : UInt16}
    (interned : internNameAndType name descriptor pool = (.ok index, after)) :
    after.nameAndType index = .ok (name, descriptor) := by
  obtain ⟨first, middle, nameInterned, interned⟩ := Stateful.bind_eq_ok_iff.mp interned
  obtain ⟨second, last, descriptorInterned, interned⟩ := Stateful.bind_eq_ok_iff.mp interned
  have assembledMiddle := assembled_of_always assembled (always_internText name) nameInterned
  have assembledLast :=
    assembled_of_always assembledMiddle (always_internText descriptor) descriptorInterned
  have grownMiddle := (always_internText descriptor).relates descriptorInterned
  have grownLast := (always_intern (.nameAndType first second)).relates interned
  exact nameAndType_of_get (get_of_intern assembledLast interned)
    ((grownMiddle.trans grownLast).text (text_of_internText assembled nameInterned))
    (grownLast.text (text_of_internText assembledMiddle descriptorInterned))

theorem memberReference_of_internMember {make : UInt16 → UInt16 → Constant}
    (member : IsMember make) {owner name descriptor : String} {index : UInt16}
    (interned : internMember make owner name descriptor pool = (.ok index, after)) :
    after.memberReference index = .ok ⟨owner, name, descriptor⟩ ∧
      ∃ first second, after.get index = .ok (make first second) := by
  obtain ⟨first, middle, ownerInterned, interned⟩ := Stateful.bind_eq_ok_iff.mp interned
  obtain ⟨second, last, typeInterned, interned⟩ := Stateful.bind_eq_ok_iff.mp interned
  have assembledMiddle := assembled_of_always assembled (always_internClass owner) ownerInterned
  have assembledLast :=
    assembled_of_always assembledMiddle (always_internNameAndType name descriptor) typeInterned
  have got := get_of_intern assembledLast interned
  have grownMiddle := (always_internNameAndType name descriptor).relates typeInterned
  have grownLast := (always_intern (make first second)).relates interned
  have ownerFound := (grownMiddle.trans grownLast).className
    (className_of_internClass assembled ownerInterned)
  have typeFound :=
    grownLast.nameAndType (nameAndType_of_internNameAndType assembledMiddle typeInterned)
  exact ⟨memberReference_of_get member got ownerFound typeFound, first, second, got⟩

end interning

/-- What holds of a value once it is made, and goes on to hold while the pool grows, holds in the
end of all the values that are made one after another. -/
theorem forall₂_of_mapM {α β : Type} (property : Pool → α → β → Prop) {action : α → Interning β}
    (always : ∀ item, Stateful.Always Extends (action item))
    (holds : ∀ {item : α} {pool after : Pool} {value : β}, pool.Assembled →
      action item pool = (.ok value, after) → property after item value)
    (keeps : ∀ {before after : Pool} {item : α} {value : β}, before.Extends after →
      property before item value → property after item value)
    {pool after : Pool} (assembled : pool.Assembled) {items : List α} {values : List β}
    (made : items.mapM action pool = (.ok values, after)) :
    List.Forall₂ (property after) items values := by
  induction items generalizing pool values with
  | nil =>
    obtain ⟨rfl, -⟩ := Stateful.pure_eq_ok_iff.mp made
    exact .nil
  | cons item rest inductionHypothesis =>
    rw [List.mapM_cons] at made
    obtain ⟨first, middle, firstMade, made⟩ := Stateful.bind_eq_ok_iff.mp made
    obtain ⟨others, last, othersMade, done⟩ := Stateful.bind_eq_ok_iff.mp made
    obtain ⟨rfl, rfl⟩ := Stateful.pure_eq_ok_iff.mp done
    have assembledMiddle := assembled_of_always assembled (always item) firstMade
    have grown := (Stateful.Always.mapM always rest).relates othersMade
    exact .cons (keeps grown (holds assembled firstMade))
      (inductionHypothesis assembledMiddle othersMade)

end Pool

end JavaClass
