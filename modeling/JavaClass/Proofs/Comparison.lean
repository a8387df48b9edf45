/-
Comparing is exact. A comparison of classes lists every field of every table by hand, so a field
that is not listed would be one in which two classes may differ unnoticed. That there is none is
said of each comparison by itself: it finds nothing exactly if its two sides are equal. Lists are
compared in pairs behind their lengths, and attributes contain method bodies that contain
attributes, so their comparisons are exact together or not at all.

A comparison that fails stops at the first difference and names the way to it from the outside in.
For classes the first name is that of a component, and the components in front of it, in the order
of a file, are equal.
-/

import JavaClass.ClassFile.Comparison
import JavaClass.Proofs.Format.ClassFile
import JavaClass.Proofs.Outcome

namespace JavaClass

namespace Comparison

variable {α : Type}

/-! ### Comparing values and lists -/

/-- Whether a comparison finds nothing exactly if its two sides are equal. -/
def Exact (compare : α → α → Comparison) : Prop :=
  ∀ left right, compare left right = .ok () ↔ left = right

theorem bind_eq_ok_iff {first : Comparison} {next : Unit → Comparison} :
    first >>= next = .ok () ↔ first = .ok () ∧ next () = .ok () := by
  cases first with
  | error mismatch => simp [bind, Except.bind]
  | ok nothing => simp [bind, Except.bind]

theorem within_eq_ok_iff {segment : String} {compared : Comparison} :
    compared.within segment = .ok () ↔ compared = .ok () := by
  cases compared with
  | error mismatch => simp [within]
  | ok nothing => simp [within]

theorem values_eq_ok_iff [BEq α] [LawfulBEq α] {segment : String} {shown : α → String}
    {left right : α} : values segment shown left right = .ok () ↔ left = right := by
  rw [values]
  by_cases same : left = right
  · simp [same]
  · simp [same]

theorem words_eq_ok_iff {segment : String} {left right : UInt16} :
    words segment left right = .ok () ↔ left = right :=
  values_eq_ok_iff

theorem pairs_cons (compare : α → α → Comparison) (index : Nat) (left right : α)
    (lefts rights : List α) :
    pairs compare index (left :: lefts) (right :: rights) =
      (compare left right).within (position index) >>= fun _ =>
        pairs compare (index + 1) lefts rights := by
  rw [pairs]
  cases compare left right <;> rfl

theorem pairs_eq_ok_iff {compare : α → α → Comparison} (exact : Exact compare) {index : Nat}
    {left right : List α} (length : left.length = right.length) :
    pairs compare index left right = .ok () ↔ left = right := by
  induction left generalizing index right with
  | nil =>
    obtain rfl := List.eq_nil_of_length_eq_zero length.symm
    simp [pairs]
  | cons first lefts inductionHypothesis =>
    obtain ⟨second, rights, rfl⟩ := List.exists_cons_of_length_eq_add_one length.symm
    rw [pairs_cons, bind_eq_ok_iff, within_eq_ok_iff, exact,
      inductionHypothesis (Nat.succ.inj length), List.cons.injEq]

/-- Lists of equal length that agree item by item are equal. -/
theorem lengths_then_eq_ok_iff {left right : List α} {next : Comparison}
    (exact : left.length = right.length → (next = .ok () ↔ left = right)) :
    (do lengths left.length right.length; next) = .ok () ↔ left = right := by
  rw [bind_eq_ok_iff, lengths, values_eq_ok_iff]
  constructor
  · rintro ⟨length, agree⟩
    exact (exact length).mp agree
  · rintro rfl
    exact ⟨rfl, (exact rfl).mpr rfl⟩

theorem sequences_exact {compare : α → α → Comparison} (exact : Exact compare)
    (segment : String) : Exact (sequences segment compare) := by
  intro left right
  rw [sequences, within_eq_ok_iff]
  exact lengths_then_eq_ok_iff (pairs_eq_ok_iff exact)

end Comparison

open Comparison

/-! ### Comparing tables -/

theorem ExceptionRange.compare_exact : Exact ExceptionRange.compare := by
  rintro ⟨⟩ ⟨⟩
  simp only [ExceptionRange.compare, bind_eq_ok_iff, words_eq_ok_iff, values_eq_ok_iff,
    ExceptionRange.mk.injEq]

theorem ExceptionTable.compare_exact : Exact ExceptionTable.compare :=
  sequences_exact ExceptionRange.compare_exact "handlers"

theorem LineNumber.compare_exact : Exact LineNumber.compare := by
  rintro ⟨⟩ ⟨⟩
  simp only [LineNumber.compare, bind_eq_ok_iff, words_eq_ok_iff, LineNumber.mk.injEq]

theorem LocalVariable.compare_exact : Exact LocalVariable.compare := by
  rintro ⟨⟩ ⟨⟩
  simp only [LocalVariable.compare, bind_eq_ok_iff, words_eq_ok_iff, LocalVariable.mk.injEq]

theorem StackMap.compareFrom_eq_ok_iff {index : Nat} {left right : StackMap}
    (length : left.length = right.length) :
    StackMap.compareFrom index left right = .ok () ↔ left = right := by
  induction left generalizing index right with
  | nil =>
    obtain rfl := List.eq_nil_of_length_eq_zero length.symm
    simp [StackMap.compareFrom]
  | cons first lefts inductionHypothesis =>
    obtain ⟨second, rights, rfl⟩ := List.exists_cons_of_length_eq_add_one length.symm
    rw [StackMap.compareFrom, bind_eq_ok_iff, values_eq_ok_iff,
      inductionHypothesis (Nat.succ.inj length), List.cons.injEq]

theorem StackMap.compare_exact : Exact StackMap.compare := by
  intro left right
  rw [StackMap.compare, bind_eq_ok_iff, values_eq_ok_iff]
  constructor
  · rintro ⟨length, agree⟩
    exact (StackMap.compareFrom_eq_ok_iff length).mp agree
  · rintro rfl
    exact ⟨rfl, (StackMap.compareFrom_eq_ok_iff rfl).mpr rfl⟩

/-! ### Comparing attributes -/

mutual

theorem Attribute.compare_eq_ok_iff :
    ∀ left right : Attribute, left.compare right = .ok () ↔ left = right
  | ⟨leftName, left⟩, ⟨rightName, right⟩ => by
    rw [Attribute.compare, bind_eq_ok_iff, words_eq_ok_iff, Content.compare_eq_ok_iff left right,
      Attribute.mk.injEq]

theorem Content.compare_eq_ok_iff :
    ∀ left right : Content, left.compare right = .ok () ↔ left = right
  | .code left, right => by
    cases right with
    | code right =>
      rw [Content.compare, within_eq_ok_iff, Body.compare_eq_ok_iff left right,
        Content.code.injEq]
    | _ => simp [Content.compare]
  | .exceptions left, right => by
    cases right with
    | exceptions right =>
      rw [Content.compare, within_eq_ok_iff, values_eq_ok_iff, Content.exceptions.injEq]
    | _ => simp [Content.compare]
  | .lineNumbers left, right => by
    cases right with
    | lineNumbers right =>
      rw [Content.compare, within_eq_ok_iff,
        sequences_exact LineNumber.compare_exact _ left right, Content.lineNumbers.injEq]
    | _ => simp [Content.compare]
  | .localVariables left, right => by
    cases right with
    | localVariables right =>
      rw [Content.compare, within_eq_ok_iff,
        sequences_exact LocalVariable.compare_exact _ left right, Content.localVariables.injEq]
    | _ => simp [Content.compare]
  | .localVariableTypes left, right => by
    cases right with
    | localVariableTypes right =>
      rw [Content.compare, within_eq_ok_iff,
        sequences_exact LocalVariable.compare_exact _ left right, Content.localVariableTypes.injEq]
    | _ => simp [Content.compare]
  | .stackMap left, right => by
    cases right with
    | stackMap right =>
      rw [Content.compare, within_eq_ok_iff, StackMap.compare_exact left right,
        Content.stackMap.injEq]
    | _ => simp [Content.compare]
  | .sourceFile left, right => by
    cases right with
    | sourceFile right =>
      rw [Content.compare, within_eq_ok_iff, words_eq_ok_iff, Content.sourceFile.injEq]
    | _ => simp [Content.compare]
  | .constantValue left, right => by
    cases right with
    | constantValue right =>
      rw [Content.compare, within_eq_ok_iff, words_eq_ok_iff, Content.constantValue.injEq]
    | _ => simp [Content.compare]
  | .synthetic, right => by cases right <;> simp [Content.compare]
  | .deprecated, right => by cases right <;> simp [Content.compare]
  | .raw left, right => by
    cases right with
    | raw right =>
      rw [Content.compare, within_eq_ok_iff, values_eq_ok_iff, Content.raw.injEq]
    | _ => simp [Content.compare]

theorem Body.compare_eq_ok_iff :
    ∀ left right : Body, left.compare right = .ok () ↔ left = right
  | ⟨leftStack, leftLocals, leftCode, leftHandlers, leftAttributes⟩,
    ⟨rightStack, rightLocals, rightCode, rightHandlers, rightAttributes⟩ => by
    have attributes : (do
        lengths leftAttributes.length rightAttributes.length
        Attributes.compareFrom 0 leftAttributes rightAttributes) = .ok () ↔
          leftAttributes = rightAttributes :=
      lengths_then_eq_ok_iff (Attributes.compareFrom_eq_ok_iff 0 leftAttributes rightAttributes)
    rw [Body.compare, bind_eq_ok_iff, bind_eq_ok_iff, bind_eq_ok_iff, bind_eq_ok_iff,
      words_eq_ok_iff, words_eq_ok_iff, values_eq_ok_iff, within_eq_ok_iff,
      ExceptionTable.compare_exact leftHandlers rightHandlers, within_eq_ok_iff, attributes,
      Body.mk.injEq]

theorem Attributes.compareFrom_eq_ok_iff :
    ∀ (index : Nat) (left right : List Attribute), left.length = right.length →
      (Attributes.compareFrom index left right = .ok () ↔ left = right)
  | _, [], [], _ => by simp [Attributes.compareFrom]
  | index, left :: lefts, right :: rights, length => by
    have first := Attribute.compare_eq_ok_iff left right
    have others := Attributes.compareFrom_eq_ok_iff (index + 1) lefts rights (Nat.succ.inj length)
    rw [Attributes.compareFrom, List.cons.injEq, ← first, ← others]
    cases left.compare right <;> simp

end

theorem Attributes.compare_exact : Exact Attributes.compare := by
  intro left right
  rw [Attributes.compare, within_eq_ok_iff]
  exact lengths_then_eq_ok_iff (Attributes.compareFrom_eq_ok_iff 0 left right)

/-! ### Comparing members and constants -/

theorem Member.compare_exact {holder : FlagHolder} :
    Exact (Member.compare : Member holder → Member holder → Comparison) := by
  rintro ⟨leftFlags, leftName, leftDescriptor, leftAttributes⟩
    ⟨rightFlags, rightName, rightDescriptor, rightAttributes⟩
  simp only [Member.compare, bind_eq_ok_iff, words_eq_ok_iff, values_eq_ok_iff,
    Attributes.compare_exact leftAttributes rightAttributes, Member.mk.injEq]

theorem Constant.compare_exact : Exact Constant.compare := by
  intro left right
  exact values_eq_ok_iff

/-- Pools are compared slot by slot. Where a constant is found is not compared. -/
theorem Pool.compare_eq_ok_iff {left right : Pool} :
    left.compare right = .ok () ↔ left.slots = right.slots := by
  rw [Pool.compare, sequences_exact Constant.compare_exact, Array.toList_inj]

/-! ### The way to a difference -/

namespace Comparison

/-- Whether every difference that a comparison finds is inside the part called `segment`. -/
def StaysIn (segment : String) (compared : Comparison) : Prop :=
  ∀ mismatch, compared = .error mismatch → mismatch.path.head? = some segment

theorem staysIn_values {α : Type} [BEq α] (segment : String) (shown : α → String)
    (left right : α) : (values segment shown left right).StaysIn segment := by
  intro mismatch differs
  rw [values] at differs
  split at differs
  · cases differs
  · cases differs
    rfl

theorem staysIn_within (segment : String) (compared : Comparison) :
    (compared.within segment).StaysIn segment := by
  intro mismatch differs
  cases compared with
  | error inner =>
    cases differs
    rfl
  | ok nothing => cases differs

end Comparison

/-! ### The components of a class -/

namespace ClassFile

/-- What a class consists of. -/
inductive Component
  | version
  | pool
  | flags
  | thisClass
  | superClass
  | interfaces
  | fields
  | methods
  | attributes
  deriving DecidableEq

namespace Component

/-- The components in the order of a file. -/
def inOrder : List Component :=
  [version, pool, flags, thisClass, superClass, interfaces, fields, methods, attributes]

/-- How paths call a component. -/
def label : Component → String
  | version => "meta_data"
  | pool => "constant_pool"
  | flags => "access_flags"
  | thisClass => "this_class"
  | superClass => "super_class"
  | interfaces => "interfaces"
  | fields => "fields"
  | methods => "methods"
  | attributes => "attributes"

/-- Whether two classes are equal in a component, of the pool in all of its slots. -/
def Agrees (left right : ClassFile) : Component → Prop
  | version => left.version = right.version
  | pool => left.pool.slots = right.pool.slots
  | flags => left.flags = right.flags
  | thisClass => left.thisClass = right.thisClass
  | superClass => left.superClass = right.superClass
  | interfaces => left.interfaces = right.interfaces
  | fields => left.fields = right.fields
  | methods => left.methods = right.methods
  | attributes => left.attributes = right.attributes

/-- The comparison of one component. -/
def compare (left right : ClassFile) : Component → Comparison
  | version => values "meta_data" Version.shown left.version right.version
  | pool => (left.pool.compare right.pool).within "constant_pool"
  | flags => values "access_flags" Flags.render left.flags right.flags
  | thisClass => words "this_class" left.thisClass right.thisClass
  | superClass => values "super_class" (Shown.optional Shown.word) left.superClass right.superClass
  | interfaces => values "interfaces" (Shown.list Shown.word) left.interfaces right.interfaces
  | fields => sequences "fields" Member.compare left.fields right.fields
  | methods => sequences "methods" Member.compare left.methods right.methods
  | attributes => Attributes.compare left.attributes right.attributes

theorem mem_inOrder (component : Component) : component ∈ inOrder := by
  cases component <;> decide

theorem label_injective {component other : Component} (same : component.label = other.label) :
    component = other := by
  revert same
  cases component <;> cases other <;> decide

theorem compare_eq_ok_iff (left right : ClassFile) (component : Component) :
    component.compare left right = .ok () ↔ component.Agrees left right := by
  cases component with
  | version | flags | thisClass | superClass | interfaces => exact values_eq_ok_iff
  | pool => rw [compare, within_eq_ok_iff, Pool.compare_eq_ok_iff, Agrees]
  | fields | methods => exact sequences_exact Member.compare_exact _ _ _
  | attributes => exact Attributes.compare_exact _ _

theorem compare_staysIn (left right : ClassFile) (component : Component) :
    (component.compare left right).StaysIn component.label := by
  cases component with
  | version | flags | thisClass | superClass | interfaces => exact staysIn_values _ _ _ _
  | pool | fields | methods | attributes => exact staysIn_within _ _

end Component

open Component

/-- Classes are compared component by component. -/
theorem compare_eq_forM (left right : ClassFile) :
    compare left right = inOrder.forM (Component.compare left right) := by
  have last : Attributes.compare left.attributes right.attributes =
      Attributes.compare left.attributes right.attributes >>= fun _ => pure () :=
    (bind_pure_unit ..).symm
  rw [compare, last]
  rfl

/-- Equal components are written alike: what a pool knows about where its constants are is not
written. -/
theorem write_eq_of_agrees {left right : ClassFile}
    (agrees : ∀ component : Component, component.Agrees left right) : left.write = right.write := by
  have slots : left.pool.slots = right.pool.slots := agrees .pool
  have pools : left.pool.write = right.pool.write := by
    rw [Pool.write, Pool.write, Pool.size, Pool.size, slots]
  have version : left.version = right.version := agrees .version
  have flags : left.flags = right.flags := agrees .flags
  have thisClass : left.thisClass = right.thisClass := agrees .thisClass
  have superClass : left.superClass = right.superClass := agrees .superClass
  have interfaces : left.interfaces = right.interfaces := agrees .interfaces
  have fields : left.fields = right.fields := agrees .fields
  have methods : left.methods = right.methods := agrees .methods
  have attributes : left.attributes = right.attributes := agrees .attributes
  rw [write, write, pools, version, flags, thisClass, superClass, interfaces, fields, methods,
    attributes]

theorem compare_eq_ok_iff_agrees {left right : ClassFile} :
    compare left right = .ok () ↔ ∀ component : Component, component.Agrees left right := by
  rw [compare_eq_forM, Outcome.forM_eq_ok_iff]
  constructor
  · intro compared component
    exact (component.compare_eq_ok_iff left right).mp (compared component component.mem_inOrder)
  · intro agrees component _
    exact (component.compare_eq_ok_iff left right).mpr (agrees component)

theorem agrees_of_write_eq {left right : ClassFile} (leftProper : left.WellFormed)
    (rightProper : right.WellFormed) (written : left.write = right.write) (component : Component) :
    component.Agrees left right := by
  have read := readFront_written leftProper []
  rw [written, readFront_written rightProper] at read
  cases read
  cases component <;> rfl

theorem exists_first_of_compare_eq_error {left right : ClassFile} {mismatch : Mismatch}
    (differs : compare left right = .error mismatch) :
    ∃ before component after, inOrder = before ++ component :: after ∧
      mismatch.path.head? = some component.label ∧
      (∀ earlier ∈ before, earlier.Agrees left right) ∧ ¬component.Agrees left right := by
  rw [compare_eq_forM] at differs
  obtain ⟨before, component, after, order, agree, found⟩ :=
    Outcome.exists_of_forM_eq_error differs
  refine ⟨before, component, after, order, component.compare_staysIn left right mismatch found,
    fun earlier member => (earlier.compare_eq_ok_iff left right).mp (agree earlier member),
    fun agrees => ?_⟩
  rw [(component.compare_eq_ok_iff left right).mpr agrees] at found
  cases found

/-- Comparing finds nothing exactly if the classes are equal in every component. What it finds is
inside the first component that differs. So classes that were read are told apart exactly if the
files that they are written to differ. -/
theorem compare_exact_to_first_difference (left right : ClassFile) :
    (compare left right = .ok () ↔ ∀ component : Component, component.Agrees left right) ∧
    (∀ mismatch, compare left right = .error mismatch →
      ∃ before component after, inOrder = before ++ component :: after ∧
        (∀ other : Component, mismatch.path.head? = some other.label ↔ other = component) ∧
        (∀ earlier ∈ before, earlier.Agrees left right) ∧ ¬component.Agrees left right) ∧
    ∀ leftBytes rightBytes,
      ClassFile.read leftBytes = .ok left → ClassFile.read rightBytes = .ok right →
      (compare left right = .ok () ↔ left.write = right.write) := by
  refine ⟨compare_eq_ok_iff_agrees, fun mismatch differs => ?_,
    fun leftBytes rightBytes leftRead rightRead => ?_⟩
  · obtain ⟨before, component, after, order, inside, agree, disagrees⟩ :=
      exists_first_of_compare_eq_error differs
    refine ⟨before, component, after, order, fun other => ?_, agree, disagrees⟩
    rw [inside, Option.some.injEq]
    exact ⟨fun same => (label_injective same).symm, fun same => congrArg label same.symm⟩
  · rw [compare_eq_ok_iff_agrees]
    exact ⟨write_eq_of_agrees, agrees_of_write_eq (read_eq_ok_iff.mp leftRead).1
      (read_eq_ok_iff.mp rightRead).1⟩

/-- The class of `ofMethod` as an interface. -/
def interfaceOfMethod : ClassFile := { ofMethod with flags := ClassFlags.accInterface }

theorem wellFormed_interfaceOfMethod : interfaceOfMethod.WellFormed :=
  { wellFormed_ofMethod with }

theorem compare_exact_to_first_difference_ofMethod :
    ¬Component.flags.Agrees ofMethod interfaceOfMethod ∧
      ofMethod.write ≠ interfaceOfMethod.write := by
  obtain ⟨-, firstDifference, written⟩ :=
    compare_exact_to_first_difference ofMethod interfaceOfMethod
  have differs : compare ofMethod interfaceOfMethod =
      .error ⟨["access_flags"], ofMethod.flags.render, interfaceOfMethod.flags.render⟩ := rfl
  obtain ⟨before, component, after, -, inside, -, disagrees⟩ := firstDifference _ differs
  obtain rfl := (inside .flags).mp rfl
  refine ⟨disagrees, fun same => ?_⟩
  rw [(written _ _ (read_eq_ok_iff.mpr ⟨wellFormed_ofMethod, rfl⟩)
    (read_eq_ok_iff.mpr ⟨wellFormed_interfaceOfMethod, rfl⟩)).mpr same] at differs
  cases differs

end ClassFile

end JavaClass
