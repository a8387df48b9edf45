/-
The steps that operations on a class consist of, and what each of them comes to: asking leaves the
class alone, changing it cannot fail, adding constants touches the pool only, and an operation that
is run atomically and fails has its constants taken back.

Whatever is done to a class, its pool only grows, the fields it is known to inherit stay in front,
and what is reported stays the same. `Proceeds` says so, for operations and for whole plans, and
it says how the pool grows: constants are asked for with what they refer to, unless a body is made
of steps that put others into the pool.
-/

import JavaClass.Enhancement.Enhancer
import JavaClass.Proofs.Code.Builder

namespace JavaClass.Enhancement.Enhancer

variable {α β : Type} {enhancer after : Enhancer} {error : Error}

/-! ### What steps come to -/

/-- The class being enhanced with another pool. -/
def withPool (pool : Pool) (enhancer : Enhancer) : Enhancer :=
  { enhancer with file := { enhancer.file with pool } }

theorem ask_eq_ok_iff {question : Enhancer → Except Error α} {value : α} :
    ask question enhancer = (.ok value, after) ↔ question enhancer = .ok value ∧ enhancer = after :=
  Prod.mk.injEq _ _ _ _ ▸ Iff.rfl

theorem ask_eq_error_iff {question : Enhancer → Except Error α} :
    ask question enhancer = (.error error, after) ↔
      question enhancer = .error error ∧ enhancer = after :=
  Prod.mk.injEq _ _ _ _ ▸ Iff.rfl

theorem change_eq_ok_iff {act : ClassFile → ClassFile} {nothing : Unit} :
    change act enhancer = (.ok nothing, after) ↔
      { enhancer with file := act enhancer.file } = after := by
  show (Except.ok (), _) = _ ↔ _
  rw [Prod.mk.injEq]
  exact and_iff_right rfl

theorem not_change_eq_error {act : ClassFile → ClassFile} :
    change act enhancer ≠ (.error error, after) := by
  intro impossible
  cases impossible

theorem addConstants_apply (action : Interning α) (enhancer : Enhancer) :
    addConstants action enhancer =
      ((action enhancer.file.pool).1, enhancer.withPool (action enhancer.file.pool).2) :=
  rfl

theorem addConstants_eq_iff {action : Interning α} {result : Except Error α} :
    addConstants action enhancer = (result, after) ↔
      ∃ pool, action enhancer.file.pool = (result, pool) ∧ after = enhancer.withPool pool := by
  rw [addConstants_apply, Prod.mk.injEq]
  constructor
  · rintro ⟨ran, rfl⟩
    exact ⟨_, Prod.ext ran rfl, rfl⟩
  · rintro ⟨pool, ran, rfl⟩
    rw [ran]
    exact ⟨rfl, rfl⟩

theorem atomically_of_error {mutation : Enhancing α}
    (failed : mutation enhancer = (.error error, after)) :
    atomically mutation enhancer =
      (.error error, after.withPool (after.file.pool.rollback enhancer.file.pool.snapshot)) := by
  unfold atomically
  rw [failed]
  rfl

theorem atomically_eq_ok_iff {mutation : Enhancing α} {value : α} :
    atomically mutation enhancer = (.ok value, after) ↔ mutation enhancer = (.ok value, after) := by
  cases ran : mutation enhancer with
  | mk result reached =>
    cases result with
    | error reason =>
      rw [atomically_of_error ran]
      refine iff_of_false (fun impossible => ?_) fun impossible => ?_
      · cases impossible
      · cases impossible
    | ok found =>
      unfold atomically
      rw [ran]

/-! ### What additions come to -/

/-- Something is made of constants, and then the class takes it. -/
theorem addMade_eq_ok_iff {make : Interning α} (take : α → ClassFile → ClassFile)
    {nothing : Unit} :
    atomically (do
        let made ← addConstants make
        change (take made)) enhancer = (.ok nothing, after) ↔
      ∃ made pool, make enhancer.file.pool = (.ok made, pool) ∧
        after = { enhancer with file := take made { enhancer.file with pool } } := by
  rw [atomically_eq_ok_iff, Stateful.bind_eq_ok_iff]
  constructor
  · rintro ⟨made, reached, added, changed⟩
    obtain ⟨pool, ran, rfl⟩ := addConstants_eq_iff.mp added
    exact ⟨made, pool, ran, (change_eq_ok_iff.mp changed).symm⟩
  · rintro ⟨made, pool, ran, rfl⟩
    exact ⟨made, _, addConstants_eq_iff.mpr ⟨pool, ran, rfl⟩, change_eq_ok_iff.mpr rfl⟩

section additions

variable {name descriptor : String} {nothing : Unit}

theorem requireNewMethod_eq_ok_iff {file : ClassFile} :
    requireNewMethod name descriptor file = .ok nothing ↔
      file.method? name descriptor = none := by
  rw [requireNewMethod]
  cases file.method? name descriptor <;> simp

theorem addField_eq_ok_iff {flags : FieldFlags} :
    addField name descriptor flags enhancer = (.ok nothing, after) ↔
      (∃ type, fieldType descriptor = .ok type) ∧
        enhancer.file.field? name (some descriptor) = none ∧
        ∃ field pool,
          memberWithoutAttributes name descriptor flags enhancer.file.pool = (.ok field, pool) ∧
          after = { enhancer with file := { enhancer.file with
            pool, fields := enhancer.file.fields ++ [field] } } := by
  rw [addField, Stateful.bind_eq_ok_iff]
  constructor
  · rintro ⟨_, middle, asked, ran⟩
    obtain ⟨question, rfl⟩ := ask_eq_ok_iff.mp asked
    obtain ⟨_, typed, absent⟩ := Outcome.bind_eq_ok_iff.mp question
    exact ⟨Outcome.discard_eq_ok_iff.mp typed,
      Option.not_isSome_iff_eq_none.mp (Outcome.refuse_eq_ok_iff.mp absent).1,
      (addMade_eq_ok_iff fun field file => { file with fields := file.fields ++ [field] }).mp ran⟩
  · rintro ⟨typed, absent, made⟩
    have absent := Option.not_isSome_iff_eq_none.mpr absent
    have typed : discard (fieldType descriptor) = .ok () := Outcome.discard_eq_ok_iff.mpr typed
    exact ⟨⟨⟩, enhancer, ask_eq_ok_iff.mpr ⟨Outcome.bind_eq_ok_iff.mpr
        ⟨(), typed, Outcome.refuse_eq_ok_iff.mpr ⟨absent, rfl⟩⟩, rfl⟩,
      (addMade_eq_ok_iff fun field file => { file with fields := file.fields ++ [field] }).mpr made⟩

theorem addMethod_eq_ok_iff {flags : MethodFlags} {steps : List CodeStep} :
    addMethod name descriptor flags steps enhancer = (.ok nothing, after) ↔
      ∃ type, methodType descriptor = .ok type ∧
        enhancer.file.method? name descriptor = none ∧
        ∃ method pool, buildMethod name type flags steps enhancer.file.pool = (.ok method, pool) ∧
          after = { enhancer with file := { enhancer.file with
            pool, methods := enhancer.file.methods ++ [method] } } := by
  rw [addMethod, Stateful.bind_eq_ok_iff]
  constructor
  · rintro ⟨_, middle, asked, ran⟩
    obtain ⟨question, rfl⟩ := ask_eq_ok_iff.mp asked
    obtain ⟨type, typed, question⟩ := Outcome.bind_eq_ok_iff.mp question
    obtain ⟨_, absent, same⟩ := Outcome.bind_eq_ok_iff.mp question
    obtain rfl := Outcome.pure_eq_ok_iff.mp same
    exact ⟨type, typed, requireNewMethod_eq_ok_iff.mp absent,
      (addMade_eq_ok_iff fun method file =>
        { file with methods := file.methods ++ [method] }).mp ran⟩
  · rintro ⟨type, typed, absent, made⟩
    have absent : requireNewMethod name descriptor enhancer.file = .ok () :=
      requireNewMethod_eq_ok_iff.mpr absent
    exact ⟨type, enhancer, ask_eq_ok_iff.mpr ⟨Outcome.bind_eq_ok_iff.mpr
        ⟨type, typed, Outcome.bind_eq_ok_iff.mpr ⟨(), absent, rfl⟩⟩, rfl⟩,
      (addMade_eq_ok_iff fun method file =>
        { file with methods := file.methods ++ [method] }).mpr made⟩

theorem addAbstractMethod_eq_ok_iff {flags : MethodFlags} :
    addAbstractMethod name descriptor flags enhancer = (.ok nothing, after) ↔
      (∃ type, methodType descriptor = .ok type) ∧
        enhancer.file.method? name descriptor = none ∧
        ∃ (method : Method) (pool : Pool),
          memberWithoutAttributes name descriptor (flags.union MethodFlags.accAbstract)
            enhancer.file.pool = (.ok method, pool) ∧
          after = { enhancer with file := { enhancer.file with
            pool, methods := enhancer.file.methods ++ [method] } } := by
  rw [addAbstractMethod, Stateful.bind_eq_ok_iff]
  constructor
  · rintro ⟨_, middle, asked, ran⟩
    obtain ⟨question, rfl⟩ := ask_eq_ok_iff.mp asked
    obtain ⟨_, typed, absent⟩ := Outcome.bind_eq_ok_iff.mp question
    exact ⟨Outcome.discard_eq_ok_iff.mp typed, requireNewMethod_eq_ok_iff.mp absent,
      (addMade_eq_ok_iff fun method file =>
        { file with methods := file.methods ++ [method] }).mp ran⟩
  · rintro ⟨typed, absent, made⟩
    have typed : discard (methodType descriptor) = .ok () := Outcome.discard_eq_ok_iff.mpr typed
    exact ⟨⟨⟩, enhancer, ask_eq_ok_iff.mpr ⟨Outcome.bind_eq_ok_iff.mpr
        ⟨(), typed, requireNewMethod_eq_ok_iff.mpr absent⟩, rfl⟩,
      (addMade_eq_ok_iff fun method file =>
        { file with methods := file.methods ++ [method] }).mpr made⟩

end additions

/-! ### What goes on all the time -/

theorem always_ask {relation : Enhancer → Enhancer → Prop} [IsPreorder Enhancer relation]
    (question : Enhancer → Except Error α) : Stateful.Always relation (ask question) :=
  fun enhancer => refl_of relation enhancer

/-- What no operation changes, and how the pool and the inherited fields may change. -/
structure Proceeds (growth : Pool → Pool → Prop) (before after : Enhancer) : Prop where
  pool : before.file.pool.Assembled → growth before.file.pool after.file.pool
  inherited : before.inherited <+: after.inherited
  reporting : after.reporting = before.reporting

theorem always_addConstants {growth : Pool → Pool → Prop} {action : Interning α}
    (always : Stateful.Always growth action) :
    Stateful.Always (Proceeds growth) (addConstants action) :=
  fun enhancer => ⟨fun _ => always enhancer.file.pool, List.prefix_rfl, rfl⟩

section proceeds

variable {growth : Pool → Pool → Prop} [Pool.IsGrowth growth]

theorem Proceeds.grown (proceeds : Proceeds growth enhancer after)
    (assembled : enhancer.file.pool.Assembled) :
    enhancer.file.pool.Extends after.file.pool :=
  Pool.IsGrowth.grown (proceeds.pool assembled)

theorem Proceeds.of_linked (proceeds : Proceeds Pool.Linked enhancer after) :
    Proceeds growth enhancer after :=
  { proceeds with pool := Pool.IsGrowth.of_linked ∘ proceeds.pool }

instance : IsPreorder Enhancer (Proceeds growth) where
  refl _ := ⟨fun _ => refl_of growth _, List.prefix_rfl, rfl⟩
  trans _ _ _ first later :=
    ⟨fun assembled => trans_of growth (first.pool assembled)
        (later.pool ((first.grown assembled).assembled assembled)),
      first.inherited.trans later.inherited, later.reporting.trans first.reporting⟩

theorem Proceeds.refl (enhancer : Enhancer) : Proceeds growth enhancer enhancer :=
  refl_of (Proceeds growth) enhancer

/-- If constants are taken back, the pool is the one there was. -/
theorem rollback_of_proceeds (proceeds : Proceeds growth enhancer after)
    (assembled : enhancer.file.pool.Assembled) :
    after.file.pool.rollback enhancer.file.pool.snapshot = enhancer.file.pool :=
  (proceeds.grown assembled).rollback assembled

theorem always_atomically {mutation : Enhancing α}
    (always : Stateful.Always (Proceeds growth) mutation) :
    Stateful.Always (Proceeds growth) (atomically mutation) := by
  intro enhancer
  cases ran : mutation enhancer with
  | mk result reached =>
    have proceeds := always.relates ran
    cases result with
    | ok found =>
      rw [atomically_eq_ok_iff.mpr ran]
      exact proceeds
    | error reason =>
      rw [atomically_of_error ran]
      refine ⟨fun assembled => ?_, proceeds.inherited, proceeds.reporting⟩
      show growth enhancer.file.pool (reached.file.pool.rollback _)
      rw [rollback_of_proceeds proceeds assembled]
      exact refl_of growth enhancer.file.pool

/-- Something is made of constants, and then the class takes it, the pool apart. -/
theorem always_addMade {make : Interning α} (always : Stateful.Always growth make)
    (take : α → ClassFile → ClassFile) (apart : ∀ made file, (take made file).pool = file.pool) :
    Stateful.Always (Proceeds growth) (do
      let made ← addConstants make
      change (take made)) := by
  refine (always_addConstants always).bind fun made enhancer => ?_
  refine ⟨fun _ => ?_, List.prefix_rfl, rfl⟩
  show growth enhancer.file.pool (take made enhancer.file).pool
  rw [apart]
  exact refl_of growth enhancer.file.pool

end proceeds

/-! ### What constants are asked for -/

theorem always_memberWithoutAttributes {holder : FlagHolder} (name descriptor : String)
    (flags : Flags holder) :
    Stateful.Always Pool.Linked (memberWithoutAttributes name descriptor flags) := by
  refine (Pool.always_linked (.text name) trivial).bind fun _ => ?_
  exact (Pool.always_linked (.text descriptor) trivial).bind fun _ => .pure _

theorem always_named (content : Content) :
    Stateful.Always Pool.Linked (Attribute.named content) := by
  unfold Attribute.named
  split
  · exact .throw _
  · rename_i name _
    exact (Pool.always_linked (.text name) trivial).bind fun _ => .pure _

/-- A method asks for the constants of its body, and then for its name, its descriptor and the name
of its code. -/
theorem always_buildMethod {growth : Pool → Pool → Prop} [Pool.IsGrowth growth]
    {steps : List CodeStep}
    (always : Stateful.Always (Builder.Grows growth) (CodeStep.runAll steps)) (name : String)
    (type : MethodType) (flags : MethodFlags) :
    Stateful.Always growth (buildMethod name type flags steps) := by
  intro pool
  unfold buildMethod
  simp only
  split
  · rename_i ran
    exact always.relates ran
  · rename_i ran
    have built : growth pool _ := always.relates ran
    refine trans_of growth built (Pool.IsGrowth.of_linked ?_)
    refine Stateful.Always.bind (Pool.always_linked (.text name) trivial) (fun _ => ?_) _
    refine (Pool.always_linked (.text type.descriptor) trivial).bind fun _ => ?_
    exact (always_named _).bind fun _ => .pure _

/-- Accessors load, use their field and return. -/
theorem emits_of_mem_accessorSteps {field : ResolvedField} {direction : Direction}
    {step : CodeStep} (member : step ∈ accessorSteps field direction) : step.Emits := by
  obtain ⟨owner, name, type, isStatic, ownerIsInterface⟩ := field
  cases direction with
  | read =>
    cases isStatic with
    | true =>
      obtain rfl | rfl := List.mem_pair.mp member
      · trivial
      · trivial
    | false =>
      obtain rfl | rest := List.mem_cons.mp member
      · trivial
      · obtain rfl | rfl := List.mem_pair.mp rest
        · trivial
        · trivial
  | write =>
    obtain rfl | rest := List.mem_cons.mp member
    · trivial
    · obtain rfl | rfl := List.mem_pair.mp rest
      · trivial
      · trivial

theorem always_buildAccessor (field : ResolvedField) (direction : Direction) (name : String)
    (flags : MethodFlags) :
    Stateful.Always Pool.Linked (buildMethod name (field.accessorType direction) flags
      (accessorSteps field direction)) :=
  always_buildMethod
    (CodeStep.always_runAll_of_emits fun _ member => emits_of_mem_accessorSteps member) _ _ _

theorem always_editRedirection (field : ResolvedField) (redirection : Redirection) :
    Stateful.Always Pool.Linked (redirection.edit field) := by
  obtain ⟨offset, accessor, type⟩ := redirection
  unfold Redirection.edit
  refine Stateful.Always.bind ?_ fun _ => .pure _
  split
  · exact Pool.always_linked (.interfaceMethod field.owner accessor type.descriptor) trivial
  · exact Pool.always_linked (.method field.owner accessor type.descriptor) trivial

/-! ### Operations -/

theorem always_addInterface (name : String) :
    Stateful.Always (Proceeds Pool.Linked) (addInterface name) := by
  refine (always_ask _).bind fun present => ?_
  split
  · exact .pure false
  · refine (always_addConstants (Pool.always_linked (.className name) trivial)).bind fun index => ?_
    refine Stateful.Always.bind (fun enhancer => ?_) fun _ => .pure true
    exact ⟨fun _ => .refl _, List.prefix_rfl, rfl⟩

theorem always_addField (name descriptor : String) (flags : FieldFlags) :
    Stateful.Always (Proceeds Pool.Linked) (addField name descriptor flags) := by
  refine (always_ask _).bind fun _ => always_atomically ?_
  exact always_addMade (always_memberWithoutAttributes name descriptor flags)
    (fun field file => { file with fields := file.fields ++ [field] }) fun _ _ => rfl

/-- A method may be made of whatever steps, so its pool grows as they make it grow. -/
theorem always_addMethod {growth : Pool → Pool → Prop} [Pool.IsGrowth growth]
    {steps : List CodeStep}
    (always : Stateful.Always (Builder.Grows growth) (CodeStep.runAll steps))
    (name descriptor : String) (flags : MethodFlags) :
    Stateful.Always (Proceeds growth) (addMethod name descriptor flags steps) := by
  refine (always_ask _).bind fun type => always_atomically ?_
  exact always_addMade (always_buildMethod always name type flags)
    (fun method file => { file with methods := file.methods ++ [method] }) fun _ _ => rfl

theorem always_addAbstractMethod (name descriptor : String) (flags : MethodFlags) :
    Stateful.Always (Proceeds Pool.Linked) (addAbstractMethod name descriptor flags) := by
  refine (always_ask _).bind fun _ => always_atomically ?_
  exact always_addMade (always_memberWithoutAttributes name descriptor _)
    (fun method file => { file with methods := file.methods ++ [method] }) fun _ _ => rfl

theorem always_addAccessors (managed : ManagedField) :
    Stateful.Always (Proceeds Pool.Linked) (addAccessors managed) := by
  refine (always_ask _).bind fun (field, flags) => always_atomically ?_
  have always (wanted : Direction × String) := always_buildAccessor field wanted.1 wanted.2 flags
  exact always_addMade (.mapM always _)
    (fun methods file => { file with methods := file.methods ++ methods }) fun _ _ => rfl

theorem always_editMethod (name descriptor : String) (edits : List CodeEdit) :
    Stateful.Always (Proceeds Pool.Linked) (editMethod name descriptor edits) := by
  intro enhancer
  unfold editMethod
  split
  · exact .refl enhancer
  · exact ⟨fun _ => .refl _, List.prefix_rfl, rfl⟩

/-- Calls are put into the pool, and then into the code of a method. -/
theorem always_redirect (field : ResolvedField) (redirections : List Redirection)
    (name descriptor : String) :
    Stateful.Always (Proceeds Pool.Linked) (do
      let edits ← addConstants (redirections.mapM (Redirection.edit field))
      editMethod name descriptor edits
      return edits.length) := by
  refine (always_addConstants (.mapM (always_editRedirection field) redirections)).bind
    fun edits => ?_
  exact (always_editMethod _ _ _).bind fun _ => .pure _

theorem always_redirectFieldUses (methodName methodDescriptor : String) (managed : ManagedField) :
    Stateful.Always (Proceeds Pool.Linked)
      (redirectFieldUses methodName methodDescriptor managed) := by
  refine (always_ask _).bind fun (field, redirections) => ?_
  simp only
  split
  · exact .pure 0
  · exact always_atomically (always_redirect field redirections methodName methodDescriptor)

/-! ### Plans -/

/-- A plan consists of operations one after the other, and the first that fails is the last. -/
theorem always_applySteps_of_parts {relation : Enhancer → Enhancer → Prop}
    [IsPreorder Enhancer relation]
    (inherits : ∀ fields, Stateful.Always relation
      (modify fun enhancer => { enhancer with inherited := enhancer.inherited ++ fields } :
        Enhancing Unit))
    (interfaces : ∀ name, Stateful.Always relation
      (discard (addInterface name) : Enhancing Unit))
    (fields : ∀ name descriptor flags, Stateful.Always relation (addField name descriptor flags))
    (accessors : ∀ managed, Stateful.Always relation (addAccessors managed))
    (redirects : ∀ name descriptor managed,
      Stateful.Always relation (redirectFieldUses name descriptor managed)) (plan : Plan) :
    Stateful.Always relation (applySteps plan) := by
  refine (inherits _).bind fun _ => ?_
  refine (Stateful.Always.forM fun name _ => interfaces name).bind fun _ => ?_
  refine (Stateful.Always.forM fun field _ => fields _ _ _).bind fun _ => ?_
  refine (Stateful.Always.forM fun managed _ => ?_).bind fun _ => ?_
  · refine (always_ask _).bind fun declared => ?_
    split
    · exact accessors managed
    · exact .pure ()
  · refine (always_ask _).bind fun methods => Stateful.Always.bind ?_ fun count =>
      (always_ask _).bind fun _ => .pure count
    refine .foldlM (fun _ method => .foldlM (fun _ field => ?_) _ _) _ _
    exact (redirects _ _ _).bind fun _ => .pure _

theorem always_applySteps (plan : Plan) :
    Stateful.Always (Proceeds Pool.Linked) (applySteps plan) := by
  refine always_applySteps_of_parts (fun fields _ => ?_)
    (fun name => (always_addInterface name).discard) always_addField always_addAccessors
    always_redirectFieldUses plan
  exact ⟨fun _ => .refl _, List.prefix_append _ _, rfl⟩

theorem apply_of_ok {plan : Plan} {count : Nat}
    (ran : applySteps plan enhancer = (.ok count, after)) :
    apply plan enhancer = (.ok count, after) := by
  unfold apply
  rw [ran]

/-- A plan that cannot be carried out leaves nothing behind. -/
theorem apply_of_error {plan : Plan} (failed : applySteps plan enhancer = (.error error, after)) :
    apply plan enhancer = (.error error, enhancer) := by
  have proceeds := (always_applySteps plan).relates failed
  unfold apply
  rw [failed]
  have inherited : after.inherited.take enhancer.inherited.length = enhancer.inherited :=
    (List.prefix_iff_eq_take.mp proceeds.inherited).symm
  show (Except.error error, Enhancer.mk enhancer.file _ after.reporting) = _
  rw [inherited, proceeds.reporting]

theorem apply_eq_ok_iff {plan : Plan} {count : Nat} :
    apply plan enhancer = (.ok count, after) ↔ applySteps plan enhancer = (.ok count, after) := by
  cases ran : applySteps plan enhancer with
  | mk result reached =>
    cases result with
    | ok found => rw [apply_of_ok ran]
    | error error =>
      rw [apply_of_error ran]
      refine iff_of_false (fun impossible => ?_) fun impossible => ?_
      · cases impossible
      · cases impossible

theorem always_apply (plan : Plan) : Stateful.Always (Proceeds Pool.Linked) (apply plan) := by
  intro enhancer
  cases ran : applySteps plan enhancer with
  | mk result reached =>
    cases result with
    | ok count =>
      rw [apply_of_ok ran]
      exact (always_applySteps plan).relates ran
    | error error =>
      rw [apply_of_error ran]
      exact .refl enhancer

end JavaClass.Enhancement.Enhancer
