/-
Operations succeed as a whole or leave the class as it was. Before an operation has its constants
together nothing but the pool has changed, and from then on nothing can fail except the edit of a
body, which itself leaves the body as it was. So taking the constants back is enough, and it gives
the old pool, table of first slots included, because the pool has only grown.

Adding an interface does not take its constants back. It needs two of them, a text and a class, and
if there is room for the text only, that text stays behind.
-/

import JavaClass.Proofs.Attribute.Editing
import JavaClass.Proofs.Enhancement.Members
import JavaClass.Proofs.Enhancement.Steps
import JavaClass.Proofs.Format.ClassFile

namespace JavaClass

namespace Enhancement

namespace Enhancer

variable {α β : Type}

/-! ### What a failure leaves -/

/-- Whether a failure leaves nothing behind but constants in the pool. -/
def TouchesPoolOnly (mutation : Enhancing α) : Prop :=
  ∀ enhancer after error, mutation enhancer = (.error error, after) →
    ∃ pool, after = enhancer.withPool pool

/-- Whether a failure leaves nothing behind. -/
def Atomic (operation : Enhancing α) : Prop :=
  ∀ enhancer after error, enhancer.file.pool.Assembled →
    operation enhancer = (.error error, after) → after = enhancer

theorem TouchesPoolOnly.change (act : ClassFile → ClassFile) :
    TouchesPoolOnly (change act) := by
  intro enhancer after error failed
  exact absurd failed not_change_eq_error

theorem TouchesPoolOnly.addConstants_bind {action : Interning α} {next : α → Enhancing β}
    (later : ∀ value, TouchesPoolOnly (next value)) :
    TouchesPoolOnly (addConstants action >>= next) := by
  intro enhancer after error failed
  rw [Stateful.bind_eq_error_iff] at failed
  obtain failed | ⟨value, middle, ran, failed⟩ := failed
  · obtain ⟨pool, -, rfl⟩ := addConstants_eq_iff.mp failed
    exact ⟨pool, rfl⟩
  · obtain ⟨pool, -, rfl⟩ := addConstants_eq_iff.mp ran
    obtain ⟨last, rfl⟩ := later value _ _ _ failed
    exact ⟨last, rfl⟩

theorem TouchesPoolOnly.bind_pure {mutation : Enhancing α} {result : α → β}
    (touches : TouchesPoolOnly mutation) :
    TouchesPoolOnly (mutation >>= fun value => pure (result value)) := by
  intro enhancer after error failed
  rw [Stateful.bind_eq_error_iff] at failed
  obtain failed | ⟨value, middle, -, impossible⟩ := failed
  · exact touches _ _ _ failed
  · exact absurd impossible Stateful.not_pure_eq_error

/-- An edit that fails puts the body back that it found. -/
theorem TouchesPoolOnly.editMethod (name descriptor : String) (edits : List CodeEdit) :
    TouchesPoolOnly (editMethod name descriptor edits) := by
  intro enhancer after error failed
  unfold Enhancer.editMethod at failed
  refine ⟨enhancer.file.pool, ?_⟩
  cases found : (enhancer.file.method? name descriptor).bind Method.body? with
  | none =>
    rw [found] at failed
    exact (Prod.mk.inj failed).2.symm
  | some body =>
    rw [found] at failed
    cases ran : Body.edit edits body with
    | mk result edited =>
      simp only [ran] at failed
      obtain ⟨refused, rfl⟩ := Prod.mk.inj failed
      cases result with
      | ok map => cases refused
      | error reason =>
        rw [Body.allOrNothing_edit edits body edited reason ran]
        have same : enhancer.file.changeMethod name descriptor (Method.setBody body) =
            enhancer.file := by
          refine ClassFile.changeMethod_eq_self fun method located => ?_
          rw [located] at found
          exact Method.setBody_of_body? found
        rw [same]
        rfl

theorem Atomic.ask_bind {question : Enhancer → Except Error α} {next : α → Enhancing β}
    (later : ∀ value, Atomic (next value)) : Atomic (ask question >>= next) := by
  intro enhancer after error assembled failed
  rw [Stateful.bind_eq_error_iff] at failed
  obtain failed | ⟨value, middle, ran, failed⟩ := failed
  · exact (ask_eq_error_iff.mp failed).2.symm
  · obtain ⟨-, rfl⟩ := ask_eq_ok_iff.mp ran
    exact later value _ _ _ assembled failed

theorem Atomic.pure (value : α) : Atomic (pure value) := by
  intro enhancer after error _ impossible
  exact absurd impossible Stateful.not_pure_eq_error

theorem Atomic.discard {operation : Enhancing α} (atomic : Atomic operation) :
    Atomic (discard operation : Enhancing Unit) := by
  intro enhancer after error assembled failed
  exact atomic _ _ _ assembled (Stateful.discard_eq_error_iff.mp failed)

section growth

variable {growth : Pool → Pool → Prop} [Pool.IsGrowth growth]

/-- What touches the pool only is atomic once its constants are taken back. -/
theorem Atomic.atomically {mutation : Enhancing α} (touches : TouchesPoolOnly mutation)
    (always : Stateful.Always (Proceeds growth) mutation) : Atomic (atomically mutation) := by
  intro enhancer after error assembled failed
  cases ran : mutation enhancer with
  | mk result reached =>
    cases result with
    | ok found =>
      rw [atomically_eq_ok_iff.mpr ran] at failed
      cases failed
    | error reason =>
      rw [atomically_of_error ran, rollback_of_proceeds (always.relates ran) assembled] at failed
      obtain ⟨pool, rfl⟩ := touches _ _ _ ran
      exact (Prod.mk.inj failed).2.symm

/-- What is made of constants before the class takes it is made as a whole or not at all. -/
theorem Atomic.addMade {make : Interning α} (always : Stateful.Always growth make)
    (take : α → ClassFile → ClassFile) (apart : ∀ made file, (take made file).pool = file.pool) :
    Atomic (Enhancer.atomically do
      let made ← addConstants make
      Enhancer.change (take made)) :=
  .atomically (.addConstants_bind fun _ => .change _) (always_addMade always take apart)

end growth

/-! ### Operations one by one -/

theorem atomic_addField (name descriptor : String) (flags : FieldFlags) :
    Atomic (addField name descriptor flags) := by
  refine .ask_bind fun _ => ?_
  exact .addMade (always_memberWithoutAttributes name descriptor flags)
    (fun field file => { file with fields := file.fields ++ [field] }) fun _ _ => rfl

theorem atomic_addMethod (name descriptor : String) (flags : MethodFlags)
    (steps : List CodeStep) : Atomic (addMethod name descriptor flags steps) := by
  refine .ask_bind fun type => ?_
  exact .addMade (always_buildMethod (CodeStep.always_runAll steps) name type flags)
    (fun method file => { file with methods := file.methods ++ [method] }) fun _ _ => rfl

theorem atomic_addAbstractMethod (name descriptor : String) (flags : MethodFlags) :
    Atomic (addAbstractMethod name descriptor flags) := by
  refine .ask_bind fun _ => ?_
  exact .addMade (always_memberWithoutAttributes name descriptor _)
    (fun method file => { file with methods := file.methods ++ [method] }) fun _ _ => rfl

theorem atomic_addAccessors (managed : ManagedField) : Atomic (addAccessors managed) := by
  refine .ask_bind fun (field, flags) => ?_
  have always (wanted : Direction × String) := always_buildAccessor field wanted.1 wanted.2 flags
  exact .addMade (.mapM always _)
    (fun methods file => { file with methods := file.methods ++ methods }) fun _ _ => rfl

theorem atomic_redirectFieldUses (methodName methodDescriptor : String) (managed : ManagedField) :
    Atomic (redirectFieldUses methodName methodDescriptor managed) := by
  refine .ask_bind fun (field, redirections) => ?_
  simp only
  split
  · exact .pure 0
  · exact .atomically (.addConstants_bind fun _ => .bind_pure (.editMethod _ _ _))
      (always_redirect field redirections methodName methodDescriptor)

theorem atomic_apply (plan : Plan) : Atomic (apply plan) := by
  intro enhancer after error _ failed
  cases ran : applySteps plan enhancer with
  | mk result reached =>
    cases result with
    | ok count =>
      rw [apply_of_ok ran] at failed
      cases failed
    | error reason =>
      rw [apply_of_error ran] at failed
      exact (Prod.mk.inj failed).2.symm

end Enhancer

/-! ### Every operation -/

/-- What can be done to a class. -/
inductive Operation
  | addInterface (name : String)
  | addField (name descriptor : String) (flags : FieldFlags)
  | addMethod (name descriptor : String) (flags : MethodFlags) (steps : List CodeStep)
  | addAbstractMethod (name descriptor : String) (flags : MethodFlags)
  | addAccessors (managed : ManagedField)
  | redirectFieldUses (methodName methodDescriptor : String) (managed : ManagedField)
  | apply (plan : Plan)
  deriving DecidableEq, Repr

namespace Operation

/-- Does it, without asking for what it tells. -/
def run : Operation → Enhancing Unit
  | addInterface name => discard (Enhancer.addInterface name)
  | addField name descriptor flags => Enhancer.addField name descriptor flags
  | addMethod name descriptor flags steps => Enhancer.addMethod name descriptor flags steps
  | addAbstractMethod name descriptor flags => Enhancer.addAbstractMethod name descriptor flags
  | addAccessors managed => Enhancer.addAccessors managed
  | redirectFieldUses methodName methodDescriptor managed =>
    discard (Enhancer.redirectFieldUses methodName methodDescriptor managed)
  | apply plan => discard (Enhancer.apply plan)

/-- Whether this adds an interface, outside of a plan. -/
def AddsInterface (operation : Operation) : Prop := ∃ name, operation = addInterface name

/-- Whether an operation makes bodies of steps that emit code, if it makes any of its own. -/
def Emits : Operation → Prop
  | addMethod _ _ _ steps => ∀ step ∈ steps, step.Emits
  | _ => True

theorem always_run_of_emits {operation : Operation} (emits : operation.Emits) :
    Stateful.Always (Enhancer.Proceeds Pool.Linked) operation.run := by
  cases operation with
  | addInterface name => exact (Enhancer.always_addInterface name).discard
  | addField => exact Enhancer.always_addField _ _ _
  | addMethod =>
    exact Enhancer.always_addMethod (CodeStep.always_runAll_of_emits emits) _ _ _
  | addAbstractMethod => exact Enhancer.always_addAbstractMethod _ _ _
  | addAccessors => exact Enhancer.always_addAccessors _
  | redirectFieldUses => exact (Enhancer.always_redirectFieldUses _ _ _).discard
  | apply plan => exact (Enhancer.always_apply plan).discard

theorem always_run (operation : Operation) :
    Stateful.Always (Enhancer.Proceeds Pool.Extends) operation.run := by
  cases operation with
  | addMethod => exact Enhancer.always_addMethod (CodeStep.always_runAll _) _ _ _
  | _ =>
    refine Stateful.Always.mono Enhancer.Proceeds.of_linked (always_run_of_emits ?_)
    trivial

theorem atomic_run {operation : Operation} (other : ¬operation.AddsInterface) :
    Enhancer.Atomic operation.run := by
  cases operation with
  | addInterface name => exact (other ⟨name, rfl⟩).elim
  | addField => exact Enhancer.atomic_addField _ _ _
  | addMethod => exact Enhancer.atomic_addMethod _ _ _ _
  | addAbstractMethod => exact Enhancer.atomic_addAbstractMethod _ _ _
  | addAccessors => exact Enhancer.atomic_addAccessors _
  | redirectFieldUses => exact (Enhancer.atomic_redirectFieldUses _ _ _).discard
  | apply plan => exact (Enhancer.atomic_apply plan).discard

end Operation

/-- What a class that was read or made can come to, whether or not the operations on it succeed.
What it inherits and what is reported may be set anew at any time. -/
inductive Reachable : Enhancer → Prop
  | read {bytes : Bytes} {file : ClassFile} (read : ClassFile.read bytes = .ok file)
      (reporting : Reporting) (inherited : List InheritedField) :
      Reachable (.ofClass reporting inherited file)
  | create {major : UInt16} {name : String} {superName : Option String} {file : ClassFile}
      (created : ClassFile.create major name superName = .ok file) (reporting : Reporting)
      (inherited : List InheritedField) : Reachable (.ofClass reporting inherited file)
  | resume {enhancer : Enhancer} (reachable : Reachable enhancer) (reporting : Reporting)
      (inherited : List InheritedField) : Reachable (.ofClass reporting inherited enhancer.file)
  | operate {enhancer : Enhancer} (reachable : Reachable enhancer) (operation : Operation) :
      Reachable (operation.run enhancer).2

end Enhancement

/-! ### Where pools come from -/

theorem Pool.sound_empty : Pool.empty.Sound := ⟨Pool.Obtained.empty.assembled, rfl⟩

/-- A class is made by asking for its name and for that of its superclass. -/
theorem ClassFile.linked_of_create {major : UInt16} {name : String} {superName : Option String}
    {file : ClassFile} (created : create major name superName = .ok file) :
    Pool.empty.Linked file.pool := by
  have always : Stateful.Always Pool.Linked (do
      let thisClass ← Pool.internClass name
      let superClass ← superName.mapM Pool.internClass
      return (thisClass, superClass) : Interning (UInt16 × Option UInt16)) := by
    refine (Pool.always_linked (.className name) trivial).bind fun thisClass => ?_
    cases superName with
    | none => exact .pure _
    | some superName =>
      have asked := Pool.always_linked (.className superName) trivial
      exact Stateful.Always.bind (asked.bind fun _ => .pure _) fun _ => .pure _
  unfold create at created
  simp only at created
  split at created
  · cases created
  · rename_i ran
    obtain rfl := Except.ok.inj created
    exact always.relates ran

theorem Enhancement.Reachable.assembled {enhancer : Enhancement.Enhancer}
    (reachable : Enhancement.Reachable enhancer) : enhancer.file.pool.Assembled := by
  induction reachable with
  | read read => exact (ClassFile.read_eq_ok_iff.mp read).1.pool.assembled
  | create created =>
    exact (ClassFile.linked_of_create created).grown.assembled Pool.sound_empty.assembled
  | resume _ _ _ inductionHypothesis => exact inductionHypothesis
  | operate _ operation inductionHypothesis =>
    exact ((operation.always_run _).grown inductionHypothesis).assembled inductionHypothesis

namespace Enhancement

/-- An operation that fails leaves the class as it was, its pool with the table of first slots
included, and what it inherits too, whatever was done to the class before and at whichever point the
operation failed. Adding an interface outside of a plan is no such operation. -/
theorem Reachable.eq_of_run_error {enhancer after : Enhancer} {operation : Operation}
    {error : Error} (reachable : Reachable enhancer) (other : ¬operation.AddsInterface)
    (failed : operation.run enhancer = (.error error, after)) : after = enhancer :=
  Operation.atomic_run other enhancer after error reachable.assembled failed

/-- A method whose body gives up after it has put a string into the pool, which is behind two other
constants by then. -/
theorem Reachable.eq_of_run_error_refusedMethod :
    ∃ enhancer after error, Reachable enhancer ∧
      (Operation.addMethod "m" "()V" ⟨0⟩ [.pushString "x", .refuse "no"]).run enhancer =
        (.error error, after) ∧ after = enhancer := by
  have refused : ((ClassFile.create 52 "A" none).map fun file =>
      (Enhancer.addMethod "m" "()V" ⟨0⟩ [.pushString "x", .refuse "no"]
        (.ofClass .silent [] file)).1.isOk) = .ok false := by
    decide +kernel
  cases created : ClassFile.create 52 "A" none with
  | error error =>
    rw [created] at refused
    cases refused
  | ok file =>
    rw [created] at refused
    have reachable := Reachable.create created .silent []
    cases ran : Operation.run (.addMethod "m" "()V" ⟨0⟩ [.pushString "x", .refuse "no"])
        (.ofClass .silent [] file) with
    | mk result after =>
      cases result with
      | ok nothing =>
        have succeeded : Enhancer.addMethod "m" "()V" ⟨0⟩ [.pushString "x", .refuse "no"]
            (.ofClass .silent [] file) = (.ok nothing, after) := ran
        simp only [Except.map, succeeded] at refused
        cases refused
      | error error =>
        refine ⟨_, after, error, reachable, ran, reachable.eq_of_run_error ?_ ran⟩
        rintro ⟨name, impossible⟩
        cases impossible

end Enhancement

end JavaClass
