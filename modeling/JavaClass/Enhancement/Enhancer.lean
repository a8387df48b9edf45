/-
Enhancing a class. An operation either does all it says or fails; a failure takes back the
constants that it had put into the pool, and the rest of the class is only touched once nothing
can go wrong any more. The one exception is adding an interface, which keeps the constants.

Operations report what they do to whoever listens. A report that names the class needs the class
to have a name that can be read, and the operation fails if it has none; if nobody listens, it is
not looked up.
-/

import JavaClass.Attribute.Editing
import JavaClass.ClassFile.Basic
import JavaClass.Code.Builder
import JavaClass.Enhancement.FieldSite
import JavaClass.Enhancement.Plan
import JavaClass.Pool.Description

namespace JavaClass.Enhancement

/-- How much is reported while a class is enhanced. -/
inductive Reporting
  | silent
  | progress
  | detailed
  deriving DecidableEq, Repr

/-- A class being enhanced, and the fields it is known to inherit. -/
structure Enhancer where
  file : ClassFile
  inherited : List InheritedField
  reporting : Reporting

/-- What changes a class to produce an `α`. The class is handed on whether or not it succeeds. -/
abbrev Enhancing (α : Type) := ExceptT Error (StateM Enhancer) α

namespace Enhancer

/-- The beginning of the enhancement of a class. -/
def ofClass (reporting : Reporting) (inherited : List InheritedField) (file : ClassFile) :
    Enhancer :=
  { file, inherited, reporting }

/-! ### Steps -/

/-- Asks something of the class as it is. -/
def ask (question : Enhancer → Except Error α) : Enhancing α := fun enhancer =>
  (question enhancer, enhancer)

/-- Changes the class in a way that cannot fail. -/
def change (act : ClassFile → ClassFile) : Enhancing Unit := fun enhancer =>
  let ⟨file, inherited, reporting⟩ := enhancer
  (.ok (), ⟨act file, inherited, reporting⟩)

/-- Adds constants to the pool of the class. On failure those already added stay. -/
def addConstants (action : Interning α) : Enhancing α := fun enhancer =>
  let ⟨⟨version, pool, flags, thisClass, superClass, interfaces, fields, methods, attributes⟩,
    inherited, reporting⟩ := enhancer
  let (result, pool) := action pool
  (result, ⟨⟨version, pool, flags, thisClass, superClass, interfaces, fields, methods,
    attributes⟩, inherited, reporting⟩)

/-- Runs a mutation, and if it fails takes the constants back that were added on the way. A mutation
touches the rest of the class only when nothing else can go wrong. -/
def atomically (mutation : Enhancing α) : Enhancing α := fun enhancer =>
  let snapshot := enhancer.file.pool.snapshot
  match mutation enhancer with
  | (.ok value, changed) => (.ok value, changed)
  | (.error error, ⟨file, inherited, reporting⟩) =>
    (.error error, ⟨{ file with pool := file.pool.rollback snapshot }, inherited, reporting⟩)

/-! ### Interfaces and members -/

/-- Makes the class implement an interface, unless it does so already. Tells whether it is new. -/
def addInterface (name : String) : Enhancing Bool := do
  let present ← ask fun enhancer => do
    let present := (← enhancer.file.interfaceNames).contains name
    if present && enhancer.reporting = .detailed then discard enhancer.file.name
    return present
  if present then return false
  let index ← addConstants (Pool.internClass name)
  change fun file => { file with interfaces := file.interfaces ++ [index] }
  return true

/-- The type of a field, from its descriptor. -/
def fieldType (descriptor : String) : Except Error FieldType :=
  match FieldType.parse descriptor with
  | .ok type => .ok type
  | .error reason => .error (.invalidDescriptor descriptor reason)

/-- The type of a method, from its descriptor. -/
def methodType (descriptor : String) : Except Error MethodType :=
  match MethodType.parse descriptor with
  | .ok type => .ok type
  | .error reason => .error (.invalidDescriptor descriptor reason)

/-- A member without attributes. -/
def memberWithoutAttributes {holder : FlagHolder} (name descriptor : String)
    (flags : Flags holder) : Interning (Member holder) := do
  let nameIndex ← Pool.internText name
  let descriptorIndex ← Pool.internText descriptor
  return { flags, name := nameIndex, descriptor := descriptorIndex, attributes := [] }

/-- Adds a field that is not there yet. -/
def addField (name descriptor : String) (flags : FieldFlags) : Enhancing Unit := do
  ask fun enhancer => do
    discard (fieldType descriptor)
    if (enhancer.file.field? name (some descriptor)).isSome then
      throw (.duplicateMember name descriptor)
  atomically do
    let field : Field ← addConstants (memberWithoutAttributes name descriptor flags)
    change fun file => { file with fields := file.fields ++ [field] }

/-- Fails if the class has a method of that name and descriptor. -/
def requireNewMethod (name descriptor : String) (file : ClassFile) : Except Error Unit :=
  if (file.method? name descriptor).isSome then .error (.duplicateMember name descriptor)
  else .ok ()

/-- A method with a body made of steps. -/
def buildMethod (name : String) (type : MethodType) (flags : MethodFlags)
    (steps : List CodeStep) : Interning Method := fun pool =>
  let isStatic := flags.has MethodFlags.accStatic
  match CodeStep.runAll steps (Builder.startMethod pool isStatic type) with
  | (.error error, builder) => (.error error, builder.pool)
  | (.ok (), builder) =>
    let body := builder.build
    let finish : Interning Method := do
      let nameIndex ← Pool.internText name
      let descriptorIndex ← Pool.internText type.descriptor
      let code ← Attribute.named (.code body)
      return { flags, name := nameIndex, descriptor := descriptorIndex, attributes := [code] }
    finish builder.pool

/-- Adds methods. -/
def pushMethods (methods : List Method) : Enhancing Unit :=
  change fun file => { file with methods := file.methods ++ methods }

/-- Adds a method that is not there yet, with a body made of steps. The parameters are in the
first local variables, behind the instance if there is one. -/
def addMethod (name descriptor : String) (flags : MethodFlags) (steps : List CodeStep) :
    Enhancing Unit := do
  let type ← ask fun enhancer => do
    let type ← methodType descriptor
    requireNewMethod name descriptor enhancer.file
    return type
  atomically do
    let method ← addConstants (buildMethod name type flags steps)
    pushMethods [method]

/-- Adds a method that is not there yet, without a body. -/
def addAbstractMethod (name descriptor : String) (flags : MethodFlags) : Enhancing Unit := do
  ask fun enhancer => do
    discard (methodType descriptor)
    requireNewMethod name descriptor enhancer.file
  let flags := flags.union MethodFlags.accAbstract
  atomically do
    let method : Method ← addConstants (memberWithoutAttributes name descriptor flags)
    pushMethods [method]

/-! ### Managed fields -/

/-- What is found for a name among the fields of the class and, failing that, among those it
inherits. A descriptor, if given, has to agree too. -/
def resolveField (name : String) (descriptor : Option String) (enhancer : Enhancer) :
    Except Error ResolvedField :=
  match enhancer.file.field? name descriptor with
  | some field => do
    let owner ← enhancer.file.name
    let type ← fieldType (← enhancer.file.pool.text field.descriptor)
    return { owner, name, type, isStatic := Field.isStatic field
             ownerIsInterface := enhancer.file.isInterface }
  | none =>
    let isWanted (candidate : InheritedField) : Bool :=
      candidate.field.name == name &&
        (descriptor.all fun descriptor => candidate.field.type.descriptor == descriptor)
    match enhancer.inherited.find? isWanted with
    | some found =>
      .ok { owner := found.owner, name, type := found.field.type, isStatic := found.isStatic
            ownerIsInterface := false }
    | none => .error (.fieldNotFound name descriptor)

/-- The flags of the accessors of a field: as visible as the field, static, made by no source, and
final where methods may be. -/
def accessorFlags (isInterface : Bool) (flags : FieldFlags) : MethodFlags :=
  let common :=
    flags.visibility.union (MethodFlags.accStatic.union MethodFlags.accSynthetic)
  if isInterface then common else common.union MethodFlags.accFinal

/-- The body of the method that reads a field. -/
def getterSteps (field : ResolvedField) : List CodeStep :=
  (if field.isStatic then [] else [.load (.object field.owner) 0]) ++
    [.field ⟨.read, field.isStatic⟩ field.owner field.name field.type, .returnValue field.type]

/-- The body of the method that writes a field. -/
def setterSteps (field : ResolvedField) : List CodeStep :=
  [.loadParameters true field.setterType,
    .field ⟨.write, field.isStatic⟩ field.owner field.name field.type, .returnValue .void]

/-- The body of the accessor for a direction. -/
def accessorSteps (field : ResolvedField) : Direction → List CodeStep
  | .read => getterSteps field
  | .write => setterSteps field

/-- The accessors that are wanted for a field, those that read first. -/
def wantedAccessors (accessors : FieldAccessors) : List (Direction × String) :=
  (accessors.getter.map fun name => (Direction.read, name)).toList ++
    (accessors.setter.map fun name => (Direction.write, name)).toList

/-- Adds the accessors of a field that the class declares. None of them may be there yet. -/
def addAccessors (managed : ManagedField) : Enhancing Unit := do
  let wanted := wantedAccessors managed.accessors
  let (field, flags) ← ask fun enhancer => do
    let some declared := enhancer.file.field? managed.name managed.descriptor
      | throw (.fieldNotFound managed.name none)
    let field ← resolveField managed.name managed.descriptor enhancer
    wanted.forM fun (direction, name) =>
      requireNewMethod name (field.accessorType direction).descriptor enhancer.file
    return (field, accessorFlags enhancer.file.isInterface declared.flags)
  atomically do
    let methods ← addConstants (wanted.mapM fun (direction, name) =>
      buildMethod name (field.accessorType direction) flags (accessorSteps field direction))
    pushMethods methods

/-- An accessor call that takes the place of the use of a field at an offset. -/
structure Redirection where
  offset : Nat
  accessor : String
  type : MethodType
  deriving DecidableEq, Repr

/-- The edit that makes a call of an accessor out of the use of a field. -/
def Redirection.edit (field : ResolvedField) (redirection : Redirection) : Interning CodeEdit := do
  let internCall :=
    if field.ownerIsInterface then Pool.internInterfaceMethod else Pool.internMethod
  let index ← internCall field.owner redirection.accessor redirection.type.descriptor
  return .replace redirection.offset (Opcode.invokestatic :: BigEndian.word16 index)

/-- What a method's code is to be changed in, so that it uses a managed field only through
accessors. -/
def redirections (methodName methodDescriptor : String) (managed : ManagedField)
    (enhancer : Enhancer) : Except Error (ResolvedField × List Redirection) := do
  let file := enhancer.file
  let field ← resolveField managed.name managed.descriptor enhancer
  let className ← file.name
  let some body := (file.method? methodName methodDescriptor).bind Method.body?
    | throw (.methodNotFound methodName methodDescriptor)
  let sites ← FieldSite.findAll file.pool field className (← body.instructions)
  let redirections := sites.filterMap fun site =>
    (managed.accessors.inDirection site.direction).map fun accessor =>
      { offset := site.offset, accessor, type := field.accessorType site.direction }
  return (field, redirections)

/-- Edits the body of a method where it is. -/
def editMethod (name descriptor : String) (edits : List CodeEdit) : Enhancing Unit :=
  fun enhancer =>
    match (enhancer.file.method? name descriptor).bind Method.body? with
    | none => (.error (.methodNotFound name descriptor), enhancer)
    | some body =>
      let (result, body) := Body.edit edits body
      let edited := enhancer.file.changeMethod name descriptor (Method.setBody body)
      (discard result, { enhancer with file := edited })

/-- Makes a method use a managed field only through accessors, and counts the instructions that
were changed for it. -/
def redirectFieldUses (methodName methodDescriptor : String) (managed : ManagedField) :
    Enhancing Nat := do
  let (field, redirections) ← ask (redirections methodName methodDescriptor managed)
  if redirections.isEmpty then return 0
  atomically do
    let edits ← addConstants (redirections.mapM (Redirection.edit field))
    editMethod methodName methodDescriptor edits
    return edits.length

/-! ### Whole plans -/

/-- The methods with a body, by name and type. -/
def methodsWithBody (file : ClassFile) : Except Error (List MethodKey) :=
  (file.methods.filter fun method => (Method.body? method).isSome).mapM fun method => do
    let name ← file.pool.text method.name
    let descriptor ← file.pool.text method.descriptor
    match MethodKey.parse name descriptor with
    | .ok key => return key
    | .error reason =>
      throw (.invalidDescriptor (file.pool.describe method.descriptor) reason)

/-- Adds the accessors of a managed field if the class declares it. -/
def addAccessorsIfDeclared (managed : ManagedField) : Enhancing Unit := do
  let declared ← ask fun enhancer =>
    return (enhancer.file.field? managed.name managed.descriptor).isSome
  if declared then addAccessors managed

/-- The number of uses that are redirected when every method in turn gives up its direct uses of
every managed field. -/
def redirectAll (managed : List ManagedField) (methods : List MethodKey) : Enhancing Nat :=
  methods.foldlM (fun count method =>
    managed.foldlM (fun count field => do
      return count + (← redirectFieldUses method.name method.type.descriptor field)) count) 0

/-- Takes the steps of a plan, up to the first that fails. Initialisers and methods that are named
like an accessor keep their direct uses of fields. -/
def applySteps (plan : Plan) : Enhancing Nat := do
  modify fun enhancer =>
    { enhancer with inherited := enhancer.inherited ++ plan.inheritedFields }
  plan.interfaces.forM fun name => discard (addInterface name)
  plan.addedFields.forM fun field => addField field.name field.descriptor field.flags
  plan.managedFields.forM addAccessorsIfDeclared
  let methods ← ask fun enhancer => methodsWithBody enhancer.file
  let eligible := methods.filter fun method =>
    !(method.isInitializer || plan.isAccessor method.name)
  let count ← redirectAll plan.managedFields eligible
  ask fun enhancer => do
    if enhancer.reporting ≠ .silent then discard enhancer.file.name
  return count

/-- Carries a plan out, as a whole or not at all, and counts the uses of fields that became calls.
After a failure the class is put back as it was, and of the inherited fields those are kept that
were known before. -/
def apply (plan : Plan) : Enhancing Nat := fun enhancer =>
  match applySteps plan enhancer with
  | (.ok count, enhanced) => (.ok count, enhanced)
  | (.error error, failed) =>
    (.error error, { failed with
      file := enhancer.file
      inherited := failed.inherited.take enhancer.inherited.length })

end Enhancer

end JavaClass.Enhancement
