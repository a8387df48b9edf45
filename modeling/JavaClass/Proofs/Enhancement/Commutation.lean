/-
Redirecting two fields in a method, in the one order and in the other. An instruction that uses one
of them does not use the other, and the calls that the first redirection leaves behind are no uses
for the second to find, so the same uses are redirected in either order and as many are counted. The
constants of the calls are added in different orders. They are the same constants at other indices,
and the calls in the one class name what those in the other name.

Only an instruction whose index led to no constant in the first place is left as it is without a
thought to where its index leads in the end, and that depends on the order.
-/

import JavaClass.Proofs.Enhancement.Turning
import JavaClass.Proofs.Pool.Renumbering

namespace JavaClass.Enhancement

/-! ### One after the other -/

section twice

variable {name descriptor : String} {first second : ManagedField} {field other : ResolvedField}
  {user : String} {method : Method} {old mid : Body} {olds mids : List Instruction}
  {before middle after : Enhancer} {count countLater : Nat}

/-- The second redirection finds what it would have found without the first. -/
theorem Rewritten.exists_turned (legible : before.file.Legible)
    (differ : field.name ≠ other.name ∨ field.type.descriptor ≠ other.type.descriptor)
    (rewritten : Rewritten name descriptor first field user method old mid olds mids before count
      middle)
    (resolved : Enhancer.resolveField second.name second.descriptor before = .ok other)
    (judged : ∀ instruction ∈ olds, ∃ found,
      FieldSite.of? before.file.pool other user instruction = .ok found)
    (ran : Enhancer.redirectFieldUses name descriptor second middle = (.ok countLater, after)) :
    countLater =
        (olds.filterMap (calledFor? before.file.pool other user second.accessors)).length ∧
      ∃ new news, Turned name descriptor (fun instruction =>
          calledFor? before.file.pool field user first.accessors instruction <|>
            calledFor? before.file.pool other user second.accessors instruction)
        method old new olds news before after := by
  obtain ⟨fieldLater, userLater, _, _, new, _, news, later⟩ :=
    exists_rewritten (rewritten.turned.legible legible) ran
  have keeps := rewritten.turned.keepsFields
  obtain rfl : other = fieldLater := Except.ok.inj
    ((keeps.resolveField legible.fields resolved).symm.trans later.examined.resolved)
  obtain rfl : user = userLater := Except.ok.inj
    ((keeps.name rewritten.examined.named).symm.trans later.examined.named)
  obtain ⟨rfl, rfl, rfl⟩ := rewritten.turned.pins legible later.turned
  have stays : ∀ instruction ∈ olds,
      calledFor? middle.file.pool other user second.accessors instruction =
        calledFor? before.file.pool other user second.accessors instruction := by
    intro instruction member
    obtain ⟨found, isFound⟩ := judged instruction member
    exact calledFor?_of_extends keeps.pool isFound
  have apart : ∀ instruction ∈ olds,
      calledFor? before.file.pool field user first.accessors instruction = none ∨
        calledFor? before.file.pool other user second.accessors instruction = none :=
    fun _ _ => calledFor?_eq_none_or differ second.accessors
  refine ⟨?_, new, news, rewritten.turned.trans legible later.turned stays calledFor?_callAt apart⟩
  rw [later.count, filterMap_of_turns stays calledFor?_callAt apart rewritten.turned.row]

end twice

/-! ### Classes that are alike -/

/-- Whether the constants at two indices name the same member and are of the same kind. -/
def NameAlike (one other : Pool) (index partner : UInt16) : Prop :=
  ∃ constant constantOther reference,
    one.get index = .ok constant ∧ other.get partner = .ok constantOther ∧
      constant.kind = constantOther.kind ∧
      one.memberReference index = .ok reference ∧ other.memberReference partner = .ok reference

/-- Whether the instructions at a place of two pieces of code that came from the same one are alike
but for the numbers of constants that were added to the pool. They are the same, and any index in
them is that of a constant that was there before; or they are calls, and their indices name the same
method. Only an instruction that was there from the beginning may have an index that led nowhere
then, and it is the same in both. -/
inductive Alike (move : UInt16 → UInt16) (before one other : Pool) (olds : List Instruction) :
    Instruction → Instruction → Prop
  | same {instruction : Instruction}
      (known : ∀ index, instruction.poolIndex? = some index → index.toNat < before.size) :
      Alike move before one other olds instruction instruction
  | astray {instruction : Instruction} {index : UInt16} (member : instruction ∈ olds)
      (indexed : instruction.poolIndex? = some index) (unknown : before.size ≤ index.toNat) :
      Alike move before one other olds instruction instruction
  | calls {offset : Nat} {index : UInt16} (names : NameAlike one other index (move index)) :
      Alike move before one other olds (callAt offset index) (callAt offset (move index))

/-- Bodies that came from the same one and are alike but for the numbers of constants. -/
structure BodiesAlike (move : UInt16 → UInt16) (before one other : Pool)
    (old first second : Body) : Prop where
  recoded : second = { first with code := second.code }
  code : ∃ olds news newsOther, old.instructions = .ok olds ∧ first.instructions = .ok news ∧
    second.instructions = .ok newsOther ∧
    List.Forall₂ (Alike move before one other olds) news newsOther

/-- Classes that came from the same one and are alike but for the numbers of the constants that were
added: their pools differ in nothing but these numbers, the bodies of a method are alike, and
everything else is the same, every other method being what it was. -/
structure ClassesAlike (move : UInt16 → UInt16) (name descriptor : String)
    (start one other : Enhancer) : Prop where
  pools : Pool.Renumbers move start.file.pool one.file.pool other.file.pool
  methods : ∃ front method back old first second,
    start.file.Located name descriptor front method back ∧ Method.body? method = some old ∧
      one.file.methods = front ++ Method.setBody first method :: back ∧
      other.file.methods = front ++ Method.setBody second method :: back ∧
      BodiesAlike move start.file.pool one.file.pool other.file.pool old first second
  rest : other = { one with
    file := { one.file with pool := other.file.pool, methods := other.file.methods } }

section alike

variable {name descriptor : String} {called : Instruction → Option Pool.Meaning} {method : Method}
  {old first second : Body} {olds news newsOther : List Instruction} {start one other : Enhancer}

/-- Whether what has to be called in place of instructions is a method. -/
def OnlyMethods (called : Instruction → Option Pool.Meaning) : Prop :=
  ∀ instruction meaning, called instruction = some meaning →
    ∃ ofInterface owner name descriptor, meaning = .method ofInterface owner name descriptor

/-- What is called in place of a use is an accessor of the field. -/
theorem onlyMethods_calledFor? {pool : Pool} {field : ResolvedField} {user : String}
    {accessors : FieldAccessors} : OnlyMethods (calledFor? pool field user accessors) := by
  intro instruction meaning asked
  obtain ⟨redirection, -, rfl⟩ := Option.map_eq_some_iff.mp asked
  exact ⟨_, _, _, _, rfl⟩

theorem nameAlike_of_holds {one other : Pool} (assembled : one.Assembled)
    (assembledOther : other.Assembled) {ofInterface : Bool} {owner name descriptor : String}
    {index partner : UInt16}
    (holds : one.Holds (.method ofInterface owner name descriptor) index)
    (holdsOther : other.Holds (.method ofInterface owner name descriptor) partner) :
    NameAlike one other index partner := by
  obtain ⟨reference, _, _, got⟩ := holds.memberReference_eq assembled
  obtain ⟨referenceOther, _, _, gotOther⟩ := holdsOther.memberReference_eq assembledOther
  refine ⟨_, _, _, got, gotOther, ?_, reference, referenceOther⟩
  cases ofInterface <;> rfl

/-- What an instruction turned into in two classes, where the same had to be called, is alike. -/
theorem alike_of_turns {move : UInt16 → UInt16} {before one other : Pool}
    (assembled : one.Assembled) (assembledOther : other.Assembled) (only : OnlyMethods called)
    (goes : ∀ meaning index partner, one.Holds meaning index → other.Holds meaning partner →
      move index = partner) {old new newOther : Instruction} (member : old ∈ olds)
    (turns : Turns one old (called old) new) (turnsOther : Turns other old (called old) newOther) :
    Alike move before one other olds new newOther := by
  cases asked : called old with
  | none =>
    rw [asked] at turns turnsOther
    cases turns
    cases turnsOther
    by_cases known : ∀ index, old.poolIndex? = some index → index.toNat < before.size
    · exact .same known
    · obtain ⟨index, unknown⟩ := not_forall.mp known
      obtain ⟨indexed, behind⟩ := Classical.not_imp.mp unknown
      exact .astray member indexed (Nat.not_lt.mp behind)
  | some meaning =>
    obtain ⟨ofInterface, owner, name, descriptor, rfl⟩ := only old meaning asked
    rw [asked] at turns turnsOther
    cases turns with
    | calls holds =>
      cases turnsOther with
      | calls holdsOther =>
        obtain rfl := goes _ _ _ holds holdsOther
        exact .calls (nameAlike_of_holds assembled assembledOther holds holdsOther)

/-- Classes in which the same had to be called are alike. -/
theorem exists_classesAlike (legible : start.file.Legible)
    (references : start.file.pool.checkReferences = .ok ()) (only : OnlyMethods called)
    (turned : Turned name descriptor called method old first olds news start one)
    (turnedOther : Turned name descriptor called method old second olds newsOther start other) :
    ∃ move, ClassesAlike move name descriptor start one other := by
  obtain ⟨move, renumbers, goes⟩ :=
    Pool.exists_renumbers ⟨legible.pool, references⟩ turned.gains turnedOther.gains
  obtain ⟨front, back, located⟩ := ClassFile.exists_located turned.found
  have restOne := turned.rest front back located
  have restOther := turnedOther.rest front back located
  have row : List.Forall₂ (Alike move start.file.pool one.file.pool other.file.pool olds) news
      newsOther := by
    refine forall₂_of_partners (fun old new newOther related turnsOther => ?_)
      ((List.forall₂_and_left _ _).mpr ⟨fun _ member => member, turned.row⟩) turnedOther.row
    exact alike_of_turns (turned.gains.grown.assembled legible.pool)
      (turnedOther.gains.grown.assembled legible.pool) only goes related.1 related.2 turnsOther
  refine ⟨move, renumbers, ⟨front, method, back, old, first, second, located,
    turned.hasBody, ?_, ?_, ?_, olds, news, newsOther, turned.decodedOld, turned.decoded,
    turnedOther.decoded, row⟩, ?_⟩
  · rw [restOne]
  · rw [restOther]
  · rw [turnedOther.recoded, turned.recoded]
  · rw [restOther, restOne]

end alike

/-! ### Either order -/

theorem orElse_comm {α : Type} {first later : Option α} (apart : first = none ∨ later = none) :
    (first <|> later) = (later <|> first) := by
  obtain rfl | rfl := apart
  · cases later <;> rfl
  · cases first <;> rfl

theorem onlyMethods_orElse {first later : Instruction → Option Pool.Meaning}
    (only : OnlyMethods first) (onlyLater : OnlyMethods later) :
    OnlyMethods fun instruction => first instruction <|> later instruction := by
  intro instruction meaning asked
  obtain asksFirst | ⟨-, asksLater⟩ := (Option.orElse_eq_some _ _ _).mp asked
  · exact only instruction meaning asksFirst
  · exact onlyLater instruction meaning asksLater

/-- Redirecting the uses of two fields in a method, one after the other, and counting them. -/
def redirectBoth (name descriptor : String) (first second : ManagedField) :
    Enhancing (Nat × Nat) := do
  let count ← Enhancer.redirectFieldUses name descriptor first
  let countThen ← Enhancer.redirectFieldUses name descriptor second
  return (count, countThen)

theorem redirectBoth_eq_ok_iff {name descriptor : String} {first second : ManagedField}
    {before after : Enhancer} {count countThen : Nat} :
    redirectBoth name descriptor first second before = (.ok (count, countThen), after) ↔
      ∃ middle, Enhancer.redirectFieldUses name descriptor first before = (.ok count, middle) ∧
        Enhancer.redirectFieldUses name descriptor second middle = (.ok countThen, after) := by
  unfold redirectBoth
  simp only [Stateful.bind_eq_ok_iff, Stateful.pure_eq_ok_iff, Prod.mk.injEq]
  constructor
  · rintro ⟨_, middle, ran, _, _, ranThen, ⟨rfl, rfl⟩, rfl⟩
    exact ⟨middle, ran, ranThen⟩
  · rintro ⟨middle, ran, ranThen⟩
    exact ⟨count, middle, ran, countThen, after, ranThen, ⟨rfl, rfl⟩, rfl⟩

theorem exists_classesAlike_of_redirectBoth {start : Enhancer} (legible : start.file.Legible)
    (references : start.file.pool.checkReferences = .ok ()) {name descriptor : String}
    {first second : ManagedField} {field other : ResolvedField}
    (resolved : Enhancer.resolveField first.name first.descriptor start = .ok field)
    (resolvedOther : Enhancer.resolveField second.name second.descriptor start = .ok other)
    (differ : field.name ≠ other.name ∨ field.type.descriptor ≠ other.type.descriptor)
    {counts countsOther : Nat × Nat} {one last : Enhancer}
    (ran : redirectBoth name descriptor first second start = (.ok counts, one))
    (ranOther : redirectBoth name descriptor second first start = (.ok countsOther, last)) :
    countsOther = counts.swap ∧ ∃ move, ClassesAlike move name descriptor start one last := by
  obtain ⟨count, countThen⟩ := counts
  obtain ⟨countOther, countOtherThen⟩ := countsOther
  obtain ⟨mid, ran, ranThen⟩ := redirectBoth_eq_ok_iff.mp ran
  obtain ⟨midOther, ranOther, ranOtherThen⟩ := redirectBoth_eq_ok_iff.mp ranOther
  obtain ⟨sameField, user, _, _, _, _, _, rewritten⟩ := exists_rewritten legible ran
  obtain ⟨sameOther, _, _, _, _, _, _, rewrittenOther⟩ := exists_rewritten legible ranOther
  obtain rfl : field = sameField :=
    Except.ok.inj (resolved.symm.trans rewritten.examined.resolved)
  obtain rfl : other = sameOther :=
    Except.ok.inj (resolvedOther.symm.trans rewrittenOther.examined.resolved)
  obtain ⟨rfl, rfl, rfl, rfl⟩ := rewritten.examined.unique rewrittenOther.examined
  obtain ⟨counted, _, _, turned⟩ := rewritten.exists_turned legible differ resolvedOther
    rewrittenOther.judged ranThen
  obtain ⟨countedOther, _, _, turnedOther⟩ := rewrittenOther.exists_turned legible
    (differ.imp Ne.symm Ne.symm) resolved rewritten.judged ranOtherThen
  have either : (fun instruction =>
      calledFor? start.file.pool other user second.accessors instruction <|>
        calledFor? start.file.pool field user first.accessors instruction) =
      fun instruction => calledFor? start.file.pool field user first.accessors instruction <|>
        calledFor? start.file.pool other user second.accessors instruction :=
    funext fun _ => (orElse_comm (calledFor?_eq_none_or differ second.accessors)).symm
  rw [either] at turnedOther
  refine ⟨?_, exists_classesAlike legible references
    (onlyMethods_orElse onlyMethods_calledFor? onlyMethods_calledFor?) turned turnedOther⟩
  exact Prod.ext (rewrittenOther.count.trans counted.symm)
    (countedOther.trans rewritten.count.symm)

/-- Redirections of two fields of a class that was read, which differ in name or in descriptor, in
the one order and in the other: each of them counts the same, and the classes are alike. -/
theorem exists_classesAlike_of_read {bytes : Bytes} {file : ClassFile}
    (read : ClassFile.read bytes = .ok file) {reporting : Reporting}
    {inherited : List InheritedField} {name descriptor : String} {first second : ManagedField}
    {field other : ResolvedField}
    (resolved : Enhancer.resolveField first.name first.descriptor
      (.ofClass reporting inherited file) = .ok field)
    (resolvedOther : Enhancer.resolveField second.name second.descriptor
      (.ofClass reporting inherited file) = .ok other)
    (differ : field.name ≠ other.name ∨ field.type.descriptor ≠ other.type.descriptor)
    {counts countsOther : Nat × Nat} {one last : Enhancer}
    (ran : redirectBoth name descriptor first second (.ofClass reporting inherited file) =
      (.ok counts, one))
    (ranOther : redirectBoth name descriptor second first (.ofClass reporting inherited file) =
      (.ok countsOther, last)) :
    countsOther = counts.swap ∧
      ∃ move, ClassesAlike move name descriptor (.ofClass reporting inherited file) one last := by
  have proper := (ClassFile.read_eq_ok_iff.mp read).1
  exact exists_classesAlike_of_redirectBoth proper.legible proper.references resolved
    resolvedOther differ ran ranOther

/-- A class with two static fields and a method that reads the one, reads the other and then calls
what an index behind all constants names. -/
def fileOfTwoFields : Bytes :=
  [0xCA, 0xFE, 0xBA, 0xBE, 0, 0, 0, 52,
    0, 13, 1, 0, 1, 65, 7, 0, 1, 1, 0, 1, 120, 1, 0, 1, 73, 12, 0, 3, 0, 4, 9, 0, 2, 0, 5,
    1, 0, 1, 121, 12, 0, 7, 0, 4, 9, 0, 2, 0, 8,
    1, 0, 1, 109, 1, 0, 3, 40, 41, 86, 1, 0, 4, 67, 111, 100, 101,
    0, 33, 0, 2, 0, 0, 0, 0,
    0, 2, 0, 8, 0, 3, 0, 4, 0, 0, 0, 8, 0, 7, 0, 4, 0, 0,
    0, 1, 0, 9, 0, 10, 0, 11, 0, 1,
    0, 12, 0, 0, 0, 25, 0, 1, 0, 0, 0, 0, 0, 13,
    178, 0, 6, 87, 178, 0, 9, 87, 184, 0, 16, 87, 177, 0, 0, 0, 0,
    0, 0]

/-- The first field, to be read through `g`, and the second, to be read through `h`. -/
def firstOfTwo : ManagedField := ⟨"x", none, ⟨some "g", none⟩⟩

def secondOfTwo : ManagedField := ⟨"y", none, ⟨some "h", none⟩⟩

/-- Either field is used once, and the index behind all constants names the accessor of the one that
is redirected first. -/
theorem exists_runs_fileOfTwoFields :
    ∃ file field other one last, ClassFile.read fileOfTwoFields = .ok file ∧
      Enhancer.resolveField firstOfTwo.name firstOfTwo.descriptor
        (.ofClass .silent [] file) = .ok field ∧
      Enhancer.resolveField secondOfTwo.name secondOfTwo.descriptor
        (.ofClass .silent [] file) = .ok other ∧
      field.name ≠ other.name ∧
      redirectBoth "m" "()V" firstOfTwo secondOfTwo (.ofClass .silent [] file) =
        (.ok (1, 1), one) ∧
      redirectBoth "m" "()V" secondOfTwo firstOfTwo (.ofClass .silent [] file) =
        (.ok (1, 1), last) ∧
      (∃ method ∈ one.file.methods, callAt 8 16 ∈ Method.instructions method) ∧
      (∃ method ∈ last.file.methods, callAt 8 16 ∈ Method.instructions method) ∧
      one.file.pool.memberReference 16 = .ok ⟨"A", "g", "()I"⟩ ∧
      last.file.pool.memberReference 16 = .ok ⟨"A", "h", "()I"⟩ := by
  have computed : (ClassFile.read fileOfTwoFields).map (fun file =>
      let start := Enhancer.ofClass .silent [] file
      let one := redirectBoth "m" "()V" firstOfTwo secondOfTwo start
      let last := redirectBoth "m" "()V" secondOfTwo firstOfTwo start
      decide (Enhancer.resolveField "x" none start =
          .ok ⟨"A", "x", .base .int, true, false⟩ ∧
        Enhancer.resolveField "y" none start = .ok ⟨"A", "y", .base .int, true, false⟩ ∧
        one.1 = .ok (1, 1) ∧ last.1 = .ok (1, 1) ∧
        (∃ method ∈ one.2.file.methods, callAt 8 16 ∈ Method.instructions method) ∧
        (∃ method ∈ last.2.file.methods, callAt 8 16 ∈ Method.instructions method) ∧
        one.2.file.pool.memberReference 16 = .ok ⟨"A", "g", "()I"⟩ ∧
        last.2.file.pool.memberReference 16 = .ok ⟨"A", "h", "()I"⟩)) = .ok true := by
    decide +kernel
  cases read : ClassFile.read fileOfTwoFields with
  | error error =>
    rw [read] at computed
    cases computed
  | ok file =>
    rw [read] at computed
    obtain ⟨resolved, resolvedOther, ran, ranOther, names⟩ :=
      of_decide_eq_true (Except.ok.inj computed)
    exact ⟨file, _, _, _, _, rfl, resolved, resolvedOther, by decide, Prod.ext ran rfl,
      Prod.ext ranOther rfl, names⟩

/-- Either field of the class can be redirected first. -/
theorem exists_classesAlike_of_read_fileOfTwoFields :
    ∃ file one last, ClassFile.read fileOfTwoFields = .ok file ∧
      redirectBoth "m" "()V" firstOfTwo secondOfTwo (.ofClass .silent [] file) =
        (.ok (1, 1), one) ∧
      redirectBoth "m" "()V" secondOfTwo firstOfTwo (.ofClass .silent [] file) =
        (.ok (1, 1), last) ∧
      ∃ move, ClassesAlike move "m" "()V" (.ofClass .silent [] file) one last := by
  obtain ⟨file, field, other, one, last, read, resolved, resolvedOther, differ, ran, ranOther, -⟩ :=
    exists_runs_fileOfTwoFields
  exact ⟨file, one, last, read, ran, ranOther,
    (exists_classesAlike_of_read read resolved resolvedOther (.inl differ) ran ranOther).2⟩

/-- The call that was there from the beginning is not one of the same method in both classes. -/
theorem exists_not_nameAlike_fileOfTwoFields :
    ∃ file field other one last, ClassFile.read fileOfTwoFields = .ok file ∧
      Enhancer.resolveField firstOfTwo.name firstOfTwo.descriptor
        (.ofClass .silent [] file) = .ok field ∧
      Enhancer.resolveField secondOfTwo.name secondOfTwo.descriptor
        (.ofClass .silent [] file) = .ok other ∧
      field.name ≠ other.name ∧
      redirectBoth "m" "()V" firstOfTwo secondOfTwo (.ofClass .silent [] file) =
        (.ok (1, 1), one) ∧
      redirectBoth "m" "()V" secondOfTwo firstOfTwo (.ofClass .silent [] file) =
        (.ok (1, 1), last) ∧
      (∃ method ∈ one.file.methods, callAt 8 16 ∈ Method.instructions method) ∧
      (∃ method ∈ last.file.methods, callAt 8 16 ∈ Method.instructions method) ∧
      ¬NameAlike one.file.pool last.file.pool 16 16 := by
  obtain ⟨file, field, other, one, last, read, resolved, resolvedOther, differ, ran, ranOther,
    calls, callsOther, names, namesOther⟩ := exists_runs_fileOfTwoFields
  refine ⟨file, field, other, one, last, read, resolved, resolvedOther, differ, ran, ranOther,
    calls, callsOther, ?_⟩
  rintro ⟨_, _, reference, -, -, -, found, foundOther⟩
  obtain rfl := Except.ok.inj (found.symm.trans names)
  exact absurd (congrArg MemberReference.name (Except.ok.inj (foundOther.symm.trans namesOther)))
    (by decide)

end JavaClass.Enhancement
