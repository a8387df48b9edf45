/-
Instructions that turn into calls, told by what is called. Which instructions have to give way to
calls, and what each call says, depends on the constants that were there when the class was read and
on nothing else: neither on constants that were added since, nor on instructions that are calls by
now. So two fields that are not used by the same instruction can be redirected one after the other,
and what comes out is said by the instructions in the beginning.
-/

import JavaClass.Proofs.Enhancement.Leftover
import JavaClass.Proofs.Pool.Holding
import Mathlib.Data.Option.Basic

namespace JavaClass.Enhancement

open Pool (Meaning)

/-! ### What has to be called -/

/-- What the constant says that is needed for the call of an accessor. -/
def Redirection.meaning (field : ResolvedField) (redirection : Enhancer.Redirection) : Meaning :=
  .method field.ownerIsInterface field.owner redirection.accessor redirection.type.descriptor

/-- What has to be called in place of an instruction, if it uses a field in a direction that has an
accessor. -/
def calledFor? (pool : Pool) (field : ResolvedField) (user : String) (accessors : FieldAccessors)
    (instruction : Instruction) : Option Meaning :=
  (Redirection.at? pool field user accessors instruction).map (Redirection.meaning field)

/-- The call of the method that is named at an index. -/
def callAt (offset : Nat) (index : UInt16) : Instruction :=
  ⟨offset, Opcode.invokestatic, .plain (BigEndian.word16 index)⟩

section calls

variable {pool after : Pool} {field : ResolvedField} {user : String} {accessors : FieldAccessors}
  {instruction : Instruction}

theorem isSome_calledFor?_iff :
    (calledFor? pool field user accessors instruction).isSome = true ↔
      Redirectable pool field user accessors instruction := by
  rw [calledFor?, Option.isSome_map]
  exact isSome_ofSite?_iff

/-- Once it can be told which use of a field an instruction makes, it is told for good. -/
theorem calledFor?_of_extends (grown : pool.Extends after) {found : Option FieldSite}
    (judged : FieldSite.of? pool field user instruction = .ok found) :
    calledFor? after field user accessors instruction =
      calledFor? pool field user accessors instruction := by
  unfold calledFor? Redirection.at? FieldSite.known?
  rw [judged, FieldSite.of?_extends grown judged]

/-- Nothing has to be called in place of a call. -/
theorem calledFor?_callAt (offset : Nat) (index : UInt16) :
    calledFor? pool field user accessors (callAt offset index) = none := by
  have spared : Spared pool field user accessors (callAt offset index) := spared_of_call rfl
  exact Option.not_isSome_iff_eq_none.mp fun present =>
    spared.not_redirectable (isSome_calledFor?_iff.mp present)

/-- No instruction uses two fields that differ in name or in descriptor. -/
theorem calledFor?_eq_none_or {other : ResolvedField}
    (differ : field.name ≠ other.name ∨ field.type.descriptor ≠ other.type.descriptor)
    (accessorsOther : FieldAccessors) :
    calledFor? pool field user accessors instruction = none ∨
      calledFor? pool other user accessorsOther instruction = none := by
  by_contra both
  obtain ⟨one, two⟩ := not_or.mp both
  obtain ⟨_, -, uses⟩ := isSome_calledFor?_iff.mp (Option.isSome_iff_ne_none.mpr one)
  obtain ⟨_, -, usesOther⟩ := isSome_calledFor?_iff.mp (Option.isSome_iff_ne_none.mpr two)
  obtain ⟨-, index, reference, indexed, found, -, name, descriptor⟩ := uses
  obtain ⟨-, sameIndex, sameReference, indexedOther, foundOther, -, nameOther, descriptorOther⟩ :=
    usesOther
  obtain rfl := Option.some.inj (indexed.symm.trans indexedOther)
  obtain rfl := Except.ok.inj (found.symm.trans foundOther)
  obtain apart | apart := differ
  · exact apart (name.symm.trans nameOther)
  · exact apart (descriptor.symm.trans descriptorOther)

end calls

/-! ### Instructions that turn -/

/-- What becomes of an instruction if something has to be called in its place, and if nothing has.
-/
inductive Turns (after : Pool) (old : Instruction) : Option Meaning → Instruction → Prop
  | stays : Turns after old none old
  | calls {meaning : Meaning} {index : UInt16} (holds : after.Holds meaning index) :
      Turns after old (some meaning) (callAt old.offset index)

section twice

variable {before middle after : Pool} {first later laterHere : Instruction → Option Meaning}
  {olds mids news : List Instruction}
  (stays : ∀ old ∈ olds, laterHere old = later old)
  (calls : ∀ offset index, laterHere (callAt offset index) = none)
  (apart : ∀ old ∈ olds, first old = none ∨ later old = none)

include stays calls apart

/-- What has to be called once some instructions have turned is what had to be called before. -/
theorem filterMap_of_turns
    (row : List.Forall₂ (fun old new => Turns middle old (first old) new) olds mids) :
    mids.filterMap laterHere = olds.filterMap later := by
  induction row with
  | nil => rfl
  | @cons old mid olds mids turns _ inductionHypothesis =>
    obtain ⟨staysHere, staysLater⟩ := List.forall_mem_cons.mp stays
    obtain ⟨apartHere, apartLater⟩ := List.forall_mem_cons.mp apart
    -- A call is found where nothing had to be called later in the first place.
    have rest := inductionHypothesis staysLater apartLater
    have here : laterHere mid = later old := by
      generalize first old = meaning at turns apartHere
      cases turns with
      | stays => exact staysHere
      | calls => rw [calls, apartHere.resolve_left (Option.some_ne_none _)]
    rw [List.filterMap_cons, List.filterMap_cons, here, rest]

/-- Instructions that turned twice turned once, for the one reason or for the other. -/
theorem row_of_turns (assembled : middle.Assembled) (grown : middle.Extends after)
    (row : List.Forall₂ (fun old new => Turns middle old (first old) new) olds mids)
    (rowLater : List.Forall₂ (fun old new => Turns after old (laterHere old) new) mids news) :
    List.Forall₂ (fun old new => Turns after old (first old <|> later old) new) olds news := by
  induction row generalizing news with
  | nil =>
    cases rowLater
    exact .nil
  | @cons old mid olds mids turns _ inductionHypothesis =>
    obtain ⟨staysHere, staysLater⟩ := List.forall_mem_cons.mp stays
    obtain ⟨apartHere, apartLater⟩ := List.forall_mem_cons.mp apart
    cases rowLater with
    | @cons _ new _ news turnsLater rest =>
      refine .cons ?_ (inductionHypothesis staysLater apartLater rest)
      generalize first old = meaning at turns apartHere
      cases turns with
      | stays =>
        rw [staysHere] at turnsLater
        exact turnsLater
      | calls holds =>
        rw [calls] at turnsLater
        cases turnsLater
        exact .calls (holds.extends grown assembled)

end twice

/-! ### Redirections in a body -/

/-- Whether an edit puts the call that a redirection asks for where it asks for it. -/
def CarriesOut (pool : Pool) (field : ResolvedField) (redirection : Enhancer.Redirection)
    (edit : CodeEdit) : Prop :=
  ∃ index, edit = .replace redirection.offset (Opcode.invokestatic :: BigEndian.word16 index) ∧
    pool.Holds (Redirection.meaning field redirection) index

section edits

variable {before after : Pool} {field : ResolvedField} {user : String} {accessors : FieldAccessors}

theorem gains_of_editRedirection (assembled : before.Assembled) {redirection : Enhancer.Redirection}
    {edit : CodeEdit} (made : redirection.edit field before = (.ok edit, after)) :
    CarriesOut after field redirection edit ∧
      Pool.Gains before (Redirection.meaning field redirection).parts after := by
  obtain ⟨index, middle, interned, done⟩ := Stateful.bind_eq_ok_iff.mp made
  obtain ⟨rfl, rfl⟩ := Stateful.pure_eq_ok_iff.mp done
  have sort : (if field.ownerIsInterface then Pool.internInterfaceMethod else Pool.internMethod) =
      Pool.internMember (Pool.methodConstant field.ownerIsInterface) := by
    cases field.ownerIsInterface <;> rfl
  rw [sort] at interned
  obtain ⟨holds, gains⟩ := Pool.gains_of_internMethod assembled interned
  exact ⟨⟨index, rfl, holds⟩, gains⟩

theorem gains_of_editRedirections (assembled : before.Assembled)
    {redirections : List Enhancer.Redirection} {edits : List CodeEdit}
    (made : redirections.mapM (Enhancer.Redirection.edit field) before = (.ok edits, after)) :
    List.Forall₂ (CarriesOut after field) redirections edits ∧
      Pool.Gains before ((redirections.map (Redirection.meaning field)).flatMap Meaning.parts)
        after := by
  induction redirections generalizing before edits with
  | nil =>
    obtain ⟨rfl, rfl⟩ := Stateful.pure_eq_ok_iff.mp made
    exact ⟨.nil, .none before⟩
  | cons redirection rest inductionHypothesis =>
    rw [List.mapM_cons] at made
    obtain ⟨edit, middle, here, made⟩ := Stateful.bind_eq_ok_iff.mp made
    obtain ⟨others, last, there, done⟩ := Stateful.bind_eq_ok_iff.mp made
    obtain ⟨rfl, rfl⟩ := Stateful.pure_eq_ok_iff.mp done
    obtain ⟨⟨index, same, holds⟩, gains⟩ := gains_of_editRedirection assembled here
    have assembledMiddle := gains.grown.assembled assembled
    obtain ⟨row, gainsLater⟩ := inductionHypothesis assembledMiddle there
    exact ⟨.cons ⟨index, same, holds.extends gainsLater.grown assembledMiddle⟩ row,
      gains.append assembled gainsLater⟩

/-- Edits that carry out the redirections of instructions let these turn. -/
theorem row_of_carriesOut {code : Bytes} {instructions : List Instruction}
    {edits : List CodeEdit} (decoded : Code.decode code = .ok instructions)
    (carried : List.Forall₂ (CarriesOut after field)
      (instructions.filterMap (Redirection.at? before field user accessors)) edits) :
    List.Forall₂ (fun old new => Turns after old (calledFor? before field user accessors old) new)
      instructions (instructions.flatMap (Code.successors edits)) := by
  refine forall₂_flatMap_of_singletons fun instruction member => ?_
  unfold Code.successors
  cases found : CodeEdit.replacementAt? edits instruction.offset with
  | none =>
    have unasked : Redirection.at? before field user accessors instruction = none := by
      by_contra asked
      obtain ⟨redirection, asked⟩ := Option.ne_none_iff_exists'.mp asked
      obtain ⟨edit, isEdit, index, rfl, -⟩ := exists_mem_of_forall₂_right carried.flip
        (List.mem_filterMap.mpr ⟨instruction, member, asked⟩)
      obtain ⟨_, -, -, place, -⟩ := Redirection.at?_eq_some_iff.mp asked
      have replaced := Code.isSome_replacementAt?_of_mem isEdit
      rw [place, found] at replaced
      cases replaced
    refine ⟨instruction, rfl, ?_⟩
    rw [calledFor?, unasked]
    exact .stays
  | some substitute =>
    obtain ⟨redirection, redirected, index, same, holds⟩ :=
      exists_mem_of_forall₂_right carried (CodeEdit.mem_of_replacementAt? found)
    obtain ⟨place, rfl⟩ := CodeEdit.replace.inj same
    obtain ⟨other, otherMember, asked⟩ := List.mem_filterMap.mp redirected
    obtain ⟨_, -, -, otherPlace, -⟩ := Redirection.at?_eq_some_iff.mp asked
    obtain rfl := (Code.decode_eq_ok_iff.mp decoded).1.eq_of_offset_eq otherMember member
      (otherPlace.symm.trans place.symm)
    refine ⟨_, instructionsAt_call _ _, ?_⟩
    rw [calledFor?, asked]
    exact .calls holds

end edits

/-! ### Methods whose instructions turned -/

/-- A class in a method of which instructions turned one by one into what had to be called in their
places. The constants that were needed for it were added, and nothing else has changed. -/
structure Turned (name descriptor : String) (called : Instruction → Option Meaning)
    (method : Method) (old new : Body) (olds news : List Instruction) (before after : Enhancer) :
    Prop where
  found : before.file.method? name descriptor = some method
  hasBody : Method.body? method = some old
  decodedOld : old.instructions = .ok olds
  decoded : new.instructions = .ok news
  recoded : new = { old with code := new.code }
  row : List.Forall₂ (fun old new => Turns after.file.pool old (called old) new) olds news
  gains : Pool.Gains before.file.pool ((olds.filterMap called).flatMap Meaning.parts)
    after.file.pool
  rest : ∀ front back, before.file.Located name descriptor front method back →
    after = { before with
      file := { before.file with
        pool := after.file.pool, methods := front ++ Method.setBody new method :: back } }

section methods

variable {name descriptor : String} {called : Instruction → Option Meaning} {method : Method}
  {old new : Body} {olds news : List Instruction} {before after : Enhancer}

/-- Nothing turns where nothing has to be called. -/
theorem turned_of_filterMap_eq_nil (found : before.file.method? name descriptor = some method)
    (hasBody : Method.body? method = some old) (decoded : old.instructions = .ok olds)
    (nothing : olds.filterMap called = []) :
    Turned name descriptor called method old old olds olds before before where
  found := found
  hasBody := hasBody
  decodedOld := decoded
  decoded := decoded
  recoded := by
    cases old
    rfl
  row := by
    refine List.forall₂_same.mpr fun instruction member => ?_
    rw [List.filterMap_eq_nil_iff.mp nothing instruction member]
    exact .stays
  gains := by
    rw [nothing]
    exact .none _
  rest front back located := by
    rw [Method.setBody_of_body? hasBody, ← located.methods]

variable (turned : Turned name descriptor called method old new olds news before after)

include turned

theorem Turned.keepsFields : before.KeepsFields after := by
  obtain ⟨front, back, located⟩ := ClassFile.exists_located turned.found
  have grown := turned.gains.grown
  rw [turned.rest front back located] at grown ⊢
  exact ⟨grown, rfl, rfl, rfl, rfl⟩

theorem Turned.legible (legible : before.file.Legible) : after.file.Legible := by
  obtain ⟨front, back, located⟩ := ClassFile.exists_located turned.found
  have attributes : new.attributes = old.attributes := by rw [turned.recoded]
  rw [turned.rest front back located]
  exact legible.withBody turned.gains.grown located.methods turned.hasBody attributes

variable (legible : before.file.Legible)

include legible

theorem Turned.located {front back : List Method}
    (located : before.file.Located name descriptor front method back) :
    after.file.Located name descriptor front (Method.setBody new method) back := by
  have still := located.extends legible turned.gains.grown
  rw [turned.rest front back located]
  exact ⟨rfl, still.called, still.others⟩

/-- The method is found again, with its new body. -/
theorem Turned.method?_eq :
    after.file.method? name descriptor = some (Method.setBody new method) := by
  obtain ⟨front, back, located⟩ := ClassFile.exists_located turned.found
  exact (turned.located legible located).method?_eq

/-- What turns next is the method that turned before. -/
theorem Turned.pins {calledLater : Instruction → Option Meaning} {methodLater : Method}
    {oldLater newest : Body} {oldsLater newests : List Instruction} {last : Enhancer}
    (later : Turned name descriptor calledLater methodLater oldLater newest oldsLater newests after
      last) : methodLater = Method.setBody new method ∧ oldLater = new ∧ oldsLater = news := by
  obtain rfl := Option.some.inj (later.found.symm.trans (turned.method?_eq legible))
  have hasBody := Method.body?_setBody turned.hasBody new
  obtain rfl := Option.some.inj (later.hasBody.symm.trans hasBody)
  exact ⟨rfl, rfl, Except.ok.inj (later.decodedOld.symm.trans turned.decoded)⟩

end methods

section twice

variable {name descriptor : String} {first later laterHere : Instruction → Option Meaning}
  {method : Method} {old mid new : Body} {olds mids news : List Instruction}
  {before middle after : Enhancer}

/-- What has to be called on the whole is what has to be called for the one reason or the other. -/
theorem mem_parts_or_iff (apart : ∀ old ∈ olds, first old = none ∨ later old = none)
    (meaning : Meaning) :
    meaning ∈ (olds.filterMap fun old => first old <|> later old).flatMap Meaning.parts ↔
      meaning ∈ (olds.filterMap first).flatMap Meaning.parts ++
        (olds.filterMap later).flatMap Meaning.parts := by
  simp only [List.mem_append, List.mem_flatMap, List.mem_filterMap, Option.orElse_eq_some]
  constructor
  · rintro ⟨called, ⟨old, member, asked | ⟨-, asked⟩⟩, part⟩
    · exact .inl ⟨called, ⟨old, member, asked⟩, part⟩
    · exact .inr ⟨called, ⟨old, member, asked⟩, part⟩
  · rintro (⟨called, ⟨old, member, asked⟩, part⟩ | ⟨called, ⟨old, member, asked⟩, part⟩)
    · exact ⟨called, ⟨old, member, .inl asked⟩, part⟩
    · have none := (apart old member).resolve_right (asked ▸ Option.some_ne_none called)
      exact ⟨called, ⟨old, member, .inr ⟨none, asked⟩⟩, part⟩

/-- A class in which instructions turned twice is one in which they turned once. -/
theorem Turned.trans (legible : before.file.Legible)
    (turned : Turned name descriptor first method old mid olds mids before middle)
    (turnedLater : Turned name descriptor laterHere (Method.setBody mid method) mid new mids news
      middle after)
    (stays : ∀ old ∈ olds, laterHere old = later old)
    (calls : ∀ offset index, laterHere (callAt offset index) = none)
    (apart : ∀ old ∈ olds, first old = none ∨ later old = none) :
    Turned name descriptor (fun old => first old <|> later old) method old new olds news before
      after where
  found := turned.found
  hasBody := turned.hasBody
  decodedOld := turned.decodedOld
  decoded := turnedLater.decoded
  recoded := by
    rw [turnedLater.recoded, turned.recoded]
  row := row_of_turns stays calls apart (turned.gains.grown.assembled legible.pool)
    turnedLater.gains.grown turned.row turnedLater.row
  gains := by
    have gainsLater := turnedLater.gains
    rw [filterMap_of_turns stays calls apart turned.row] at gainsLater
    exact (turned.gains.append legible.pool gainsLater).congr fun meaning =>
      (mem_parts_or_iff apart meaning).symm
  rest front back located := by
    rw [turnedLater.rest front back (turned.located legible located),
      turned.rest front back located, Method.setBody_setBody]

end twice

/-! ### One redirection -/

/-- A class in a method of which the uses of a field were redirected, as many as are counted, after
it could be told of each instruction which use it makes. -/
structure Rewritten (name descriptor : String) (managed : ManagedField) (field : ResolvedField)
    (user : String) (method : Method) (old new : Body) (olds news : List Instruction)
    (before : Enhancer) (count : Nat) (after : Enhancer) : Prop where
  examined : Examined before name descriptor managed field user method old olds
  judged : ∀ instruction ∈ olds, ∃ found,
    FieldSite.of? before.file.pool field user instruction = .ok found
  count : count =
    (olds.filterMap (calledFor? before.file.pool field user managed.accessors)).length
  turned : Turned name descriptor (calledFor? before.file.pool field user managed.accessors) method
    old new olds news before after

theorem exists_rewritten {before after : Enhancer} {name descriptor : String}
    {managed : ManagedField} {count : Nat} (legible : before.file.Legible)
    (ran : Enhancer.redirectFieldUses name descriptor managed before = (.ok count, after)) :
    ∃ field user method old new olds news,
      Rewritten name descriptor managed field user method old new olds news before count after := by
  obtain ⟨field, user, method, body, instructions, sites, edited, examined, sought, redirecting⟩ :=
    exists_redirecting legible ran
  have judged := exists_of?_of_findAll sought
  have redirects : Redirects before.file.pool field user managed.accessors instructions
      (sites.filterMap (Redirection.ofSite? field managed.accessors)) := redirects_of_findAll sought
  rw [filterMap_of_findAll sought managed.accessors] at redirecting redirects
  have called : instructions.filterMap
      (calledFor? before.file.pool field user managed.accessors) =
        (instructions.filterMap (Redirection.at? before.file.pool field user managed.accessors)).map
          (Redirection.meaning field) := List.map_filterMap.symm
  generalize wanted : instructions.filterMap
    (Redirection.at? before.file.pool field user managed.accessors) = redirections
    at redirecting redirects called
  cases redirecting with
  | nothing =>
    refine ⟨field, user, method, body, body, instructions, instructions, examined, judged, ?_,
      turned_of_filterMap_eq_nil examined.found examined.hasBody examined.decoded called⟩
    rw [called]
    rfl
  | @edited _ edits pool _ _ made editRan =>
    have calls := forall₂_callsInstead legible.pool made
    have fit := legible.bodies _ (List.mem_of_find?_eq_some examined.found) _ examined.hasBody
    have inPlace := inPlace_of_callsInstead examined.decoded redirects calls
    obtain ⟨relocation, -, repaired, rfl⟩ :=
      Body.eq_of_edit_inPlace editRan examined.decoded inPlace fit
    obtain ⟨carried, gains⟩ := gains_of_editRedirections legible.pool made
    refine ⟨field, user, method, body, { body with code := relocation.code }, instructions,
      instructions.flatMap (Code.successors edits), examined, judged, ?_, {
        found := examined.found
        hasBody := examined.hasBody
        decodedOld := examined.decoded
        decoded := repaired.new
        recoded := rfl
        row := ?_
        gains := ?_
        rest := fun front back located =>
          congrArg (fun file => { before with file := file })
            ((located.extends legible gains.grown).changeMethod_eq _) }⟩
    · rw [called, List.length_map]
      exact carried.length_eq.symm
    · subst wanted
      exact row_of_carriesOut examined.decoded carried
    · rw [called]
      exact gains

end JavaClass.Enhancement
