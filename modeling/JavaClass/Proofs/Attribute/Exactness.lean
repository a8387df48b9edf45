/-
Numbers of limited size when a body is edited. Where pieces lie is counted in thirty-two bits,
offsets and lengths in tables are kept in sixteen, and so is how far a short branch leads; a number
that does not fit would be cut off without a word. None ever is. A piece takes at most eight times
as many bytes as the instruction it was, so even a pass whose result is refused for its length does
not count too far; what comes out is no longer than a method may be, which bounds every new offset;
the map keeps the order of offsets, so that none is taken from a smaller one; and a branch that does
not reach its target in sixteen bits has been promoted.
-/

import JavaClass.Proofs.Attribute.Unedited
import JavaClass.Proofs.Code.NewForm

namespace JavaClass

namespace Code

open CodeEdit

/-! ### Where pieces lie -/

/-- Edits with less than two gigabytes of code can be made to a method without a count running over.
-/
theorem addressable_of_small {code : Bytes} {edits : List CodeEdit}
    (within : code.length ≤ longestCode) (small : size edits < 2 ^ 31) :
    Addressable code edits := by
  have limit : longestCode = 65535 := rfl
  show 8 * code.length + size edits < 2 ^ 32
  omega

/-- No pass counts further than thirty-two bits, also if its result is refused. -/
theorem exists_settles_counted {code : Bytes} {edits : List CodeEdit}
    {instructions : List Instruction} (decoded : decode code = .ok instructions)
    (within : code.length ≤ longestCode) (small : size edits < 2 ^ 31) (allowed : Bool) :
    ∃ later result,
      Settles allowed code.length
        (pieces (EditTable.ofList edits) code.length instructions :: later) result ∧
      settleEdits allowed code.length edits instructions = result ∧
      ∀ row ∈ pieces (EditTable.ofList edits) code.length instructions :: later,
        endFrom 0 row < 2 ^ 32 := by
  obtain ⟨later, result, run, -⟩ := exists_settles allowed code.length
    (pieces (EditTable.ofList edits) code.length instructions)
  refine ⟨later, result, run, run.settle_eq (Nat.le_refl _), fun row member => ?_⟩
  obtain ⟨marked, rfl, -, rfl⟩ := exists_marks_of_pass run member
  exact (addressable_of_small within small).endFrom_lt (decode_eq_ok_iff.mp decoded).1

/-! ### What is written for branches -/

/-- Whether every distance that is written for a piece that stays has room: that of a short branch
in sixteen bits, any other in thirty-two. -/
def Placed.HasRoom (map : OffsetMap) (part : Placed) : Prop :=
  ∀ instruction promoted, part.piece = .kept instruction promoted →
    part.encode map = .ok ((part.image map.destination).flatMap Instruction.encode) ∧
    ∀ written ∈ part.image map.destination, ∀ target ∈ written.targets,
      (Opcode.isShortBranch written.opcode = true →
        -32768 ≤ (target : Int) - written.offset ∧ (target : Int) - written.offset ≤ 32767) ∧
      -2 ^ 31 ≤ (target : Int) - written.offset ∧ (target : Int) - written.offset < 2 ^ 31

theorem distance_of_reaches {length : Nat} {instruction : Instruction}
    (reaches : instruction.Reaches length) {target : Nat}
    (isTarget : target ∈ instruction.targets) :
    (Opcode.isShortBranch instruction.opcode = true →
      -32768 ≤ (target : Int) - instruction.offset ∧
        (target : Int) - instruction.offset ≤ 32767) ∧
    -2 ^ 31 ≤ (target : Int) - instruction.offset ∧
      (target : Int) - instruction.offset < 2 ^ 31 := by
  cases short : Opcode.isShortBranch instruction.opcode with
  | true =>
    obtain ⟨-, least, most⟩ := (reaches_iff_of_short short).mp reaches target isTarget
    exact ⟨fun _ => ⟨by omega, by omega⟩, by omega, by omega⟩
  | false =>
    obtain ⟨-, least, most⟩ := (reaches_iff_of_far short).mp reaches target isTarget
    exact ⟨(fun impossible => nomatch impossible), least, most⟩

theorem Relocates.hasRoom {code : Bytes} {edits : List CodeEdit} {allowed : Bool}
    {relocation : Relocation} {marked : List (Instruction × Bool)} {parts : List Bytes}
    (relocates : Relocates code edits allowed relocation marked parts) {part : Placed}
    (member : part ∈ placedFrom 0 (markedPieces edits code.length marked)) :
    part.HasRoom relocation.map := by
  intro instruction promoted kept
  have tiles := relocates.stands_succ.1.tiles
  refine ⟨?_, fun written inImage target isTarget => ?_⟩
  · obtain ⟨before, bytes, after, encoded, -⟩ := exists_around relocates.encoded
      (fun part member bytes => relocates.fills member) member
    obtain ⟨place, piece⟩ := part
    obtain rfl : piece = .kept instruction promoted := kept
    rw [encoded, encode_kept encoded]
    show _ = Except.ok ((image relocation.map.destination place instruction promoted).flatMap _)
    cases promoted with
    | false =>
      rw [image_of_kept, List.flatMap_singleton]
      rfl
    | true =>
      have promotable := relocates.promotable (relocates.kept_of_part member rfl).1 rfl
      rw [image_of_promoted _ _ promotable]
      rfl
  · have inCode : written ∈ rebuilt edits code.length relocation.map.destination marked := by
      rw [← relocates.flatMap_image]
      exact List.mem_flatMap.mpr ⟨part, member, inImage⟩
    exact distance_of_reaches (tiles.reaches written inCode) isTarget

/-- In the layout that edited code is written from, every distance has room. -/
theorem exists_layout_of_relocate {code : Bytes} {edits : List CodeEdit} {allowed : Bool}
    {relocation : Relocation} (addressable : Addressable code edits)
    (relocated : relocate code edits allowed = .ok relocation) :
    ∃ instructions layout, decode code = .ok instructions ∧
      settleEdits allowed code.length edits instructions = .ok layout ∧
      layout.map = relocation.map ∧
      (layout.placed.mapM (Placed.encode layout.map)).map List.flatten = .ok relocation.code ∧
      ∀ part ∈ layout.placed, part.HasRoom layout.map := by
  obtain ⟨-, instructions, layout, parts, decoded, fit, settled, encoded, rfl⟩ :=
    exists_of_relocate relocated
  obtain ⟨marked, laid⟩ := exists_laid_of_settle decoded fit settled encoded
  refine ⟨instructions, layout, decoded, settled, rfl,
    Outcome.map_eq_ok_iff.mpr ⟨parts, encoded, rfl⟩, ?_⟩
  rw [laid.placed_eq addressable]
  exact fun part member => (laid.relocates addressable).hasRoom member

end Code

/-! ### Tables -/

theorem StackMap.lt_of_mem_offsetsFrom {previous : Nat} {table : StackMap} :
    ∀ offset ∈ offsetsFrom (some previous) table, previous < offset := by
  induction table generalizing previous with
  | nil => exact List.forall_mem_nil _
  | cons frame rest inductionHypothesis =>
    have here : previous < offsetBehind (some previous) frame :=
      Nat.lt_succ_of_le (Nat.le_add_right _ _)
    exact List.forall_mem_cons.mpr
      ⟨here, fun offset member => Nat.lt_trans here (inductionHypothesis offset member)⟩

theorem StackMap.pairwise_offsetsFrom (previous : Option Nat) (table : StackMap) :
    (offsetsFrom previous table).Pairwise (· < ·) := by
  induction table generalizing previous with
  | nil => exact .nil
  | cons frame rest inductionHypothesis =>
    exact .cons lt_of_mem_offsetsFrom (inductionHypothesis _)

theorem StackMap.offsetsFrom_lt (previous : Option Nat) (table : StackMap) :
    ∀ offset ∈ offsetsFrom previous table,
      offset < (previous.map (· + 1)).getD 0 + 65536 * table.length := by
  induction table generalizing previous with
  | nil => exact List.forall_mem_nil _
  | cons frame rest inductionHypothesis =>
    have small : frame.delta.toNat < 65536 := frame.delta.toNat_lt
    have here : offsetBehind previous frame < (previous.map (· + 1)).getD 0 + 65536 := by
      cases previous with
      | none =>
        show frame.delta.toNat < 0 + 65536
        omega
      | some before =>
        show before + frame.delta.toNat + 1 < before + 1 + 65536
        omega
    rw [offsetsFrom, List.forall_mem_cons, List.length_cons, Nat.mul_succ]
    constructor
    · exact Nat.lt_of_lt_of_le here (Nat.add_le_add_left (Nat.le_add_left _ _) _)
    · intro offset member
      have later := inductionHypothesis _ offset member
      rw [Option.map_some, Option.getD_some] at later
      omega

/-! ### Edited bodies -/

/-- Whether nothing is lost of the numbers that come of moving things through a map. Every new
offset has room in sixteen bits; the end of a local variable does not go in front of its start, nor
a frame to or in front of one before it; and what is kept of these distances has room in sixteen
bits. -/
structure OffsetMap.Exact (map : OffsetMap) : Prop where
  offsets : ∀ old new, map.get? old = some new → new ≤ 65535
  lengths : ∀ (entry : LocalVariable) (start stop : Nat),
    map.get? entry.startPc.toNat = some start → map.get? entry.endPc = some stop →
      start ≤ stop ∧ stop - start ≤ 65535
  deltas : ∀ table : StackMap, table.offsets.Pairwise fun previous next =>
    ∀ newPrevious new, map.get? previous = some newPrevious → map.get? next = some new →
      newPrevious + 1 ≤ new ∧ new - newPrevious - 1 ≤ 65535

theorem OffsetMap.Orderly.exact {map : OffsetMap} (orderly : map.Orderly) : map.Exact := by
  have bounded {old new : Nat} (found : map.get? old = some new) : new ≤ 65535 :=
    orderly.bounded found
  refine ⟨fun _ _ => bounded, fun entry start stop startFound stopFound => ?_, fun table => ?_⟩
  · have ordered : start ≤ stop :=
      (orderly.le_iff startFound stopFound).mpr (Nat.le_add_right _ _)
    have small := bounded stopFound
    omega
  · rw [StackMap.offsets_eq]
    refine (StackMap.pairwise_offsetsFrom none table).imp ?_
    intro previous next behind newPrevious new previousFound found
    have ordered : newPrevious < new := (orderly.lt_iff previousFound found).mpr behind
    have small := bounded found
    omega

/-- Whether nothing is cut of the words that are stored for what goes through a map. Each of them is
the new offset it stands for, or gives it with the words in front of it: a length with the start of
its stretch, the distance of a frame with those of the frames before. -/
structure OffsetMap.StoresExactly (map : OffsetMap) : Prop where
  handlers : ∀ old new : ExceptionRange, old.move map = .ok new → old.Moved map new
  lines : ∀ old new : LineNumber, old.move map = .ok new → old.Moved map new
  locals : ∀ old new : LocalVariable, old.move map = .ok new → old.Moved map new
  types : ∀ old new : VerificationType, old.move map = .ok new → old.Moved map new
  frames : ∀ (oldPrevious newPrevious : Option Nat) (seen : List StackMapFrame)
    (old result : StackMap),
      Option.Rel (fun previous new => map.get? previous = some new) oldPrevious newPrevious →
      StackMap.moveBehind map oldPrevious newPrevious seen old = .ok result →
      ∃ new, result = seen.reverse ++ new ∧
        map.SendsAll (StackMap.offsetsFrom oldPrevious old) (StackMap.offsetsFrom newPrevious new) ∧
        List.Forall₂ (fun old new => (old.withDelta new.delta).Retyped map new) old new

theorem OffsetMap.Orderly.storesExactly {map : OffsetMap} (orderly : map.Orderly) :
    map.StoresExactly where
  handlers _ _ := (ExceptionRange.move_eq_ok_iff orderly).mp
  lines _ _ := (LineNumber.move_eq_ok_iff orderly).mp
  locals _ _ := (LocalVariable.move_eq_ok_iff orderly).mp
  types _ _ := (VerificationType.move_eq_ok_iff orderly).mp
  frames _ _ _ _ _ previous := (StackMap.moveBehind_eq_ok_iff orderly previous).mp

namespace Body

open CodeEdit Code

/-- Whether nothing is lost of the numbers that come of editing a body: of the places of pieces in
every pass and of the offsets of frames, which are counted in thirty-two bits, of the distances that
are written for branches, of everything that goes through the map, and of the words that are stored
for it. -/
structure EditsExactly (edits : List CodeEdit) (body : Body) : Prop where
  laidOut : ∀ instructions, decode body.code = .ok instructions → ∃ later result,
    Settles body.stackMap?.isNone body.code.length
      (pieces (EditTable.ofList edits) body.code.length instructions :: later) result ∧
    settleEdits body.stackMap?.isNone body.code.length edits instructions = result ∧
    ∀ row ∈ pieces (EditTable.ofList edits) body.code.length instructions :: later,
      endFrom 0 row < 2 ^ 32
  written : ∀ relocation, relocate body.code edits body.stackMap?.isNone = .ok relocation →
    ∃ instructions layout, decode body.code = .ok instructions ∧
      settleEdits body.stackMap?.isNone body.code.length edits instructions = .ok layout ∧
      layout.map = relocation.map ∧
      (layout.placed.mapM (Placed.encode layout.map)).map List.flatten = .ok relocation.code ∧
      ∀ part ∈ layout.placed, part.HasRoom layout.map
  moved : ∀ relocation, relocate body.code edits body.stackMap?.isNone = .ok relocation →
    relocation.map.Exact
  stored : ∀ relocation, relocate body.code edits body.stackMap?.isNone = .ok relocation →
    relocation.map.StoresExactly
  frames : ∀ entry ∈ body.attributes, ∀ table, entry.content = .stackMap table →
    ∀ offset ∈ table.offsets, offset < 2 ^ 32

/-- Editing a body that was read is exact, whether it succeeds or not, provided that no instruction
is replaced by nothing and that the edits come with less than two gigabytes of code. -/
theorem editsExactly_of_read {pool : Pool} {bytes rest : Bytes} {body : Body}
    {edits : List CodeEdit} (read : readWith (Attribute.read pool) bytes = .ok (body, rest))
    (noGap : LeaveNoGap edits) (small : size edits < 2 ^ 31) : body.EditsExactly edits := by
  have inverts := readWith_inverts (Attribute.read_inverts pool bytes.length)
  have proper := ((inverts _ _ _ (Nat.le_refl _)).mp read).1
  obtain ⟨within, -, -, attributes⟩ := wellFormed_iff.mp proper
  have addressable := addressable_of_small within small
  refine ⟨fun instructions decoded => exists_settles_counted decoded within small _,
    fun relocation relocated => exists_layout_of_relocate addressable relocated,
    fun relocation relocated => (orderly_of_relocate addressable relocated noGap).exact,
    fun relocation relocated => (orderly_of_relocate addressable relocated noGap).storesExactly,
    ?_⟩
  · rintro ⟨name, content⟩ member table rfl offset recorded
    obtain ⟨-, -, few, -⟩ := attributes _ member
    rw [StackMap.offsets_eq] at recorded
    have bound := StackMap.offsetsFrom_lt none table offset recorded
    simp only [Option.map_none, Option.getD_none] at bound
    omega

/-- A body with a table of every kind, and an instruction put in front of the one that its handler
begins with. -/
theorem editsExactly_of_read_selecting :
    readWith (Attribute.read poolOfSelecting) selecting.write = .ok (selecting, []) ∧
      LeaveNoGap [.insert 3 [0]] ∧ size [.insert 3 [0]] < 2 ^ 31 ∧
      selecting.EditsExactly [.insert 3 [0]] ∧
      ∃ relocation, relocate selecting.code [.insert 3 [0]] selecting.stackMap?.isNone =
        .ok relocation ∧ relocation.map.Exact := by
  have read : readWith (Attribute.read poolOfSelecting) selecting.write = .ok (selecting, []) := by
    refine (readWith_inverts (Attribute.read_inverts _ _) _ _ _ (Nat.le_refl _)).mpr ?_
    exact ⟨wellFormed_selecting, (List.append_nil _).symm⟩
  have noGap : LeaveNoGap [.insert 3 [0]] := by
    rintro _ (_ | ⟨_, ⟨⟩⟩) ⟨⟩
  have small : size [.insert 3 [0]] < 2 ^ 31 := by
    decide
  have exactly := editsExactly_of_read read noGap small
  have succeeds : (relocate selecting.code [.insert 3 [0]] selecting.stackMap?.isNone).isOk =
      true := by
    decide +kernel
  cases relocated : relocate selecting.code [.insert 3 [0]] selecting.stackMap?.isNone with
  | error error =>
    rw [relocated] at succeeds
    cases succeeds
  | ok relocation =>
    exact ⟨read, noGap, small, exactly, relocation, rfl, exactly.moved _ relocated⟩

end Body

end JavaClass
