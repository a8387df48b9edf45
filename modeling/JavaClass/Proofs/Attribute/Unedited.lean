/-
Bodies to which no edits are made. Decoded code is laid out where it lies and written down again,
and the only bytes that decoding does not keep are those that pad a switch: where they are zeros, as
they are when they are written, the code comes out byte for byte. The map is then that of the
instructions and the end with themselves, so everything that refers to one of these stays, and so
does the form of a frame, since a frame that was read has room for the distance it was read with.
-/

import JavaClass.Proofs.Attribute.InPlace
import JavaClass.Proofs.Code.Passes

namespace JavaClass

namespace Code

open CodeEdit

/-! ### Code that is written down again -/

/-- Edits in place succeed, unless the code is too long as it is. -/
theorem relocate_of_inPlace {code : Bytes} {edits : List CodeEdit}
    {instructions : List Instruction} (decoded : decode code = .ok instructions)
    (checked :
      checkAll (.ofList (instructions.map Instruction.offset)) code.length [] edits = .ok ())
    (inPlace : InPlace instructions edits) (within : code.length ≤ longestCode) (allowed : Bool) :
    relocate code edits allowed =
      .ok ⟨(instructions.map (patched edits)).flatten,
        .ofList (fixedPairs instructions code.length), 0⟩ := by
  obtain ⟨tiles, closed⟩ := decode_eq_ok_iff.mp decoded
  have short : code.length < UInt32.size := Nat.lt_of_le_of_lt within (by decide)
  have laidOut := (layOut_eq_ok_iff_of_inPlace short tiles inPlace).mpr ⟨within, rfl⟩
  have settled := (settle_of_inPlace short decoded inPlace allowed).trans laidOut
  have written := (fixes_fixedPairs tiles).mapM_encode closed edits
  have unpromoted := promotions_unmarkedPieces edits instructions
  rw [relocate_of_settle_ok short decoded checked settled written, standing, List.map_map]
  exact congrArg (fun count => Except.ok (Relocation.mk _ _ count)) unpromoted

/-- Whether the bytes that pad the switches of decoded code are zeros. -/
def ZeroPadded (code : Bytes) (instructions : List Instruction) : Prop :=
  ∀ instruction ∈ instructions, ∀ position, InPadding instruction position →
    code[position]? = some 0

theorem inPlace_nil (instructions : List Instruction) : InPlace instructions [] where
  replaces := List.forall_mem_nil _
  lengths _ _ _ impossible := nomatch impossible

/-- Instructions that are written one behind the other are the code they were decoded from. -/
theorem flatten_encode_eq {code : Bytes} {instructions : List Instruction}
    (tiles : Tiles code.length 0 code instructions) (zeros : ZeroPadded code instructions) :
    (instructions.map (patched [])).flatten = code := by
  -- No edits are edits in place, which leave every byte alone but the padding of switches.
  refine List.ext_getElem? fun position => ?_
  have kept := byteKept_row tiles (inPlace_nil instructions) position
  rw [Nat.zero_add] at kept
  obtain same | ⟨instruction, member, padding, zero⟩ | ⟨_, _, _, impossible⟩ := kept
  · exact same
  · rw [zero, zeros instruction member position padding]
  · cases impossible

theorem isIdentity_fixedPairs {code : Bytes} {instructions : List Instruction}
    (tiles : Tiles code.length 0 code instructions) :
    (OffsetMap.ofList (fixedPairs instructions code.length)).isIdentity = true := by
  rw [OffsetMap.isIdentity, toList_ofList (increasing_fixedPairs tiles).keyed,
    List.all_eq_true]
  rintro ⟨old, new⟩ member
  have fixed := (get?_ofList_eq_some_iff (increasing_fixedPairs tiles).keyed).mpr member
  exact beq_iff_eq.mpr ((fixes_fixedPairs tiles).movesNothing _ _ fixed).symm

end Code

/-! ### Tables whose offsets stay -/

/-- Whether a map sends every one of some offsets to itself. -/
def OffsetMap.KeepsAll (map : OffsetMap) (offsets : List Nat) : Prop :=
  ∀ offset ∈ offsets, map.get? offset = some offset

section keeps

variable {map : OffsetMap}

theorem OffsetMap.KeepsAll.sendsAll {offsets : List Nat} (keeps : map.KeepsAll offsets) :
    map.SendsAll offsets offsets :=
  List.forall₂_same.mpr keeps

/-- What stays of all items together stays of each. -/
theorem OffsetMap.KeepsAll.of_mem {α : Type} {offsets : α → List Nat} {items : List α}
    (keeps : map.KeepsAll (items.flatMap offsets)) {item : α} (member : item ∈ items) :
    map.KeepsAll (offsets item) :=
  fun offset inItem => keeps offset (List.mem_flatMap.mpr ⟨item, member, inItem⟩)

theorem OffsetMap.keepsAll_append {front back : List Nat} :
    map.KeepsAll (front ++ back) ↔ map.KeepsAll front ∧ map.KeepsAll back :=
  List.forall_mem_append

theorem ExceptionRange.moved_self {range : ExceptionRange}
    (keeps : map.KeepsAll range.recordedOffsets) : range.Moved map range := by
  obtain ⟨start, others⟩ := List.forall_mem_cons.mp keeps
  obtain ⟨stop, others⟩ := List.forall_mem_cons.mp others
  exact ⟨start, stop, others _ List.mem_cons_self, rfl⟩

theorem LocalVariable.moved_self {entry : LocalVariable}
    (keeps : map.KeepsAll entry.recordedOffsets) : entry.Moved map entry := by
  obtain ⟨start, rest⟩ := List.forall_mem_cons.mp keeps
  exact ⟨start, rest _ List.mem_cons_self, rfl, rfl, rfl⟩

theorem VerificationType.moved_self {type : VerificationType}
    (keeps : ∀ offset, type.offset? = some offset → map.get? offset = some offset) :
    type.Moved map type := by
  cases type with
  | uninitialized offset => exact ⟨offset, rfl, keeps _ rfl⟩
  | top | integer | float | double | long | null | uninitializedThis | object => rfl

theorem StackMapFrame.retyped_self {frame : StackMapFrame}
    (types : ∀ type ∈ frame.types, type.Moved map type) : frame.Retyped map frame := by
  cases frame with
  | sameLocals delta stack | sameLocalsExtended delta stack =>
    exact ⟨stack, rfl, types _ List.mem_cons_self⟩
  | append delta locals => exact ⟨locals, rfl, List.forall₂_same.mpr types⟩
  | full delta locals stack =>
    obtain ⟨localsStay, stackStays⟩ := List.forall_mem_append.mp types
    exact ⟨locals, stack, rfl, List.forall₂_same.mpr localsStay, List.forall₂_same.mpr stackStays⟩
  | same | chop | sameExtended => rfl

theorem StackMap.moved_self {table : StackMap} (keeps : map.KeepsAll table.recordedOffsets)
    (proper : ∀ frame ∈ table, frame.WellFormed) : table.Moved map table := by
  obtain ⟨places, types⟩ := OffsetMap.keepsAll_append.mp keeps
  refine ⟨places.sendsAll, List.forall₂_same.mpr fun frame member => ?_⟩
  rw [StackMapFrame.withDelta_eq_self (proper frame member)]
  refine StackMapFrame.retyped_self fun type inFrame => ?_
  have inTable := List.mem_flatMap.mpr ⟨frame, member, inFrame⟩
  exact VerificationType.moved_self fun offset recorded =>
    types offset (List.mem_filterMap.mpr ⟨type, inTable, recorded⟩)

theorem Content.moved_self {content : Content} (keeps : map.KeepsAll content.recordedOffsets)
    (fit : content.FramesFit) : content.Moved map content := by
  cases content with
  | lineNumbers table =>
    refine ⟨table, rfl, List.forall₂_same.mpr fun entry member => ⟨?_, rfl⟩⟩
    exact keeps _ (List.mem_map_of_mem member)
  | localVariables table | localVariableTypes table =>
    refine ⟨table, rfl, List.forall₂_same.mpr fun entry member => ?_⟩
    exact LocalVariable.moved_self (keeps.of_mem member)
  | stackMap table => exact ⟨table, rfl, StackMap.moved_self keeps (fit table rfl)⟩
  | code | exceptions | sourceFile | constantValue | synthetic | deprecated | raw => rfl

end keeps

/-! ### Bodies that stay -/

namespace Body

open CodeEdit

/-- A body whose code comes out as it is stays as it is, if the map keeps what it refers to. -/
theorem edited_self {body : Body} {edits : List CodeEdit} {relocation : Code.Relocation}
    (relocated : Code.relocate body.code edits body.stackMap?.isNone = .ok relocation)
    (same : relocation.code = body.code) (keeps : relocation.map.KeepsAll body.recordedOffsets)
    (fit : body.FramesFit) : Edited edits relocation.map body body := by
  obtain ⟨handlers, attributes⟩ := OffsetMap.keepsAll_append.mp keeps
  exact {
    relocated := ⟨relocation, relocated, same.symm, rfl⟩
    maxStack := rfl
    maxLocals := rfl
    handlers := List.forall₂_same.mpr fun range member =>
      ExceptionRange.moved_self (handlers.of_mem member)
    attributes := List.forall₂_same.mpr fun entry member =>
      ⟨rfl, Content.moved_self (attributes.of_mem member) (fit entry member)⟩ }

/-- Frames that were read have room for what they were read with. -/
theorem framesFit_of_read {pool : Pool} {bytes rest : Bytes} {body : Body}
    (read : readWith (Attribute.read pool) bytes = .ok (body, rest)) : body.FramesFit := by
  have inverts := readWith_inverts (Attribute.read_inverts pool bytes.length)
  exact framesFit_of_wellFormed ((inverts _ _ _ (Nat.le_refl _)).mp read).1

/-- Encoding undoes decoding. Code that decodes, is not too long and pads its switches with zeros
comes out of no edits as it is, with the map that sends its instructions and its end to themselves;
and a body that was read with such code, and refers to nothing but these, is the same afterwards. -/
theorem unchanged_of_no_edits {code : Bytes} {instructions : List Instruction}
    (decoded : Code.decode code = .ok instructions) (within : code.length ≤ longestCode)
    (zeros : Code.ZeroPadded code instructions) :
    ∃ map : OffsetMap, Code.Fixes map instructions code.length ∧ map.isIdentity = true ∧
      (∀ allowed, Code.relocate code [] allowed = .ok ⟨code, map, 0⟩) ∧
      ∀ (pool : Pool) (bytes rest : Bytes) (body : Body),
        readWith (Attribute.read pool) bytes = .ok (body, rest) → body.code = code →
        (∀ offset ∈ body.recordedOffsets, Code.IsBoundary instructions code.length offset) →
        edit [] body = (.ok map, body) := by
  obtain ⟨tiles, -⟩ := Code.decode_eq_ok_iff.mp decoded
  have fixes := Code.fixes_fixedPairs tiles
  have relocated (allowed : Bool) : Code.relocate code [] allowed =
      .ok ⟨code, .ofList (Code.fixedPairs instructions code.length), 0⟩ := by
    rw [Code.relocate_of_inPlace decoded rfl (Code.inPlace_nil _) within,
      Code.flatten_encode_eq tiles zeros]
  refine ⟨_, fixes, Code.isIdentity_fixedPairs tiles, relocated, ?_⟩
  rintro pool bytes rest body read rfl refers
  have addressable : Code.Addressable body.code [] := by
    have limit : longestCode = 65535 := rfl
    show 8 * body.code.length + 0 < 2 ^ 32
    omega
  have noGap : LeaveNoGap [] := List.forall_mem_nil _
  refine (edit_eq_ok_iff_edited addressable noGap).mpr ?_
  exact edited_self (relocated _) rfl
    (fun offset recorded => (fixes offset offset).mpr ⟨rfl, refers offset recorded⟩)
    (framesFit_of_read read)

/-- A body with a padded switch, a handler, lines, a local variable and frames. -/
def selecting : Body :=
  { maxStack := 2
    maxLocals := 1
    code := [0xBB, 0, 1, 0x57, 3, 0xAB, 0, 0, 0, 0, 0, 11, 0, 0, 0, 0, 0xB1]
    handlers := [⟨0, 3, 3, none⟩]
    attributes := [
      ⟨1, .lineNumbers [⟨0, 10⟩, ⟨16, 11⟩]⟩,
      ⟨2, .localVariables [⟨4, 13, 8, 9, 0⟩]⟩,
      ⟨3, .stackMap [.sameLocals 3 (.uninitialized 0), .same 12]⟩] }

/-- The instructions of `selecting`. -/
def selected : List Instruction :=
  [⟨0, 0xBB, .plain [0, 1]⟩, ⟨3, 0x57, .plain []⟩, ⟨4, 3, .plain []⟩,
    ⟨5, 0xAB, .lookupSwitch 16 []⟩, ⟨16, 0xB1, .plain []⟩]

/-- The names of the attributes in `selecting`. -/
def poolOfSelecting : Pool :=
  ["LineNumberTable", "LocalVariableTable", "StackMapTable"].foldl
    (fun pool name => (Pool.internText name pool).2) Pool.empty

theorem wellFormed_selecting : selecting.WellFormed poolOfSelecting := by
  have one : 1 < 2 ^ 16 := by decide
  have two : 2 < 2 ^ 16 := by decide
  have near : (3 : UInt16) < StackMapFrame.compactLimit ∧
      (12 : UInt16) < StackMapFrame.compactLimit := by
    decide
  refine wellFormed_iff.mpr ⟨by decide, ⟨by decide, ?_⟩, by decide, ?_⟩
  · exact List.forall_mem_singleton.mpr fun impossible => nomatch impossible
  · refine List.forall_mem_cons.mpr ⟨?_, List.forall_mem_cons.mpr ⟨?_,
      List.forall_mem_singleton.mpr ?_⟩⟩
    · exact ⟨⟨"LineNumberTable", by decide +kernel, rfl⟩, by decide, two⟩
    · exact ⟨⟨"LocalVariableTable", by decide +kernel, rfl⟩, by decide, one⟩
    · refine ⟨⟨"StackMapTable", by decide +kernel, rfl⟩, by decide, two, ?_⟩
      exact List.forall_mem_cons.mpr ⟨near.1, List.forall_mem_singleton.mpr near.2⟩

theorem zeroPadded_selected : Code.ZeroPadded selecting.code selected := by
  rintro instruction member position ⟨switch, behind, within⟩
  have only : ∀ instruction ∈ selected, instruction.opcode = Opcode.tableswitch ∨
      instruction.opcode = Opcode.lookupswitch → instruction.offset = 5 := by
    decide
  rw [only instruction member switch] at behind within
  have two : switchPadding 5 = 2 := rfl
  obtain rfl | rfl : position = 6 ∨ position = 7 := by omega
  · rfl
  · rfl

/-- Read from the bytes it is written as, the body is the same after no edits. -/
theorem unchanged_of_no_edits_selecting :
    ∃ map, Code.decode selecting.code = .ok selected ∧ selecting.code.length ≤ longestCode ∧
      Code.ZeroPadded selecting.code selected ∧
      readWith (Attribute.read poolOfSelecting) selecting.write = .ok (selecting, []) ∧
      (∀ offset ∈ selecting.recordedOffsets,
        Code.IsBoundary selected selecting.code.length offset) ∧
      Code.relocate selecting.code [] false = .ok ⟨selecting.code, map, 0⟩ ∧
      edit [] selecting = (.ok map, selecting) := by
  have decoded : Code.decode selecting.code = .ok selected := by
    decide +kernel
  have read : readWith (Attribute.read poolOfSelecting) selecting.write = .ok (selecting, []) := by
    refine (readWith_inverts (Attribute.read_inverts _ _) _ _ _ (Nat.le_refl _)).mpr ?_
    exact ⟨wellFormed_selecting, (List.append_nil _).symm⟩
  have refers : ∀ offset ∈ selecting.recordedOffsets,
      Code.IsBoundary selected selecting.code.length offset := by
    unfold Code.IsBoundary Code.BeginsAt
    decide
  obtain ⟨map, -, -, relocated, stays⟩ :=
    unchanged_of_no_edits decoded (by decide) zeroPadded_selected
  exact ⟨map, decoded, by decide, zeroPadded_selected, read, refers, relocated false,
    stays _ _ _ _ read rfl refers⟩

end Body

end JavaClass
