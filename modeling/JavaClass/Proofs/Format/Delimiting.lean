/-
Class files say where they end. Every reader of a part takes a front off the bytes and looks at
nothing behind it, and if any of that front is missing it fails for want of bytes: what it would
have refused, or where it would have stopped, is settled by bytes that it has seen. This is passed
on from the parts to what they make up, one behind the other, and so from words and stretches to
whole files.

The content of an attribute is no such part. It is cut off as a whole before it is read, and the
same shortage inside it is an attribute that contradicts its length. So nothing is asked of the
readers of contents, and nothing has to be said about how deep they nest.
-/

import JavaClass.Proofs.Format.ClassFile

namespace JavaClass

namespace Reader

variable {α β : Type}

/-! ### Fronts -/

/-- Whether a reader fails for want of bytes. -/
def RunsShort (reader : Reader α) (bytes : Bytes) : Prop :=
  ∃ shortage, reader bytes = .error (.truncated shortage)

/-- A front that a reader takes for a value: whatever comes behind it is left, and anything less of
it is too little. -/
structure Takes (reader : Reader α) (front : Bytes) (value : α) : Prop where
  reads : ∀ rest, reader (front ++ rest) = .ok (value, rest)
  short : ∀ cut missing, front = cut ++ missing → missing ≠ [] → reader.RunsShort cut

/-- Whether a reader takes a front wherever it succeeds. -/
def Delimits (reader : Reader α) : Prop :=
  ∀ bytes value rest, reader bytes = .ok (value, rest) →
    ∃ front, bytes = front ++ rest ∧ reader.Takes front value

theorem pure_delimits (value : α) : Delimits (pure value) := by
  intro bytes found rest read
  obtain ⟨rfl, rfl⟩ := pure_eq_ok_iff.mp read
  refine ⟨[], rfl, fun _ => rfl, fun cut missing nothing missed => ?_⟩
  exact absurd (List.append_eq_nil_iff.mp nothing.symm).2 missed

theorem throw_delimits (error : Error) : Delimits (throw error : Reader α) := by
  intro bytes found rest read
  exact (throw_eq_ok_iff.mp read).elim

theorem bind_of_short {first : Reader α} {next : α → Reader β} {bytes : Bytes}
    (short : first.RunsShort bytes) : (first >>= next).RunsShort bytes := by
  obtain ⟨shortage, failed⟩ := short
  exact ⟨shortage, bind_of_error failed⟩

namespace Delimits

/-- What is behind a front is left for the next reader, which makes the front longer. -/
theorem bind {first : Reader α} {next : α → Reader β} (delimits : first.Delimits)
    (nextDelimits : ∀ value, (next value).Delimits) : (first >>= next).Delimits := by
  intro bytes value rest read
  obtain ⟨found, middle, firstRead, nextRead⟩ := bind_eq_ok_iff.mp read
  obtain ⟨front, rfl, taken⟩ := delimits _ _ _ firstRead
  obtain ⟨later, rfl, laterTaken⟩ := nextDelimits found _ _ _ nextRead
  refine ⟨front ++ later, (List.append_assoc _ _ _).symm, fun others => ?_,
    fun cut missing parted missed => ?_⟩
  · rw [List.append_assoc, bind_of_ok (taken.reads _)]
    exact laterTaken.reads others
  · rcases List.append_eq_append_iff.mp parted with
      ⟨unread, rfl, laterParted⟩ | ⟨lacking, rfl, rfl⟩
    · show (first >>= next).RunsShort (front ++ unread)
      obtain ⟨shortage, failed⟩ := laterTaken.short unread missing laterParted missed
      exact ⟨shortage, by rw [bind_of_ok (taken.reads unread), failed]⟩
    · by_cases whole : lacking = []
      · subst whole
        rw [List.append_nil] at taken
        obtain ⟨shortage, failed⟩ := laterTaken.short [] later rfl missed
        have read := taken.reads []
        rw [List.append_nil] at read
        exact ⟨shortage, by rw [bind_of_ok read, failed]⟩
      · exact bind_of_short (taken.short cut lacking rfl whole)

/-- A refusal in front of a reader takes nothing. -/
theorem refuse {refused : Prop} [Decidable refused] {error : Error} {next : PUnit → Reader α}
    (delimits : (next ⟨⟩).Delimits) :
    Delimits (if refused then (throw error : Reader PUnit) >>= next else next ⟨⟩) := by
  by_cases refuse : refused
  · rw [if_pos refuse]
    intro bytes value rest read
    obtain ⟨_, _, thrown, _⟩ := bind_eq_ok_iff.mp read
    exact (throw_eq_ok_iff.mp thrown).elim
  · rw [if_neg refuse]
    exact delimits

end Delimits

/-- A check beside the reading takes nothing. -/
theorem check_delimits (checked : Except Error α) :
    Delimits (discard (liftM checked : Reader α) : Reader Unit) := by
  cases checked with
  | error error => exact throw_delimits error
  | ok found => exact pure_delimits ()

/-- A reader of a fixed number of bytes that fails only if there are fewer. -/
theorem delimits_of_length {reader : Reader α} (length : Nat)
    (enough : ∀ front : Bytes, front.length = length →
      ∃ value, ∀ rest, reader (front ++ rest) = .ok (value, rest))
    (short : ∀ bytes : Bytes, bytes.length < length → reader.RunsShort bytes) :
    reader.Delimits := by
  intro bytes value rest read
  by_cases fits : length ≤ bytes.length
  · obtain ⟨found, reads⟩ := enough _ (List.length_take_of_le fits)
    have same := reads (bytes.drop length)
    rw [List.take_append_drop, read] at same
    cases same
    refine ⟨_, (List.take_append_drop length bytes).symm, reads,
      fun cut missing parted missed => ?_⟩
    have total := congrArg List.length parted
    rw [List.length_take_of_le fits, List.length_append] at total
    have := List.length_pos_iff.mpr missed
    exact short cut (by omega)
  · obtain ⟨shortage, failed⟩ := short bytes (Nat.lt_of_not_le fits)
    rw [failed] at read
    cases read

theorem u8_delimits : Delimits u8 := by
  refine delimits_of_length 1 (fun front length => ?_) (fun bytes length => ?_)
  · match front, length with
    | [_], _ => exact ⟨_, fun _ => rfl⟩
  · match bytes, length with
    | [], _ => exact ⟨_, rfl⟩

theorem u16_delimits : Delimits u16 := by
  refine delimits_of_length 2 (fun front length => ?_) (fun bytes length => ?_)
  · match front, length with
    | [_, _], _ => exact ⟨_, fun _ => rfl⟩
  · match bytes, length with
    | [], _ | [_], _ => exact ⟨_, rfl⟩

theorem u32_delimits : Delimits u32 := by
  refine delimits_of_length 4 (fun front length => ?_) (fun bytes length => ?_)
  · match front, length with
    | [_, _, _, _], _ => exact ⟨_, fun _ => rfl⟩
  · match bytes, length with
    | [], _ | [_], _ | [_, _], _ | [_, _, _], _ => exact ⟨_, rfl⟩

theorem u64_delimits : Delimits u64 := by
  refine delimits_of_length 8 (fun front length => ?_) (fun bytes length => ?_)
  · match front, length with
    | [_, _, _, _, _, _, _, _], _ => exact ⟨_, fun _ => rfl⟩
  · match bytes, length with
    | [], _ | [_], _ | [_, _], _ | [_, _, _], _ | [_, _, _, _], _ | [_, _, _, _, _], _
    | [_, _, _, _, _, _], _ | [_, _, _, _, _, _, _], _ => exact ⟨_, rfl⟩

theorem take_delimits (count : Nat) : Delimits (take count) := by
  refine delimits_of_length count (fun front length => ?_) (fun bytes length => ?_)
  · exact ⟨front, fun rest => take_eq_ok_iff.mpr ⟨length, rfl⟩⟩
  · refine ⟨⟨count, bytes.length⟩, ?_⟩
    rw [Reader.take, Bytes.atLeast_eq, decide_eq_false (Nat.not_le.mpr length)]
    rfl

/-! ### Sequences -/

namespace Delimits

theorem many {item : Reader α} (delimits : item.Delimits) (count : Nat) :
    Delimits (many item count) := by
  induction count with
  | zero => exact pure_delimits []
  | succ count inductionHypothesis =>
    rw [many_succ_eq_bind]
    exact delimits.bind fun next => inductionHypothesis.bind fun later => pure_delimits _

theorem counted {item : Reader α} (delimits : item.Delimits) : Delimits (counted item) :=
  u16_delimits.bind fun count => many delimits count.toNat

end Delimits

end Reader

open Reader

/-! ### Constants -/

namespace Constant

theorem readPair_delimits (make : UInt16 → UInt16 → Constant) : (readPair make).Delimits :=
  u16_delimits.bind fun _ => u16_delimits.bind fun _ => pure_delimits _

theorem readContents_delimits (kind : ConstantKind) : (readContents kind).Delimits := by
  cases kind
  case utf8 =>
    exact u16_delimits.bind fun length => (take_delimits _).bind fun _ => pure_delimits _
  case integer | float => exact u32_delimits.bind fun _ => pure_delimits _
  case long | double => exact u64_delimits.bind fun _ => pure_delimits _
  case className | string | methodType | module | package =>
    exact u16_delimits.bind fun _ => pure_delimits _
  case field | method | interfaceMethod | nameAndType | dynamic | invokeDynamic =>
    exact readPair_delimits _
  case methodHandle =>
    exact u8_delimits.bind fun _ => u16_delimits.bind fun _ => pure_delimits _
  case reserved => exact pure_delimits _

theorem read_delimits : Delimits read := by
  refine u8_delimits.bind fun tag => ?_
  cases ConstantKind.ofTag? tag with
  | none => exact throw_delimits _
  | some kind => exact readContents_delimits kind

end Constant

/-! ### The pool -/

namespace Pool

/-- What becomes of a pool, and of the bytes behind it, once a constant of it was read. -/
def addRead (count rounds : Nat) (pool : Pool) (constant : Constant) : Reader Pool :=
  if count < pool.size + constant.width then
    throw (.malformed (.constantPastEnd constant.kind count))
  else
    match push constant pool with
    | (.error error, _) => throw error
    | (.ok _, pool) => readConstants count rounds pool

/-- As long as a pool is not full a constant is read and added to it. -/
theorem readConstants_succ (count rounds : Nat) (pool : Pool) :
    readConstants count (rounds + 1) pool =
      if count ≤ pool.size then pure pool
      else Constant.read >>= addRead count rounds pool := by
  funext bytes
  by_cases full : count ≤ pool.size
  · simp only [readConstants, full, if_true]
    rfl
  · simp only [readConstants, full, if_false]
    cases read : Constant.read bytes with
    | error error => rw [bind_of_error read]
    | ok pair =>
      rw [bind_of_ok read, addRead]
      by_cases past : count < pool.size + pair.1.width
      · simp only [past, if_true]
        rfl
      · simp only [past, if_false]
        rcases push pair.1 pool with ⟨error | index, grown⟩ <;> rfl

theorem readConstants_delimits (count rounds : Nat) (pool : Pool) :
    (readConstants count rounds pool).Delimits := by
  induction rounds generalizing pool with
  | zero => exact pure_delimits pool
  | succ rounds inductionHypothesis =>
    rw [readConstants_succ]
    split
    · exact pure_delimits pool
    · refine Constant.read_delimits.bind fun constant => ?_
      rw [addRead]
      split
      · exact throw_delimits _
      · split
        · exact throw_delimits _
        · exact inductionHypothesis _

theorem read_delimits : Delimits read := by
  refine u16_delimits.bind fun count => Delimits.refuse ?_
  refine (readConstants_delimits _ _ _).bind fun pool => ?_
  cases pool.checkReferences with
  | error error => exact throw_delimits error
  | ok nothing => exact pure_delimits pool

end Pool

/-! ### Attributes and members -/

/-- The content is cut off whole, so whatever its reader does, an attribute that is read was there
to its last byte. -/
theorem Attribute.readWith_delimits (pool : Pool) (content : String → Reader Content) :
    (Attribute.readWith pool content).Delimits := by
  refine u16_delimits.bind fun name => u32_delimits.bind fun length =>
    (take_delimits _).bind fun stored => ?_
  split
  · exact throw_delimits _
  · split
    · exact throw_delimits _
    · exact throw_delimits _
    · exact pure_delimits _
    · exact throw_delimits _

theorem Attributes.read_delimits (pool : Pool) : (Attributes.read pool).Delimits :=
  (Attribute.readWith_delimits pool _).counted

theorem readClassIndex_delimits (pool : Pool) : (readClassIndex pool).Delimits :=
  u16_delimits.bind fun _ => (check_delimits _).bind fun _ => pure_delimits _

theorem readOptionalClassIndex_delimits (pool : Pool) :
    (readOptionalClassIndex pool).Delimits := by
  refine u16_delimits.bind fun index => ?_
  split
  · exact pure_delimits none
  · exact (check_delimits _).bind fun _ => pure_delimits _

theorem Member.read_delimits {holder : FlagHolder} (pool : Pool) :
    (Member.read pool : Reader (Member holder)).Delimits :=
  u16_delimits.bind fun _ => u16_delimits.bind fun _ => u16_delimits.bind fun _ =>
    (check_delimits _).bind fun _ => (check_delimits _).bind fun _ =>
      (Attributes.read_delimits pool).bind fun _ => pure_delimits _

theorem Method.read_delimits (pool : Pool) : (Method.read pool).Delimits :=
  (Member.read_delimits pool).bind fun _ => Delimits.refuse (pure_delimits _)

/-! ### Whole files -/

theorem Version.read_delimits : Version.read.Delimits :=
  u16_delimits.bind fun _ => u16_delimits.bind fun _ => Delimits.refuse (pure_delimits _)

namespace ClassFile

theorem readFront_delimits : readFront.Delimits :=
  u32_delimits.bind fun _ => Delimits.refuse <| Version.read_delimits.bind fun _ =>
    Pool.read_delimits.bind fun pool => u16_delimits.bind fun _ =>
    (readClassIndex_delimits pool).bind fun _ =>
    (readOptionalClassIndex_delimits pool).bind fun _ =>
    (readClassIndex_delimits pool).counted.bind fun _ =>
    (Member.read_delimits pool).counted.bind fun _ =>
    (Method.read_delimits pool).counted.bind fun _ =>
    (Attributes.read_delimits pool).bind fun _ => pure_delimits _

/-- A file that is read ends where its bytes say. It cannot be cut short: whatever is missing, and
wherever, the reading fails for want of bytes and for no other reason. And it cannot be continued:
whatever follows it is malformed. -/
theorem selfDelimiting_of_read {bytes : Bytes} {file : ClassFile}
    (read : ClassFile.read bytes = .ok file) :
    (∀ cut, cut <+: bytes → cut ≠ bytes →
      ∃ shortage, ClassFile.read cut = .error (.truncated shortage)) ∧
    ∀ extra, extra ≠ [] →
      ClassFile.read (bytes ++ extra) = .error (.malformed (.extraBytes extra.length)) := by
  obtain ⟨proper, rfl⟩ := read_eq_ok_iff.mp read
  have whole := readFront_written proper []
  obtain ⟨front, same, taken⟩ := readFront_delimits _ _ _ whole
  obtain rfl : file.write = front := by simpa using same
  constructor
  · rintro cut ⟨missing, parted⟩ strict
    have missed : missing ≠ [] := by
      rintro rfl
      exact strict (by rwa [List.append_nil] at parted)
    obtain ⟨shortage, failed⟩ := taken.short cut missing parted.symm missed
    exact ⟨shortage, by rw [ClassFile.read, failed]⟩
  · intro extra more
    rw [ClassFile.read, taken.reads extra]
    cases extra with
    | nil => exact (more rfl).elim
    | cons byte others => rfl

/-- The method of the file has a body, with a handler and a frame, that the cut goes through. -/
theorem selfDelimiting_of_read_fileOfMethod :
    (∃ shortage, ClassFile.read (fileOfMethod.take 120) = .error (.truncated shortage)) ∧
      ClassFile.read (fileOfMethod ++ [0]) = .error (.malformed (.extraBytes 1)) := by
  obtain ⟨file, read⟩ : ∃ file, ClassFile.read fileOfMethod = .ok file := ⟨_, rfl⟩
  obtain ⟨cuts, continued⟩ := selfDelimiting_of_read read
  exact ⟨cuts _ (List.take_prefix 120 fileOfMethod) (by decide), continued [0] (by decide)⟩

end ClassFile

end JavaClass
