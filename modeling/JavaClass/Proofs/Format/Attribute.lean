/-
Attributes in a file. The length in front of an attribute is not kept: it is counted again when the
attribute is written, and nothing is lost because the content uses up what it was given. What a
content must be called is no freedom either, so a known kind under another name, or raw bytes under
the name of a known kind, would not be read back as they were written.

The contents of attributes nest. Reading stops at a depth that no method body can reach, since every
body is longer than the contents of the attributes in it; the equivalence for one depth is proved
from that for the depth below.
-/

import JavaClass.Attribute.Encoding
import JavaClass.Proofs.Format.Table

namespace JavaClass

open Reader

/-! ### Attributes that can be told apart -/

/-- The names that say how a content is to be read. -/
def Content.storedNames : List String :=
  ["Code", "Exceptions", "LineNumberTable", "LocalVariableTable", "LocalVariableTypeTable",
    "StackMapTable", "SourceFile", "ConstantValue", "Synthetic", "Deprecated"]

/-- Whether a content is read as what it is under the given name. -/
def Content.HasName (name : String) : Content → Prop
  | .raw _ => name ∉ storedNames
  | content => content.storedName? = some name

mutual

/-- An attribute whose name tells the kind of its content and whose length fits into four bytes. -/
def Attribute.WellFormed (pool : Pool) : Attribute → Prop
  | ⟨name, content⟩ =>
    (∃ kind, pool.text name = .ok kind ∧ content.HasName kind) ∧
      content.write.length < 2 ^ 32 ∧ content.WellFormed pool

/-- A content whose lists fit into their counts, and everything in it likewise. -/
def Content.WellFormed (pool : Pool) : Content → Prop
  | .code body => body.WellFormed pool
  | .exceptions classes => classes.length < 2 ^ 16
  | .lineNumbers table => table.length < 2 ^ 16
  | .localVariables table | .localVariableTypes table => table.length < 2 ^ 16
  | .stackMap table => table.length < 2 ^ 16 ∧ ∀ frame ∈ table, frame.WellFormed
  | .sourceFile _ | .constantValue _ | .synthetic | .deprecated | .raw _ => True

/-- A method body whose code is not too long and whose tables can be read back. -/
def Body.WellFormed (pool : Pool) : Body → Prop
  | ⟨_, _, code, handlers, attributes⟩ =>
    code.length ≤ longestCode ∧
      (handlers.length < 2 ^ 16 ∧ ∀ range ∈ handlers, range.WellFormed) ∧
      attributes.length < 2 ^ 16 ∧ Attributes.AllWellFormed pool attributes

/-- All of the attributes are well-formed. -/
def Attributes.AllWellFormed (pool : Pool) : List Attribute → Prop
  | [] => True
  | entry :: rest => entry.WellFormed pool ∧ Attributes.AllWellFormed pool rest

end

theorem Attributes.allWellFormed_iff {pool : Pool} {attributes : List Attribute} :
    Attributes.AllWellFormed pool attributes ↔
      ∀ entry ∈ attributes, Attribute.WellFormed pool entry := by
  induction attributes with
  | nil => simp [Attributes.AllWellFormed]
  | cons entry rest inductionHypothesis =>
    rw [Attributes.AllWellFormed, inductionHypothesis, List.forall_mem_cons]

theorem Attributes.writeAll_eq_flatMap (attributes : List Attribute) :
    Attributes.writeAll attributes = attributes.flatMap Attribute.write := by
  induction attributes with
  | nil => rfl
  | cons entry rest inductionHypothesis =>
    rw [Attributes.writeAll, inductionHypothesis, List.flatMap_cons]

theorem Attributes.write_eq_writeCounted (attributes : List Attribute) :
    Attributes.write attributes = writeCounted Attribute.write attributes := by
  rw [Attributes.write, Attributes.writeAll_eq_flatMap, writeCounted]

/-! ### One attribute -/

/-- On byte strings shorter than `limit`, reading a content under a name and using it up is inverse
to writing it. -/
def Content.InvertsBelow (pool : Pool) (read : String → Reader Content) (limit : Nat) : Prop :=
  ∀ kind bytes content, bytes.length < limit →
    (read kind bytes = .ok (content, []) ↔
      (content.HasName kind ∧ content.WellFormed pool) ∧ bytes = content.write)

/-- An attribute that was read has a name that is a text and a content that was used up. -/
theorem Attribute.exists_content_of_stored {pool : Pool} {read : String → Reader Content}
    {name : UInt16} {stored left rest : Bytes} {entry : Attribute}
    (found : (match pool.text name with
      | .error error => throw error
      | .ok kind =>
        match read kind stored with
        | .error (.truncated _) => throw (.malformed (.shortAttribute kind))
        | .error error => throw error
        | .ok (content, []) => pure { name, content }
        | .ok (_, unread) => throw (.malformed (.longAttribute kind unread.length)) :
          Reader Attribute) left = .ok (entry, rest)) :
    ∃ kind content, pool.text name = .ok kind ∧ read kind stored = .ok (content, []) ∧
      entry = ⟨name, content⟩ ∧ left = rest := by
  cases text : pool.text name with
  | error error =>
    rw [text] at found
    exact (throw_eq_ok_iff.mp found).elim
  | ok kind =>
    rw [text] at found
    cases outcome : read kind stored with
    | error error =>
      simp only [outcome] at found
      cases error <;> exact (throw_eq_ok_iff.mp found).elim
    | ok pair =>
      obtain ⟨content, unread⟩ := pair
      simp only [outcome] at found
      cases unread with
      | nil =>
        obtain ⟨rfl, rfl⟩ := pure_eq_ok_iff.mp found
        exact ⟨kind, content, rfl, outcome, rfl, rfl⟩
      | cons byte others => exact (throw_eq_ok_iff.mp found).elim

theorem Attribute.length_write (name : UInt16) (content : Content) :
    (Attribute.write ⟨name, content⟩).length = content.write.length + 6 := by
  rw [Attribute.write, Attribute.frame, List.length_append, List.length_append,
    BigEndian.length_word16, BigEndian.length_word32]
  omega

theorem Attribute.readWith_inverts {pool : Pool} {read : String → Reader Content} {limit : Nat}
    (inverts : Content.InvertsBelow pool read limit) :
    Inverts (Attribute.readWith pool read) (Attribute.WellFormed pool) Attribute.write
      (limit + 5) := by
  rintro bytes ⟨name, content⟩ rest short
  simp only [Attribute.readWith, bind_eq_ok_iff, u16_eq_ok_iff, u32_eq_ok_iff, take_eq_ok_iff]
  constructor
  · rintro ⟨name, _, rfl, length, left, rfl, stored, _, ⟨counted, rfl⟩, found⟩
    obtain ⟨kind, content, text, read, same, rfl⟩ := Attribute.exists_content_of_stored found
    cases same
    have storedShort : stored.length < limit := by
      simp only [List.length_append, BigEndian.length_word16, BigEndian.length_word32] at short
      omega
    obtain ⟨⟨named, proper⟩, rfl⟩ := (inverts _ _ _ storedShort).mp read
    refine ⟨⟨⟨kind, text, named⟩, counted ▸ length.toNat_lt, proper⟩, ?_⟩
    rw [Attribute.write, Attribute.frame, counted, UInt32.ofNat_toNat, List.append_assoc,
      List.append_assoc]
  · rintro ⟨⟨⟨kind, text, named⟩, fits, proper⟩, rfl⟩
    have contentShort : content.write.length < limit := by
      rw [List.length_append, Attribute.length_write] at short
      omega
    have read := (inverts kind _ _ contentShort).mpr ⟨⟨named, proper⟩, rfl⟩
    refine ⟨name, _, ?_, UInt32.ofNat content.write.length, _, rfl, content.write, rest,
      ⟨?_, rfl⟩, ?_⟩
    · rw [Attribute.write, Attribute.frame, List.append_assoc, List.append_assoc]
    · rw [UInt32.toNat_ofNat', Nat.mod_eq_of_lt fits]
    · rw [text]
      simp only [read]
      rfl

/-! ### Method bodies -/

theorem Body.write_eq (body : Body) :
    body.write = BigEndian.word16 body.maxStack ++ (BigEndian.word16 body.maxLocals ++
      (BigEndian.word32 (UInt32.ofNat body.code.length) ++ (body.code ++
        (writeCounted ExceptionRange.write body.handlers ++
          writeCounted Attribute.write body.attributes)))) := by
  obtain ⟨maxStack, maxLocals, code, handlers, attributes⟩ := body
  rw [Body.write, Attributes.writeAll_eq_flatMap, ExceptionTable.write]
  simp only [writeCounted, List.append_assoc]

theorem Body.wellFormed_iff {pool : Pool} {body : Body} :
    body.WellFormed pool ↔
      body.code.length ≤ longestCode ∧
        (body.handlers.length < 2 ^ 16 ∧ ∀ range ∈ body.handlers, range.WellFormed) ∧
        (body.attributes.length < 2 ^ 16 ∧
          ∀ entry ∈ body.attributes, Attribute.WellFormed pool entry) := by
  obtain ⟨maxStack, maxLocals, code, handlers, attributes⟩ := body
  rw [Body.WellFormed, Attributes.allWellFormed_iff]

theorem Body.readWith_inverts {pool : Pool} {entry : Reader Attribute} {limit : Nat}
    (inverts : Inverts entry (Attribute.WellFormed pool) Attribute.write limit) :
    Inverts (Body.readWith entry) (Body.WellFormed pool) Body.write limit := by
  rintro bytes body rest short
  have readHandlers := counted_inverts (ExceptionRange.read_inverts limit)
  have readAttributes := counted_inverts inverts
  rw [Body.wellFormed_iff, Body.write_eq]
  simp only [Body.readWith, ExceptionTable.read, bind_eq_ok_iff, u16_eq_ok_iff, u32_eq_ok_iff,
    refuse_eq_ok_iff, take_eq_ok_iff, pure_eq_ok_iff, List.append_assoc]
  constructor
  · rintro ⟨maxStack, _, rfl, maxLocals, _, rfl, length, _, rfl, within, code, _,
      ⟨counted, rfl⟩, handlers, _, handlersRead, attributes, _, attributesRead, rfl, rfl⟩
    simp only [List.length_append] at short
    obtain ⟨handlersProper, rfl⟩ := (readHandlers _ _ _ (by omega)).mp handlersRead
    simp only [List.length_append] at short
    obtain ⟨attributesProper, rfl⟩ := (readAttributes _ _ _ (by omega)).mp attributesRead
    refine ⟨⟨?_, handlersProper, attributesProper⟩, ?_⟩
    · rw [counted]
      exact Nat.le_of_not_lt within
    · simp only [counted, UInt32.ofNat_toNat]
  · rintro ⟨⟨within, handlersProper, attributesProper⟩, rfl⟩
    obtain ⟨maxStack, maxLocals, code, handlers, attributes⟩ := body
    have length : (UInt32.ofNat code.length).toNat = code.length := by
      have below : code.length < 2 ^ 32 := Nat.lt_of_le_of_lt within (by decide)
      rw [UInt32.toNat_ofNat', Nat.mod_eq_of_lt below]
    simp only [List.length_append] at short
    refine ⟨maxStack, _, rfl, maxLocals, _, rfl, _, _, rfl, ?_, code, _, ⟨length.symm, rfl⟩,
      handlers, _, (readHandlers _ _ _ ?_).mpr ⟨handlersProper, rfl⟩, attributes, rest,
      (readAttributes _ _ _ ?_).mpr ⟨attributesProper, rfl⟩, rfl, rfl⟩
    · rw [length]
      exact Nat.not_lt.mpr within
    · simp only [List.length_append]
      omega
    · simp only [List.length_append]
      omega

/-! ### Contents of every kind -/

/-- The kinds of contents that go by a name of their own. -/
inductive Content.Kind
  | code
  | exceptions
  | lineNumbers
  | localVariables
  | localVariableTypes
  | stackMap
  | sourceFile
  | constantValue
  | synthetic
  | deprecated

namespace Content.Kind

def name : Kind → String
  | code => "Code"
  | exceptions => "Exceptions"
  | lineNumbers => "LineNumberTable"
  | localVariables => "LocalVariableTable"
  | localVariableTypes => "LocalVariableTypeTable"
  | stackMap => "StackMapTable"
  | sourceFile => "SourceFile"
  | constantValue => "ConstantValue"
  | synthetic => "Synthetic"
  | deprecated => "Deprecated"

/-- What there is to a content of a kind. -/
def Data : Kind → Type
  | code => Body
  | exceptions => List UInt16
  | lineNumbers => LineNumberTable
  | localVariables | localVariableTypes => LocalVariableTable
  | stackMap => StackMap
  | sourceFile | constantValue => UInt16
  | synthetic | deprecated => Unit

def make : (kind : Kind) → kind.Data → Content
  | code => .code
  | exceptions => .exceptions
  | lineNumbers => .lineNumbers
  | localVariables => .localVariables
  | localVariableTypes => .localVariableTypes
  | stackMap => .stackMap
  | sourceFile => .sourceFile
  | constantValue => .constantValue
  | synthetic => fun _ => .synthetic
  | deprecated => fun _ => .deprecated

/-- Only contents of a kind go by its name. -/
theorem hasName_iff (kind : Kind) (content : Content) :
    content.HasName kind.name ↔ ∃ data, kind.make data = content := by
  cases kind <;> cases content <;> simp [HasName, storedNames, storedName?, name, make, Data]

end Content.Kind

theorem Content.read_eq_ok_iff {pool : Pool} (kind : Kind) {reader : Reader kind.Data} {limit : Nat}
    (inverts : Inverts reader (fun data => (kind.make data).WellFormed pool)
      (fun data => (kind.make data).write) limit)
    {bytes : Bytes} {content : Content} (short : bytes.length ≤ limit) :
    (do return kind.make (← reader) : Reader Content) bytes = .ok (content, []) ↔
      (content.HasName kind.name ∧ content.WellFormed pool) ∧ bytes = content.write := by
  simp only [bind_eq_ok_iff, pure_eq_ok_iff, kind.hasName_iff]
  constructor
  · rintro ⟨data, _, read, rfl, rfl⟩
    obtain ⟨proper, rfl⟩ := (inverts _ _ _ short).mp read
    exact ⟨⟨⟨data, rfl⟩, proper⟩, List.append_nil _⟩
  · rintro ⟨⟨⟨data, rfl⟩, proper⟩, rfl⟩
    exact ⟨data, [], (inverts _ _ _ short).mpr ⟨proper, (List.append_nil _).symm⟩, rfl, rfl⟩

/-- A kind that has nothing to say but its name. -/
theorem nothing_inverts (limit : Nat) :
    Inverts (pure () : Reader Unit) (fun _ => True) (fun _ => []) limit := by
  intro bytes value rest _
  rw [pure_eq_ok_iff, true_and]
  exact and_iff_right rfl

/-- Every other name keeps its bytes. -/
theorem Content.raw_eq_ok_iff {pool : Pool} {kind : String} (unknown : kind ∉ storedNames)
    {bytes : Bytes} {content : Content} :
    (do return .raw (← Reader.remaining) : Reader Content) bytes = .ok (content, []) ↔
      (content.HasName kind ∧ content.WellFormed pool) ∧ bytes = content.write := by
  simp only [bind_eq_ok_iff, remaining_eq_ok_iff, pure_eq_ok_iff]
  constructor
  · rintro ⟨_, _, ⟨rfl, rfl⟩, rfl, -⟩
    exact ⟨⟨unknown, trivial⟩, rfl⟩
  · rintro ⟨⟨named, -⟩, rfl⟩
    cases content with
    | raw bytes => exact ⟨bytes, [], ⟨rfl, rfl⟩, rfl, rfl⟩
    | _ => exact absurd (Option.some.inj named ▸ by decide) unknown

theorem Content.readWithin_inverts (pool : Pool) (depth : Nat) :
    Content.InvertsBelow pool (Content.readWithin pool depth) depth := by
  induction depth with
  | zero => exact fun _ _ _ short => absurd short (Nat.not_lt_zero _)
  | succ depth inductionHypothesis =>
    intro kind bytes content short
    have within : bytes.length ≤ depth + 5 := by omega
    have readBody := Body.readWith_inverts (Attribute.readWith_inverts inductionHypothesis)
    have readLines := counted_inverts_of_total (LineNumber.read_inverts (depth + 5))
    have readVariables := counted_inverts_of_total (LocalVariable.read_inverts (depth + 5))
    have readFrames := counted_inverts (StackMapFrame.read_inverts (depth + 5))
    have readIndex := u16_inverts (depth + 5)
    have readIndices := counted_inverts_of_total readIndex
    unfold Content.readWithin
    split
    · exact read_eq_ok_iff .code readBody within
    · exact read_eq_ok_iff .exceptions readIndices within
    · exact read_eq_ok_iff .lineNumbers readLines within
    · exact read_eq_ok_iff .localVariables readVariables within
    · exact read_eq_ok_iff .localVariableTypes readVariables within
    · exact read_eq_ok_iff .stackMap readFrames within
    · exact read_eq_ok_iff .sourceFile readIndex within
    · exact read_eq_ok_iff .constantValue readIndex within
    · exact read_eq_ok_iff .synthetic (nothing_inverts _) within
    · exact read_eq_ok_iff .deprecated (nothing_inverts _) within
    · refine raw_eq_ok_iff ?_
      simp only [storedNames, List.mem_cons, List.not_mem_nil, or_false]
      rintro (rfl | rfl | rfl | rfl | rfl | rfl | rfl | rfl | rfl | rfl) <;> contradiction

/-- The depth that reading starts with is enough for every content. -/
theorem Content.read_inverts (pool : Pool) (kind : String) (bytes : Bytes) (content : Content) :
    Content.read pool kind bytes = .ok (content, []) ↔
      (content.HasName kind ∧ content.WellFormed pool) ∧ bytes = content.write :=
  Content.readWithin_inverts pool (bytes.length + 1) kind bytes content (Nat.lt_succ_self _)

theorem Attribute.read_inverts (pool : Pool) (limit : Nat) :
    Inverts (Attribute.read pool) (Attribute.WellFormed pool) Attribute.write limit := by
  intro bytes entry rest short
  have contents : Content.InvertsBelow pool (Content.read pool) limit :=
    fun kind bytes content _ => Content.read_inverts pool kind bytes content
  exact Attribute.readWith_inverts contents bytes entry rest (Nat.le_add_right_of_le short)

/-- Attributes that fit into their count and are well-formed. -/
def Attributes.WellFormed (pool : Pool) (attributes : Attributes) : Prop :=
  attributes.length < 2 ^ 16 ∧ ∀ entry ∈ attributes, Attribute.WellFormed pool entry

theorem Attributes.read_inverts (pool : Pool) (limit : Nat) :
    Inverts (Attributes.read pool) (Attributes.WellFormed pool) Attributes.write limit := by
  intro bytes attributes rest short
  rw [Attributes.write_eq_writeCounted]
  exact counted_inverts (Attribute.read_inverts pool limit) bytes attributes rest short

end JavaClass
