/-
Reading undoes writing, field by field. For every reader there is one equivalence: it succeeds with
a value and a rest exactly when the bytes are what is written for that value, followed by the rest,
and the value is one that can be written. From left to right this says that no byte is lost or
normalised, from right to left that whatever is written is read again.

The equivalences compose. A reader that runs two others one behind the other has the equivalence of
the first and, for what it left, that of the second; a reader of a list has the equivalence of its
items. Since a method body contains attributes that may contain a method body, the equivalence of an
item may itself only hold on byte strings of a limited length, and `Inverts` carries that limit.
-/

import JavaClass.Reader
import Mathlib.Algebra.Ring.Int.Defs
import Mathlib.Algebra.Ring.Nat

namespace JavaClass

/-! ### Big-endian words -/

namespace BigEndian

theorem toNat_ofBytes16 (high low : UInt8) :
    (ofBytes16 high low).toNat = high.toNat * 256 + low.toNat := by
  have highBound := high.toNat_lt
  have lowBound := low.toNat_lt
  rw [ofBytes16, UInt16.toNat_ofNat']
  omega

theorem word16_ofBytes16 (high low : UInt8) : word16 (ofBytes16 high low) = [high, low] := by
  have highBound := high.toNat_lt
  have lowBound := low.toNat_lt
  have highByte : UInt8.ofNat ((ofBytes16 high low).toNat / 256) = high := by
    rw [← UInt8.toNat_inj, UInt8.toNat_ofNat', toNat_ofBytes16]
    omega
  have lowByte : UInt8.ofNat (ofBytes16 high low).toNat = low := by
    rw [← UInt8.toNat_inj, UInt8.toNat_ofNat', toNat_ofBytes16]
    omega
  rw [word16, highByte, lowByte]

theorem ofBytes16_word16 (value : UInt16) :
    ofBytes16 (UInt8.ofNat (value.toNat / 256)) (UInt8.ofNat value.toNat) = value := by
  have bound := value.toNat_lt
  rw [← UInt16.toNat_inj, toNat_ofBytes16, UInt8.toNat_ofNat', UInt8.toNat_ofNat']
  omega

theorem toNat_ofBytes32 (first second third fourth : UInt8) :
    (ofBytes32 first second third fourth).toNat =
      ((first.toNat * 256 + second.toNat) * 256 + third.toNat) * 256 + fourth.toNat := by
  have firstBound := first.toNat_lt
  have secondBound := second.toNat_lt
  have thirdBound := third.toNat_lt
  have fourthBound := fourth.toNat_lt
  rw [ofBytes32, UInt32.toNat_ofNat']
  omega

theorem word32_ofBytes32 (first second third fourth : UInt8) :
    word32 (ofBytes32 first second third fourth) = [first, second, third, fourth] := by
  have firstBound := first.toNat_lt
  have secondBound := second.toNat_lt
  have thirdBound := third.toNat_lt
  have fourthBound := fourth.toNat_lt
  simp only [word32, toNat_ofBytes32, List.cons.injEq, and_true, ← UInt8.toNat_inj,
    UInt8.toNat_ofNat']
  omega

theorem ofBytes32_word32 (value : UInt32) :
    ofBytes32 (UInt8.ofNat (value.toNat / 16777216)) (UInt8.ofNat (value.toNat / 65536))
      (UInt8.ofNat (value.toNat / 256)) (UInt8.ofNat value.toNat) = value := by
  have bound := value.toNat_lt
  simp only [← UInt32.toNat_inj, toNat_ofBytes32, UInt8.toNat_ofNat']
  omega

theorem toNat_ofHalves (high low : UInt32) :
    (ofHalves high low).toNat = high.toNat * 4294967296 + low.toNat := by
  have highBound := high.toNat_lt
  have lowBound := low.toNat_lt
  rw [ofHalves, UInt64.toNat_ofNat']
  omega

theorem word64_ofHalves (high low : UInt32) :
    word64 (ofHalves high low) = word32 high ++ word32 low := by
  have highBound := high.toNat_lt
  have lowBound := low.toNat_lt
  have highHalf : UInt32.ofNat ((ofHalves high low).toNat / 4294967296) = high := by
    rw [← UInt32.toNat_inj, UInt32.toNat_ofNat', toNat_ofHalves]
    omega
  have lowHalf : UInt32.ofNat (ofHalves high low).toNat = low := by
    rw [← UInt32.toNat_inj, UInt32.toNat_ofNat', toNat_ofHalves]
    omega
  rw [word64, highHalf, lowHalf]

theorem ofHalves_word64 (value : UInt64) :
    ofHalves (UInt32.ofNat (value.toNat / 4294967296)) (UInt32.ofNat value.toNat) = value := by
  have bound := value.toNat_lt
  rw [← UInt64.toNat_inj, toNat_ofHalves, UInt32.toNat_ofNat', UInt32.toNat_ofNat']
  omega

theorem length_word16 (value : UInt16) : (word16 value).length = 2 := rfl

theorem length_word32 (value : UInt32) : (word32 value).length = 4 := rfl

end BigEndian

/-! ### One reader after another -/

namespace Reader

variable {α β : Type}

theorem bind_eq_ok_iff {first : Reader α} {next : α → Reader β} {bytes rest : Bytes} {value : β} :
    (first >>= next) bytes = .ok (value, rest) ↔
      ∃ found middle,
        first bytes = .ok (found, middle) ∧ next found middle = .ok (value, rest) := by
  show (first bytes >>= fun pair => next pair.1 pair.2) = _ ↔ _
  cases first bytes with
  | error error => simp [bind, Except.bind]
  | ok pair =>
    constructor
    · intro succeeded
      exact ⟨pair.1, pair.2, rfl, succeeded⟩
    · rintro ⟨found, middle, read, succeeded⟩
      rw [Except.ok.inj read]
      exact succeeded

theorem bind_of_ok {first : Reader α} {next : α → Reader β} {bytes rest : Bytes} {value : α}
    (read : first bytes = .ok (value, rest)) : (first >>= next) bytes = next value rest := by
  show (first bytes >>= fun pair => next pair.1 pair.2) = _
  rw [read]
  rfl

theorem bind_of_error {first : Reader α} {next : α → Reader β} {bytes : Bytes} {error : Error}
    (failed : first bytes = .error error) : (first >>= next) bytes = .error error := by
  show (first bytes >>= fun pair => next pair.1 pair.2) = _
  rw [failed]
  rfl

theorem pure_eq_ok_iff {found value : α} {bytes rest : Bytes} :
    (pure found : Reader α) bytes = .ok (value, rest) ↔ found = value ∧ bytes = rest := by
  show Except.ok (found, bytes) = _ ↔ _
  simp

theorem throw_eq_ok_iff {error : Error} {value : α} {bytes rest : Bytes} :
    (throw error : Reader α) bytes = .ok (value, rest) ↔ False := by
  show (Except.error error >>= fun found => pure (found, bytes)) = _ ↔ _
  simp [bind, Except.bind]

theorem discard_eq_ok_iff {reader : Reader α} {nothing : Unit} {bytes rest : Bytes} :
    (discard reader : Reader Unit) bytes = .ok (nothing, rest) ↔
      ∃ found, reader bytes = .ok (found, rest) := by
  show (reader bytes >>= fun pair => pure ((), pair.2)) = _ ↔ _
  cases reader bytes with
  | error error => simp [bind, Except.bind]
  | ok pair =>
    obtain ⟨found, left⟩ := pair
    simp [bind, Except.bind, pure, Except.pure]

/-- What is found beside the reading is handed on. -/
theorem lift_eq_ok_iff {found : Except Error α} {value : α} {bytes rest : Bytes} :
    (liftM found : Reader α) bytes = .ok (value, rest) ↔ found = .ok value ∧ bytes = rest := by
  show (found >>= fun found => pure (found, bytes)) = _ ↔ _
  cases found with
  | error error => simp [bind, Except.bind]
  | ok found => simp [bind, Except.bind, pure, Except.pure]

/-- A check beside the reading takes nothing off the front. -/
theorem check_eq_ok_iff {check : Except Error α} {nothing : Unit} {bytes rest : Bytes} :
    (discard (liftM check : Reader α) : Reader Unit) bytes = .ok (nothing, rest) ↔
      (∃ found, check = .ok found) ∧ bytes = rest := by
  simp only [discard_eq_ok_iff, lift_eq_ok_iff, exists_and_right]

/-- A refusal in front of a reader. -/
theorem refuse_eq_ok_iff {refused : Prop} [Decidable refused] {error : Error}
    {next : PUnit → Reader α} {bytes rest : Bytes} {value : α} :
    (if refused then (throw error : Reader PUnit) >>= next else next ⟨⟩) bytes =
        .ok (value, rest) ↔
      ¬refused ∧ next ⟨⟩ bytes = .ok (value, rest) := by
  by_cases refuse : refused
  · simp only [refuse, if_true, bind_eq_ok_iff, throw_eq_ok_iff, false_and, exists_false,
      not_true_eq_false]
  · simp only [refuse, if_false, not_false_eq_true, true_and]

/-! ### Words and stretches -/

theorem u8_eq_ok_iff {bytes rest : Bytes} {value : UInt8} :
    u8 bytes = .ok (value, rest) ↔ bytes = value :: rest := by
  cases bytes with
  | nil => simp [u8, short]
  | cons byte left => simp [u8]

theorem u16_eq_ok_iff {bytes rest : Bytes} {value : UInt16} :
    u16 bytes = .ok (value, rest) ↔ bytes = BigEndian.word16 value ++ rest := by
  constructor
  · intro read
    unfold u16 at read
    split at read
    · simp only [Except.ok.injEq, Prod.mk.injEq] at read
      rw [← read.1, ← read.2, BigEndian.word16_ofBytes16]
      rfl
    · simp [short] at read
  · rintro rfl
    show Except.ok (BigEndian.ofBytes16 _ _, rest) = _
    rw [BigEndian.ofBytes16_word16]

theorem u32_eq_ok_iff {bytes rest : Bytes} {value : UInt32} :
    u32 bytes = .ok (value, rest) ↔ bytes = BigEndian.word32 value ++ rest := by
  constructor
  · intro read
    unfold u32 at read
    split at read
    · simp only [Except.ok.injEq, Prod.mk.injEq] at read
      rw [← read.1, ← read.2, BigEndian.word32_ofBytes32]
      rfl
    · simp [short] at read
  · rintro rfl
    show Except.ok (BigEndian.ofBytes32 _ _ _ _, rest) = _
    rw [BigEndian.ofBytes32_word32]

theorem u64_eq_ok_iff {bytes rest : Bytes} {value : UInt64} :
    u64 bytes = .ok (value, rest) ↔ bytes = BigEndian.word64 value ++ rest := by
  constructor
  · intro read
    unfold u64 at read
    split at read
    · simp only [Except.ok.injEq, Prod.mk.injEq] at read
      rw [← read.1, ← read.2, BigEndian.word64_ofHalves, BigEndian.word32_ofBytes32,
        BigEndian.word32_ofBytes32]
      rfl
    · simp [short] at read
  · rintro rfl
    show Except.ok (BigEndian.ofHalves (BigEndian.ofBytes32 _ _ _ _)
      (BigEndian.ofBytes32 _ _ _ _), rest) = _
    rw [BigEndian.ofBytes32_word32, BigEndian.ofBytes32_word32, BigEndian.ofHalves_word64]

theorem i16_eq_ok_iff {bytes rest : Bytes} {value : Int16} :
    i16 bytes = .ok (value, rest) ↔ bytes = BigEndian.word16 value.toUInt16 ++ rest := by
  simp only [i16, bind_eq_ok_iff, u16_eq_ok_iff, pure_eq_ok_iff]
  constructor
  · rintro ⟨word, _, rfl, rfl, rfl⟩
    rfl
  · rintro rfl
    exact ⟨value.toUInt16, rest, rfl, rfl, rfl⟩

theorem i32_eq_ok_iff {bytes rest : Bytes} {value : Int32} :
    i32 bytes = .ok (value, rest) ↔ bytes = BigEndian.word32 value.toUInt32 ++ rest := by
  simp only [i32, bind_eq_ok_iff, u32_eq_ok_iff, pure_eq_ok_iff]
  constructor
  · rintro ⟨word, _, rfl, rfl, rfl⟩
    rfl
  · rintro rfl
    exact ⟨value.toUInt32, rest, rfl, rfl, rfl⟩

theorem ensure_eq_ok_iff {count : Nat} {nothing : Unit} {bytes rest : Bytes} :
    ensure count bytes = .ok (nothing, rest) ↔ count ≤ bytes.length ∧ bytes = rest := by
  unfold ensure
  rw [Bytes.atLeast_eq]
  by_cases enough : count ≤ bytes.length
  · simp [enough]
  · simp [enough, short]

theorem take_eq_ok_iff {count : Nat} {bytes rest taken : Bytes} :
    take count bytes = .ok (taken, rest) ↔ taken.length = count ∧ bytes = taken ++ rest := by
  unfold take
  rw [Bytes.atLeast_eq]
  by_cases enough : count ≤ bytes.length
  · simp only [enough, decide_true, if_true, Except.ok.injEq, List.splitAt_eq, Prod.mk.injEq]
    constructor
    · rintro ⟨rfl, rfl⟩
      exact ⟨List.length_take_of_le enough, (List.take_append_drop count bytes).symm⟩
    · rintro ⟨rfl, rfl⟩
      exact ⟨List.take_left, List.drop_left⟩
  · simp only [enough, decide_false, Bool.false_eq_true, if_false, short, reduceCtorEq, false_iff]
    rintro ⟨rfl, rfl⟩
    exact enough (by rw [List.length_append]; exact Nat.le_add_right _ _)

theorem remaining_eq_ok_iff {bytes rest taken : Bytes} :
    remaining bytes = .ok (taken, rest) ↔ rest = [] ∧ bytes = taken := by
  simp only [remaining, Except.ok.injEq, Prod.mk.injEq]
  rw [and_comm, eq_comm]

/-! ### Sequences -/

/-- On byte strings of at most `limit` bytes, what the reader takes off the front is what `write`
gives for a `valid` value, and every such value is read. -/
def Inverts (read : Reader α) (valid : α → Prop) (write : α → Bytes) (limit : Nat) : Prop :=
  ∀ bytes value rest, bytes.length ≤ limit →
    (read bytes = .ok (value, rest) ↔ valid value ∧ bytes = write value ++ rest)

theorem many_zero_eq_ok_iff {item : Reader α} {bytes rest : Bytes} {values : List α} :
    many item 0 bytes = .ok (values, rest) ↔ values = [] ∧ bytes = rest := by
  show Except.ok ([], bytes) = _ ↔ _
  simp only [Except.ok.injEq, Prod.mk.injEq, eq_comm]

theorem many_go_succ_eq_bind (item : Reader α) (count : Nat) (seen : List α) :
    many.go item (count + 1) seen = item >>= fun next => many.go item count (next :: seen) := by
  funext bytes
  cases read : item bytes with
  | error error => simp only [many.go, read, bind_of_error read]
  | ok pair => simp only [many.go, read, bind_of_ok read]

/-- What was read before only stands in front of what is read next. -/
theorem many_go_eq_bind (item : Reader α) (count : Nat) (seen : List α) :
    many.go item count seen =
      many item count >>= fun next => (pure (seen.reverse ++ next) : Reader (List α)) := by
  induction count generalizing seen with
  | zero =>
    show (pure seen.reverse : Reader (List α)) = pure [] >>= _
    rw [pure_bind, List.append_nil]
  | succ count inductionHypothesis =>
    rw [many, many_go_succ_eq_bind, many_go_succ_eq_bind, bind_assoc]
    refine bind_congr fun next => ?_
    rw [inductionHypothesis, inductionHypothesis [next], bind_assoc]
    refine bind_congr fun later => ?_
    rw [pure_bind, List.reverse_cons, List.append_assoc]
    rfl

/-- Items in a row are an item and, behind it, the others. -/
theorem many_succ_eq_bind (item : Reader α) (count : Nat) :
    many item (count + 1) =
      item >>= fun next =>
        many item count >>= fun later => (pure (next :: later) : Reader (List α)) := by
  rw [many, many_go_succ_eq_bind]
  exact bind_congr fun next => many_go_eq_bind item count [next]

theorem many_succ_eq_ok_iff {item : Reader α} {count : Nat} {bytes rest : Bytes}
    {values : List α} :
    many item (count + 1) bytes = .ok (values, rest) ↔
      ∃ next left later, item bytes = .ok (next, left) ∧
        many item count left = .ok (later, rest) ∧ values = next :: later := by
  simp only [many_succ_eq_bind, bind_eq_ok_iff, pure_eq_ok_iff]
  constructor
  · rintro ⟨next, left, first, later, _, others, rfl, rfl⟩
    exact ⟨next, left, later, first, others, rfl⟩
  · rintro ⟨next, left, later, first, others, rfl⟩
    exact ⟨next, left, first, later, rest, others, rfl, rfl⟩

/-- A fixed number of items in a row. -/
theorem many_eq_ok_iff {item : Reader α} {valid : α → Prop} {write : α → Bytes} {limit : Nat}
    (inverts : Inverts item valid write limit) {count : Nat} {bytes rest : Bytes}
    {values : List α} (short : bytes.length ≤ limit) :
    many item count bytes = .ok (values, rest) ↔
      (values.length = count ∧ ∀ value ∈ values, valid value) ∧
        bytes = values.flatMap write ++ rest := by
  induction count generalizing values bytes with
  | zero =>
    rw [many_zero_eq_ok_iff]
    constructor
    · rintro ⟨rfl, rfl⟩
      simp
    · rintro ⟨⟨empty, -⟩, same⟩
      rw [List.eq_nil_of_length_eq_zero empty] at same ⊢
      exact ⟨rfl, same⟩
  | succ count inductionHypothesis =>
    rw [many_succ_eq_ok_iff]
    constructor
    · rintro ⟨next, left, later, first, others, rfl⟩
      obtain ⟨good, rfl⟩ := (inverts _ _ _ short).mp first
      have leftShort : left.length ≤ limit := by
        rw [List.length_append] at short
        omega
      obtain ⟨⟨rfl, allGood⟩, rfl⟩ := (inductionHypothesis leftShort).mp others
      exact ⟨⟨rfl, List.forall_mem_cons.mpr ⟨good, allGood⟩⟩, by simp⟩
    · rintro ⟨⟨counted, allGood⟩, rfl⟩
      obtain ⟨next, later, rfl⟩ := List.exists_cons_of_length_eq_add_one counted
      obtain ⟨good, laterGood⟩ := List.forall_mem_cons.mp allGood
      rw [List.flatMap_cons, List.append_assoc] at short ⊢
      have leftShort : (later.flatMap write ++ rest).length ≤ limit := by
        rw [List.length_append] at short
        omega
      exact ⟨next, _, later, (inverts _ _ _ short).mpr ⟨good, rfl⟩,
        (inductionHypothesis leftShort).mpr ⟨⟨Nat.succ.inj counted, laterGood⟩, rfl⟩, rfl⟩

/-- A list behind the number of its items, which has to fit into two bytes. -/
theorem counted_inverts {item : Reader α} {valid : α → Prop} {write : α → Bytes} {limit : Nat}
    (inverts : Inverts item valid write limit) :
    Inverts (counted item) (fun values => values.length < 2 ^ 16 ∧ ∀ value ∈ values, valid value)
      (writeCounted write) limit := by
  intro bytes values rest short
  rw [counted, bind_eq_ok_iff]
  constructor
  · rintro ⟨count, left, counted, read⟩
    rw [u16_eq_ok_iff] at counted
    subst counted
    have leftShort : left.length ≤ limit := by
      rw [List.length_append] at short
      omega
    obtain ⟨⟨same, allGood⟩, rfl⟩ := (many_eq_ok_iff inverts leftShort).mp read
    refine ⟨⟨same ▸ count.toNat_lt, allGood⟩, ?_⟩
    rw [writeCounted, same, UInt16.ofNat_toNat, List.append_assoc]
  · rintro ⟨⟨fits, allGood⟩, rfl⟩
    rw [writeCounted, List.append_assoc] at short ⊢
    have leftShort : (values.flatMap write ++ rest).length ≤ limit := by
      rw [List.length_append] at short
      omega
    refine ⟨_, _, u16_eq_ok_iff.mpr rfl, (many_eq_ok_iff inverts leftShort).mpr
      ⟨⟨?_, allGood⟩, rfl⟩⟩
    rw [UInt16.toNat_ofNat', Nat.mod_eq_of_lt fits]

/-- A list of items each of which can be written. -/
theorem counted_inverts_of_total {item : Reader α} {write : α → Bytes} {limit : Nat}
    (inverts : Inverts item (fun _ => True) write limit) :
    Inverts (counted item) (fun values => values.length < 2 ^ 16) (writeCounted write) limit := by
  intro bytes values rest short
  rw [counted_inverts inverts bytes values rest short]
  exact and_congr_left fun _ => and_iff_left fun _ _ => trivial

theorem u16_inverts (limit : Nat) : Inverts u16 (fun _ => True) BigEndian.word16 limit := by
  intro bytes value rest _
  rw [u16_eq_ok_iff, true_and]

end Reader

end JavaClass
