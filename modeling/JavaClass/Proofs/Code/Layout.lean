/-
Laying pieces out. Places are counted in thirty-two bits. Whatever the count comes to, every piece
is placed once and the map from old offsets to new ones is defined exactly at the anchors and at the
old end. While nothing runs over, the pieces lie one behind the other: the place of a piece is the
end of the pieces in front of it, what is anchored goes where its piece lies, and the map keeps the
order of the anchors.
-/

import JavaClass.Code.Relocation
import JavaClass.Proofs.Code.OffsetMap
import Mathlib.Algebra.Ring.Nat

namespace JavaClass.Code

/-! ### Places -/

/-- Pieces at their places, the first of them at `offset`. -/
def placedFrom (offset : Nat) : List Piece → List Placed
  | [] => []
  | piece :: rest => ⟨offset, piece⟩ :: placedFrom (offset + piece.lengthAt offset) rest

/-- The end of pieces the first of which lies at `offset`. -/
def endFrom (offset : Nat) : List Piece → Nat
  | [] => offset
  | piece :: rest => endFrom (offset + piece.lengthAt offset) rest

theorem le_endFrom (offset : Nat) (pieces : List Piece) : offset ≤ endFrom offset pieces := by
  induction pieces generalizing offset with
  | nil => exact Nat.le_refl _
  | cons piece rest inductionHypothesis =>
    exact Nat.le_trans (Nat.le_add_right _ _) (inductionHypothesis _)

/-- Every piece is placed once, in the given order, even if the count runs over. -/
theorem map_piece_placeFrom (offset : UInt32) (seen : List Placed) (pieces : List Piece) :
    (placeFrom offset seen pieces).1.map Placed.piece =
      seen.reverse.map Placed.piece ++ pieces := by
  induction pieces generalizing offset seen with
  | nil => exact (List.append_nil _).symm
  | cons piece rest inductionHypothesis =>
    rw [placeFrom, inductionHypothesis, List.reverse_cons, List.map_append, List.append_assoc]
    rfl

/-- A count that does not run over is the sum. -/
theorem toNat_add_ofNat {offset : UInt32} {length : Nat} (within : offset.toNat + length < 2 ^ 32) :
    (offset + .ofNat length).toNat = offset.toNat + length := by
  rw [UInt32.toNat_add, UInt32.toNat_ofNat', Nat.mod_eq_of_lt (by omega : length < 2 ^ 32),
    Nat.mod_eq_of_lt within]

/-- Where the end can be counted, the pieces lie one behind the other. -/
theorem placeFrom_eq {offset : UInt32} (seen : List Placed) {pieces : List Piece}
    (within : endFrom offset.toNat pieces < 2 ^ 32) :
    placeFrom offset seen pieces =
      (seen.reverse ++ placedFrom offset.toNat pieces,
        .ofNat (endFrom offset.toNat pieces)) := by
  induction pieces generalizing offset seen with
  | nil => rw [placeFrom, placedFrom, endFrom, List.append_nil, UInt32.ofNat_toNat]
  | cons piece rest inductionHypothesis =>
    rw [endFrom] at within
    have counted := toNat_add_ofNat (Nat.lt_of_le_of_lt (le_endFrom _ rest) within)
    rw [← counted] at within
    rw [placeFrom, inductionHypothesis _ within, counted, placedFrom, endFrom, List.reverse_cons,
      List.append_assoc, List.singleton_append]

theorem placeFrom_zero {pieces : List Piece} (within : endFrom 0 pieces < 2 ^ 32) :
    placeFrom 0 [] pieces = (placedFrom 0 pieces, .ofNat (endFrom 0 pieces)) :=
  placeFrom_eq [] within

theorem placedFrom_append (offset : Nat) (front back : List Piece) :
    placedFrom offset (front ++ back) =
      placedFrom offset front ++ placedFrom (endFrom offset front) back := by
  induction front generalizing offset with
  | nil => rfl
  | cons piece rest inductionHypothesis =>
    rw [List.cons_append, placedFrom, inductionHypothesis, placedFrom, endFrom, List.cons_append]

theorem endFrom_append (offset : Nat) (front back : List Piece) :
    endFrom offset (front ++ back) = endFrom (endFrom offset front) back := by
  induction front generalizing offset with
  | nil => rfl
  | cons piece rest inductionHypothesis =>
    rw [List.cons_append, endFrom, inductionHypothesis, endFrom]

theorem map_piece_placedFrom (offset : Nat) (pieces : List Piece) :
    (placedFrom offset pieces).map Placed.piece = pieces := by
  induction pieces generalizing offset with
  | nil => rfl
  | cons piece rest inductionHypothesis =>
    rw [placedFrom, List.map_cons, inductionHypothesis]

/-- A placed piece lies at the end of the pieces in front of it. -/
theorem exists_split_of_mem_placedFrom {offset : Nat} {pieces : List Piece} {part : Placed}
    (member : part ∈ placedFrom offset pieces) :
    ∃ front back, pieces = front ++ part.piece :: back ∧ part.offset = endFrom offset front := by
  induction pieces generalizing offset with
  | nil => cases member
  | cons piece rest inductionHypothesis =>
    rw [placedFrom] at member
    cases member with
    | head => exact ⟨[], rest, rfl, rfl⟩
    | tail _ member =>
      obtain ⟨front, back, split, place⟩ := inductionHypothesis member
      exact ⟨piece :: front, back, by rw [split, List.cons_append], place⟩

theorem piece_mem_of_mem_placedFrom {offset : Nat} {pieces : List Piece} {part : Placed}
    (member : part ∈ placedFrom offset pieces) : part.piece ∈ pieces := by
  rw [← map_piece_placedFrom offset pieces]
  exact List.mem_map_of_mem member

/-- Every piece is placed somewhere. -/
theorem exists_place {pieces : List Piece} {piece : Piece} (member : piece ∈ pieces)
    (offset : Nat) : ∃ place, ⟨place, piece⟩ ∈ placedFrom offset pieces := by
  rw [← map_piece_placedFrom offset pieces] at member
  obtain ⟨⟨place, _⟩, partMember, rfl⟩ := List.mem_map.mp member
  exact ⟨place, partMember⟩

theorem mem_placedFrom_bounds {offset : Nat} {pieces : List Piece} {part : Placed}
    (member : part ∈ placedFrom offset pieces) :
    offset ≤ part.offset ∧
      part.offset + part.piece.lengthAt part.offset ≤ endFrom offset pieces := by
  obtain ⟨front, back, rfl, place⟩ := exists_split_of_mem_placedFrom member
  rw [place, endFrom_append, endFrom]
  exact ⟨le_endFrom _ _, le_endFrom _ _⟩

/-! ### Anchors -/

/-- The old and the new offsets of anchored pieces. -/
def anchorPairs (placed : List Placed) : List (Nat × Nat) :=
  placed.filterMap fun part => part.piece.anchor?.map fun old => (old, part.offset)

theorem map_fst_anchorPairs (placed : List Placed) :
    (anchorPairs placed).map Prod.fst = (placed.map Placed.piece).filterMap Piece.anchor? := by
  rw [anchorPairs, List.map_filterMap, List.filterMap_map]
  congr 1
  funext part
  show Option.map Prod.fst (Option.map _ part.piece.anchor?) = part.piece.anchor?
  cases part.piece.anchor? with
  | none => rfl
  | some old => rfl

theorem mem_anchorPairs_iff {placed : List Placed} {old new : Nat} :
    (old, new) ∈ anchorPairs placed ↔
      ∃ part ∈ placed, part.piece.anchor? = some old ∧ part.offset = new := by
  rw [anchorPairs, List.mem_filterMap]
  refine exists_congr fun part => and_congr_right fun _ => ?_
  rw [Option.map_eq_some_iff]
  constructor
  · rintro ⟨_, anchored, same⟩
    cases same
    exact ⟨anchored, rfl⟩
  · rintro ⟨anchored, rfl⟩
    exact ⟨old, anchored, rfl⟩

/-- Whether every anchored piece takes at least one byte wherever it lies. -/
def AnchorsFilled (pieces : List Piece) : Prop :=
  ∀ piece ∈ pieces, piece.anchor?.isSome = true → ∀ offset, 0 < piece.lengthAt offset

/-- Anchors lie at least as far apart as every anchored piece is long. -/
theorem pairwise_snd_anchorPairs {least offset : Nat} {pieces : List Piece}
    (room : ∀ piece ∈ pieces, piece.anchor?.isSome = true →
      ∀ place, least ≤ piece.lengthAt place) :
    (anchorPairs (placedFrom offset pieces)).Pairwise
      fun before after => before.2 + least ≤ after.2 := by
  induction pieces generalizing offset with
  | nil => exact .nil
  | cons piece rest inductionHypothesis =>
    obtain ⟨first, others⟩ := List.forall_mem_cons.mp room
    have later : (anchorPairs (placedFrom (offset + piece.lengthAt offset) rest)).Pairwise
        fun before after => before.2 + least ≤ after.2 := inductionHypothesis others
    rw [placedFrom, anchorPairs, List.filterMap_cons]
    cases anchored : piece.anchor? with
    | none => exact later
    | some old =>
      refine .cons ?_ later
      rintro ⟨other, place⟩ member
      obtain ⟨part, partMember, -, rfl⟩ := mem_anchorPairs_iff.mp member
      have length := first (by rw [anchored]; rfl) offset
      have behind := (mem_placedFrom_bounds partMember).1
      show offset + least ≤ part.offset
      omega

/-- Pairs whose old offsets ascend. -/
def Keyed (pairs : List (Nat × Nat)) : Prop :=
  pairs.Pairwise fun before after => before.1 < after.1

/-- Pairs whose old offsets ascend, and whose new ones do not descend. -/
def Ascending (pairs : List (Nat × Nat)) : Prop :=
  pairs.Pairwise fun before after => before.1 < after.1 ∧ before.2 ≤ after.2

/-- Pairs that keep the order of the old offsets. -/
def Increasing (pairs : List (Nat × Nat)) : Prop :=
  pairs.Pairwise fun before after => before.1 < after.1 ∧ before.2 < after.2

theorem Ascending.keyed {pairs : List (Nat × Nat)} (ascending : Ascending pairs) : Keyed pairs :=
  ascending.imp And.left

theorem Increasing.keyed {pairs : List (Nat × Nat)} (increasing : Increasing pairs) :
    Keyed pairs :=
  increasing.imp And.left

section anchors

variable {oldLength : Nat} {pieces : List Piece}
  (ordered : (pieces.filterMap Piece.anchor?).Pairwise (· < ·))
  (inside : ∀ old ∈ pieces.filterMap Piece.anchor?, old < oldLength)

include ordered inside

/-- Wherever pieces are placed, the map is made of one pair for each anchor and one for the end. -/
theorem keyed_anchors {placed : List Placed} (all : placed.map Placed.piece = pieces)
    (newLength : Nat) : Keyed (anchorPairs placed ++ [(oldLength, newLength)]) := by
  subst all
  rw [← map_fst_anchorPairs] at ordered inside
  refine List.pairwise_append.mpr
    ⟨List.pairwise_map.mp ordered, List.pairwise_singleton _ _, ?_⟩
  intro pair member last lastMember
  rw [List.mem_singleton.mp lastMember]
  exact inside _ (List.mem_map_of_mem member)

/-- What a map is made of: its old offsets ascend, and its new ones lie as far apart as the pieces
are long. -/
theorem spaced_anchors {least : Nat}
    (room : ∀ piece ∈ pieces, piece.anchor?.isSome = true →
      ∀ place, least ≤ piece.lengthAt place) :
    (anchorPairs (placedFrom 0 pieces) ++ [(oldLength, endFrom 0 pieces)]).Pairwise
      fun before after => before.1 < after.1 ∧ before.2 + least ≤ after.2 := by
  have keyed := keyed_anchors ordered inside (map_piece_placedFrom 0 pieces) (endFrom 0 pieces)
  refine keyed.and (List.pairwise_append.mpr
    ⟨pairwise_snd_anchorPairs room, List.pairwise_singleton _ _, ?_⟩)
  rintro ⟨old, new⟩ member last lastMember
  rw [List.mem_singleton.mp lastMember]
  obtain ⟨part, partMember, anchored, rfl⟩ := mem_anchorPairs_iff.mp member
  have length := room part.piece (piece_mem_of_mem_placedFrom partMember)
    (by rw [anchored]; rfl) part.offset
  have within := (mem_placedFrom_bounds partMember).2
  show part.offset + least ≤ endFrom 0 pieces
  omega

theorem ascending_anchors :
    Ascending (anchorPairs (placedFrom 0 pieces) ++ [(oldLength, endFrom 0 pieces)]) :=
  spaced_anchors ordered inside fun _ _ _ _ => Nat.zero_le _

theorem increasing_anchors (filled : AnchorsFilled pieces) :
    Increasing (anchorPairs (placedFrom 0 pieces) ++ [(oldLength, endFrom 0 pieces)]) :=
  spaced_anchors ordered inside filled

end anchors

theorem get?_ofList_eq_some_iff {pairs : List (Nat × Nat)} (keyed : Keyed pairs)
    {old new : Nat} : (OffsetMap.ofList pairs).get? old = some new ↔ (old, new) ∈ pairs := by
  have distinct : pairs.Pairwise fun before after => ¬compare before.1 after.1 = .eq :=
    keyed.imp fun ordered => by
      rw [Nat.compare_eq_eq]
      exact Nat.ne_of_lt ordered
  have found {value : Nat} (member : (old, value) ∈ pairs) :
      (OffsetMap.ofList pairs).get? old = some value :=
    Std.ExtTreeMap.getElem?_ofList_of_mem (Nat.compare_eq_eq.mpr rfl) distinct member
  constructor
  · intro stored
    by_cases known : old ∈ pairs.map Prod.fst
    · obtain ⟨⟨_, value⟩, member, rfl⟩ := List.mem_map.mp known
      rw [found member] at stored
      exact Option.some.inj stored ▸ member
    · have missing : (OffsetMap.ofList pairs).get? old = none := by
        refine Std.ExtTreeMap.getElem?_ofList_of_contains_eq_false ?_
        rwa [Bool.eq_false_iff, ne_eq, List.contains_iff_mem]
      rw [missing] at stored
      cases stored
  · exact found

/-- A map keeps its pairs in the order of the old offsets. -/
theorem toList_ofList {pairs : List (Nat × Nat)} (keyed : Keyed pairs) :
    (OffsetMap.ofList pairs).toList = pairs := by
  have sorted : (OffsetMap.ofList pairs).toList.Pairwise fun before after => before.1 < after.1 :=
    Std.ExtTreeMap.ordered_keys_toList.imp Nat.compare_eq_lt.mp
  have distinct {list : List (Nat × Nat)}
      (ordered : list.Pairwise fun before after => before.1 < after.1) : list.Nodup :=
    ordered.imp fun less same => Nat.ne_of_lt less (congrArg Prod.fst same)
  refine List.Perm.eq_of_pairwise (fun _ _ _ _ less more => absurd less (Nat.lt_asymm more)) sorted
    keyed ((List.perm_ext_iff_of_nodup (distinct sorted) (distinct keyed)).mpr ?_)
  rintro ⟨old, new⟩
  exact Std.ExtTreeMap.mem_toList_iff_getElem?_eq_some.trans (get?_ofList_eq_some_iff keyed)

theorem get?_ofList_lt_iff {pairs : List (Nat × Nat)} (increasing : Increasing pairs)
    {first second firstNew secondNew : Nat}
    (firstFound : (OffsetMap.ofList pairs).get? first = some firstNew)
    (secondFound : (OffsetMap.ofList pairs).get? second = some secondNew) :
    firstNew < secondNew ↔ first < second := by
  rw [get?_ofList_eq_some_iff increasing.keyed] at firstFound secondFound
  have alike : ∀ left ∈ pairs, ∀ right ∈ pairs, (left.2 < right.2 ↔ left.1 < right.1) :=
    List.Pairwise.forall_of_forall_of_flip
      (fun _ _ => iff_of_false (Nat.lt_irrefl _) (Nat.lt_irrefl _))
      (increasing.imp fun ordered => iff_of_true ordered.2 ordered.1)
      (increasing.imp fun ordered =>
        iff_of_false (Nat.lt_asymm ordered.2) (Nat.lt_asymm ordered.1))
  exact alike _ firstFound _ secondFound

end JavaClass.Code
