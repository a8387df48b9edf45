/-
Promoting branches until none is strained. A round leaves every piece as it is or promotes its
branch, so the promoted branches and those that may still have to be promoted stay the same in
number together. A round that promotes nothing ends the matter, every other one uses up a branch.
So there is an end to the passes in which pieces are laid out, even if nobody counts them; there is
at most one pass more than there are short branches, and with a round for each of these the result
is that of the passes. In the layout that comes out of them every short branch is within reach of
its target.
-/

import JavaClass.Proofs.Code.Layout

namespace JavaClass

/-- Whether a branch may be promoted. -/
structure Instruction.Promotable (allowed : Bool) (instruction : Instruction) : Prop where
  branch : ∃ target, instruction.operands = .branch target
  short : Opcode.isShortBranch instruction.opcode = true
  permitted : Opcode.isConditional instruction.opcode = true → allowed = true

namespace Code

/-! ### One round -/

/-- What a round makes of a piece: itself, or its branch promoted. -/
inductive Piece.Widens (allowed : Bool) : Piece → Piece → Prop
  | same (piece : Piece) : Widens allowed piece piece
  | promoted (instruction : Instruction) (promotable : instruction.Promotable allowed) :
      Widens allowed (.kept instruction false) (.kept instruction true)

theorem Piece.Widens.trans {allowed : Bool} {before between after : Piece}
    (first : before.Widens allowed between) (second : between.Widens allowed after) :
    before.Widens allowed after := by
  cases first with
  | same => exact second
  | promoted instruction promotable =>
    cases second with
    | same => exact .promoted instruction promotable

theorem Piece.eq_kept_of_shortTarget? {piece : Piece} {target : Nat}
    (short : piece.shortTarget? = some target) :
    ∃ instruction, piece = .kept instruction false ∧ instruction.operands = .branch target ∧
      Opcode.isShortBranch instruction.opcode = true := by
  unfold shortTarget? at short
  split at short
  · rename_i offset opcode found
    rw [Option.ite_none_right_eq_some, Option.some.injEq] at short
    obtain ⟨isShort, rfl⟩ := short
    exact ⟨_, rfl, rfl, isShort⟩
  · cases short

theorem mem_targets_of_branch {instruction : Instruction} {target : Nat}
    (branch : instruction.operands = .branch target) : target ∈ instruction.targets := by
  unfold Instruction.targets
  rw [branch]
  exact List.mem_singleton_self target

theorem Piece.shortTarget?_of_promotable {allowed : Bool} {instruction : Instruction}
    (promotable : instruction.Promotable allowed) :
    (Piece.kept instruction false).shortTarget?.isSome = true := by
  obtain ⟨offset, opcode, operands⟩ := instruction
  obtain ⟨⟨target, rfl⟩, short, -⟩ := promotable
  have found : Opcode.isShortBranch opcode = true := short
  simp only [Piece.shortTarget?, found, if_true, Option.isSome_some]

/-- Whether a placed piece reaches its target if it is a branch that is not promoted. -/
def Placed.Settled (map : OffsetMap) (part : Placed) : Prop :=
  ∀ target, part.piece.shortTarget? = some target →
    ∃ moved, map.get? target = some moved ∧ isShort ((moved : Int) - (part.offset : Int)) = true

/-- A piece that a round leaves as it is does not need to be promoted. -/
theorem Placed.widens_of_relax {allowed : Bool} {map : OffsetMap} {part : Placed} {piece : Piece}
    (relaxed : part.relax allowed map = .ok piece) :
    part.piece.Widens allowed piece ∧ (piece = part.piece → part.Settled map) := by
  unfold Placed.relax at relaxed
  cases short : part.piece.shortTarget? with
  | none =>
    simp only [short, Except.ok.injEq] at relaxed
    subst relaxed
    refine ⟨.same _, fun _ target found => ?_⟩
    rw [short] at found
    cases found
  | some target =>
    obtain ⟨instruction, kept, branch, isShortBranch⟩ := Piece.eq_kept_of_shortTarget? short
    simp only [short, Outcome.bind_eq_ok_iff, OffsetMap.move_eq_ok_iff] at relaxed
    obtain ⟨moved, found, relaxed⟩ := relaxed
    split at relaxed
    · rename_i near
      rw [← Outcome.pure_eq_ok_iff.mp relaxed]
      refine ⟨.same _, fun _ other otherFound => ?_⟩
      rw [short, Option.some.injEq] at otherFound
      exact ⟨moved, otherFound ▸ found, near⟩
    · rw [kept] at relaxed ⊢
      simp only [Outcome.refuse_eq_ok_iff] at relaxed
      obtain ⟨permitted, promoted⟩ := relaxed
      have promotable : instruction.Promotable allowed := by
        refine ⟨⟨target, branch⟩, isShortBranch, fun conditional => ?_⟩
        simpa [conditional] using permitted
      rw [← Outcome.pure_eq_ok_iff.mp promoted]
      exact ⟨.promoted instruction promotable, fun same => nomatch same⟩

/-! ### Counting branches -/

/-- How many branches may still have to be promoted. -/
def shortBranches (pieces : List Piece) : Nat :=
  pieces.countP fun piece => piece.shortTarget?.isSome

theorem Piece.shortTarget?_kept_true (instruction : Instruction) :
    (Piece.kept instruction true).shortTarget? = none := by
  obtain ⟨offset, opcode, operands⟩ := instruction
  cases operands <;> rfl

/-- What a round promotes is no longer a short branch. -/
theorem promotions_add_shortBranches {allowed : Bool} {before after : List Piece}
    (round : List.Forall₂ (Piece.Widens allowed) before after) :
    promotions after + shortBranches after = promotions before + shortBranches before := by
  induction round with
  | nil => rfl
  | @cons first next rest later widens _ inductionHypothesis =>
    simp only [promotions, shortBranches, List.countP_cons] at inductionHypothesis ⊢
    cases widens with
    | same => omega
    | promoted instruction promotable =>
      simp only [Piece.shortTarget?_of_promotable promotable, Piece.shortTarget?_kept_true,
        Piece.isPromoted, Option.isSome_none, Bool.false_eq_true, if_true, if_false]
      omega

theorem promotions_le {allowed : Bool} {before after : List Piece}
    (round : List.Forall₂ (Piece.Widens allowed) before after) :
    promotions before ≤ promotions after := by
  induction round with
  | nil => exact Nat.le_refl _
  | cons widens _ inductionHypothesis =>
    simp only [promotions, List.countP_cons] at inductionHypothesis ⊢
    cases widens with
    | same => omega
    | promoted instruction promotable =>
      simp only [Piece.isPromoted, Bool.false_eq_true, if_true, if_false]
      omega

/-- A round that promotes nothing leaves everything as it is. -/
theorem eq_of_promotions_eq {allowed : Bool} {before after : List Piece}
    (round : List.Forall₂ (Piece.Widens allowed) before after)
    (idle : promotions after = promotions before) : after = before := by
  induction round with
  | nil => rfl
  | cons widens others inductionHypothesis =>
    have least := promotions_le others
    simp only [promotions, List.countP_cons] at idle least inductionHypothesis
    cases widens with
    | same => rw [inductionHypothesis (by omega)]
    | promoted instruction promotable =>
      simp only [Piece.isPromoted, Bool.false_eq_true, if_true, if_false] at idle
      omega

/-! ### Laying out -/

/-- Whatever the places come to, all pieces are placed, and the map is that of their anchors. -/
theorem all_of_layOut {oldLength : Nat} {pieces : List Piece} {layout : Layout}
    (laidOut : layOut oldLength pieces = .ok layout) :
    layout.placed.map Placed.piece = pieces ∧
      layout.map = anchors oldLength layout.placed layout.length := by
  have all := map_piece_placeFrom 0 [] pieces
  rw [layOut] at laidOut
  generalize placeFrom 0 [] pieces = count at all laidOut
  obtain ⟨placed, count⟩ := count
  dsimp only at laidOut
  split at laidOut
  · cases laidOut
  · obtain rfl := Except.ok.inj laidOut
    exact ⟨all, rfl⟩

theorem piece_mem_of_layOut {oldLength : Nat} {pieces : List Piece} {layout : Layout}
    (laidOut : layOut oldLength pieces = .ok layout) {part : Placed}
    (member : part ∈ layout.placed) : part.piece ∈ pieces := by
  rw [← (all_of_layOut laidOut).1]
  exact List.mem_map_of_mem member

section counted

variable {oldLength : Nat} {pieces : List Piece} (within : endFrom 0 pieces < 2 ^ 32)

include within

/-- Where the end can be counted, pieces that are not too long lie one behind the other. -/
theorem layOut_eq (oldLength : Nat) :
    layOut oldLength pieces =
      if longestCode < endFrom 0 pieces then .error (.codeTooLarge (endFrom 0 pieces))
      else .ok ⟨placedFrom 0 pieces, endFrom 0 pieces,
        anchors oldLength (placedFrom 0 pieces) (endFrom 0 pieces)⟩ := by
  simp only [layOut, placeFrom_zero within, UInt32.toNat_ofNat', Nat.mod_eq_of_lt within]

theorem layOut_eq_ok_iff {layout : Layout} :
    layOut oldLength pieces = .ok layout ↔
      endFrom 0 pieces ≤ longestCode ∧
        layout = ⟨placedFrom 0 pieces, endFrom 0 pieces,
          anchors oldLength (placedFrom 0 pieces) (endFrom 0 pieces)⟩ := by
  rw [layOut_eq within]
  by_cases long : longestCode < endFrom 0 pieces
  · simp only [if_pos long, reduceCtorEq, false_iff]
    exact fun both => absurd both.1 (Nat.not_le_of_lt long)
  · simp only [if_neg long, Except.ok.injEq, Nat.le_of_not_lt long, true_and]
    exact eq_comm

end counted

theorem widens_row_refl (allowed : Bool) (pieces : List Piece) :
    List.Forall₂ (Piece.Widens allowed) pieces pieces :=
  List.forall₂_same.mpr fun piece _ => .same piece

theorem widens_row_trans {allowed : Bool} {before between after : List Piece}
    (first : List.Forall₂ (Piece.Widens allowed) before between)
    (second : List.Forall₂ (Piece.Widens allowed) between after) :
    List.Forall₂ (Piece.Widens allowed) before after := by
  induction first generalizing after with
  | nil => exact second
  | cons widens _ inductionHypothesis =>
    cases second with
    | cons widensOn others => exact .cons (widens.trans widensOn) (inductionHypothesis others)

section round

variable {allowed : Bool} {oldLength : Nat} {pieces relaxed : List Piece} {layout : Layout}
  (laidOut : layOut oldLength pieces = .ok layout)
  (round : layout.placed.mapM (Placed.relax allowed layout.map) = .ok relaxed)

include laidOut round

theorem widens_of_round : List.Forall₂ (Piece.Widens allowed) pieces relaxed := by
  rw [← (all_of_layOut laidOut).1, List.forall₂_map_left_iff]
  exact (Outcome.mapM_eq_ok_iff.mp round).imp fun _ _ done => (Placed.widens_of_relax done).1

theorem settled_of_round (idle : promotions relaxed = promotions pieces) :
    ∀ part ∈ layout.placed, part.Settled layout.map := by
  have same := eq_of_promotions_eq (widens_of_round laidOut round) idle
  have row := Outcome.mapM_eq_ok_iff.mp round
  rw [same, ← (all_of_layOut laidOut).1, List.forall₂_map_right_iff, List.forall₂_same] at row
  exact fun part member => (Placed.widens_of_relax (row part member)).2 rfl

theorem shortBranches_lt_of_round (busy : promotions relaxed ≠ promotions pieces) :
    shortBranches relaxed < shortBranches pieces := by
  have total := promotions_add_shortBranches (widens_of_round laidOut round)
  have least := promotions_le (widens_of_round laidOut round)
  omega

end round

/-- Where there is no short branch, a round has nothing to do. -/
theorem relax_of_shortBranches_eq_zero {placed : List Placed}
    (none : shortBranches (placed.map Placed.piece) = 0) (allowed : Bool) (map : OffsetMap) :
    placed.mapM (Placed.relax allowed map) = .ok (placed.map Placed.piece) := by
  rw [shortBranches, List.countP_eq_zero, List.forall_mem_map] at none
  rw [Outcome.mapM_eq_ok_iff, List.forall₂_map_right_iff, List.forall₂_same]
  intro part member
  have long := none part member
  rw [Bool.not_eq_true, Option.isSome_eq_false_iff, Option.isNone_iff_eq_none] at long
  simp only [Placed.relax, long]

/-! ### All passes -/

/-- The rows of pieces that are laid out one after the other if nothing bounds the number of passes,
and what comes out of the last of them: pieces that are too long or that need a branch promoted
which must not be, or a layout in which no branch has to be promoted any more. -/
inductive Settles (allowed : Bool) (oldLength : Nat) :
    List (List Piece) → Except Error Layout → Prop
  | overfull {pieces : List Piece} {error : Error}
      (refused : layOut oldLength pieces = .error error) :
      Settles allowed oldLength [pieces] (.error error)
  | strained {pieces : List Piece} {layout : Layout} {error : Error}
      (laidOut : layOut oldLength pieces = .ok layout)
      (refused : layout.placed.mapM (Placed.relax allowed layout.map) = .error error) :
      Settles allowed oldLength [pieces] (.error error)
  | settled {pieces relaxed : List Piece} {layout : Layout}
      (laidOut : layOut oldLength pieces = .ok layout)
      (round : layout.placed.mapM (Placed.relax allowed layout.map) = .ok relaxed)
      (idle : promotions relaxed = promotions pieces) :
      Settles allowed oldLength [pieces] (.ok layout)
  | again {pieces relaxed : List Piece} {layout : Layout} {later : List (List Piece)}
      {result : Except Error Layout} (laidOut : layOut oldLength pieces = .ok layout)
      (round : layout.placed.mapM (Placed.relax allowed layout.map) = .ok relaxed)
      (busy : promotions relaxed ≠ promotions pieces)
      (others : Settles allowed oldLength (relaxed :: later) result) :
      Settles allowed oldLength (pieces :: relaxed :: later) result

/-- The passes end: each but the last uses up a short branch. -/
theorem exists_settles (allowed : Bool) (oldLength : Nat) (pieces : List Piece) :
    ∃ later result, Settles allowed oldLength (pieces :: later) result ∧
      later.length ≤ shortBranches pieces := by
  induction count : shortBranches pieces using Nat.strongRecOn generalizing pieces with
  | ind branches inductionHypothesis =>
    subst count
    cases laidOut : layOut oldLength pieces with
    | error error => exact ⟨[], _, .overfull laidOut, Nat.zero_le _⟩
    | ok layout =>
      cases round : layout.placed.mapM (Placed.relax allowed layout.map) with
      | error error => exact ⟨[], _, .strained laidOut round, Nat.zero_le _⟩
      | ok relaxed =>
        by_cases idle : promotions relaxed = promotions pieces
        · exact ⟨[], _, .settled laidOut round idle, Nat.zero_le _⟩
        · have fewer := shortBranches_lt_of_round laidOut round idle
          obtain ⟨later, result, run, bounded⟩ := inductionHypothesis _ fewer relaxed rfl
          exact ⟨relaxed :: later, result, .again laidOut round idle run,
            Nat.lt_of_le_of_lt bounded fewer⟩

namespace Settles

variable {allowed : Bool} {oldLength : Nat} {passes : List (List Piece)}
  {result : Except Error Layout}

/-- There is only one way to go on from a row of pieces. -/
theorem unique (run : Settles allowed oldLength passes result) {others : List (List Piece)}
    {answer : Except Error Layout} (other : Settles allowed oldLength others answer)
    (same : others.head? = passes.head?) : others = passes ∧ answer = result := by
  induction run generalizing others with
  | overfull refused => cases other <;> obtain rfl := Option.some.inj same <;> grind
  | strained laidOut refused => cases other <;> obtain rfl := Option.some.inj same <;> grind
  | settled laidOut round idle => cases other <;> obtain rfl := Option.some.inj same <;> grind
  | again laidOut round busy _ inductionHypothesis =>
    cases other with
    | again laidOutAgain roundAgain _ others =>
      obtain rfl := Option.some.inj same
      obtain rfl := Except.ok.inj (laidOut.symm.trans laidOutAgain)
      obtain rfl := Except.ok.inj (round.symm.trans roundAgain)
      obtain ⟨alike, answers⟩ := inductionHypothesis others rfl
      exact ⟨congrArg (List.cons _) alike, answers⟩
    | overfull | strained | settled =>
      obtain rfl := Option.some.inj same
      grind

/-- Each pass lays out the pieces of those before it, some of them promoted in between. -/
theorem pairwise (run : Settles allowed oldLength passes result) :
    passes.Pairwise (List.Forall₂ (Piece.Widens allowed)) := by
  induction run with
  | overfull | strained | settled => exact List.pairwise_singleton _ _
  | @again pieces relaxed layout later result laidOut round _ _ inductionHypothesis =>
    have first := widens_of_round laidOut round
    refine .cons (fun row member => ?_) inductionHypothesis
    rcases List.mem_cons.mp member with rfl | member
    · exact first
    · exact widens_row_trans first (List.rel_of_pairwise_cons inductionHypothesis member)

/-- What comes out if it is a layout: that of the last row, with every short branch in reach. -/
theorem settled_of_ok {layout : Layout} (run : Settles allowed oldLength passes (.ok layout)) :
    ∃ final ∈ passes, layOut oldLength final = .ok layout ∧
      ∀ part ∈ layout.placed, part.Settled layout.map := by
  generalize succeeds : Except.ok layout = result at run
  induction run with
  | overfull | strained => cases succeeds
  | settled laidOut round idle =>
    obtain rfl := Except.ok.inj succeeds
    exact ⟨_, List.mem_cons_self, laidOut, settled_of_round laidOut round idle⟩
  | again _ _ _ _ inductionHypothesis =>
    obtain ⟨final, member, last⟩ := inductionHypothesis succeeds
    exact ⟨final, List.mem_cons_of_mem _ member, last⟩

/-- As many rounds as there are short branches have the result of the passes. -/
theorem settle_eq {pieces : List Piece} {later : List (List Piece)} {rounds : Nat}
    (run : Settles allowed oldLength (pieces :: later) result)
    (enough : shortBranches pieces ≤ rounds) :
    settle allowed oldLength rounds pieces = result := by
  generalize rows : pieces :: later = passes at run
  induction run generalizing pieces later rounds with
  | overfull refused =>
    obtain ⟨rfl, -⟩ := List.cons.inj rows
    cases rounds with
    | zero => exact refused
    | succ rounds => simp only [settle, refused, bind, Except.bind]
  | strained laidOut refused =>
    obtain ⟨rfl, -⟩ := List.cons.inj rows
    cases rounds with
    | zero =>
      rw [← (all_of_layOut laidOut).1] at enough
      rw [relax_of_shortBranches_eq_zero (Nat.le_zero.mp enough)] at refused
      cases refused
    | succ rounds => simp only [settle, laidOut, refused, bind, Except.bind]
  | settled laidOut round idle =>
    obtain ⟨rfl, -⟩ := List.cons.inj rows
    cases rounds with
    | zero => exact laidOut
    | succ rounds => simp only [settle, laidOut, round, bind, Except.bind, idle, if_true, pure,
        Except.pure]
  | again laidOut round busy _ inductionHypothesis =>
    obtain ⟨rfl, -⟩ := List.cons.inj rows
    have fewer := shortBranches_lt_of_round laidOut round busy
    cases rounds with
    | zero => omega
    | succ rounds =>
      simp only [settle, laidOut, round, bind, Except.bind, busy, if_false]
      exact inductionHypothesis (by omega) rfl

end Settles

/-- If there are as many rounds as short branches, the layout that comes out has none that does not
reach its target. -/
theorem settled_of_settle {allowed : Bool} {oldLength rounds : Nat} {pieces : List Piece}
    {layout : Layout} (enough : shortBranches pieces ≤ rounds)
    (settled : settle allowed oldLength rounds pieces = .ok layout) :
    ∃ final, List.Forall₂ (Piece.Widens allowed) pieces final ∧
      layOut oldLength final = .ok layout ∧ ∀ part ∈ layout.placed, part.Settled layout.map := by
  obtain ⟨later, result, run, -⟩ := exists_settles allowed oldLength pieces
  rw [run.settle_eq enough] at settled
  subst settled
  obtain ⟨final, member, last⟩ := run.settled_of_ok
  refine ⟨final, ?_, last⟩
  rcases List.mem_cons.mp member with rfl | member
  · exact widens_row_refl _ _
  · exact List.rel_of_pairwise_cons run.pairwise member

end Code

end JavaClass
