import Mathlib.Data.Finset.Card
import PaimonCore.MergeTree.LeafStreams

/-!
# One key after the other

Between two keys every record left is above the last key. `AdjustForNextLoop` then brings
all popped leaves back, and popping until a hole is on top hands out exactly the records
of the least key, by sequence.
-/

namespace PaimonCore.MergeTree

open Std List Function

namespace LoserTree

variable {order : RecordOrder} {loserTree after : LoserTree} {current : Option KeyValue}
  {top : Nat}

def poppedLeaves (loserTree : LoserTree) : Finset Nat :=
  (Finset.range loserTree.size).filter (fun leaf => (loserTree.leaves leaf).IsPopped)

theorem mem_popped_leaves {leaf : Nat} : leaf ∈ loserTree.poppedLeaves ↔
    leaf < loserTree.size ∧ (loserTree.leaves leaf).IsPopped := by
  rw [poppedLeaves, Finset.mem_filter, Finset.mem_range]

theorem popped_leaves_card_le : loserTree.poppedLeaves.card ≤ loserTree.size := by
  calc loserTree.poppedLeaves.card ≤ (Finset.range loserTree.size).card :=
        Finset.card_filter_le _ _
    _ = loserTree.size := Finset.card_range _

theorem popped_iff_of_winner {leaf : LeafIterator} (state : leaf.state.isWinner = true) :
    leaf.IsPopped ↔ leaf.state = .winnerPopped := by
  constructor
  · intro popped
    rcases popped with isWinner | isLoser
    · exact isWinner
    · rw [isLoser] at state
      cases state
  · exact Or.inl

theorem Standing.peek_of_popped (standing : Standing order loserTree current top)
    (popped : (loserTree.leaves top).IsPopped) : loserTree.peekWinner = none := by
  simp only [peekWinner, standing.topAt,
    (popped_iff_of_winner standing.topState).mp popped, if_true]

theorem Standing.peek_of_unpopped (standing : Standing order loserTree current top)
    (unpopped : ¬(loserTree.leaves top).IsPopped) :
    loserTree.peekWinner = (loserTree.leaves top).kv := by
  have state := fun isPopped => unpopped ((popped_iff_of_winner standing.topState).mpr isPopped)
  simp only [peekWinner, standing.topAt, if_neg state]

/-- Between two keys: all records left come after the current key. -/
structure Rested (order : RecordOrder) (loserTree : LoserTree) (current : Option KeyValue)
    (top : Nat) : Prop where
  standing : Standing order loserTree current top
  streams : Streams order loserTree
  positive : 1 ≤ loserTree.size
  later : ∀ leaf < loserTree.size, ∀ record ∈ (loserTree.leaves leaf).pending,
    Above order current (some record)

theorem Above.of_pending {leaf : LeafIterator}
    (later : ∀ record ∈ leaf.pending, Above order current (some record))
    (unpopped : ¬leaf.IsPopped) : Above order current leaf.kv := by
  intro bound isCurrent record isRecord
  exact later record (kv_mem_pending unpopped isRecord) bound isCurrent record rfl

theorem Rested.none_popped (rested : Rested order loserTree current top)
    (unpopped : ¬(loserTree.leaves top).IsPopped) :
    ∀ leaf < loserTree.size, ¬(loserTree.leaves leaf).IsPopped := by
  intro leaf small popped
  rcases rested.standing.closed with ⟨win, tournament, wins⟩
  have topSmall := rested.standing.top_small rested.positive
  rcases tournament.top_of_popped rested.standing.ahead small popped wins with
    topPopped | atKey
  · exact unpopped topPopped
  · exact not_at_key_of_above (Above.of_pending (rested.later top topSmall) unpopped) atKey

theorem Rested.advance (rested : Rested order loserTree current top)
    (popped : (loserTree.leaves top).IsPopped) :
    ∃ final next, (loserTree.setLeaf top (loserTree.leaves top).advanceIfAvailable).adjust order
        top = .ok final ∧ Rested order final current next ∧ final.size = loserTree.size ∧
      final.remaining = loserTree.remaining ∧
      final.poppedLeaves.card < loserTree.poppedLeaves.card := by
  have small := rested.standing.top_small rested.positive
  have inOrder := rested.streams.inOrder top small
  have advanced := LeafIterator.advance_if_available inOrder.ended
  have pendingTop : (loserTree.leaves top).advanceIfAvailable.pending =
      (loserTree.leaves top).pending := by
    rw [advanced.pending, LeafIterator.pending_of_popped popped]
  have sorted := inOrder.sorted
  rw [LeafIterator.pending_of_popped popped] at sorted
  have pending :
      ∀ leaf,
      ((loserTree.setLeaf top (loserTree.leaves top).advanceIfAvailable).leaves leaf).pending =
      (loserTree.leaves leaf).pending := by
    intro leaf
    by_cases isTop : leaf = top
    · rw [isTop, leaves_set_leaf, update_self]
      exact pendingTop
    · rw [leaves_set_leaf, update_of_ne isTop]
  have streams :
      Streams order (loserTree.setLeaf top (loserTree.leaves top).advanceIfAvailable) := by
    apply rested.streams.of_fewer (size_set_leaf _ _ _)
    · intro leaf leafSmall
      by_cases isTop : leaf = top
      · rw [isTop, leaves_set_leaf, update_self]
        exact advanced.in_order sorted
      · rw [leaves_set_leaf, update_of_ne isTop]
        exact rested.streams.inOrder leaf leafSmall
    · intro leaf _
      rw [pending leaf]
      exact Subset.refl _
  have above : Above order current (loserTree.leaves top).advanceIfAvailable.kv := by
    apply Above.of_pending _ advanced.unpopped
    rw [pendingTop]
    exact rested.later top small
  rcases rested.standing.advance rested.positive popped advanced.state advanced.index above
    streams.no_ties with ⟨final, next, result, size, same, standing⟩
  have finalPending : ∀ leaf, (final.leaves leaf).pending = (loserTree.leaves leaf).pending := by
    intro leaf
    rw [(same leaf).pending, pending leaf]
  refine ⟨final, next, result, ?_, size, remaining_congr size (fun leaf _ => finalPending leaf), ?_⟩
  · refine ⟨standing, streams.congr size same, ?_, ?_⟩
    · rw [size]
      exact rested.positive
    · intro leaf leafSmall record isRecord
      rw [size] at leafSmall
      rw [finalPending leaf] at isRecord
      exact rested.later leaf leafSmall record isRecord
  · -- the advanced leaf is no longer popped, the others are as before
    apply Finset.card_lt_card
    apply Finset.ssubset_iff_of_subset _ |>.mpr
    · refine ⟨top, mem_popped_leaves.mpr ⟨small, popped⟩, ?_⟩
      intro mem
      have still := (same top).popped.mp (mem_popped_leaves.mp mem).2
      rw [leaves_set_leaf, update_self] at still
      exact advanced.unpopped still
    · intro leaf mem
      rcases mem_popped_leaves.mp mem with ⟨leafSmall, leafPopped⟩
      rw [size] at leafSmall
      have before := (same leaf).popped.mp leafPopped
      by_cases isTop : leaf = top
      · rw [isTop]
        exact mem_popped_leaves.mpr ⟨small, popped⟩
      · rw [leaves_set_leaf, update_of_ne isTop] at before
        exact mem_popped_leaves.mpr ⟨leafSmall, before⟩

theorem Standing.next_loop_stops (standing : Standing order loserTree current top)
    (unpopped : ¬(loserTree.leaves top).IsPopped) {fuel : Nat} :
    adjustForNextLoopFrom order fuel loserTree = .ok loserTree := by
  have state := fun isPopped => unpopped ((popped_iff_of_winner standing.topState).mpr isPopped)
  cases fuel <;> rw [adjustForNextLoopFrom] <;> simp only [standing.topAt, if_neg state]

theorem Rested.next_loop_from {fuel : Nat} (rested : Rested order loserTree current top)
    (enough : loserTree.poppedLeaves.card ≤ fuel) :
    ∃ final next, adjustForNextLoopFrom order fuel loserTree = .ok final ∧
      Rested order final current next ∧ final.size = loserTree.size ∧
      final.remaining = loserTree.remaining ∧ ¬(final.leaves next).IsPopped := by
  induction fuel generalizing loserTree top with
  | zero =>
    have unpopped : ¬(loserTree.leaves top).IsPopped := by
      intro popped
      have mem : top ∈ loserTree.poppedLeaves :=
        mem_popped_leaves.mpr ⟨rested.standing.top_small rested.positive, popped⟩
      rw [Finset.card_eq_zero.mp (Nat.le_zero.mp enough)] at mem
      cases mem
    exact ⟨loserTree, top, rested.standing.next_loop_stops unpopped, rested, rfl, rfl, unpopped⟩
  | succ fuel ih =>
    by_cases popped : (loserTree.leaves top).IsPopped
    · rcases rested.advance popped with ⟨middle, next, result, restedNext, size, remaining, fewer⟩
      rcases ih restedNext (by omega) with ⟨final, last, final_result, restedLast, finalSize,
        finalRemaining, unpopped⟩
      refine ⟨final, last, ?_, restedLast, finalSize.trans size,
        finalRemaining.trans remaining, unpopped⟩
      have state := (popped_iff_of_winner rested.standing.topState).mp popped
      rw [adjustForNextLoopFrom]
      simp only [rested.standing.topAt, if_pos state, result]
      exact final_result
    · exact ⟨loserTree, top, rested.standing.next_loop_stops popped, rested, rfl, rfl, popped⟩

theorem Tournament.rebase {win : Nat → Option Nat} {next : Option KeyValue}
    (tournament : Tournament order loserTree current 0 win 1)
    (unpopped : ∀ leaf < loserTree.size, ¬(loserTree.leaves leaf).IsPopped) :
    Tournament order loserTree next 0 win 1 := by
  constructor
  case leaf => exact tournament.leaf
  case children => exact tournament.children
  case beats =>
    intro node pos small _
    have beats := tournament.closed_beats pos small
    cases isWinner : win node with
    | none => exact absurd isWinner (tournament.wins_everywhere pos (by omega))
    | some winner =>
      have winnerUnpopped := unpopped winner (tournament.ancestor_of_win pos (by omega) isWinner).1
      cases isLoser : loserTree.tree node with
      | none => exact absurd isLoser (tournament.all_set node pos small)
      | some loser =>
        rw [isWinner, isLoser] at beats
        cases beats with
        | holeOverPopped hole _ => exact absurd (hole winner rfl) winnerUnpopped
        | keyOverPopped _ _ state =>
          have loserSmall := (tournament.stored_in_tree pos small isLoser).1
          exact absurd (Or.inr state) (unpopped loser loserSmall)
        | sameKey _ winnerKv loserKv state same earlier =>
          exact Beats.sameKey winnerUnpopped winnerKv loserKv state same earlier
        | holeOverNew hole _ _ => exact absurd (hole winner rfl) winnerUnpopped
        | newKey _ state below => exact Beats.newKey winnerUnpopped state below
  case pending => exact tournament.pending
  case siblings => exact tournament.siblings
  case distinct => exact tournament.distinct
  case free => exact tournament.free
  case firstSame => exact tournament.firstSame

section
variable (rested : Rested order loserTree current top) (unpopped : ¬(loserTree.leaves top).IsPopped)
include rested unpopped

theorem Rested.rebase : Standing order loserTree (loserTree.leaves top).kv top := by
  rcases rested.standing.closed with ⟨win, tournament, wins⟩
  refine ⟨⟨win, tournament.rebase (rested.none_popped unpopped), wins⟩, rested.standing.topAt,
    rested.standing.topState, ?_, rested.standing.noTies⟩
  intro leaf small leafUnpopped
  have atMost := (tournament.top_dominates small leafUnpopped wins).2 unpopped
  cases isKv : (loserTree.leaves leaf).kv with
  | none =>
    left
    intro bound _ record no
    cases no
  | some record =>
    rw [isKv] at atMost
    rcases atMost.key with ⟨smaller, isSmaller, lower⟩
    rw [isSmaller]
    cases verdict : order.compareKey smaller record with
    | lt =>
      left
      intro bound isBound other isOther
      rw [Option.some.injEq] at isBound isOther
      subst isBound isOther
      exact verdict
    | eq => exact Or.inr ⟨smaller, record, rfl, rfl, verdict⟩
    | gt =>
      rw [verdict] at lower
      cases lower

theorem Rested.remaining_of_none (noKv : (loserTree.leaves top).kv = none) :
    loserTree.remaining = [] := by
  apply flatMap_eq_nil_iff.mpr
  intro leaf isLeaf
  have small := mem_range.mp isLeaf
  have leafUnpopped := rested.none_popped unpopped leaf small
  rcases rested.standing.closed with ⟨win, tournament, wins⟩
  have atMost := (tournament.top_dominates small leafUnpopped wins).2 unpopped
  rw [LeafIterator.pending_of_unpopped leafUnpopped]
  cases isKv : (loserTree.leaves leaf).kv with
  | none => exact (rested.streams.inOrder leaf small).filled leafUnpopped isKv
  | some record =>
    rw [isKv, noKv] at atMost
    rcases atMost record rfl with ⟨smaller, no, _⟩
    cases no

theorem Rested.remaining_of_some {record : KeyValue}
    (isKv : (loserTree.leaves top).kv = some record) : loserTree.remaining ≠ [] := by
  have small := rested.standing.top_small rested.positive
  apply ne_nil_of_mem
  exact mem_flatMap.mpr ⟨top, mem_range.mpr small, kv_mem_pending unpopped isKv⟩

end

/-- The tree with the leaves from `firstLeaf` on advanced and brought in. -/
structure FilledFrom (order : RecordOrder) (readers : List (List (List KeyValue)))
    (loserTree : LoserTree) (firstLeaf : Nat) (win : Nat → Option Nat) : Prop where
  filling : Filling order loserTree firstLeaf win
  size : loserTree.size = readers.length
  pending : ∀ leaf, (loserTree.leaves leaf).pending = (readers.getD leaf []).flatten
  unread : ∀ leaf < firstLeaf, (loserTree.leaves leaf).Ended ∧
    (loserTree.leaves leaf).upcoming = (readers.getD leaf []).flatten
  inOrder : ∀ leaf, firstLeaf ≤ leaf → leaf < loserTree.size → (loserTree.leaves leaf).InOrder order

section
variable {readers : List (List (List KeyValue))} {firstLeaf index : Nat} {win : Nat → Option Nat}

theorem pending_of_created (reader : List (List KeyValue)) :
    LeafIterator.pending { reader := reader } = reader.flatten := by
  rfl

theorem no_ties_of_pending (apart : ApartReaders order readers)
    (pending : ∀ leaf, (loserTree.leaves leaf).pending = (readers.getD leaf []).flatten) :
    NoTies order loserTree := by
  intro left right first second ne _ _ leftUnpopped rightUnpopped leftKv rightKv
  have isFirst := kv_mem_pending leftUnpopped leftKv
  have isSecond := kv_mem_pending rightUnpopped rightKv
  rw [pending] at isFirst isSecond
  exact apart.at_indices ne isFirst isSecond

theorem filled_from_nothing (loserTree : LoserTree) (size : loserTree.size = readers.length)
    (tree : loserTree.tree = fun _ => none)
    (leaves : loserTree.leaves = fun leaf => { reader := readers.getD leaf [] }) :
    FilledFrom order readers loserTree loserTree.size (fun _ => none) := by
  constructor
  case size => exact size
  case pending =>
    intro leaf
    rw [leaves]
    exact pending_of_created _
  case unread =>
    intro leaf _
    rw [leaves]
    refine ⟨?_, rfl⟩
    intro no
    cases no
  case inOrder =>
    intro leaf from' small
    omega
  case filling =>
    constructor
    case top => rw [tree]
    case topState =>
      intro leaf no
      cases no
    case unpopped =>
      intro leaf
      rw [leaves]
      exact new_state_not_popped (Or.inl rfl)
    case tournament =>
      constructor
      case leaf =>
        intro leaf small
        rw [if_neg (by omega)]
      case children =>
        intro node _ _ _
        rw [tree]
        exact Or.inl ⟨rfl, rfl⟩
      case beats =>
        intro node _ _ _
        rw [tree]
        exact Beats.unset
      case pending =>
        intro node _ _
        rfl
      case siblings =>
        intro node _ _
        rw [tree]
      case distinct =>
        intro node other _ _ _ _ leaf atNode
        rw [tree] at atNode
        cases atNode
      case free =>
        intro leaf no
        cases no
      case firstSame =>
        intro leaf small from'
        omega

theorem FilledFrom.insert (filled : FilledFrom order readers loserTree (index + 1) win)
    (sorted : SortedReaders order readers) (apart : ApartReaders order readers)
    (small : index < loserTree.size) :
    ∃ final wins, (loserTree.setLeaf index (loserTree.leaves index).advanceIfAvailable).adjust
        order index = .ok final ∧ FilledFrom order readers final index wins ∧
      final.size = loserTree.size := by
  rcases filled.unread index (by omega) with ⟨ended, upcoming⟩
  have advanced := LeafIterator.advance_if_available ended
  have pending : ∀ leaf, ((loserTree.setLeaf index
      (loserTree.leaves index).advanceIfAvailable).leaves leaf).pending =
      (readers.getD leaf []).flatten := by
    intro leaf
    by_cases here : leaf = index
    · rw [here, leaves_set_leaf, update_self, advanced.pending, upcoming]
    · rw [leaves_set_leaf, update_of_ne here]
      exact filled.pending leaf
  rcases filled.filling.insert small advanced.state advanced.index
    (no_ties_of_pending apart pending) with ⟨final, wins, result, filling, size, same⟩
  refine ⟨final, wins, result, ?_, size⟩
  constructor
  case filling => exact filling
  case size => exact size.trans filled.size
  case pending =>
    intro leaf
    rw [(same leaf).pending]
    exact pending leaf
  case unread =>
    intro leaf earlier
    have unchanged := same leaf
    rw [leaves_set_leaf, update_of_ne (by omega)] at unchanged
    rcases filled.unread leaf (by omega) with ⟨leafEnded, leafUpcoming⟩
    exact ⟨unchanged.ended leafEnded, unchanged.upcoming.trans leafUpcoming⟩
  case inOrder =>
    intro leaf from' leafSmall
    apply (same leaf).in_order
    by_cases here : leaf = index
    · rw [here, leaves_set_leaf, update_self]
      apply advanced.in_order
      rw [upcoming]
      exact sorted.at_index index
    · rw [leaves_set_leaf, update_of_ne here]
      rw [size] at leafSmall
      exact filled.inOrder leaf (by omega) leafSmall

theorem FilledFrom.initialize_leaves (filled : FilledFrom order readers loserTree firstLeaf win)
    (sorted : SortedReaders order readers) (apart : ApartReaders order readers)
    (bound : firstLeaf ≤ loserTree.size) :
    ∃ final wins, initializeLeaves order firstLeaf loserTree = .ok final ∧
      FilledFrom order readers final 0 wins := by
  induction firstLeaf generalizing loserTree win with
  | zero => exact ⟨loserTree, win, rfl, filled⟩
  | succ index ih =>
    rcases filled.insert sorted apart (by omega) with ⟨next, wins, result, filledNext, size⟩
    rcases ih filledNext (by omega) with ⟨final, finalWins, finalResult, filledFinal⟩
    refine ⟨final, finalWins, ?_, filledFinal⟩
    rw [initializeLeaves]
    simp only [result]
    exact finalResult

theorem Rested.transfer (rested : Rested order loserTree current top)
    (size : after.size = loserTree.size) (leaves : after.leaves = loserTree.leaves)
    (tree : after.tree = loserTree.tree) : Rested order after current top := by
  rcases rested.standing.closed with ⟨win, tournament, wins⟩
  have same : ∀ leaf, SameRecords (loserTree.leaves leaf) (after.leaves leaf) := by
    intro leaf
    rw [leaves]
    exact SameRecords.refl _
  have closed : Tournament order after current 0 win 1 := by
    apply tournament.transfer size leaves
    intro node _
    rw [tree]
  constructor
  case standing =>
    refine ⟨⟨win, closed, wins⟩, ?_, ?_, rested.standing.ahead.congr size same,
      rested.standing.noTies.congr size same⟩
    · rw [tree]
      exact rested.standing.topAt
    · rw [leaves]
      exact rested.standing.topState
  case streams => exact rested.streams.congr size same
  case positive =>
    rw [size]
    exact rested.positive
  case later =>
    rw [size, leaves]
    exact rested.later

theorem FilledFrom.rested (filled : FilledFrom order readers loserTree 0 win)
    (apart : ApartReaders order readers) (positive : 1 ≤ loserTree.size) :
    ∃ top, Rested order loserTree none top ∧ ¬(loserTree.leaves top).IsPopped := by
  have filling := filled.filling
  cases wins : win 1 with
  | none =>
    exact absurd wins (filling.tournament.wins_everywhere (Nat.le_refl 1) (by omega))
  | some top =>
    refine ⟨top, ?_, filling.unpopped top⟩
    constructor
    case standing =>
      refine ⟨⟨win, filling.tournament, wins⟩, filling.top.trans wins, filling.topState top wins,
        ?_, no_ties_of_pending apart filled.pending⟩
      intro leaf _ _
      exact Or.inl (above_none _)
    case streams =>
      refine ⟨fun leaf small => filled.inOrder leaf (Nat.zero_le _) small, ?_⟩
      intro left _ right _ different first isFirst second isSecond
      rw [filled.pending] at isFirst isSecond
      exact apart.at_indices different isFirst isSecond
    case positive => exact positive
    case later =>
      intro leaf _ record _
      exact above_none _

theorem flat_map_range_get_d (readers : List (List (List KeyValue))) :
    (List.range readers.length).flatMap (fun leaf => (readers.getD leaf []).flatten) =
      readers.flatMap List.flatten := by
  induction readers with
  | nil => rfl
  | cons reader readers ih =>
    rw [length_cons, range_succ_eq_map, flatMap_cons, flatMap_map, flatMap_cons, ← ih]
    rfl

theorem initialize_if_needed (sorted : SortedReaders order readers)
    (apart : ApartReaders order readers) (nonempty : readers ≠ []) :
    ∃ final top, (create readers).initializeIfNeeded order = .ok final ∧
      Rested order final none top ∧ ¬(final.leaves top).IsPopped ∧
      final.remaining = readers.flatMap List.flatten ∧ final.initialized = true := by
  have start : FilledFrom order readers { create readers with tree := fun _ => none }
      (create readers).size (fun _ => none) := filled_from_nothing _ rfl rfl rfl
  rcases start.initialize_leaves sorted apart (Nat.le_refl _) with ⟨filled, wins, result, isFilled⟩
  have pos : 1 ≤ filled.size := by
    rw [isFilled.size]
    exact length_pos_iff.mpr nonempty
  rcases isFilled.rested apart pos with ⟨top, rested, unpopped⟩
  refine ⟨{ filled with initialized := true }, top, ?_, rested.transfer rfl rfl rfl,
    unpopped, ?_, rfl⟩
  · rw [initializeIfNeeded, if_neg (by simp [create])]
    simp only [result]
  · rw [isFilled.size, ← flat_map_range_get_d]
    apply flatMap_congr
    intro leaf _
    exact isFilled.pending leaf

end

end LoserTree

end PaimonCore.MergeTree
