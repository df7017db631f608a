import PaimonCore.MergeTree.Tournament

/-!
# The rounds of `Adjust`

A climbing leaf plays against the losers stored on its way to the root. With a new key it
meets losers with new keys and popped ones only; with the current key it also meets
losers of that key. In each of these cases the assertions hold, and the match is recorded
as the tournament has it.
-/

namespace PaimonCore.MergeTree

open Std TreeIndex

section
variable (leaf : LeafIterator)
include leaf

theorem same_records_with_state (state : LeafState)
    (popped : (leaf.withState state).IsPopped ↔ leaf.IsPopped) :
    SameRecords leaf (leaf.withState state) :=
  ⟨rfl, rfl, rfl, rfl, popped⟩

theorem set_first_same_key_index_state (index : Nat) :
    (leaf.setFirstSameKeyIndex index).state = leaf.state := by
  unfold LeafIterator.setFirstSameKeyIndex
  split <;> rfl

theorem set_first_same_key_index_eq (index : Nat) :
    (leaf.setFirstSameKeyIndex index).firstSameKeyIndex =
      leaf.firstSameKeyIndex.or (some index) := by
  unfold LeafIterator.setFirstSameKeyIndex
  cases found : leaf.firstSameKeyIndex <;> simp [found]

theorem same_records_set_first (index : Nat) :
    SameRecords leaf (leaf.setFirstSameKeyIndex index) := by
  unfold LeafIterator.setFirstSameKeyIndex
  split
  · exact ⟨rfl, rfl, rfl, rfl, Iff.rfl⟩
  · exact SameRecords.refl leaf

end

namespace LoserTree

def NoTies (order : RecordOrder) (loserTree : LoserTree) : Prop :=
  ∀ left right first second, left ≠ right → left < loserTree.size → right < loserTree.size →
    ¬(loserTree.leaves left).IsPopped → ¬(loserTree.leaves right).IsPopped →
    (loserTree.leaves left).kv = some first → (loserTree.leaves right).kv = some second →
    order.compareKey first second = .eq → order.compareSequence first second ≠ .eq

variable {order : RecordOrder}

theorem NoTies.of_kept {before after : LoserTree} (size : after.size = before.size)
    (kept : ∀ leaf < before.size, ¬(after.leaves leaf).IsPopped →
      ¬(before.leaves leaf).IsPopped ∧ (after.leaves leaf).kv = (before.leaves leaf).kv)
    (noTies : NoTies order before) : NoTies order after := by
  intro left right first second ne leftSmall rightSmall leftUnpopped rightUnpopped leftKv
    rightKv
  rw [size] at leftSmall rightSmall
  rcases kept left leftSmall leftUnpopped with ⟨leftBefore, leftSame⟩
  rcases kept right rightSmall rightUnpopped with ⟨rightBefore, rightSame⟩
  exact noTies left right first second ne leftSmall rightSmall leftBefore rightBefore
    (leftSame ▸ leftKv) (rightSame ▸ rightKv)

theorem NoTies.congr {before after : LoserTree} (size : after.size = before.size)
    (same : ∀ leaf, SameRecords (before.leaves leaf) (after.leaves leaf))
    (noTies : NoTies order before) : NoTies order after := by
  apply noTies.of_kept size
  intro leaf _ unpopped
  exact ⟨fun popped => unpopped ((same leaf).popped.mpr popped), (same leaf).kv⟩

theorem second_comparator_of_ne {left right : KeyValue}
    (ne : order.compareSequence right left ≠ .eq) :
    secondComparator order (some left) (some right) = order.compareSequence right left := by
  unfold RecordOrder.compareSequence compareLex at ne ⊢
  simp only [secondComparator]
  cases verdict : order.compareUserSequence right left with
  | lt => rfl
  | gt => rfl
  | eq =>
    simp only [Ordering.eq_then, compareOn] at ne ⊢
    rw [Int.compare_eq_ite_lt] at ne ⊢
    split
    · rfl
    · split
      · rfl
      · simp_all

section
variable {loserTree : LoserTree} {win : Nat → Option Nat} {climb climbing stored : Nat}
  {parentNode winnerNode : LeafIterator}

theorem leaves_after_exchange (leaf : Nat) :
    ((loserTree.setLeaf stored parentNode).setLeaf climbing winnerNode).leaves leaf =
      if leaf = climbing then winnerNode
      else if leaf = stored then parentNode else loserTree.leaves leaf := by
  simp only [setLeaf, Function.update_apply]

theorem same_records_exchange (sameStored : SameRecords (loserTree.leaves stored) parentNode)
    (sameClimbing : SameRecords (loserTree.leaves climbing) winnerNode) (leaf : Nat) :
    SameRecords (loserTree.leaves leaf)
      (((loserTree.setLeaf stored parentNode).setLeaf climbing winnerNode).leaves leaf) := by
  rw [leaves_after_exchange]
  split_ifs with isClimbing isStored
  · rw [isClimbing]
    exact sameClimbing
  · rw [isStored]
    exact sameStored
  · exact SameRecords.refl _

end

section
variable {loserTree : LoserTree} {current : Option KeyValue} {firstLeaf : Nat}
  {win : Nat → Option Nat} {climb climbing stored : Nat}

structure Meets (order : RecordOrder) (loserTree : LoserTree) (current : Option KeyValue)
    (firstLeaf : Nat) (win : Nat → Option Nat) (climb climbing stored : Nat) : Prop where
  tournament : Tournament order loserTree current firstLeaf win climb
  inner : 2 ≤ climb
  bound : climb < 2 * loserTree.size
  climbs : win climb = some climbing
  storedAt : loserTree.tree (climb / 2) = some stored

/-- The round ends with a match and goes on with its winner at the parent. -/
structure RoundPlayed (order : RecordOrder) (before : LoserTree) (current : Option KeyValue)
    (win : Nat → Option Nat) (climb climbing stored : Nat) (after : LoserTree)
    (winner loser : Nat) : Prop where
  result : playMatch order before (climb / 2) stored climbing = .ok (after, climb / 2, winner)
  played : MatchPlayed before after win climb winner loser
  beats : Beats order after current (some winner) (some loser)

variable (meeting : Meets order loserTree current firstLeaf win climb climbing stored)

section
include meeting

theorem Meets.different : stored ≠ climbing := by
  rintro rfl
  have inner := meeting.inner
  have bound := meeting.bound
  exact meeting.tournament.free stored meeting.climbs (climb / 2) (by omega) (by omega)
    meeting.storedAt

theorem Meets.small : climbing < loserTree.size ∧ stored < loserTree.size := by
  have inner := meeting.inner
  have bound := meeting.bound
  have half := sibling_half inner
  have siblingWins := meeting.tournament.siblings climb inner (Ancestor.refl _)
  rw [meeting.storedAt] at siblingWins
  constructor
  · exact (meeting.tournament.ancestor_of_win (by omega) bound meeting.climbs).1
  · exact (meeting.tournament.ancestor_of_win (by have := two_le_sibling inner; omega) (by omega)
      siblingWins).1

end

section
variable {parentNode winnerNode : LeafIterator}

theorem leaves_climbing : ((loserTree.setLeaf stored parentNode).setLeaf climbing
    winnerNode).leaves climbing = winnerNode := by
  rw [leaves_after_exchange, if_pos rfl]

theorem leaves_stored (ne : stored ≠ climbing) : ((loserTree.setLeaf stored
    parentNode).setLeaf climbing winnerNode).leaves stored = parentNode := by
  rw [leaves_after_exchange, if_neg ne, if_pos rfl]

variable (parentNode winnerNode) (result : playMatch order loserTree (climb / 2) stored climbing =
    .ok (loserTree.exchange (climb / 2) stored climbing parentNode winnerNode))
  (sameStored : SameRecords (loserTree.leaves stored) parentNode)
  (sameClimbing : SameRecords (loserTree.leaves climbing) winnerNode)
include meeting result sameStored sameClimbing

/-- The climbing leaf wins: only the states change. -/
theorem Meets.round_won (wins : winnerNode.state.isWinner = true)
    (storedIndex : parentNode.firstSameKeyIndex = (loserTree.leaves stored).firstSameKeyIndex)
    (climbingIndex : winnerNode.firstSameKeyIndex = if parentNode.state = .loserWithSameKey then
        (loserTree.leaves climbing).firstSameKeyIndex.or (some (climb / 2))
      else (loserTree.leaves climbing).firstSameKeyIndex)
    (beats : Beats order ((loserTree.setLeaf stored parentNode).setLeaf climbing winnerNode)
      current (some climbing) (some stored)) :
    RoundPlayed order loserTree current win climb climbing stored
      ((loserTree.setLeaf stored parentNode).setLeaf climbing winnerNode) climbing stored where
  result := by
    rw [result, exchange, if_pos wins]
  played :=
    { inner := meeting.inner
      bound := meeting.bound
      pair := Or.inl ⟨meeting.climbs, meeting.storedAt⟩
      size := rfl
      tree := by
        rw [← meeting.storedAt, Function.update_eq_self]
        rfl
      same := same_records_exchange sameStored sameClimbing
      others := by
        intro leaf notClimbing notStored
        rw [leaves_after_exchange, if_neg notClimbing, if_neg notStored]
      loserIndex := by
        rw [leaves_stored meeting.different]
        exact storedIndex
      winnerIndex := by
        intro _
        rw [leaves_climbing, leaves_stored meeting.different]
        exact climbingIndex }
  beats := beats

/-- The climbing leaf loses and is stored in place of the other one. -/
theorem Meets.round_lost (loses : winnerNode.state.isWinner = false)
    (climbingIndex : winnerNode.firstSameKeyIndex = (loserTree.leaves climbing).firstSameKeyIndex)
    (storedIndex : ¬parentNode.IsPopped → parentNode.firstSameKeyIndex =
      if winnerNode.state = .loserWithSameKey then
        (loserTree.leaves stored).firstSameKeyIndex.or (some (climb / 2))
      else (loserTree.leaves stored).firstSameKeyIndex)
    (beats : Beats order (((loserTree.setLeaf stored parentNode).setLeaf climbing
      winnerNode).setTree (climb / 2) (some climbing)) current (some stored) (some climbing)) :
    RoundPlayed order loserTree current win climb climbing stored
      (((loserTree.setLeaf stored parentNode).setLeaf climbing winnerNode).setTree (climb / 2)
        (some climbing)) stored climbing where
  result := by
    rw [result, exchange, loses]
    rfl
  played :=
    { inner := meeting.inner
      bound := meeting.bound
      pair := Or.inr ⟨meeting.climbs, meeting.storedAt⟩
      size := rfl
      tree := rfl
      same := same_records_exchange sameStored sameClimbing
      others := by
        intro leaf notStored notClimbing
        rw [leaves_set_tree, leaves_after_exchange, if_neg notClimbing, if_neg notStored]
      loserIndex := by
        rw [leaves_set_tree, leaves_climbing]
        exact climbingIndex
      winnerIndex := by
        rw [leaves_set_tree, leaves_climbing, leaves_stored meeting.different]
        exact storedIndex }
  beats := beats

end

theorem Meets.new_against_popped
    (meeting : Meets order loserTree current firstLeaf win climb climbing stored)
    (climbingState : (loserTree.leaves climbing).state = .winnerWithNewKey)
    (above : Above order current (loserTree.leaves climbing).kv)
    (storedState : (loserTree.leaves stored).state = .loserPopped) :
    ∃ after, RoundPlayed order loserTree current win climb climbing stored after stored climbing ∧
      (after.leaves stored).state = .winnerPopped ∧
      (after.leaves stored).firstSameKeyIndex = none := by
  have ne := meeting.different
  let parentNode : LeafIterator :=
    { loserTree.leaves stored with state := .winnerPopped, firstSameKeyIndex := none }
  let winnerNode := (loserTree.leaves climbing).withState .loserWithNewKey
  have round := meeting.round_lost parentNode winnerNode
    (by simp only [playMatch, climbingState, adjustWithNewWinnerKey, storedState]; rfl)
    ⟨rfl, rfl, rfl, rfl, by simp [LeafIterator.IsPopped, parentNode, storedState]⟩
    (same_records_with_state _ _ (by
      simp [LeafIterator.IsPopped, LeafIterator.withState, climbingState])) rfl rfl
    (fun unpopped => absurd (Or.inl rfl) unpopped)
  refine ⟨_, round ?_, ?_, ?_⟩
  · apply Beats.holeOverNew
    · intro leaf isStored
      rw [Option.some.injEq] at isStored
      rw [← isStored, leaves_set_tree, leaves_stored ne]
      exact Or.inl rfl
    · rw [leaves_set_tree, leaves_climbing]
      rfl
    · rw [leaves_set_tree, leaves_climbing]
      exact above
  · rw [leaves_set_tree, leaves_stored ne]
  · rw [leaves_set_tree, leaves_stored ne]

theorem new_state_not_popped {leaf : LeafIterator} (state : leaf.state = .winnerWithNewKey ∨
    leaf.state = .loserWithNewKey ∨ leaf.state = .winnerWithSameKey ∨
    leaf.state = .loserWithSameKey) : ¬leaf.IsPopped := by
  intro popped
  rcases popped with isWinner | isLoser <;> simp_all

theorem same_records_unpopped {leaf : LeafIterator} (state : LeafState) (unpopped : ¬leaf.IsPopped)
    (stateUnpopped : state ≠ .winnerPopped ∧ state ≠ .loserPopped) :
    SameRecords leaf (leaf.withState state) := by
  apply same_records_with_state
  constructor
  · intro popped
    rcases popped with isWinner | isLoser
    · exact absurd isWinner stateUnpopped.1
    · exact absurd isLoser stateUnpopped.2
  · intro popped
    exact absurd popped unpopped

/-- A round whose winner, one of the candidates, goes on in the given state. -/
def Advances (order : RecordOrder) (loserTree : LoserTree) (current : Option KeyValue)
    (win : Nat → Option Nat) (climb climbing stored : Nat) (state : LeafState)
    (candidates : List Nat) : Prop :=
  ∃ after winner loser,
    RoundPlayed order loserTree current win climb climbing stored after winner loser ∧
      (after.leaves winner).state = state ∧ winner ∈ candidates

theorem play_new {parentNode winnerNode : LeafIterator}
    (climbingState : (loserTree.leaves climbing).state = .winnerWithNewKey)
    (adjusted : adjustWithNewWinnerKey order (climb / 2) (loserTree.leaves stored)
      (loserTree.leaves climbing) = .ok (parentNode, winnerNode)) :
    playMatch order loserTree (climb / 2) stored climbing =
      .ok (loserTree.exchange (climb / 2) stored climbing parentNode winnerNode) := by
  simp only [playMatch, climbingState, adjusted]

theorem play_same {parentNode winnerNode : LeafIterator}
    (climbingState : (loserTree.leaves climbing).state = .winnerWithSameKey)
    (adjusted : adjustWithSameWinnerKey order (climb / 2) (loserTree.leaves stored)
      (loserTree.leaves climbing) = .ok (parentNode, winnerNode)) :
    playMatch order loserTree (climb / 2) stored climbing =
      .ok (loserTree.exchange (climb / 2) stored climbing parentNode winnerNode) := by
  simp only [playMatch, climbingState, adjusted]

section
variable {first second : KeyValue} (climbingUnpopped : ¬(loserTree.leaves climbing).IsPopped)
  (storedUnpopped : ¬(loserTree.leaves stored).IsPopped)
  (climbingKv : (loserTree.leaves climbing).kv = some first)
  (storedKv : (loserTree.leaves stored).kv = some second)
  (keys : order.compareKey first second = .eq)
include meeting climbingUnpopped climbingKv storedKv keys

theorem Meets.tie_won {parentNode : LeafIterator}
    (earlier : order.compareSequence first second = .lt)
    (played : playMatch order loserTree (climb / 2) stored climbing =
      .ok (loserTree.exchange (climb / 2) stored climbing parentNode
        ((loserTree.leaves climbing).setFirstSameKeyIndex (climb / 2))))
    (wins : (loserTree.leaves climbing).state.isWinner = true)
    (sameStored : SameRecords (loserTree.leaves stored) parentNode)
    (storedIndex : parentNode.firstSameKeyIndex = (loserTree.leaves stored).firstSameKeyIndex)
    (storedState : parentNode.state = .loserWithSameKey) :
    Advances order loserTree current win climb climbing stored (loserTree.leaves climbing).state
      [climbing, stored] := by
  have ne := meeting.different
  have sameClimbing := same_records_set_first (loserTree.leaves climbing) (climb / 2)
  have round := meeting.round_won _ _ played sameStored sameClimbing
    (by rwa [set_first_same_key_index_state]) storedIndex
    (by rw [set_first_same_key_index_eq, if_pos storedState])
  refine ⟨_, climbing, stored, round ?_, ?_, by simp⟩
  · apply Beats.sameKey _ _ _ _ keys earlier
    · rw [leaves_climbing]
      exact fun popped => climbingUnpopped (sameClimbing.popped.mp popped)
    · rw [leaves_climbing]
      exact sameClimbing.kv.trans climbingKv
    · rw [leaves_stored ne]
      exact sameStored.kv.trans storedKv
    · rw [leaves_stored ne]
      exact storedState
  · rw [leaves_climbing, set_first_same_key_index_state]
include storedUnpopped

theorem Meets.tie_lost {state : LeafState} (later : order.compareSequence second first = .lt)
    (played : playMatch order loserTree (climb / 2) stored climbing =
      .ok (loserTree.exchange (climb / 2) stored climbing
        (((loserTree.leaves stored).withState state).setFirstSameKeyIndex (climb / 2))
        ((loserTree.leaves climbing).withState .loserWithSameKey)))
    (stateUnpopped : state ≠ .winnerPopped ∧ state ≠ .loserPopped) :
    Advances order loserTree current win climb climbing stored state [climbing, stored] := by
  have ne := meeting.different
  have sameStored := (same_records_unpopped state storedUnpopped stateUnpopped).trans
    (same_records_set_first _ (climb / 2))
  have round := meeting.round_lost _ _ played sameStored
    (same_records_unpopped _ climbingUnpopped (by decide)) rfl rfl
    (by intro _; rw [set_first_same_key_index_eq]; rfl)
  refine ⟨_, stored, climbing, round ?_, ?_, by simp⟩
  · apply Beats.sameKey _ _ _ _ (OrientedCmp.eq_symm keys) later
    · rw [leaves_set_tree, leaves_stored ne]
      exact fun popped => storedUnpopped (sameStored.popped.mp popped)
    · rw [leaves_set_tree, leaves_stored ne]
      exact sameStored.kv.trans storedKv
    · rw [leaves_set_tree, leaves_climbing]
      exact climbingKv
    · rw [leaves_set_tree, leaves_climbing]
      rfl
  · rw [leaves_set_tree, leaves_stored ne, set_first_same_key_index_state]
    rfl

end

section
variable (climbingState : (loserTree.leaves climbing).state = .winnerWithNewKey)
  (storedState : (loserTree.leaves stored).state = .loserWithNewKey)
include meeting climbingState storedState

theorem Meets.new_wins (verdict : firstComparator order (loserTree.leaves stored).kv
      (loserTree.leaves climbing).kv = .lt)
    (below : ∀ second, (loserTree.leaves stored).kv = some second →
      ∃ first, (loserTree.leaves climbing).kv = some first ∧ order.compareKey first second = .lt) :
    Advances order loserTree current win climb climbing stored .winnerWithNewKey
      [climbing, stored] := by
  have ne := meeting.different
  have adjusted : adjustWithNewWinnerKey order (climb / 2) (loserTree.leaves stored)
      (loserTree.leaves climbing) = .ok (loserTree.leaves stored, loserTree.leaves climbing) := by
    simp only [adjustWithNewWinnerKey, storedState, verdict]
  have round := meeting.round_won _ _ (play_new climbingState adjusted) (SameRecords.refl _)
    (SameRecords.refl _) (by rw [climbingState]; rfl) rfl
    (by simp [storedState])
  refine ⟨_, climbing, stored, round ?_, ?_, by simp⟩
  · apply Beats.newKey
    · rw [leaves_climbing]
      exact new_state_not_popped (Or.inl climbingState)
    · rw [leaves_stored ne]
      exact storedState
    · rw [leaves_stored ne, leaves_climbing]
      exact below
  · rw [leaves_climbing]
    exact climbingState

theorem Meets.new_loses (verdict : firstComparator order (loserTree.leaves stored).kv
      (loserTree.leaves climbing).kv = .gt)
    (below : ∀ second, (loserTree.leaves climbing).kv = some second →
      ∃ first, (loserTree.leaves stored).kv = some first ∧ order.compareKey first second = .lt) :
    Advances order loserTree current win climb climbing stored .winnerWithNewKey
      [climbing, stored] := by
  have ne := meeting.different
  have adjusted : adjustWithNewWinnerKey order (climb / 2) (loserTree.leaves stored)
      (loserTree.leaves climbing) = .ok ((loserTree.leaves stored).withState .winnerWithNewKey,
        (loserTree.leaves climbing).withState .loserWithNewKey) := by
    simp only [adjustWithNewWinnerKey, storedState, verdict]
  have round := meeting.round_lost _ _ (play_new climbingState adjusted)
    (same_records_unpopped _ (new_state_not_popped (Or.inr (Or.inl storedState))) (by decide))
    (same_records_unpopped _ (new_state_not_popped (Or.inl climbingState)) (by decide)) rfl rfl
    (by simp [LeafIterator.withState])
  refine ⟨_, stored, climbing, round ?_, ?_, by simp⟩
  · apply Beats.newKey
    · rw [leaves_set_tree, leaves_stored ne]
      exact new_state_not_popped (Or.inl rfl)
    · rw [leaves_set_tree, leaves_climbing]
      rfl
    · rw [leaves_set_tree, leaves_stored ne, leaves_climbing]
      exact below
  · rw [leaves_set_tree, leaves_stored ne]
    rfl

theorem Meets.new_ties {first second : KeyValue}
    (climbingKv : (loserTree.leaves climbing).kv = some first)
    (storedKv : (loserTree.leaves stored).kv = some second)
    (keys : order.compareKey first second = .eq)
    (apart : order.compareSequence first second ≠ .eq) :
    Advances order loserTree current win climb climbing stored .winnerWithNewKey
      [climbing, stored] := by
  have climbingUnpopped := new_state_not_popped (Or.inl climbingState)
  have storedUnpopped := new_state_not_popped (Or.inr (Or.inl storedState))
  have first_verdict : firstComparator order (loserTree.leaves stored).kv
      (loserTree.leaves climbing).kv = .eq := by
    rw [storedKv, climbingKv]
    exact keys
  have second_verdict : secondComparator order (loserTree.leaves stored).kv
      (loserTree.leaves climbing).kv = order.compareSequence first second := by
    rw [storedKv, climbingKv]
    exact second_comparator_of_ne apart
  by_cases earlier : order.compareSequence first second = .lt
  · have adjusted : adjustWithNewWinnerKey order (climb / 2) (loserTree.leaves stored)
        (loserTree.leaves climbing) = .ok ((loserTree.leaves stored).withState .loserWithSameKey,
            (loserTree.leaves climbing).setFirstSameKeyIndex (climb / 2)) := by
      simp only [adjustWithNewWinnerKey, storedState, first_verdict, second_verdict,
        earlier, if_true]
    rw [← climbingState]
    exact meeting.tie_won climbingUnpopped climbingKv storedKv keys earlier
      (play_new climbingState adjusted) (by rw [climbingState]; rfl)
      (same_records_unpopped _ storedUnpopped (by decide)) rfl rfl
  · have later : order.compareSequence second first = .lt := by
      cases sequence : order.compareSequence first second with
      | lt => exact absurd sequence earlier
      | eq => exact absurd sequence apart
      | gt => exact OrientedCmp.lt_of_gt sequence
    have adjusted : adjustWithNewWinnerKey order (climb / 2) (loserTree.leaves stored)
        (loserTree.leaves climbing) =
          .ok (((loserTree.leaves stored).withState .winnerWithNewKey).setFirstSameKeyIndex
            (climb / 2), (loserTree.leaves climbing).withState .loserWithSameKey) := by
      simp only [adjustWithNewWinnerKey, storedState, first_verdict, second_verdict,
        earlier, if_false]
    exact meeting.tie_lost climbingUnpopped storedUnpopped climbingKv storedKv keys later
      (play_new climbingState adjusted) (by decide)

theorem Meets.new_against_new (noTies : NoTies order loserTree) :
    Advances order loserTree current win climb climbing stored .winnerWithNewKey
      [climbing, stored] := by
  cases storedKv : (loserTree.leaves stored).kv with
  | none =>
    apply meeting.new_wins climbingState storedState
    · simp [firstComparator, storedKv]
    · intro second isSome
      rw [storedKv] at isSome
      cases isSome
  | some second =>
    cases climbingKv : (loserTree.leaves climbing).kv with
    | none =>
      apply meeting.new_loses climbingState storedState
      · simp [firstComparator, storedKv, climbingKv]
      · intro record isSome
        rw [climbingKv] at isSome
        cases isSome
    | some first =>
      have verdict : firstComparator order (loserTree.leaves stored).kv
          (loserTree.leaves climbing).kv = order.compareKey first second := by
        rw [storedKv, climbingKv]
        rfl
      cases keys : order.compareKey first second with
      | lt =>
        apply meeting.new_wins climbingState storedState (verdict.trans keys)
        intro record isSome
        rw [storedKv, Option.some.injEq] at isSome
        exact ⟨first, climbingKv, isSome ▸ keys⟩
      | gt =>
        apply meeting.new_loses climbingState storedState (verdict.trans keys)
        intro record isSome
        rw [climbingKv, Option.some.injEq] at isSome
        exact ⟨second, storedKv, isSome ▸ OrientedCmp.lt_of_gt keys⟩
      | eq =>
        apply meeting.new_ties climbingState storedState climbingKv storedKv keys
        exact noTies climbing stored first second meeting.different.symm meeting.small.1
          meeting.small.2 (new_state_not_popped (Or.inl climbingState))
          (new_state_not_popped (Or.inr (Or.inl storedState))) climbingKv storedKv keys

end

section
variable (climbingState : (loserTree.leaves climbing).state = .winnerWithSameKey)
  (atKey : AtKey order current (loserTree.leaves climbing).kv)
include meeting climbingState

theorem Meets.same_passes (storedState : (loserTree.leaves stored).state = .loserWithNewKey ∨
      (loserTree.leaves stored).state = .loserPopped)
    (beats : Beats order loserTree current (some climbing) (some stored)) :
    Advances order loserTree current win climb climbing stored .winnerWithSameKey [climbing] := by
  have ne := meeting.different
  have adjusted : adjustWithSameWinnerKey order (climb / 2) (loserTree.leaves stored)
      (loserTree.leaves climbing) = .ok (loserTree.leaves stored, loserTree.leaves climbing) := by
    rcases storedState with isNew | isPopped
    · simp only [adjustWithSameWinnerKey, isNew]
    · simp only [adjustWithSameWinnerKey, isPopped]
  have notSame : (loserTree.leaves stored).state ≠ .loserWithSameKey := by
    rcases storedState with isNew | isPopped <;> simp_all
  have round := meeting.round_won _ _ (play_same climbingState adjusted) (SameRecords.refl _)
    (SameRecords.refl _) (by rw [climbingState]; rfl) rfl
    (by simp [notSame])
  refine ⟨_, climbing, stored, round ?_, ?_, by simp⟩
  · apply beats.congr (fun leaf _ => same_records_exchange (SameRecords.refl _)
      (SameRecords.refl _) leaf)
    intro leaf isStored
    rw [Option.some.injEq] at isStored
    rw [← isStored, leaves_stored ne]
  · rw [leaves_climbing]
    exact climbingState
include atKey

theorem Meets.same_against_popped (storedState : (loserTree.leaves stored).state = .loserPopped) :
    Advances order loserTree current win climb climbing stored .winnerWithSameKey [climbing] := by
  apply meeting.same_passes climbingState (Or.inr storedState)
  exact Beats.keyOverPopped (new_state_not_popped (Or.inr (Or.inr (Or.inl climbingState)))) atKey
    storedState

theorem Meets.same_against_new (storedState : (loserTree.leaves stored).state = .loserWithNewKey)
    (above : Above order current (loserTree.leaves stored).kv) :
    Advances order loserTree current win climb climbing stored .winnerWithSameKey [climbing] := by
  apply meeting.same_passes climbingState (Or.inl storedState)
  apply Beats.newKey (new_state_not_popped (Or.inr (Or.inr (Or.inl climbingState)))) storedState
  intro second storedKv
  rcases atKey with ⟨bound, first, isCurrent, climbingKv, same⟩
  have beyond := above bound isCurrent second storedKv
  exact ⟨first, climbingKv, TransCmp.lt_of_eq_of_lt (OrientedCmp.eq_symm same) beyond⟩

theorem Meets.same_against_same (noTies : NoTies order loserTree)
    (storedState : (loserTree.leaves stored).state = .loserWithSameKey)
    (storedAtKey : AtKey order current (loserTree.leaves stored).kv) :
    Advances order loserTree current win climb climbing stored .winnerWithSameKey
      [climbing, stored] := by
  have ne := meeting.different
  have climbingUnpopped := new_state_not_popped (Or.inr (Or.inr (Or.inl climbingState)))
  have storedUnpopped := new_state_not_popped (Or.inr (Or.inr (Or.inr storedState)))
  rcases atKey with ⟨bound, first, isCurrent, climbingKv, firstAt⟩
  rcases storedAtKey with ⟨bound', second, isCurrent', storedKv, secondAt⟩
  rw [isCurrent, Option.some.injEq] at isCurrent'
  subst isCurrent'
  have keys : order.compareKey first second = .eq :=
    TransCmp.eq_trans (OrientedCmp.eq_symm firstAt) secondAt
  have apart := noTies climbing stored first second ne.symm meeting.small.1
    meeting.small.2 climbingUnpopped storedUnpopped climbingKv storedKv keys
  have second_verdict : secondComparator order (loserTree.leaves stored).kv
      (loserTree.leaves climbing).kv = order.compareSequence first second := by
    rw [storedKv, climbingKv]
    exact second_comparator_of_ne apart
  by_cases later : order.compareSequence first second = .gt
  · have adjusted : adjustWithSameWinnerKey order (climb / 2) (loserTree.leaves stored)
        (loserTree.leaves climbing) =
          .ok (((loserTree.leaves stored).withState .winnerWithSameKey).setFirstSameKeyIndex
            (climb / 2), (loserTree.leaves climbing).withState .loserWithSameKey) := by
      simp only [adjustWithSameWinnerKey, storedState, second_verdict, later, if_true]
    exact meeting.tie_lost climbingUnpopped storedUnpopped climbingKv storedKv keys
      (OrientedCmp.lt_of_gt later) (play_same climbingState adjusted) (by decide)
  · have earlier : order.compareSequence first second = .lt := by
      cases sequence : order.compareSequence first second with
      | lt => rfl
      | eq => exact absurd sequence apart
      | gt => exact absurd sequence later
    have adjusted : adjustWithSameWinnerKey order (climb / 2) (loserTree.leaves stored)
        (loserTree.leaves climbing) = .ok (loserTree.leaves stored,
            (loserTree.leaves climbing).setFirstSameKeyIndex (climb / 2)) := by
      simp only [adjustWithSameWinnerKey, storedState, second_verdict, later, if_false]
    rw [← climbingState]
    exact meeting.tie_won climbingUnpopped climbingKv storedKv keys earlier
      (play_same climbingState adjusted) (by rw [climbingState]; rfl) (SameRecords.refl _) rfl
      storedState

end

end

end LoserTree

end PaimonCore.MergeTree
