import PaimonCore.MergeTree.LoserTreeStanding

/-!
# Pop, advance, insert

Each operation changes one leaf and lets `Adjust` close the tournament again: `PopWinner`
marks the winner as popped, `AdjustForNextLoop` advances a popped winner, and
`InitializeIfNeeded` brings in the leaves from the last to the first.
-/

namespace PaimonCore.MergeTree

open Std TreeIndex Function

namespace LoserTree

variable {order : RecordOrder} {loserTree after : LoserTree} {current : Option KeyValue}
  {win : Nat → Option Nat} {top : Nat}

/-- A closed tournament among all leaves, for the key that is being handed out. -/
structure Standing (order : RecordOrder) (loserTree : LoserTree) (current : Option KeyValue)
    (top : Nat) : Prop where
  closed : ∃ win, Tournament order loserTree current 0 win 1 ∧ win 1 = some top
  topAt : loserTree.tree 0 = some top
  topState : (loserTree.leaves top).state.isWinner = true
  ahead : Ahead order loserTree current
  noTies : NoTies order loserTree

theorem Ahead.congr (size : after.size = loserTree.size)
    (same : ∀ leaf, SameRecords (loserTree.leaves leaf) (after.leaves leaf))
    (ahead : Ahead order loserTree current) : Ahead order after current := by
  intro leaf small unpopped
  rw [size] at small
  rw [(same leaf).kv]
  exact ahead leaf small (fun popped => unpopped ((same leaf).popped.mpr popped))

theorem Standing.top_small (standing : Standing order loserTree current top)
    (pos : 1 ≤ loserTree.size) : top < loserTree.size := by
  rcases standing.closed with ⟨win, tournament, wins⟩
  exact (tournament.ancestor_of_win (Nat.le_refl 1) (by omega) wins).1

theorem Adjusted.standing (adjusted : Adjusted order loserTree after current 0 win)
    (pos : 1 ≤ loserTree.size) (ahead : Ahead order loserTree current)
    (noTies : NoTies order loserTree) : ∃ top, Standing order after current top := by
  have size := adjusted.size
  cases wins : win 1 with
  | none => exact absurd wins (adjusted.tournament.wins_everywhere (Nat.le_refl 1) (by omega))
  | some top =>
    exact ⟨top, ⟨win, adjusted.tournament, wins⟩, adjusted.top.trans wins,
      adjusted.topState top wins, ahead.congr size adjusted.same,
      noTies.congr size adjusted.same⟩

def Within (order : RecordOrder) (current kv : Option KeyValue) : Prop :=
  ∀ record, kv = some record → AtKey order current kv

theorem Beats.met_by_current {loser : Nat}
    (beats : Beats order loserTree current (some top) (some loser))
    (unpopped : ¬(loserTree.leaves top).IsPopped)
    (within : Within order current (loserTree.leaves top).kv) :
    MetByCurrentKey order current (loserTree.leaves loser) := by
  cases beats with
  | holeOverPopped hole state => exact absurd (hole top rfl) unpopped
  | keyOverPopped _ _ state => exact Or.inl (Or.inl state)
  | sameKey _ winnerKv loserKv state same _ =>
    right
    rcases within _ winnerKv with ⟨bound, first, isCurrent, isFirst, atKey⟩
    rw [winnerKv, Option.some.injEq] at isFirst
    subst isFirst
    exact ⟨state, bound, _, isCurrent, loserKv, TransCmp.eq_trans atKey same⟩
  | holeOverNew hole _ _ => exact absurd (hole top rfl) unpopped
  | newKey _ state smaller =>
    refine Or.inl (Or.inr ⟨state, ?_⟩)
    intro bound isCurrent record isLoser
    rcases smaller record isLoser with ⟨first, winnerKv, lower⟩
    rcases within _ winnerKv with ⟨bound', first', isCurrent', isFirst, atKey⟩
    rw [isCurrent, Option.some.injEq] at isCurrent'
    rw [winnerKv, Option.some.injEq] at isFirst
    subst isCurrent' isFirst
    exact TransCmp.lt_of_eq_of_lt atKey lower

theorem MetByCurrentKey.met_by_new {leaf : LeafIterator}
    (met : MetByCurrentKey order current leaf) (notSame : leaf.state ≠ .loserWithSameKey) :
    MetByNewKey order current leaf := by
  rcases met with byNew | ⟨same, _⟩
  · exact byNew
  · exact absurd same notSame

def marked (loserTree : LoserTree) (top : Nat) : LoserTree :=
  loserTree.setLeaf top ((loserTree.leaves top).withState .winnerPopped)

theorem size_marked : (loserTree.marked top).size = loserTree.size := rfl

theorem leaves_marked_top : (loserTree.marked top).leaves top =
    (loserTree.leaves top).withState .winnerPopped := by
  rw [marked, leaves_set_leaf, update_self]

theorem leaves_marked_of_ne {leaf : Nat} (ne : leaf ≠ top) :
    (loserTree.marked top).leaves leaf = loserTree.leaves leaf := by
  rw [marked, leaves_set_leaf, update_of_ne ne]

structure TakenFrom (before after : LoserTree) (top : Nat) : Prop where
  size : after.size = before.size
  taken : SameRecords ((before.leaves top).withState .winnerPopped) (after.leaves top)
  others : ∀ leaf, leaf ≠ top → SameRecords (before.leaves leaf) (after.leaves leaf)

theorem TakenFrom.of_marked (size : after.size = loserTree.size)
    (same : ∀ leaf, SameRecords ((loserTree.marked top).leaves leaf) (after.leaves leaf)) :
    TakenFrom loserTree after top where
  size := size
  taken := by
    rw [← leaves_marked_top]
    exact same top
  others := by
    intro leaf ne
    rw [← leaves_marked_of_ne ne]
    exact same leaf

structure Poppable (order : RecordOrder) (loserTree : LoserTree) (current : Option KeyValue)
    (win : Nat → Option Nat) (top : Nat) : Prop where
  tournament : Tournament order loserTree current 0 win 1
  wins : win 1 = some top
  small : top < loserTree.size
  unpopped : ¬(loserTree.leaves top).IsPopped
  within : Within order current (loserTree.leaves top).kv
  ahead : Ahead order loserTree current
  noTies : NoTies order loserTree

/-- The exchange with the first leaf of the same key, from whatever node it starts. -/
theorem Meets.jump {node child stored : Nat}
    (meeting : Meets order (loserTree.marked top) current 0 (opened win child) child top stored)
    (half : child / 2 = node) (storedState : (loserTree.leaves stored).state = .loserWithSameKey)
    (atKey : AtKey order current (loserTree.leaves stored).kv)
    (index : (loserTree.leaves top).firstSameKeyIndex = some node) :
    ∃ after, RoundPlayed order (loserTree.marked top) current (opened win child) child top stored
        after stored top ∧ (after.leaves stored).state = .winnerWithSameKey ∧
      ∀ parent parentLeaf, playMatch order (loserTree.marked top) parent parentLeaf top =
        .ok (after, child / 2, stored) := by
  have ne := meeting.different
  have storedLeaf : (loserTree.marked top).leaves stored = loserTree.leaves stored :=
    leaves_marked_of_ne ne
  have unpopped := new_state_not_popped (Or.inr (Or.inr (Or.inr storedState)))
  let parentNode := ((loserTree.marked top).leaves stored).withState .winnerWithSameKey
  let winnerNode := ((loserTree.marked top).leaves top).withState .loserPopped
  have jumps : ∀ parent parentLeaf, playMatch order (loserTree.marked top) parent parentLeaf top =
      .ok ((loserTree.marked top).exchange (child / 2) stored top parentNode winnerNode) := by
    intro parent parentLeaf
    have state : ((loserTree.marked top).leaves top).state = .winnerPopped := by
      rw [leaves_marked_top]
      rfl
    have first : ((loserTree.marked top).leaves top).firstSameKeyIndex = some (child / 2) := by
      rw [leaves_marked_top, half]
      exact index
    simp only [playMatch, state, first, meeting.storedAt]
    rfl
  have round := meeting.round_lost parentNode winnerNode (jumps _ _) (by
      show SameRecords _ (LeafIterator.withState _ _)
      rw [storedLeaf]
      exact same_records_unpopped _ unpopped (by decide))
    (same_records_with_state _ _ (by
      rw [leaves_marked_top]
      simp [LeafIterator.IsPopped, LeafIterator.withState])) rfl rfl
    (by intro _; simp [winnerNode, parentNode, LeafIterator.withState])
  refine ⟨_, round ?_, ?_, ?_⟩
  · apply Beats.keyOverPopped
    · rw [leaves_set_tree, leaves_stored ne]
      exact new_state_not_popped (Or.inr (Or.inr (Or.inl rfl)))
    · rw [leaves_set_tree, leaves_stored ne]
      have kv : parentNode.kv = (loserTree.leaves stored).kv := by
        rw [← storedLeaf]
        rfl
      rw [kv]
      exact atKey
    · rw [leaves_set_tree, leaves_climbing]
      rfl
  · rw [leaves_set_tree, leaves_stored ne]
    rfl
  · intro parent parentLeaf
    rw [jumps]
    rfl

section
variable (poppable : Poppable order loserTree current win top)
include poppable

section
variable {node loser : Nat} (positive : 1 ≤ node) (small : node < loserTree.size)
include positive small

theorem Poppable.stored_ne (atNode : loserTree.tree node = some loser) : loser ≠ top := by
  rintro rfl
  exact poppable.tournament.free loser poppable.wins node positive small atNode

theorem Poppable.met (wins : win node = some top) (atNode : loserTree.tree node = some loser) :
    MetByCurrentKey order current ((loserTree.marked top).leaves loser) := by
  rw [leaves_marked_of_ne (poppable.stored_ne positive small atNode)]
  have beats := poppable.tournament.closed_beats positive small
  rw [wins, atNode] at beats
  exact beats.met_by_current poppable.unpopped poppable.within

theorem Poppable.met_by_new (wins : win node = some top) (atNode : loserTree.tree node = some loser)
    (notSame : ¬loserTree.SameAt node) :
    MetByNewKey order current ((loserTree.marked top).leaves loser) := by
  apply (poppable.met positive small wins atNode).met_by_new
  rw [leaves_marked_of_ne (poppable.stored_ne positive small atNode)]
  intro same
  exact notSame ⟨loser, atNode, same⟩

end

theorem Poppable.first_same : loserTree.FirstSame win top :=
  poppable.tournament.firstSame top poppable.small (Nat.zero_le _) poppable.unpopped

theorem Poppable.marked_no_ties : NoTies order (loserTree.marked top) := by
  apply poppable.noTies.of_kept size_marked
  intro leaf _ unpopped
  by_cases isTop : leaf = top
  · rw [isTop, leaves_marked_top] at unpopped
    exact absurd (Or.inl rfl) unpopped
  · rw [leaves_marked_of_ne isTop] at unpopped ⊢
    exact ⟨unpopped, rfl⟩

theorem Poppable.marked_ahead : Ahead order (loserTree.marked top) current := by
  intro leaf small unpopped
  by_cases isTop : leaf = top
  · rw [isTop, leaves_marked_top] at unpopped
    exact absurd (Or.inl rfl) unpopped
  · rw [leaves_marked_of_ne isTop] at unpopped ⊢
    exact poppable.ahead leaf small unpopped

theorem Poppable.climbs {climb : Nat} (positive : 1 ≤ climb)
    (onPath : Ancestor climb (loserTree.size + top))
    (below : ∀ node, 1 ≤ node → node < loserTree.size → climb ≤ node → win node = some top →
      ¬loserTree.SameAt node) :
    Climbs order (loserTree.marked top) current 0 (opened win climb) climb top where
  tournament := by
    apply poppable.tournament.reopen poppable.small poppable.wins positive onPath
    · intro node loser nodePositive small beyond wins atNode
      apply hole_beats
      · intro leaf isTop
        rw [Option.some.injEq] at isTop
        rw [← isTop, leaves_set_leaf, update_self]
        exact Or.inl rfl
      · exact poppable.met_by_new nodePositive small wins atNode
          (below node nodePositive small beyond wins)
    · intro unpopped
      exact absurd (Or.inl rfl) unpopped
  positive := positive
  bound := by
    have bounded := onPath.le
    have small := poppable.small
    rw [marked, size_set_leaf]
    omega
  climbs := by
    rw [opened_at_climb positive]
    exact poppable.tournament.win_on_path poppable.wins positive onPath poppable.small
  noTies := poppable.marked_no_ties

theorem Poppable.pop_last (index : (loserTree.leaves top).firstSameKeyIndex = none) :
    ∃ final wins, (loserTree.marked top).adjust order top = .ok final ∧
      Adjusted order (loserTree.marked top) final current 0 wins := by
  have small := poppable.small
  have notSame : ∀ node, 1 ≤ node → node < loserTree.size → win node = some top →
      ¬loserTree.SameAt node := by
    intro node pos nodeSmall wins same
    rcases poppable.first_same.lowest node pos nodeSmall wins same with ⟨first, isFirst, _⟩
    rw [index] at isFirst
    cases isFirst
  have climbs : Climbs order (loserTree.marked top) current 0
      (opened win (loserTree.size + top)) (loserTree.size + top) top := by
    apply poppable.climbs (by omega) (Ancestor.refl _)
    intro node pos nodeSmall _
    exact notSame node pos nodeSmall
  have losers :
      (loserTree.marked top).LosersAhead (loserTree.size + top) (MetByNewKey order current) := by
    intro node pos ancestor loser atNode
    have nodeSmall : node < loserTree.size := by
      have bounded := ancestor.le
      omega
    have wins := poppable.tournament.win_on_path poppable.wins pos ancestor.of_parent small
    exact poppable.met_by_new pos nodeSmall wins atNode (notSame node pos nodeSmall wins)
  unfold adjust
  rw [Nat.add_comm top]
  apply climbs.hole_closes
  · rw [leaves_marked_top]
    rfl
  · rw [leaves_marked_top]
    exact index
  · exact poppable.tournament.all_set
  · exact losers
  · rw [size_marked]
    omega

theorem Poppable.pop_same {node : Nat}
    (index : (loserTree.leaves top).firstSameKeyIndex = some node) :
    ∃ final wins, (loserTree.marked top).adjust order top = .ok final ∧
      Adjusted order (loserTree.marked top) final current 0 wins := by
  have small := poppable.small
  rcases poppable.first_same.found node index with ⟨pos, nodeSmall, wins, stored,
    storedAt, storedState⟩
  have ne := poppable.stored_ne pos nodeSmall storedAt
  have onPath := (poppable.tournament.ancestor_of_win pos (by omega) wins).2.2
  -- the child through which the winner came to the node
  have child : ∃ child, child / 2 = node ∧ Ancestor child (loserTree.size + top) :=
    (onPath.to_parent (by omega)).child
  rcases child with ⟨child, half, childOnPath⟩
  have climbs : Climbs order (loserTree.marked top) current 0 (opened win child) child top := by
    apply poppable.climbs (by omega) childOnPath
    intro lower lowerPositive lowerSmall beyond lowerWins sameAt
    rcases poppable.first_same.lowest lower lowerPositive lowerSmall lowerWins sameAt with
      ⟨first, isFirst, bound⟩
    rw [index, Option.some.injEq] at isFirst
    omega
  have losers : (loserTree.marked top).LosersAhead child (MetByCurrentKey order current) := by
    intro above abovePositive ancestor loser atNode
    have aboveSmall : above < loserTree.size := by
      have bounded := ancestor.le
      omega
    exact poppable.met abovePositive aboveSmall
      (poppable.tournament.win_on_path poppable.wins abovePositive
        (ancestor.of_parent.trans childOnPath) small) atNode
  have meeting := climbs.meets (by omega) (show (loserTree.marked top).tree (child / 2) =
    some stored from half ▸ storedAt)
  have atKey : AtKey order current (loserTree.leaves stored).kv := by
    have met := poppable.met pos nodeSmall wins storedAt
    rw [leaves_marked_of_ne ne] at met
    rcases met with (popped | ⟨isNew, _⟩) | ⟨_, atKey⟩
    · rw [storedState] at popped
      cases popped
    · rw [storedState] at isNew
      cases isNew
    · exact atKey
  rcases meeting.jump half storedState atKey index with ⟨after, round, state, jumps⟩
  have stillAtKey : AtKey order current (after.leaves stored).kv := by
    rw [(round.played.same stored).kv, leaves_marked_of_ne ne]
    exact atKey
  have allSet : (loserTree.marked top).AllSet := poppable.tournament.all_set
  rcases (climbs.after_round round).current_key_closes state stillAtKey
    (losers.after_match round.played climbs.tournament) (allSet.after_match round.played)
    (show child / 2 / 2 ≤ 2 * loserTree.size by omega) with ⟨final, finalWins, result, adjusted⟩
  refine ⟨final, finalWins, ?_, adjusted.after_match round.played⟩
  unfold adjust
  cases atParent : (loserTree.marked top).tree ((top + loserTree.size) / 2) with
  | none => exact absurd atParent (poppable.tournament.all_set _ (by omega) (by omega))
  | some parentLeaf =>
    rw [size_marked, adjust_loop_match (by omega) atParent (jumps _ _)]
    exact result

end

/-- The record of the winner; then a hole is on top, or the next record of the key. -/
theorem Standing.pop_winner (standing : Standing order loserTree current top)
    (pos : 1 ≤ loserTree.size) (unpopped : ¬(loserTree.leaves top).IsPopped)
    (within : Within order current (loserTree.leaves top).kv) :
    ∃ final next, loserTree.popWinner order = .ok ((loserTree.leaves top).kv, final) ∧
      TakenFrom loserTree final top ∧ Standing order final current next ∧
      ((final.leaves next).IsPopped ∨ AtKey order current (final.leaves next).kv) := by
  have small := standing.top_small pos
  rcases standing.closed with ⟨win, tournament, wins⟩
  have poppable : Poppable order loserTree current win top :=
    ⟨tournament, wins, small, unpopped, within, standing.ahead, standing.noTies⟩
  have adjusts : ∃ final wins, (loserTree.marked top).adjust order top = .ok final ∧
      Adjusted order (loserTree.marked top) final current 0 wins := by
    cases index : (loserTree.leaves top).firstSameKeyIndex with
    | none => exact poppable.pop_last index
    | some node => exact poppable.pop_same index
  rcases adjusts with ⟨final, finalWins, result, adjusted⟩
  rcases adjusted.standing pos poppable.marked_ahead poppable.marked_no_ties with
    ⟨next, after⟩
  have taken : TakenFrom loserTree final top := TakenFrom.of_marked adjusted.size adjusted.same
  refine ⟨final, next, ?_, taken, after, ?_⟩
  · have notPopped : (loserTree.leaves top).state ≠ .winnerPopped :=
      fun popped => unpopped (Or.inl popped)
    simp only [popWinner, standing.topAt, if_neg notPopped]
    rw [show loserTree.setLeaf top ((loserTree.leaves top).withState .winnerPopped) =
      loserTree.marked top from rfl, result]
  · rcases after.closed with ⟨afterWin, afterTournament, afterTop⟩
    have stillSmall : top < final.size := by
      rw [taken.size]
      exact small
    exact afterTournament.top_of_popped after.ahead stillSmall
      (taken.taken.popped.mpr (Or.inl rfl)) afterTop

theorem Standing.advance (standing : Standing order loserTree current top)
    (positive : 1 ≤ loserTree.size) (popped : (loserTree.leaves top).IsPopped)
    {advanced : LeafIterator} (state : advanced.state = .winnerWithNewKey)
    (index : advanced.firstSameKeyIndex = none) (above : Above order current advanced.kv)
    (noTies : NoTies order (loserTree.setLeaf top advanced)) :
    ∃ final next, (loserTree.setLeaf top advanced).adjust order top = .ok final ∧
      final.size = loserTree.size ∧
      (∀ leaf, SameRecords ((loserTree.setLeaf top advanced).leaves leaf) (final.leaves leaf)) ∧
      Standing order final current next := by
  have small := standing.top_small positive
  rcases standing.closed with ⟨win, tournament, wins⟩
  have size : (loserTree.setLeaf top advanced).size = loserTree.size := rfl
  have advancedLeaf : (loserTree.setLeaf top advanced).leaves top = advanced := by
    rw [leaves_set_leaf, update_self]
  have climbs : Climbs order (loserTree.setLeaf top advanced) current 0
      (opened win (loserTree.size + top)) (loserTree.size + top) top := by
    constructor
    case tournament =>
      apply tournament.reopen small wins (by omega) (Ancestor.refl _)
      · intro node loser _ nodeSmall beyond
        omega
      · intro _
        constructor
        · intro node isIndex
          rw [advancedLeaf, index] at isIndex
          cases isIndex
        · intro node nodePositive nodeSmall nodeWins
          by_cases ancestor : Ancestor node ((loserTree.size + top) / 2)
          · rw [opened_on_path nodePositive ancestor] at nodeWins
            cases nodeWins
          · rw [opened_elsewhere ancestor] at nodeWins
            have onPath := (tournament.ancestor_of_win nodePositive (by omega) nodeWins).2.2
            exact absurd (onPath.to_parent (by omega)) ancestor
    case positive => omega
    case bound => omega
    case climbs =>
      rw [opened_at_climb (by omega)]
      exact tournament.win_on_path wins (by omega) (Ancestor.refl _) small
    case noTies => exact noTies
  have losers : (loserTree.setLeaf top advanced).LosersAhead (loserTree.size + top)
      (MetByNewKey order current) := by
    intro node nodePositive ancestor loser atNode
    rw [tree_set_leaf] at atNode
    have nodeSmall : node < loserTree.size := by
      have bounded := ancestor.le
      omega
    have nodeWins := tournament.win_on_path wins nodePositive ancestor.of_parent small
    have different : loser ≠ top := by
      rintro rfl
      exact tournament.free loser wins node nodePositive nodeSmall atNode
    have beats := tournament.closed_beats nodePositive nodeSmall
    rw [nodeWins, atNode] at beats
    rw [leaves_set_leaf, update_of_ne different]
    cases beats with
    | holeOverPopped _ loserState => exact Or.inl loserState
    | keyOverPopped unpopped _ _ => exact absurd popped unpopped
    | sameKey unpopped _ _ _ _ _ => exact absurd popped unpopped
    | holeOverNew _ loserState loserAbove => exact Or.inr ⟨loserState, loserAbove⟩
    | newKey unpopped _ _ => exact absurd popped unpopped
  have ahead : Ahead order (loserTree.setLeaf top advanced) current := by
    intro leaf leafSmall unpopped
    by_cases isTop : leaf = top
    · rw [isTop, advancedLeaf]
      exact Or.inl above
    · rw [leaves_set_leaf, update_of_ne isTop] at unpopped ⊢
      exact standing.ahead leaf leafSmall unpopped
  have allSet : (loserTree.setLeaf top advanced).AllSet := tournament.all_set
  have aboveAdvanced : Above order current ((loserTree.setLeaf top advanced).leaves top).kv := by
    rw [advancedLeaf]
    exact above
  rcases climbs.new_key_closes (by rw [advancedLeaf]; exact state) aboveAdvanced losers
    (Or.inl allSet) (show (loserTree.size + top) / 2 ≤ 2 * loserTree.size + 1 by omega) with
    ⟨final, finalWins, result, adjusted⟩
  rcases adjusted.standing positive ahead noTies with ⟨next, after⟩
  refine ⟨final, next, ?_, adjusted.size, adjusted.same, after⟩
  unfold adjust
  rw [Nat.add_comm top]
  exact result

/-- The tree while it is filled: the leaves from `firstLeaf` on are in, none is popped. -/
structure Filling (order : RecordOrder) (loserTree : LoserTree) (firstLeaf : Nat)
    (win : Nat → Option Nat) : Prop where
  tournament : Tournament order loserTree none firstLeaf win 1
  top : loserTree.tree 0 = win 1
  topState : ∀ leaf, win 1 = some leaf → (loserTree.leaves leaf).state.isWinner = true
  unpopped : ∀ leaf, ¬(loserTree.leaves leaf).IsPopped

theorem above_none (kv : Option KeyValue) : Above order none kv := by
  intro bound no
  cases no

theorem Tournament.stored_in_tree {firstLeaf : Nat}
    (tournament : Tournament order loserTree current firstLeaf win 1) {node loser : Nat}
    (pos : 1 ≤ node) (small : node < loserTree.size)
    (atNode : loserTree.tree node = some loser) : loser < loserTree.size ∧ firstLeaf ≤ loser := by
  rcases tournament.closed_children pos small with ⟨_, right⟩ | ⟨_, left⟩
  · have wins := tournament.ancestor_of_win (by omega) (by omega) (right.trans atNode)
    exact ⟨wins.1, wins.2.1⟩
  · have wins := tournament.ancestor_of_win (by omega) (by omega) (left.trans atNode)
    exact ⟨wins.1, wins.2.1⟩

theorem Tournament.insert {index : Nat} {advanced : LeafIterator}
    (tournament : Tournament order loserTree current (index + 1) win 1)
    (small : index < loserTree.size) (noIndex : advanced.firstSameKeyIndex = none) :
    Tournament order (loserTree.setLeaf index advanced) current index
      (Function.update win (loserTree.size + index) (some index)) (loserTree.size + index) := by
  have unchanged : ∀ leaf, index + 1 ≤ leaf →
      (loserTree.setLeaf index advanced).leaves leaf = loserTree.leaves leaf := by
    intro leaf later
    rw [leaves_set_leaf, update_of_ne (by omega)]
  have kept : ∀ node, node ≠ loserTree.size + index →
      Function.update win (loserTree.size + index) (some index) node = win node := by
    intro node ne
    exact update_of_ne ne _ _
  have unset : ∀ node, 1 ≤ node → Ancestor node (loserTree.size + index) → win node = none := by
    intro node pos ancestor
    exact tournament.unset_above small (by omega) pos ancestor
  have sameAt : ∀ node, 1 ≤ node → node < loserTree.size →
      ((loserTree.setLeaf index advanced).SameAt node ↔ loserTree.SameAt node) := by
    intro node pos nodeSmall
    exact SameAt.congr rfl (fun other atNode =>
      unchanged other (tournament.stored_in_tree pos nodeSmall atNode).2)
  constructor
  case leaf =>
    intro leaf leafSmall
    rw [size_set_leaf] at leafSmall ⊢
    by_cases here : leaf = index
    · rw [here, update_self, if_pos (Nat.le_refl _)]
    · rw [kept _ (by omega), tournament.leaf leaf leafSmall]
      by_cases later : index ≤ leaf
      · rw [if_pos later, if_pos (by omega)]
      · rw [if_neg later, if_neg (by omega)]
  case children =>
    intro node pos nodeSmall played
    rw [size_set_leaf] at nodeSmall
    have childKept : ∀ child, child / 2 = node →
        Function.update win (loserTree.size + index) (some index) child = win child := by
      intro child half
      apply kept
      rintro rfl
      exact played (half ▸ Ancestor.refl _)
    rw [childKept (2 * node) (by omega), childKept (2 * node + 1) (by omega), kept node (by omega)]
    exact tournament.closed_children pos nodeSmall
  case beats =>
    intro node pos nodeSmall _
    rw [size_set_leaf] at nodeSmall
    rw [kept node (by omega)]
    have later : ∀ leaf, win node = some leaf ∨ loserTree.tree node = some leaf →
        index + 1 ≤ leaf := by
      intro leaf either
      rcases either with isWinner | isLoser
      · exact (tournament.ancestor_of_win pos (by omega) isWinner).2.1
      · exact (tournament.stored_in_tree pos nodeSmall isLoser).2
    apply (tournament.closed_beats pos nodeSmall).congr
    · intro leaf either
      rw [unchanged leaf (later leaf either)]
      exact SameRecords.refl _
    · intro leaf isLoser
      rw [unchanged leaf (later leaf (Or.inr isLoser))]
  case pending =>
    intro node pos ancestor
    have smaller := ancestor.lt_of_parent (by omega)
    rw [kept node (by omega)]
    exact unset node pos ancestor.of_parent
  case siblings =>
    intro node inner ancestor
    have notSibling := not_ancestor_sibling inner ancestor
    have bounded := ancestor.le
    rw [kept, tree_set_leaf]
    · rcases tournament.closed_at_parent inner (by omega) with ⟨_, there⟩ | ⟨there, here⟩
      · exact there
      · rw [there, ← here, unset node (by omega) ancestor,
          unset (node / 2) (by omega) ancestor.parent]
    · intro isLeaf
      exact notSibling (isLeaf ▸ Ancestor.refl _)
  case distinct => exact tournament.distinct
  case free =>
    intro leaf atClimb node pos nodeSmall atNode
    rw [update_self, Option.some.injEq] at atClimb
    have later := (tournament.stored_in_tree pos nodeSmall atNode).2
    omega
  case firstSame =>
    intro leaf leafSmall inserted unpopped
    by_cases here : leaf = index
    · subst here
      constructor
      · intro node isIndex
        rw [leaves_set_leaf, update_self, noIndex] at isIndex
        cases isIndex
      · intro node pos nodeSmall wins
        rw [size_set_leaf] at nodeSmall
        rw [kept node (by omega)] at wins
        have later := (tournament.ancestor_of_win pos (by omega) wins).2.1
        omega
    · rw [unchanged leaf (by omega)] at unpopped
      apply (tournament.firstSame leaf leafSmall (by omega) unpopped).congr
        (size_set_leaf loserTree index advanced) (by rw [unchanged leaf (by omega)])
      intro node pos nodeSmall
      rw [kept node (by omega), sameAt node pos nodeSmall]

theorem Filling.insert {index : Nat} {advanced : LeafIterator}
    (filling : Filling order loserTree (index + 1) win) (small : index < loserTree.size)
    (state : advanced.state = .winnerWithNewKey) (noIndex : advanced.firstSameKeyIndex = none)
    (noTies : NoTies order (loserTree.setLeaf index advanced)) :
    ∃ final wins, (loserTree.setLeaf index advanced).adjust order index = .ok final ∧
      Filling order final index wins ∧ final.size = loserTree.size ∧
      (∀ leaf, SameRecords ((loserTree.setLeaf index advanced).leaves leaf)
        (final.leaves leaf)) := by
  have size : (loserTree.setLeaf index advanced).size = loserTree.size := rfl
  have inserted : (loserTree.setLeaf index advanced).leaves index = advanced := by
    rw [leaves_set_leaf, update_self]
  have unpopped : ∀ leaf, ¬((loserTree.setLeaf index advanced).leaves leaf).IsPopped := by
    intro leaf
    by_cases here : leaf = index
    · rw [here, inserted]
      exact new_state_not_popped (Or.inl state)
    · rw [leaves_set_leaf, update_of_ne here]
      exact filling.unpopped leaf
  have climbs : Climbs order (loserTree.setLeaf index advanced) none index
      (Function.update win (loserTree.size + index) (some index)) (loserTree.size + index)
      index := by
    constructor
    case tournament => exact filling.tournament.insert small noIndex
    case positive => omega
    case bound => omega
    case climbs => exact update_self ..
    case noTies => exact noTies
  have losers : (loserTree.setLeaf index advanced).LosersAhead (loserTree.size + index)
      (MetByNewKey order none) := by
    intro node positive ancestor loser atNode
    rw [tree_set_leaf] at atNode
    have bounded := ancestor.le
    have later := (filling.tournament.stored_in_tree positive (by omega) atNode).2
    have beats := filling.tournament.closed_beats positive (by omega)
    rw [filling.tournament.unset_above small (by omega) positive ancestor.of_parent,
      atNode] at beats
    rw [leaves_set_leaf, update_of_ne (by omega)]
    cases beats with
    | holeOverPopped _ loserState => exact Or.inl loserState
    | holeOverNew _ loserState above => exact Or.inr ⟨loserState, above⟩
  rcases climbs.new_key_closes (by rw [inserted]; exact state) (above_none _) losers
    (Or.inr unpopped) (show (loserTree.size + index) / 2 ≤ 2 * loserTree.size + 1 by omega) with
    ⟨final, wins, result, adjusted⟩
  refine ⟨final, wins, ?_, ?_, adjusted.size, adjusted.same⟩
  · unfold adjust
    rw [Nat.add_comm index]
    exact result
  · refine ⟨adjusted.tournament, adjusted.top, adjusted.topState, ?_⟩
    intro leaf popped
    exact unpopped leaf ((adjusted.same leaf).popped.mp popped)

end LoserTree

end PaimonCore.MergeTree
