import PaimonCore.Library.TreeIndex
import PaimonCore.MergeTree.LoserTree

/-!
# The tournament behind the loser tree

`win` names the winner of the subtree below each node; a hole, where a leaf was popped or not yet
filled in, wins against every record above the current key and loses against every record at that
key. `Tournament` says that the tree array and the leaf states record such a tournament, with the
matches above the node `climb` still to be played.
-/

namespace PaimonCore.MergeTree

open Std TreeIndex Function

def LeafIterator.IsPopped (leaf : LeafIterator) : Prop :=
  leaf.state = .winnerPopped ∨ leaf.state = .loserPopped

instance (leaf : LeafIterator) : Decidable leaf.IsPopped :=
  inferInstanceAs (Decidable (_ ∨ _))

/-- Same records and same place in the group; the rest of the state may differ. -/
structure SameRecords (before after : LeafIterator) : Prop where
  kv : after.kv = before.kv
  iterator : after.iterator = before.iterator
  reader : after.reader = before.reader
  endOfInput : after.endOfInput = before.endOfInput
  popped : after.IsPopped ↔ before.IsPopped

theorem SameRecords.refl (leaf : LeafIterator) : SameRecords leaf leaf :=
  ⟨rfl, rfl, rfl, rfl, Iff.rfl⟩

theorem SameRecords.trans {first second third : LeafIterator} (lower : SameRecords first second)
    (upper : SameRecords second third) : SameRecords first third where
  kv := upper.kv.trans lower.kv
  iterator := upper.iterator.trans lower.iterator
  reader := upper.reader.trans lower.reader
  endOfInput := upper.endOfInput.trans lower.endOfInput
  popped := upper.popped.trans lower.popped

namespace LoserTree

variable (order : RecordOrder)

def Above (current kv : Option KeyValue) : Prop :=
  ∀ bound, current = some bound → ∀ record, kv = some record → order.compareKey bound record = .lt

def AtKey (current kv : Option KeyValue) : Prop :=
  ∃ bound record, current = some bound ∧ kv = some record ∧ order.compareKey bound record = .eq

def Hole (loserTree : LoserTree) (winner : Option Nat) : Prop :=
  ∀ leaf, winner = some leaf → (loserTree.leaves leaf).IsPopped

/-- The match between two subtrees, as the state of the loser records it. -/
inductive Beats (loserTree : LoserTree) (current : Option KeyValue) :
    Option Nat → Option Nat → Prop where
  | unset : Beats loserTree current none none
  | holeOverPopped {winner : Option Nat} {loser : Nat} (hole : loserTree.Hole winner)
      (state : (loserTree.leaves loser).state = .loserPopped) :
      Beats loserTree current winner (some loser)
  | keyOverPopped {winner loser : Nat} (unpopped : ¬(loserTree.leaves winner).IsPopped)
      (atKey : AtKey order current (loserTree.leaves winner).kv)
      (state : (loserTree.leaves loser).state = .loserPopped) :
      Beats loserTree current (some winner) (some loser)
  | sameKey {winner loser : Nat} {first second : KeyValue}
      (unpopped : ¬(loserTree.leaves winner).IsPopped)
      (winnerKv : (loserTree.leaves winner).kv = some first)
      (loserKv : (loserTree.leaves loser).kv = some second)
      (state : (loserTree.leaves loser).state = .loserWithSameKey)
      (same : order.compareKey first second = .eq)
      (earlier : order.compareSequence first second = .lt) :
      Beats loserTree current (some winner) (some loser)
  | holeOverNew {winner : Option Nat} {loser : Nat} (hole : loserTree.Hole winner)
      (state : (loserTree.leaves loser).state = .loserWithNewKey)
      (above : Above order current (loserTree.leaves loser).kv) :
      Beats loserTree current winner (some loser)
  | newKey {winner loser : Nat} (unpopped : ¬(loserTree.leaves winner).IsPopped)
      (state : (loserTree.leaves loser).state = .loserWithNewKey)
      (below : ∀ second, (loserTree.leaves loser).kv = some second →
        ∃ first, (loserTree.leaves winner).kv = some first ∧ order.compareKey first second = .lt) :
      Beats loserTree current (some winner) (some loser)

variable {order} {before after : LoserTree}

theorem Hole.congr {winner : Option Nat}
    (same : ∀ leaf, winner = some leaf → SameRecords (before.leaves leaf) (after.leaves leaf))
    (hole : before.Hole winner) : after.Hole winner := by
  intro leaf isWinner
  exact (same leaf isWinner).popped.mpr (hole leaf isWinner)

theorem Beats.congr {current : Option KeyValue} {winner loser : Option Nat}
    (same : ∀ leaf, winner = some leaf ∨ loser = some leaf →
      SameRecords (before.leaves leaf) (after.leaves leaf))
    (kept : ∀ leaf, loser = some leaf → (after.leaves leaf).state = (before.leaves leaf).state)
    (beats : Beats order before current winner loser) : Beats order after current winner loser := by
  have sameWinner := fun leaf isWinner => same leaf (Or.inl isWinner)
  have sameLoser := fun leaf isLoser => same leaf (Or.inr isLoser)
  cases beats with
  | unset => exact Beats.unset
  | holeOverPopped hole state =>
    exact Beats.holeOverPopped (hole.congr sameWinner) ((kept _ rfl).trans state)
  | keyOverPopped unpopped atKey state =>
    apply Beats.keyOverPopped
    · exact fun popped => unpopped ((sameWinner _ rfl).popped.mp popped)
    · rw [(sameWinner _ rfl).kv]
      exact atKey
    · exact (kept _ rfl).trans state
  | sameKey unpopped winnerKv loserKv state sameKeys earlier =>
    apply Beats.sameKey _ ((sameWinner _ rfl).kv.trans winnerKv)
      ((sameLoser _ rfl).kv.trans loserKv) ((kept _ rfl).trans state) sameKeys earlier
    exact fun popped => unpopped ((sameWinner _ rfl).popped.mp popped)
  | holeOverNew hole state above =>
    apply Beats.holeOverNew (hole.congr sameWinner) ((kept _ rfl).trans state)
    rw [(sameLoser _ rfl).kv]
    exact above
  | newKey unpopped state below =>
    apply Beats.newKey _ ((kept _ rfl).trans state)
    · rw [(sameWinner _ rfl).kv, (sameLoser _ rfl).kv]
      exact below
    · exact fun popped => unpopped ((sameWinner _ rfl).popped.mp popped)

def SameAt (loserTree : LoserTree) (node : Nat) : Prop :=
  ∃ leaf, loserTree.tree node = some leaf ∧ (loserTree.leaves leaf).state = .loserWithSameKey

theorem SameAt.congr {node : Nat} (tree : after.tree node = before.tree node)
    (kept : ∀ leaf, before.tree node = some leaf → after.leaves leaf = before.leaves leaf) :
    after.SameAt node ↔ before.SameAt node := by
  unfold SameAt
  rw [tree]
  apply exists_congr
  intro leaf
  apply and_congr_right
  intro atNode
  rw [kept leaf atNode]

/-- `first_same_key_index` is the lowest node at which the leaf wins over its own key. -/
structure FirstSame (loserTree : LoserTree) (win : Nat → Option Nat) (leaf : Nat) : Prop where
  found : ∀ node, (loserTree.leaves leaf).firstSameKeyIndex = some node →
    1 ≤ node ∧ node < loserTree.size ∧ win node = some leaf ∧ loserTree.SameAt node
  lowest : ∀ node, 1 ≤ node → node < loserTree.size → win node = some leaf → loserTree.SameAt node →
    ∃ first, (loserTree.leaves leaf).firstSameKeyIndex = some first ∧ node ≤ first

theorem FirstSame.congr {win wins : Nat → Option Nat} {leaf : Nat}
    (first : before.FirstSame win leaf) (size : after.size = before.size)
    (index : (after.leaves leaf).firstSameKeyIndex = (before.leaves leaf).firstSameKeyIndex)
    (agree : ∀ node, 1 ≤ node → node < before.size →
      (wins node = some leaf ∧ after.SameAt node ↔ win node = some leaf ∧ before.SameAt node)) :
    after.FirstSame wins leaf := by
  constructor
  · intro node isIndex
    rw [index] at isIndex
    rcases first.found node isIndex with ⟨pos, small, nodeWins⟩
    rw [size]
    exact ⟨pos, small, (agree node pos small).mpr nodeWins⟩
  · intro node pos small nodeWins same
    rw [size] at small
    rw [index]
    have before := (agree node pos small).mp ⟨nodeWins, same⟩
    exact first.lowest node pos small before.1 before.2

variable (order)

/-- The record of a tournament among the leaves from `firstLeaf` on, up to the node `climb`. -/
structure Tournament (loserTree : LoserTree) (current : Option KeyValue) (firstLeaf : Nat)
    (win : Nat → Option Nat) (climb : Nat) : Prop where
  leaf : ∀ index < loserTree.size, win (loserTree.size + index) =
    if firstLeaf ≤ index then some index else none
  children : ∀ node, 1 ≤ node → node < loserTree.size → ¬Ancestor node (climb / 2) →
    (win (2 * node) = win node ∧ win (2 * node + 1) = loserTree.tree node) ∨
      (win (2 * node + 1) = win node ∧ win (2 * node) = loserTree.tree node)
  beats : ∀ node, 1 ≤ node → node < loserTree.size → ¬Ancestor node (climb / 2) →
    Beats order loserTree current (win node) (loserTree.tree node)
  pending : ∀ node, 1 ≤ node → Ancestor node (climb / 2) → win node = none
  siblings : ∀ node, 2 ≤ node → Ancestor node climb → win (sibling node) = loserTree.tree (node / 2)
  distinct : ∀ node other, 1 ≤ node → node < loserTree.size → 1 ≤ other →
    other < loserTree.size → ∀ leaf, loserTree.tree node = some leaf →
    loserTree.tree other = some leaf → node = other
  free : ∀ leaf, win climb = some leaf → ∀ node, 1 ≤ node → node < loserTree.size →
    loserTree.tree node ≠ some leaf
  firstSame : ∀ leaf < loserTree.size, firstLeaf ≤ leaf → ¬(loserTree.leaves leaf).IsPopped →
    loserTree.FirstSame win leaf

/-- One match at the parent of `climb`, with the leaf stored there. -/
structure MatchPlayed (before after : LoserTree) (win : Nat → Option Nat)
    (climb winner loser : Nat) : Prop where
  inner : 2 ≤ climb
  bound : climb < 2 * before.size
  pair : (win climb = some winner ∧ before.tree (climb / 2) = some loser) ∨
    (win climb = some loser ∧ before.tree (climb / 2) = some winner)
  size : after.size = before.size
  tree : after.tree = Function.update before.tree (climb / 2) (some loser)
  same : ∀ leaf, SameRecords (before.leaves leaf) (after.leaves leaf)
  others : ∀ leaf, leaf ≠ winner → leaf ≠ loser → after.leaves leaf = before.leaves leaf
  loserIndex : (after.leaves loser).firstSameKeyIndex = (before.leaves loser).firstSameKeyIndex
  winnerIndex : ¬(after.leaves winner).IsPopped → (after.leaves winner).firstSameKeyIndex =
      if (after.leaves loser).state = .loserWithSameKey then
        (before.leaves winner).firstSameKeyIndex.or (some (climb / 2))
      else (before.leaves winner).firstSameKeyIndex

namespace Tournament

variable {order} {loserTree : LoserTree} {current : Option KeyValue} {firstLeaf : Nat}
  {win : Nat → Option Nat} {climb : Nat}

theorem ancestor_of_win (tournament : Tournament order loserTree current firstLeaf win climb)
    {node leaf : Nat} (pos : 1 ≤ node) (bound : node < 2 * loserTree.size)
    (wins : win node = some leaf) :
    leaf < loserTree.size ∧ firstLeaf ≤ leaf ∧ Ancestor node (loserTree.size + leaf) := by
  induction distance : 2 * loserTree.size - node using Nat.strongRecOn generalizing node with
  | ind distance ih =>
    by_cases inner : node < loserTree.size
    · have played : ¬Ancestor node (climb / 2) := by
        intro ancestor
        rw [tournament.pending node pos ancestor] at wins
        cases wins
      have below : ∀ child, child / 2 = node → child < 2 * loserTree.size → node < child →
          win child = some leaf →
          leaf < loserTree.size ∧ firstLeaf ≤ leaf ∧ Ancestor node (loserTree.size + leaf) := by
        intro child half childBound larger childWins
        rcases ih _ (by omega) (by omega) childBound childWins rfl with ⟨small, from', ancestor⟩
        exact ⟨small, from', half ▸ ancestor.parent⟩
      rcases tournament.children node pos inner played with ⟨left, _⟩ | ⟨right, _⟩
      · exact below (2 * node) (by omega) (by omega) (by omega) (left.trans wins)
      · exact below (2 * node + 1) (by omega) (by omega) (by omega) (right.trans wins)
    · have split : node = loserTree.size + (node - loserTree.size) := by omega
      have leafWins := tournament.leaf (node - loserTree.size) (by omega)
      rw [← split, wins] at leafWins
      split_ifs at leafWins with inserted
      have same : leaf = node - loserTree.size := Option.some.inj leafWins
      subst same
      refine ⟨by omega, inserted, ?_⟩
      rw [← split]
      exact Ancestor.refl _

section
variable {after : LoserTree} {winner loser : Nat} {node : Nat}

theorem played_tree_of_ne (played : MatchPlayed loserTree after win climb winner loser)
    (ne : node ≠ climb / 2) : after.tree node = loserTree.tree node := by
  rw [played.tree, update_of_ne ne]

theorem played_tree_at (played : MatchPlayed loserTree after win climb winner loser) :
    after.tree (climb / 2) = some loser := by
  rw [played.tree, update_self]

section
variable (tournament : Tournament order loserTree current firstLeaf win climb)
  (played : MatchPlayed loserTree after win climb winner loser)
include tournament played

theorem stored_elsewhere {leaf : Nat} (pos : 1 ≤ node) (small : node < loserTree.size)
    (ne : node ≠ climb / 2)
    (atNode : loserTree.tree node = some leaf) : leaf ≠ winner ∧ leaf ≠ loser := by
  have inner := played.inner
  have bound := played.bound
  have climbing : ∀ other, win climb = some other → leaf ≠ other := by
    rintro other climbs rfl
    exact tournament.free leaf climbs node pos small atNode
  have stored : ∀ other, loserTree.tree (climb / 2) = some other → leaf ≠ other := by
    rintro other storedAt rfl
    exact ne (tournament.distinct node (climb / 2) pos small (by omega) (by omega) leaf
      atNode storedAt)
  rcases played.pair with ⟨climbs, storedAt⟩ | ⟨climbs, storedAt⟩
  · exact ⟨climbing winner climbs, stored loser storedAt⟩
  · exact ⟨stored winner storedAt, climbing loser climbs⟩

theorem played_same_at_iff (pos : 1 ≤ node) (small : node < loserTree.size)
    (ne : node ≠ climb / 2) :
    after.SameAt node ↔ loserTree.SameAt node := by
  apply SameAt.congr (played_tree_of_ne played ne)
  intro leaf atNode
  have apart := tournament.stored_elsewhere played pos small ne atNode
  exact played.others leaf apart.1 apart.2

theorem wins_at_child : ∃ child, child / 2 = climb / 2 ∧ 2 ≤ child ∧ child < 2 * loserTree.size ∧
      win child = some winner := by
  have inner := played.inner
  have bound := played.bound
  have half := sibling_half inner
  rcases played.pair with ⟨climbs, _⟩ | ⟨_, storedAt⟩
  · exact ⟨climb, rfl, inner, bound, climbs⟩
  · refine ⟨sibling climb, half, two_le_sibling inner, ?_, ?_⟩
    · omega
    · rw [tournament.siblings climb inner (Ancestor.refl _)]
      exact storedAt

theorem parent_lt_of_win (pos : 1 ≤ node)
    (small : node < loserTree.size) (wins : win node = some winner) : climb / 2 < node := by
  rcases tournament.wins_at_child played with ⟨child, half, childInner, childBound, childWins⟩
  have low := (tournament.ancestor_of_win pos (by omega) wins).2.2
  have high := (tournament.ancestor_of_win (by omega) childBound childWins).2.2.parent
  rw [half] at high
  by_contra notAbove
  have ancestor := low.of_le high (by omega)
  rw [tournament.pending node pos ancestor] at wins
  cases wins

theorem first_same_found_below (first : loserTree.FirstSame win winner)
    (isIndex : (loserTree.leaves winner).firstSameKeyIndex = some node) :
    climb / 2 < node ∧ 1 ≤ node ∧ node < after.size ∧
      Function.update win (climb / 2) (some winner) node = some winner ∧ after.SameAt node := by
  rcases first.found node isIndex with ⟨pos, small, wins, sameAt⟩
  have larger := tournament.parent_lt_of_win played pos small wins
  have ne : node ≠ climb / 2 := by omega
  rw [played.size, update_of_ne ne]
  exact ⟨larger, pos, small, wins, (tournament.played_same_at_iff played pos small ne).mpr sameAt⟩

theorem played_first_same_winner
    (unpopped : ¬(after.leaves winner).IsPopped) (first : loserTree.FirstSame win winner) :
    after.FirstSame (Function.update win (climb / 2) (some winner)) winner := by
  have inner := played.inner
  have bound := played.bound
  have size := played.size
  have index := played.winnerIndex unpopped
  constructor
  · intro node isIndex
    rw [index] at isIndex
    by_cases sameKey : (after.leaves loser).state = .loserWithSameKey
    · rw [if_pos sameKey] at isIndex
      cases old : (loserTree.leaves winner).firstSameKeyIndex with
      | none =>
        rw [old, Option.none_or, Option.some.injEq] at isIndex
        subst isIndex
        exact ⟨by omega, by omega, update_self .., loser, played_tree_at played, sameKey⟩
      | some oldIndex =>
        rw [old, Option.some_or, Option.some.injEq] at isIndex
        subst isIndex
        exact (tournament.first_same_found_below played first old).2
    · rw [if_neg sameKey] at isIndex
      exact (tournament.first_same_found_below played first isIndex).2
  · intro node pos small wins sameAt
    rw [size] at small
    rw [index]
    by_cases here : node = climb / 2
    · subst here
      rcases sameAt with ⟨leaf, isLeaf, state⟩
      rw [played_tree_at played, Option.some.injEq] at isLeaf
      subst isLeaf
      rw [if_pos state]
      cases old : (loserTree.leaves winner).firstSameKeyIndex with
      | none => exact ⟨climb / 2, rfl, Nat.le_refl _⟩
      | some oldIndex =>
        have below := (tournament.first_same_found_below played first old).1
        exact ⟨oldIndex, rfl, by omega⟩
    · rw [update_of_ne here] at wins
      have oldSame := (tournament.played_same_at_iff played pos small here).mp sameAt
      rcases first.lowest node pos small wins oldSame with ⟨lowest, isLowest, lower⟩
      refine ⟨lowest, ?_, lower⟩
      rw [isLowest]
      simp

theorem played_first_same_other {leaf : Nat} (ne : leaf ≠ winner)
    (first : loserTree.FirstSame win leaf) :
    after.FirstSame (Function.update win (climb / 2) (some winner)) leaf := by
  have index : (after.leaves leaf).firstSameKeyIndex =
      (loserTree.leaves leaf).firstSameKeyIndex := by
    by_cases isLoser : leaf = loser
    · rw [isLoser]
      exact played.loserIndex
    · rw [played.others leaf ne isLoser]
  apply first.congr played.size index
  intro node pos small
  by_cases here : node = climb / 2
  · rw [here, tournament.pending _ (by omega) (Ancestor.refl _)]
    simp [Ne.symm ne]
  · rw [update_of_ne here, tournament.played_same_at_iff played pos small here]

theorem played_children (pos : 1 ≤ node)
    (small : node < loserTree.size) (isPlayed : ¬Ancestor node (climb / 2 / 2)) :
    let wins := Function.update win (climb / 2) (some winner)
    (wins (2 * node) = wins node ∧ wins (2 * node + 1) = after.tree node) ∨
      (wins (2 * node + 1) = wins node ∧ wins (2 * node) = after.tree node) := by
  intro wins
  have inner := played.inner
  have notChild : ∀ child, child / 2 = node → child ≠ climb / 2 := by
    rintro child half rfl
    exact isPlayed (half ▸ Ancestor.refl _)
  have left : wins (2 * node) = win (2 * node) := update_of_ne (notChild _ (by omega)) _ _
  have right : wins (2 * node + 1) = win (2 * node + 1) := update_of_ne (notChild _ (by omega)) _ _
  rw [left, right]
  by_cases here : node = climb / 2
  · -- the two children of the parent are `climb` and its sibling
    have atNode : wins node = some winner := by
      rw [here]
      exact update_self ..
    have loserAt : after.tree node = some loser := by
      rw [here]
      exact played_tree_at played
    have siblingWins := tournament.siblings climb inner (Ancestor.refl _)
    rw [atNode, loserAt]
    rcases played.pair with ⟨climbs, storedAt⟩ | ⟨climbs, storedAt⟩
    · exact children_of_child here.symm inner climbs (siblingWins.trans storedAt)
    · exact (children_of_child here.symm inner climbs (siblingWins.trans storedAt)).symm.imp
        And.symm And.symm
  · have atNode : wins node = win node := update_of_ne here _ _
    rw [atNode, played_tree_of_ne played here]
    apply tournament.children node pos small
    intro ancestor
    exact isPlayed (ancestor.to_parent here)

/-- After the match the tournament stands at the parent. -/
theorem play (beats : Beats order after current (some winner) (some loser)) :
    Tournament order after current firstLeaf (Function.update win (climb / 2) (some winner))
      (climb / 2) := by
  have inner := played.inner
  have bound := played.bound
  have size := played.size
  constructor
  case leaf =>
    intro index small
    rw [size] at small ⊢
    rw [update_of_ne (by omega)]
    exact tournament.leaf index small
  case children =>
    intro node pos small isPlayed
    exact tournament.played_children played pos (size ▸ small) isPlayed
  case beats =>
    intro node pos small isPlayed
    rw [size] at small
    by_cases here : node = climb / 2
    · subst here
      rw [update_self, played_tree_at played]
      exact beats
    · have before := tournament.beats node pos small (fun ancestor =>
        isPlayed (ancestor.to_parent here))
      rw [update_of_ne here, played_tree_of_ne played here]
      apply before.congr (fun leaf _ => played.same leaf)
      intro leaf atNode
      have apart := tournament.stored_elsewhere played pos small here atNode
      rw [played.others leaf apart.1 apart.2]
  case pending =>
    intro node pos ancestor
    have smaller := ancestor.lt_of_parent (by omega)
    rw [update_of_ne (by omega)]
    exact tournament.pending node pos ancestor.of_parent
  case siblings =>
    intro node nodeInner ancestor
    have bounded := ancestor.le
    have elsewhere : sibling node ≠ climb / 2 := by
      intro same
      exact not_ancestor_sibling nodeInner ancestor (same ▸ Ancestor.refl _)
    rw [update_of_ne elsewhere, played_tree_of_ne played (by omega)]
    exact tournament.siblings node nodeInner ancestor.of_parent
  case distinct =>
    rw [size]
    apply distinct_update played.tree tournament.distinct
    intro node pos small ne atNode
    exact (tournament.stored_elsewhere played pos small ne atNode).2 rfl
  case free =>
    intro leaf wins node pos small atNode
    rw [size] at small
    rw [update_self, Option.some.injEq] at wins
    subst wins
    by_cases here : node = climb / 2
    · rw [here, played_tree_at played, Option.some.injEq] at atNode
      subst atNode
      rcases played.pair with ⟨climbs, storedAt⟩ | ⟨climbs, storedAt⟩
      all_goals exact tournament.free loser climbs (climb / 2) (by omega) (by omega) storedAt
    · rw [played_tree_of_ne played here] at atNode
      exact (tournament.stored_elsewhere played pos small here atNode).1 rfl
  case firstSame =>
    intro leaf small inserted unpopped
    rw [size] at small
    have before := tournament.firstSame leaf small inserted
      (fun popped => unpopped ((played.same leaf).popped.mpr popped))
    by_cases isWinner : leaf = winner
    · subst isWinner
      exact tournament.played_first_same_winner played unpopped before
    · exact tournament.played_first_same_other played isWinner before

end

end

end Tournament

end LoserTree

end PaimonCore.MergeTree
