import PaimonCore.MergeTree.LoserTreeAdjust

/-!
# The climb to the root

`Adjust` moves a leaf up from its place, or from the node where the popped winner met its
own key first, until the root is reached, a hole takes over or, while the tree is filled,
the other subtree is missing. The tournament is closed then.
-/

namespace PaimonCore.MergeTree

open Std TreeIndex Function

namespace LoserTree

variable {order : RecordOrder}

/-- `Adjust` has closed the tournament, and the records stand as before. -/
structure Adjusted (order : RecordOrder) (before after : LoserTree) (current : Option KeyValue)
    (firstLeaf : Nat) (win : Nat → Option Nat) : Prop where
  tournament : Tournament order after current firstLeaf win 1
  top : after.tree 0 = win 1
  topState : ∀ leaf, win 1 = some leaf → (after.leaves leaf).state.isWinner = true
  size : after.size = before.size
  same : ∀ leaf, SameRecords (before.leaves leaf) (after.leaves leaf)

def LosersAhead (loserTree : LoserTree) (climb : Nat) (known : LeafIterator → Prop) : Prop :=
  ∀ node, 1 ≤ node → Ancestor node (climb / 2) → ∀ leaf, loserTree.tree node = some leaf →
    known (loserTree.leaves leaf)

def AllSet (loserTree : LoserTree) : Prop :=
  ∀ node, 1 ≤ node → node < loserTree.size → loserTree.tree node ≠ none

section
variable {loserTree after : LoserTree} {current : Option KeyValue} {firstLeaf : Nat}
  {win : Nat → Option Nat} {climb climbing stored winner loser : Nat}

section
variable (played : MatchPlayed loserTree after win climb winner loser)
include played

theorem Adjusted.after_match {final : LoserTree} {wins : Nat → Option Nat}
    (adjusted : Adjusted order after final current firstLeaf wins) :
    Adjusted order loserTree final current firstLeaf wins where
  tournament := adjusted.tournament
  top := adjusted.top
  topState := adjusted.topState
  size := adjusted.size.trans played.size
  same := fun leaf => (played.same leaf).trans (adjusted.same leaf)

theorem LosersAhead.after_match {known : LeafIterator → Prop}
    (losers : loserTree.LosersAhead climb known)
    (tournament : Tournament order loserTree current firstLeaf win climb) :
    after.LosersAhead (climb / 2) known := by
  intro node pos ancestor leaf atNode
  have inner := played.inner
  have bound := played.bound
  have smaller := ancestor.lt_of_parent (by omega)
  rw [Tournament.played_tree_of_ne played (by omega)] at atNode
  have apart := tournament.stored_elsewhere played pos (by omega) (by omega) atNode
  rw [played.others leaf apart.1 apart.2]
  exact losers node pos ancestor.of_parent leaf atNode

theorem AllSet.after_match (allSet : loserTree.AllSet) : after.AllSet := by
  intro node pos small
  rw [played.size] at small
  by_cases here : node = climb / 2
  · rw [here, Tournament.played_tree_at played]
    exact Option.some_ne_none _
  · rw [Tournament.played_tree_of_ne played here]
    exact allSet node pos small

end

theorem Tournament.transfer (tournament : Tournament order loserTree current firstLeaf win climb)
    (size : after.size = loserTree.size) (leaves : after.leaves = loserTree.leaves)
    (kept : ∀ node, 1 ≤ node → after.tree node = loserTree.tree node) :
    Tournament order after current firstLeaf win climb := by
  constructor
  case leaf =>
    rw [size]
    exact tournament.leaf
  case children =>
    intro node pos small played
    rw [size] at small
    rw [kept node pos]
    exact tournament.children node pos small played
  case beats =>
    intro node pos small played
    rw [size] at small
    rw [kept node pos]
    apply (tournament.beats node pos small played).congr
    · intro leaf _
      rw [leaves]
      exact SameRecords.refl _
    · intro leaf _
      rw [leaves]
  case pending => exact tournament.pending
  case siblings =>
    intro node inner ancestor
    rw [kept (node / 2) (by omega)]
    exact tournament.siblings node inner ancestor
  case distinct =>
    intro node other pos small otherPositive otherSmall leaf atNode atOther
    rw [size] at small otherSmall
    rw [kept node pos] at atNode
    rw [kept other otherPositive] at atOther
    exact tournament.distinct node other pos small otherPositive otherSmall leaf atNode atOther
  case free =>
    intro leaf wins node pos small
    rw [size] at small
    rw [kept node pos]
    exact tournament.free leaf wins node pos small
  case firstSame =>
    intro leaf small inserted unpopped
    rw [size] at small
    rw [leaves] at unpopped
    apply (tournament.firstSame leaf small inserted unpopped).congr size (by rw [leaves])
    intro node pos _
    rw [SameAt.congr (kept node pos) (fun other _ => congrFun leaves other)]

theorem Tournament.set_top (tournament : Tournament order loserTree current firstLeaf win climb)
    (top : Option Nat) :
    Tournament order (loserTree.setTree 0 top) current firstLeaf win climb := by
  apply tournament.transfer (size_set_tree _ _ _) (leaves_set_tree _ _ _)
  intro node pos
  rw [tree_set_tree, update_of_ne (by omega)]

theorem adjusted_at_root (tournament : Tournament order loserTree current firstLeaf win 1)
    (climbs : win 1 = some climbing) (state : (loserTree.leaves climbing).state.isWinner = true) :
    Adjusted order loserTree (loserTree.setTree 0 (some climbing)) current firstLeaf win where
  tournament := tournament.set_top _
  top := by
    rw [tree_set_tree, update_self, climbs]
  topState := by
    intro leaf wins
    rw [climbs, Option.some.injEq] at wins
    rw [← wins]
    exact state
  size := rfl
  same := fun leaf => SameRecords.refl _

def MetByNewKey (order : RecordOrder) (current : Option KeyValue) (leaf : LeafIterator) : Prop :=
  leaf.state = .loserPopped ∨ (leaf.state = .loserWithNewKey ∧ Above order current leaf.kv)

def MetByCurrentKey (order : RecordOrder) (current : Option KeyValue) (leaf : LeafIterator) :
    Prop :=
  MetByNewKey order current leaf ∨ (leaf.state = .loserWithSameKey ∧ AtKey order current leaf.kv)

theorem hole_beats {leaf : Option Nat} (hole : loserTree.Hole leaf) {loser : Nat}
    (met : MetByNewKey order current (loserTree.leaves loser)) :
    Beats order loserTree current leaf (some loser) := by
  rcases met with popped | ⟨isNew, above⟩
  · exact Beats.holeOverPopped hole popped
  · exact Beats.holeOverNew hole isNew above

open Classical in
/-- The winners if `climbing` goes up from the node `climb` to the root. -/
noncomputable def carriedUp (win : Nat → Option Nat) (climb climbing node : Nat) : Option Nat :=
  if 1 ≤ node ∧ Ancestor node (climb / 2) then some climbing else win node

theorem carried_up_above {node : Nat} (pos : 1 ≤ node) (ancestor : Ancestor node (climb / 2)) :
    carriedUp win climb climbing node = some climbing :=
  if_pos ⟨pos, ancestor⟩

theorem carried_up_elsewhere {node : Nat} (notAncestor : ¬Ancestor node (climb / 2)) :
    carriedUp win climb climbing node = win node :=
  if_neg (fun both => notAncestor both.2)

theorem carried_up_path (climbs : win climb = some climbing) {node : Nat} (pos : 1 ≤ node)
    (ancestor : Ancestor node climb) : carriedUp win climb climbing node = some climbing := by
  by_cases here : node = climb
  · subst here
    by_cases also : Ancestor node (node / 2)
    · exact carried_up_above pos also
    · rw [carried_up_elsewhere also]
      exact climbs
  · exact carried_up_above pos (ancestor.to_parent here)

theorem carried_up_child {node child : Nat} (notAncestor : ¬Ancestor node (climb / 2))
    (half : child / 2 = node) : carriedUp win climb climbing child = win child := by
  apply carried_up_elsewhere
  intro ancestor
  exact notAncestor (half ▸ ancestor.parent)

theorem Tournament.carried_up_other
    (tournament : Tournament order loserTree current firstLeaf win climb) {leaf node : Nat}
    (other : leaf ≠ climbing) (pos : 1 ≤ node) :
    carriedUp win climb climbing node = some leaf ↔ win node = some leaf := by
  by_cases ancestor : Ancestor node (climb / 2)
  · rw [carried_up_above pos ancestor, tournament.pending node pos ancestor]
    constructor
    · intro same
      rw [Option.some.injEq] at same
      exact absurd same.symm other
    · intro no
      cases no
  · rw [carried_up_elsewhere ancestor]

/-- A hole at the node `climb` wins all matches above. -/
theorem Tournament.close_hole (tournament : Tournament order loserTree current firstLeaf win climb)
    (positiveClimb : 1 ≤ climb) (bound : climb / 2 < loserTree.size)
    (climbs : win climb = some climbing)
    (popped : (loserTree.leaves climbing).IsPopped) (allSet : loserTree.AllSet)
    (losers : loserTree.LosersAhead climb (MetByNewKey order current)) :
    ∃ wins, wins 1 = some climbing ∧ Tournament order loserTree current firstLeaf wins 1 := by
  have atRoot : carriedUp win climb climbing 1 = some climbing :=
    carried_up_path climbs (Nat.le_refl 1) (Ancestor.root positiveClimb)
  refine ⟨carriedUp win climb climbing, atRoot, ?_⟩
  constructor
  case leaf =>
    intro index small
    rw [carried_up_elsewhere (fun ancestor => by have := ancestor.le; omega)]
    exact tournament.leaf index small
  case children =>
    intro node pos small _
    by_cases ancestor : Ancestor node (climb / 2)
    · rcases ancestor.child with ⟨child, half, childAncestor⟩
      have inner : 2 ≤ child := by omega
      have notSibling := not_ancestor_sibling inner childAncestor
      have childWins := carried_up_path climbs (by omega) childAncestor
      have siblingWins : carriedUp win climb climbing (sibling child) = loserTree.tree node := by
        rw [carried_up_elsewhere (fun other => notSibling other.of_parent), ← half]
        exact tournament.siblings child inner childAncestor
      rw [carried_up_above pos ancestor]
      exact children_of_child half inner childWins siblingWins
    · rw [carried_up_child ancestor (show 2 * node / 2 = node by omega),
        carried_up_child ancestor (show (2 * node + 1) / 2 = node by omega),
        carried_up_elsewhere ancestor]
      exact tournament.children node pos small ancestor
  case beats =>
    intro node pos small _
    by_cases ancestor : Ancestor node (climb / 2)
    · rw [carried_up_above pos ancestor]
      cases atNode : loserTree.tree node with
      | none => exact absurd atNode (allSet node pos small)
      | some leaf =>
        apply hole_beats
        · intro other isClimbing
          rw [Option.some.injEq] at isClimbing
          exact isClimbing ▸ popped
        · exact losers node pos ancestor leaf atNode
    · rw [carried_up_elsewhere ancestor]
      exact tournament.beats node pos small ancestor
  case pending =>
    intro node pos ancestor
    have bounded := ancestor.le
    omega
  case siblings =>
    intro node inner ancestor
    have bounded := ancestor.le
    omega
  case distinct => exact tournament.distinct
  case free =>
    intro leaf isTop
    exact tournament.free leaf (climbs.trans (atRoot.symm.trans isTop))
  case firstSame =>
    intro leaf small inserted unpopped
    have other : leaf ≠ climbing := by
      rintro rfl
      exact unpopped popped
    apply (tournament.firstSame leaf small inserted unpopped).congr rfl rfl
    intro node pos _
    rw [tournament.carried_up_other other pos]

/-- The leaf `climbing` stays at a node as a loser with a new key. -/
structure Waits (loserTree after : LoserTree) (node climbing : Nat) : Prop where
  size : after.size = loserTree.size
  tree : after.tree = update loserTree.tree node (some climbing)
  leaves : after.leaves = update loserTree.leaves climbing
    ((loserTree.leaves climbing).withState .loserWithNewKey)

section
variable {waiting : Nat} (waits : Waits loserTree after waiting climbing)
include waits

theorem Waits.tree_here : after.tree waiting = some climbing := by
  rw [waits.tree, update_self]

theorem Waits.tree_elsewhere {node : Nat} (ne : node ≠ waiting) :
    after.tree node = loserTree.tree node := by
  rw [waits.tree, update_of_ne ne]

theorem Waits.leaf_here :
    after.leaves climbing = (loserTree.leaves climbing).withState .loserWithNewKey := by
  rw [waits.leaves, update_self]

theorem Waits.leaf_elsewhere {leaf : Nat} (ne : leaf ≠ climbing) :
    after.leaves leaf = loserTree.leaves leaf := by
  rw [waits.leaves, update_of_ne ne]

theorem Waits.first_same_key_index (leaf : Nat) :
    (after.leaves leaf).firstSameKeyIndex = (loserTree.leaves leaf).firstSameKeyIndex := by
  by_cases here : leaf = climbing
  · rw [here, waits.leaf_here]
    rfl
  · rw [waits.leaf_elsewhere here]

theorem Waits.same_records (unpopped : ¬(loserTree.leaves climbing).IsPopped) (leaf : Nat) :
    SameRecords (loserTree.leaves leaf) (after.leaves leaf) := by
  by_cases here : leaf = climbing
  · rw [here, waits.leaf_here]
    exact same_records_unpopped _ unpopped (by decide)
  · rw [waits.leaf_elsewhere here]
    exact SameRecords.refl _

end

section
variable (tournament : Tournament order loserTree current firstLeaf win climb)
  (climbs : win climb = some climbing) (waits : Waits loserTree after (climb / 2) climbing)
include tournament climbs waits

/-- No node holds the climbing leaf, so the leaves at the nodes stay as they are. -/
theorem Tournament.waits_kept {node leaf : Nat} (pos : 1 ≤ node) (small : node < loserTree.size)
    (atNode : loserTree.tree node = some leaf) : after.leaves leaf = loserTree.leaves leaf := by
  apply waits.leaf_elsewhere
  rintro rfl
  exact tournament.free leaf climbs node pos small atNode

theorem Tournament.waits_children (inner : 2 ≤ climb) (unset : loserTree.tree (climb / 2) = none)
    {node : Nat} (pos : 1 ≤ node) (small : node < loserTree.size) :
    (win (2 * node) = win node ∧ win (2 * node + 1) = after.tree node) ∨
      (win (2 * node + 1) = win node ∧ win (2 * node) = after.tree node) := by
  by_cases ancestor : Ancestor node (climb / 2)
  · -- on the way up: the subtree of the climbing leaf and that of its sibling
    rw [tournament.pending node pos ancestor]
    by_cases here : node = climb / 2
    · have siblingWins := tournament.siblings climb inner (Ancestor.refl _)
      rw [here, waits.tree_here]
      exact (children_of_child rfl inner climbs (siblingWins.trans unset)).symm.imp
        And.symm And.symm
    · rcases (ancestor.to_parent here).child with ⟨child, half, childAncestor⟩
      have siblingWins := tournament.siblings child (by omega) childAncestor.of_parent
      rw [half] at siblingWins
      rw [waits.tree_elsewhere here]
      exact children_of_child half (by omega)
        (tournament.pending child (by omega) childAncestor) siblingWins
  · have here : node ≠ climb / 2 := by
      rintro rfl
      exact ancestor (Ancestor.refl _)
    rw [waits.tree_elsewhere here]
    exact tournament.children node pos small ancestor

theorem Tournament.waits_beats (state : (loserTree.leaves climbing).state = .winnerWithNewKey)
    (above : Above order current (loserTree.leaves climbing).kv)
    (losers : loserTree.LosersAhead climb (MetByNewKey order current))
    {node : Nat} (pos : 1 ≤ node) (small : node < loserTree.size) :
    Beats order after current (win node) (after.tree node) := by
  have same := waits.same_records (new_state_not_popped (Or.inl state))
  by_cases here : node = climb / 2
  · rw [here, tournament.pending _ (here ▸ pos) (Ancestor.refl _), waits.tree_here]
    apply Beats.holeOverNew
    · intro leaf no
      cases no
    · rw [waits.leaf_here]
      rfl
    · rw [waits.leaf_here]
      exact above
  · rw [waits.tree_elsewhere here]
    have atNode : ∀ leaf, loserTree.tree node = some leaf →
        (after.leaves leaf).state = (loserTree.leaves leaf).state := by
      intro leaf isLeaf
      rw [tournament.waits_kept climbs waits pos small isLeaf]
    by_cases ancestor : Ancestor node (climb / 2)
    · have before : Beats order loserTree current (win node) (loserTree.tree node) := by
        rw [tournament.pending node pos ancestor]
        cases isLeaf : loserTree.tree node with
        | none => exact Beats.unset
        | some leaf =>
          apply hole_beats
          · intro other no
            cases no
          · exact losers node pos ancestor leaf isLeaf
      exact before.congr (fun leaf _ => same leaf) atNode
    · exact (tournament.beats node pos small ancestor).congr (fun leaf _ => same leaf) atNode

theorem Tournament.waits_first_same {leaf : Nat} (first : loserTree.FirstSame win leaf) :
    after.FirstSame win leaf := by
  apply first.congr waits.size (waits.first_same_key_index leaf)
  intro node pos nodeSmall
  apply and_congr_right
  intro wins
  have elsewhere : node ≠ climb / 2 := by
    rintro rfl
    rw [tournament.pending _ pos (Ancestor.refl _)] at wins
    cases wins
  exact SameAt.congr (waits.tree_elsewhere elsewhere)
    (fun leaf atNode => tournament.waits_kept climbs waits pos nodeSmall atNode)

end

/-- The first leaf that comes to a node waits there for the other subtree. -/
theorem Tournament.fill_in
    (tournament : Tournament order loserTree current firstLeaf win climb) (inner : 2 ≤ climb)
    (climbs : win climb = some climbing)
    (state : (loserTree.leaves climbing).state = .winnerWithNewKey)
    (above : Above order current (loserTree.leaves climbing).kv)
    (unset : loserTree.tree (climb / 2) = none)
    (losers : loserTree.LosersAhead climb (MetByNewKey order current))
    (isAfter : after = (loserTree.setLeaf climbing
      ((loserTree.leaves climbing).withState .loserWithNewKey)).setTree (climb / 2)
        (some climbing)) :
    win 1 = none ∧ (∀ leaf, SameRecords (loserTree.leaves leaf) (after.leaves leaf)) ∧
      Tournament order after current firstLeaf win 1 := by
  have waits : Waits loserTree after (climb / 2) climbing := by
    rw [isAfter]
    exact ⟨rfl, rfl, rfl⟩
  have same := waits.same_records (new_state_not_popped (Or.inl state))
  have atRoot : win 1 = none :=
    tournament.pending 1 (Nat.le_refl 1) (Ancestor.root (by omega))
  refine ⟨atRoot, same, ?_⟩
  constructor
  case leaf =>
    rw [waits.size]
    exact tournament.leaf
  case children =>
    intro node pos small _
    rw [waits.size] at small
    exact tournament.waits_children climbs waits inner unset pos small
  case beats =>
    intro node pos small _
    rw [waits.size] at small
    exact tournament.waits_beats climbs waits state above losers pos small
  case pending =>
    intro node pos ancestor
    have bounded := ancestor.le
    omega
  case siblings =>
    intro node nodeInner ancestor
    have bounded := ancestor.le
    omega
  case distinct =>
    rw [waits.size]
    exact distinct_update waits.tree tournament.distinct
      (fun node pos small _ => tournament.free climbing climbs node pos small)
  case free =>
    intro leaf isTop
    rw [atRoot] at isTop
    cases isTop
  case firstSame =>
    intro leaf small inserted leafUnpopped
    rw [waits.size] at small
    apply tournament.waits_first_same climbs waits
    exact tournament.firstSame leaf small inserted
      (fun popped => leafUnpopped ((same leaf).popped.mpr popped))

theorem adjust_loop_root (fuel : Nat) (loserTree : LoserTree) (climbing : Nat) :
    adjustLoop order fuel loserTree 0 climbing = .ok (loserTree.setTree 0 (some climbing)) := by
  cases fuel <;> rw [adjustLoop, if_pos rfl]

theorem adjust_loop_match {fuel parent next : Nat} (pos : 1 ≤ parent)
    (storedAt : loserTree.tree parent = some stored)
    (result : playMatch order loserTree parent stored climbing = .ok (after, next, winner)) :
    adjustLoop order (fuel + 1) loserTree parent climbing =
      adjustLoop order fuel after (next / 2) winner := by
  rw [adjustLoop, if_neg (by omega)]
  simp only [storedAt, result]

/-- A leaf at the node `climb` of an open tournament. -/
structure Climbs (order : RecordOrder) (loserTree : LoserTree) (current : Option KeyValue)
    (firstLeaf : Nat) (win : Nat → Option Nat) (climb climbing : Nat) : Prop where
  tournament : Tournament order loserTree current firstLeaf win climb
  positive : 1 ≤ climb
  bound : climb < 2 * loserTree.size
  climbs : win climb = some climbing
  noTies : NoTies order loserTree

theorem Climbs.meets (climbs : Climbs order loserTree current firstLeaf win climb climbing)
    (inner : 2 ≤ climb) (storedAt : loserTree.tree (climb / 2) = some stored) :
    Meets order loserTree current firstLeaf win climb climbing stored :=
  ⟨climbs.tournament, inner, climbs.bound, climbs.climbs, storedAt⟩

theorem Climbs.after_round (climbs : Climbs order loserTree current firstLeaf win climb climbing)
    (round : RoundPlayed order loserTree current win climb climbing stored after winner loser) :
    Climbs order after current firstLeaf (Function.update win (climb / 2) (some winner))
      (climb / 2) winner where
  tournament := climbs.tournament.play round.played round.beats
  positive := by
    have inner := round.played.inner
    omega
  bound := by
    have bound := round.played.bound
    rw [round.played.size]
    omega
  climbs := update_self ..
  noTies := climbs.noTies.congr round.played.size round.played.same

theorem Advances.keeps {state : LeafState} {candidates : List Nat} {known : Option KeyValue → Prop}
    (advances : Advances order loserTree current win climb climbing stored state candidates)
    (all : ∀ candidate ∈ candidates, known (loserTree.leaves candidate).kv) : ∃ after winner loser,
      RoundPlayed order loserTree current win climb climbing stored after winner loser ∧
        (after.leaves winner).state = state ∧ known (after.leaves winner).kv := by
  rcases advances with ⟨after, winner, loser, round, winnerState, candidate⟩
  refine ⟨after, winner, loser, round, winnerState, ?_⟩
  rw [(round.played.same winner).kv]
  exact all winner candidate

theorem Climbs.closes_at_root (climbs : Climbs order loserTree current firstLeaf win climb climbing)
    (atRoot : climb / 2 = 0) (state : (loserTree.leaves climbing).state.isWinner = true)
    (fuel : Nat) :
    ∃ final wins, adjustLoop order fuel loserTree (climb / 2) climbing = .ok final ∧
      Adjusted order loserTree final current firstLeaf wins := by
  obtain rfl : climb = 1 := by
    have pos := climbs.positive
    omega
  exact ⟨_, win, adjust_loop_root _ _ _, adjusted_at_root climbs.tournament climbs.climbs state⟩

theorem RoundPlayed.then_closes {fuel : Nat}
    (round : RoundPlayed order loserTree current win climb climbing stored after winner loser)
    (storedAt : loserTree.tree (climb / 2) = some stored)
    (closes : ∃ final wins, adjustLoop order fuel after (climb / 2 / 2) winner = .ok final ∧
      Adjusted order after final current firstLeaf wins) :
    ∃ final wins, adjustLoop order (fuel + 1) loserTree (climb / 2) climbing = .ok final ∧
      Adjusted order loserTree final current firstLeaf wins := by
  rcases closes with ⟨final, wins, result, adjusted⟩
  have inner := round.played.inner
  refine ⟨final, wins, ?_, adjusted.after_match round.played⟩
  rw [adjust_loop_match (by omega) storedAt round.result]
  exact result

section
variable (climbs : Climbs order loserTree current firstLeaf win climb climbing)
include climbs

/-- A hole ends the climb: everything above stays as it is. -/
theorem Climbs.hole_closes (state : (loserTree.leaves climbing).state = .winnerPopped)
    (index : (loserTree.leaves climbing).firstSameKeyIndex = none) (allSet : loserTree.AllSet)
    (losers : loserTree.LosersAhead climb (MetByNewKey order current)) {fuel : Nat}
    (enough : climb / 2 ≤ fuel) :
    ∃ final wins, adjustLoop order fuel loserTree (climb / 2) climbing = .ok final ∧
      Adjusted order loserTree final current firstLeaf wins := by
  have pos := climbs.positive
  have bound := climbs.bound
  rcases climbs.tournament.close_hole pos (by omega) climbs.climbs (Or.inl state) allSet
    losers with ⟨wins, top, closed⟩
  refine ⟨loserTree.setTree 0 (some climbing), wins, ?_,
    adjusted_at_root closed top (by rw [state]; rfl)⟩
  by_cases isRoot : climb / 2 = 0
  · rw [isRoot]
    exact adjust_loop_root _ _ _
  · cases fuel with
    | zero => omega
    | succ fuel =>
      cases storedAt : loserTree.tree (climb / 2) with
      | none => exact absurd storedAt (allSet (climb / 2) (by omega) (by omega))
      | some stored =>
        have result : playMatch order loserTree (climb / 2) stored climbing =
            .ok (loserTree, 0, climbing) := by
          simp only [playMatch, state, index]
        rw [adjust_loop_match (by omega) storedAt result]
        exact adjust_loop_root _ _ _

theorem Climbs.new_key_closes {fuel : Nat}
    (state : (loserTree.leaves climbing).state = .winnerWithNewKey)
    (above : Above order current (loserTree.leaves climbing).kv)
    (losers : loserTree.LosersAhead climb (MetByNewKey order current))
    (filled : loserTree.AllSet ∨ ∀ leaf, ¬(loserTree.leaves leaf).IsPopped)
    (enough : climb / 2 ≤ fuel) :
    ∃ final wins, adjustLoop order fuel loserTree (climb / 2) climbing = .ok final ∧
      Adjusted order loserTree final current firstLeaf wins := by
  induction fuel generalizing loserTree win climb climbing with
  | zero => exact climbs.closes_at_root (by omega) (by rw [state]; rfl) _
  | succ fuel ih =>
    by_cases atRoot : climb / 2 = 0
    · exact climbs.closes_at_root atRoot (by rw [state]; rfl) _
    · have inner : 2 ≤ climb := by omega
      cases storedAt : loserTree.tree (climb / 2) with
      | none =>
        rcases climbs.tournament.fill_in inner climbs.climbs state above storedAt losers rfl
          with ⟨top, same, closed⟩
        refine ⟨_, win, ?_, closed.set_top none, ?_, ?_, rfl, same⟩
        · rw [adjustLoop, if_neg (by omega)]
          simp only [storedAt]
        · rw [tree_set_tree, update_self, top]
        · intro leaf isTop
          rw [top] at isTop
          cases isTop
      | some stored =>
        have meeting := climbs.meets inner storedAt
        rcases losers (climb / 2) (by omega) (Ancestor.refl _) stored storedAt with
          popped | ⟨isNew, storedAbove⟩
        · rcases meeting.new_against_popped state above popped with
            ⟨after, round, holeState, holeIndex⟩
          have allSet : loserTree.AllSet := by
            rcases filled with allSet | none
            · exact allSet
            · exact absurd (Or.inr popped) (none stored)
          exact round.then_closes storedAt ((climbs.after_round round).hole_closes holeState
            holeIndex (allSet.after_match round.played)
            (losers.after_match round.played climbs.tournament) (by omega))
        · have candidates : ∀ candidate ∈ [climbing, stored],
              Above order current (loserTree.leaves candidate).kv := by
            simpa using ⟨above, storedAbove⟩
          rcases (meeting.new_against_new state isNew climbs.noTies).keeps candidates with
            ⟨after, winner, loser, round, winnerState, winnerAbove⟩
          have stillFilled : after.AllSet ∨ ∀ leaf, ¬(after.leaves leaf).IsPopped := by
            rcases filled with allSet | none
            · exact Or.inl (allSet.after_match round.played)
            · right
              intro leaf popped
              exact none leaf ((round.played.same leaf).popped.mp popped)
          exact round.then_closes storedAt (ih (climbs.after_round round) winnerState winnerAbove
            (losers.after_match round.played climbs.tournament) stillFilled (by omega))

theorem Climbs.current_key_closes {fuel : Nat}
    (state : (loserTree.leaves climbing).state = .winnerWithSameKey)
    (atKey : AtKey order current (loserTree.leaves climbing).kv)
    (losers : loserTree.LosersAhead climb (MetByCurrentKey order current))
    (allSet : loserTree.AllSet) (enough : climb / 2 ≤ fuel) :
    ∃ final wins, adjustLoop order fuel loserTree (climb / 2) climbing = .ok final ∧
      Adjusted order loserTree final current firstLeaf wins := by
  induction fuel generalizing loserTree win climb climbing with
  | zero => exact climbs.closes_at_root (by omega) (by rw [state]; rfl) _
  | succ fuel ih =>
    by_cases atRoot : climb / 2 = 0
    · exact climbs.closes_at_root atRoot (by rw [state]; rfl) _
    · have inner : 2 ≤ climb := by omega
      have bound := climbs.bound
      cases storedAt : loserTree.tree (climb / 2) with
      | none => exact absurd storedAt (allSet (climb / 2) (by omega) (by omega))
      | some stored =>
        have meeting := climbs.meets inner storedAt
        have known := losers (climb / 2) (by omega) (Ancestor.refl _) stored storedAt
        have advances : ∃ after winner loser,
            RoundPlayed order loserTree current win climb climbing stored after winner loser ∧
              (after.leaves winner).state = .winnerWithSameKey ∧
              AtKey order current (after.leaves winner).kv := by
          rcases known with (popped | ⟨isNew, storedAbove⟩) | ⟨isSame, storedAtKey⟩
          · apply (meeting.same_against_popped state atKey popped).keeps
            simpa using atKey
          · apply (meeting.same_against_new state atKey isNew storedAbove).keeps
            simpa using atKey
          · apply (meeting.same_against_same state atKey climbs.noTies isSame storedAtKey).keeps
            simpa using ⟨atKey, storedAtKey⟩
        rcases advances with ⟨after, winner, loser, round, winnerState, winnerAtKey⟩
        exact round.then_closes storedAt (ih (climbs.after_round round) winnerState winnerAtKey
          (losers.after_match round.played climbs.tournament)
          (allSet.after_match round.played) (by omega))

end

end

end LoserTree

end PaimonCore.MergeTree
