import PaimonCore.MergeTree.LoserTreeClimb

/-!
# A closed tournament

What the losers stored in the tree say about all leaves: the winner has the least record
as long as it is not popped, and once a hole is on top no leaf has the current key any
more. The path of the winner can be opened again from any node up.
-/

namespace PaimonCore.MergeTree

open Std TreeIndex

namespace LoserTree

variable {order : RecordOrder} {loserTree : LoserTree} {current : Option KeyValue}
  {firstLeaf : Nat} {win : Nat → Option Nat}

namespace Tournament

variable {node : Nat}

section
variable (tournament : Tournament order loserTree current firstLeaf win 1)
include tournament

theorem closed_children (pos : 1 ≤ node) (small : node < loserTree.size) :
    (win (2 * node) = win node ∧ win (2 * node + 1) = loserTree.tree node) ∨
      (win (2 * node + 1) = win node ∧ win (2 * node) = loserTree.tree node) := by
  apply tournament.children node pos small
  intro ancestor
  have bounded := ancestor.le
  omega

theorem closed_beats (pos : 1 ≤ node) (small : node < loserTree.size) :
    Beats order loserTree current (win node) (loserTree.tree node) := by
  apply tournament.beats node pos small
  intro ancestor
  have bounded := ancestor.le
  omega

theorem closed_at_parent (inner : 2 ≤ node) (bound : node < 2 * loserTree.size) :
    (win node = win (node / 2) ∧ win (sibling node) = loserTree.tree (node / 2)) ∨
      (win (sibling node) = win (node / 2) ∧ win node = loserTree.tree (node / 2)) := by
  have cases := tournament.closed_children (show 1 ≤ node / 2 by omega) (by omega)
  rcases children_cases inner with ⟨isLeft, isRight⟩ | ⟨isRight, isLeft⟩
  · rw [← isRight, ← isLeft] at cases
    exact cases
  · rw [← isRight, ← isLeft] at cases
    exact cases.symm

theorem win_on_path {top : Nat} (wins : win 1 = some top) (pos : 1 ≤ node)
    (ancestor : Ancestor node (loserTree.size + top)) (small : top < loserTree.size) :
    win node = some top := by
  induction node using Nat.strongRecOn with
  | ind node ih =>
    by_cases isRoot : node = 1
    · rw [isRoot]
      exact wins
    · have inner : 2 ≤ node := by omega
      have bound : node < 2 * loserTree.size := by
        have bounded := ancestor.le
        omega
      have above := ih (node / 2) (by omega) (by omega) ancestor.parent
      rcases tournament.closed_at_parent inner bound with ⟨here, _⟩ | ⟨there, _⟩
      · rw [here, above]
      · rw [above] at there
        have half := sibling_half inner
        have other := (tournament.ancestor_of_win (by omega) (by omega) there).2.2
        exact absurd other (not_ancestor_sibling inner ancestor)

theorem sibling_of_path {top : Nat} (wins : win 1 = some top) (inner : 2 ≤ node)
    (ancestor : Ancestor node (loserTree.size + top)) (small : top < loserTree.size) :
    win (sibling node) = loserTree.tree (node / 2) := by
  have bounded := ancestor.le
  rcases tournament.closed_at_parent inner (by omega) with ⟨_, there⟩ | ⟨_, here⟩
  · exact there
  · rw [tournament.win_on_path wins (by omega) ancestor small] at here
    exact absurd here.symm (tournament.free top wins (node / 2) (by omega) (by omega))

end

theorem wins_everywhere (tournament : Tournament order loserTree current 0 win 1)
    (pos : 1 ≤ node) (bound : node < 2 * loserTree.size) : win node ≠ none := by
  induction distance : 2 * loserTree.size - node using Nat.strongRecOn generalizing node with
  | ind distance ih =>
    by_cases inner : node < loserTree.size
    · rcases tournament.closed_children pos inner with ⟨left, _⟩ | ⟨right, _⟩
      · rw [← left]
        exact ih _ (by omega) (by omega) (by omega) rfl
      · rw [← right]
        exact ih _ (by omega) (by omega) (by omega) rfl
    · have split : node = loserTree.size + (node - loserTree.size) := by omega
      rw [split, tournament.leaf (node - loserTree.size) (by omega)]
      exact Option.some_ne_none _

theorem all_set (tournament : Tournament order loserTree current 0 win 1) : loserTree.AllSet := by
  intro node pos small
  rcases tournament.closed_children pos small with ⟨_, right⟩ | ⟨_, left⟩
  · rw [← right]
    exact tournament.wins_everywhere (by omega) (by omega)
  · rw [← left]
    exact tournament.wins_everywhere (by omega) (by omega)

theorem unset_above (tournament : Tournament order loserTree current firstLeaf win 1) {leaf : Nat}
    (small : leaf < loserTree.size) (missing : leaf < firstLeaf) (pos : 1 ≤ node)
    (ancestor : Ancestor node (loserTree.size + leaf)) : win node = none := by
  apply Ancestor.climb _ _ pos ancestor
  · rw [tournament.leaf leaf small, if_neg (by omega)]
  · intro inner innerBound onPath below
    have bounded := onPath.le
    rcases tournament.closed_at_parent innerBound (by omega) with ⟨here, _⟩ | ⟨_, stored⟩
    · rw [← here, below]
    · rw [below] at stored
      have beats := tournament.closed_beats (show 1 ≤ inner / 2 by omega) (by omega)
      rw [← stored] at beats
      cases atParent : win (inner / 2) with
      | none => rfl
      | some winner =>
        rw [atParent] at beats
        cases beats

end Tournament

def AtMost (order : RecordOrder) (first second : Option KeyValue) : Prop :=
  ∀ record, second = some record → ∃ smaller, first = some smaller ∧
    (compareLex order.compareKey order.compareSequence smaller record).isLE = true

theorem AtMost.refl (kv : Option KeyValue) : AtMost order kv kv := by
  intro record isSome
  exact ⟨record, isSome, ReflCmp.isLE_rfl⟩

variable {first second : Option KeyValue}

theorem AtMost.trans {third : Option KeyValue} (lower : AtMost order first second)
    (upper : AtMost order second third) : AtMost order first third := by
  intro record isThird
  rcases upper record isThird with ⟨middle, isMiddle, upperLe⟩
  rcases lower middle isMiddle with ⟨smaller, isSmaller, lowerLe⟩
  exact ⟨smaller, isSmaller, TransCmp.isLE_trans lowerLe upperLe⟩

theorem AtMost.of_key_lt (below : ∀ record, second = some record → ∃ smaller, first = some smaller ∧
      order.compareKey smaller record = .lt) : AtMost order first second := by
  intro record isSome
  rcases below record isSome with ⟨smaller, isSmaller, lower⟩
  refine ⟨smaller, isSmaller, ?_⟩
  simp [compareLex, lower]

theorem AtMost.key {record : KeyValue} (atMost : AtMost order first (some record)) :
    ∃ smaller, first = some smaller ∧ (order.compareKey smaller record).isLE = true := by
  rcases atMost record rfl with ⟨smaller, isSmaller, lower⟩
  refine ⟨smaller, isSmaller, ?_⟩
  unfold compareLex at lower
  cases verdict : order.compareKey smaller record with
  | lt => rfl
  | eq => rfl
  | gt =>
    rw [verdict] at lower
    exact lower

theorem Above.of_at_most (above : Above order current first) (atMost : AtMost order first second) :
    Above order current second := by
  intro bound isCurrent record isSecond
  subst isSecond
  rcases atMost.key with ⟨smaller, isSmaller, lower⟩
  exact TransCmp.lt_of_lt_of_isLE (above bound isCurrent smaller isSmaller) lower

theorem Above.at_most_of_at_key (atKey : AtKey order current first)
    (above : Above order current second) : AtMost order first second := by
  rcases atKey with ⟨bound, smaller, isCurrent, isFirst, same⟩
  apply AtMost.of_key_lt
  intro record isSecond
  exact ⟨smaller, isFirst, TransCmp.lt_of_eq_of_lt (OrientedCmp.eq_symm same)
    (above bound isCurrent record isSecond)⟩

/-- What the winner of a subtree says about an unpopped leaf of it. -/
def Dominates (order : RecordOrder) (loserTree : LoserTree) (current : Option KeyValue)
    (winner leaf : Nat) : Prop :=
  ((loserTree.leaves winner).IsPopped → Above order current (loserTree.leaves leaf).kv) ∧
    (¬(loserTree.leaves winner).IsPopped →
      AtMost order (loserTree.leaves winner).kv (loserTree.leaves leaf).kv)

theorem Beats.dominates {winner loser leaf : Nat}
    (beats : Beats order loserTree current (some winner) (some loser))
    (below : Dominates order loserTree current loser leaf) :
    Dominates order loserTree current winner leaf := by
  cases beats with
  | holeOverPopped hole state =>
    exact ⟨fun _ => below.1 (Or.inr state), fun unpopped => absurd (hole winner rfl) unpopped⟩
  | keyOverPopped unpopped atKey state =>
    exact ⟨fun popped => absurd popped unpopped, fun _ =>
      (below.1 (Or.inr state)).at_most_of_at_key atKey⟩
  | sameKey unpopped winnerKv loserKv state same earlier =>
    refine ⟨fun popped => absurd popped unpopped, fun _ => ?_⟩
    apply AtMost.trans _ (below.2 (new_state_not_popped (Or.inr (Or.inr (Or.inr state)))))
    intro record isLoser
    rw [loserKv, Option.some.injEq] at isLoser
    subst isLoser
    refine ⟨_, winnerKv, ?_⟩
    simp [compareLex, same, earlier]
  | holeOverNew hole state above =>
    refine ⟨fun _ => ?_, fun unpopped => absurd (hole winner rfl) unpopped⟩
    exact above.of_at_most (below.2 (new_state_not_popped (Or.inr (Or.inl state))))
  | newKey unpopped state smaller =>
    refine ⟨fun popped => absurd popped unpopped, fun _ => ?_⟩
    exact (AtMost.of_key_lt smaller).trans (below.2 (new_state_not_popped (Or.inr (Or.inl state))))

/-- What a leaf has and each match hands on to its winner reaches the top. -/
theorem Tournament.reaches_top (tournament : Tournament order loserTree current 0 win 1)
    (known : Nat → Prop) {leaf top : Nat} (small : leaf < loserTree.size) (atLeaf : known leaf)
    (handedOn : ∀ winner loser, winner < loserTree.size →
      Beats order loserTree current (some winner) (some loser) → known loser → known winner)
    (wins : win 1 = some top) : known top := by
  apply @Ancestor.climb _ _ (fun node => ∀ winner, win node = some winner → known winner) _ _
    (Nat.le_refl 1) (Ancestor.root (show 1 ≤ loserTree.size + leaf by omega)) top wins
  · intro winner isWinner
    rw [tournament.leaf leaf small, if_pos (Nat.zero_le _), Option.some.injEq] at isWinner
    exact isWinner ▸ atLeaf
  · intro inner innerBound onPath below winner isWinner
    have bounded := onPath.le
    rcases tournament.closed_at_parent innerBound (by omega) with ⟨here, _⟩ | ⟨_, stored⟩
    · exact below winner (here.trans isWinner)
    · have beats := tournament.closed_beats (show 1 ≤ inner / 2 by omega) (by omega)
      rw [isWinner, ← stored] at beats
      cases isLoser : win inner with
      | none => exact absurd isLoser (tournament.wins_everywhere (by omega) (by omega))
      | some loser =>
        rw [isLoser] at beats
        have winnerSmall := (tournament.ancestor_of_win (by omega) (by omega) isWinner).1
        exact handedOn winner loser winnerSmall beats (below loser isLoser)

theorem Tournament.top_dominates (tournament : Tournament order loserTree current 0 win 1)
    {leaf top : Nat} (small : leaf < loserTree.size)
    (unpopped : ¬(loserTree.leaves leaf).IsPopped) (wins : win 1 = some top) :
    Dominates order loserTree current top leaf := by
  apply tournament.reaches_top (fun winner => Dominates order loserTree current winner leaf)
    small _ (fun _ _ _ beats below => beats.dominates below) wins
  exact ⟨fun popped => absurd popped unpopped, fun _ => AtMost.refl _⟩

def Ahead (order : RecordOrder) (loserTree : LoserTree) (current : Option KeyValue) : Prop :=
  ∀ leaf < loserTree.size, ¬(loserTree.leaves leaf).IsPopped →
    Above order current (loserTree.leaves leaf).kv ∨ AtKey order current (loserTree.leaves leaf).kv

theorem not_at_key_of_above {kv : Option KeyValue} (above : Above order current kv) :
    ¬AtKey order current kv := by
  intro atKey
  rcases atKey with ⟨bound, record, isCurrent, isRecord, same⟩
  rw [above bound isCurrent record isRecord] at same
  cases same

theorem AtKey.not_behind (atKey : AtKey order current second)
    (ahead : Above order current first ∨ AtKey order current first)
    (smaller : ∀ record, second = some record → ∃ below, first = some below ∧
      (order.compareKey below record).isLE = true) : AtKey order current first := by
  rcases ahead with above | same
  · rcases atKey with ⟨bound, record, isCurrent, isRecord, same⟩
    rcases smaller record isRecord with ⟨below, isBelow, lower⟩
    have apart := TransCmp.lt_of_lt_of_isLE (above bound isCurrent below isBelow) lower
    rw [same] at apart
    cases apart
  · exact same

theorem Tournament.top_of_popped (tournament : Tournament order loserTree current 0 win 1)
    (ahead : Ahead order loserTree current) {leaf top : Nat} (small : leaf < loserTree.size)
    (popped : (loserTree.leaves leaf).IsPopped) (wins : win 1 = some top) :
    (loserTree.leaves top).IsPopped ∨ AtKey order current (loserTree.leaves top).kv := by
  apply tournament.reaches_top (fun winner => (loserTree.leaves winner).IsPopped ∨
    AtKey order current (loserTree.leaves winner).kv) small (Or.inl popped) _ wins
  intro winner loser winnerSmall beats loserHeld
  have loserAtKey : ¬(loserTree.leaves loser).IsPopped →
      AtKey order current (loserTree.leaves loser).kv := by
    intro unpopped
    rcases loserHeld with loserPopped | atKey
    · exact absurd loserPopped unpopped
    · exact atKey
  cases beats with
  | holeOverPopped hole state => exact Or.inl (hole winner rfl)
  | keyOverPopped unpopped atKey state => exact Or.inr atKey
  | sameKey unpopped winnerKv loserKv state same earlier =>
    right
    have atKey := loserAtKey (new_state_not_popped (Or.inr (Or.inr (Or.inr state))))
    apply atKey.not_behind (ahead winner winnerSmall unpopped)
    intro record isLoser
    rw [loserKv, Option.some.injEq] at isLoser
    refine ⟨_, winnerKv, ?_⟩
    rw [← isLoser, same]
    rfl
  | holeOverNew hole state above => exact Or.inl (hole winner rfl)
  | newKey unpopped state smaller =>
    right
    have atKey := loserAtKey (new_state_not_popped (Or.inr (Or.inl state)))
    apply atKey.not_behind (ahead winner winnerSmall unpopped)
    intro record isLoser
    rcases smaller record isLoser with ⟨below, isBelow, lower⟩
    refine ⟨below, isBelow, ?_⟩
    rw [lower]
    rfl

open Classical in
noncomputable def opened (win : Nat → Option Nat) (climb node : Nat) : Option Nat :=
  if 1 ≤ node ∧ Ancestor node (climb / 2) then none else win node

theorem opened_on_path {climb node : Nat} (pos : 1 ≤ node)
    (ancestor : Ancestor node (climb / 2)) : opened win climb node = none :=
  if_pos ⟨pos, ancestor⟩

theorem opened_elsewhere {climb node : Nat} (notAncestor : ¬Ancestor node (climb / 2)) :
    opened win climb node = win node :=
  if_neg (fun both => notAncestor both.2)

theorem opened_at_climb {climb : Nat} (pos : 1 ≤ climb) : opened win climb climb = win climb := by
  apply opened_elsewhere
  intro ancestor
  have smaller := ancestor.lt_of_parent (by omega)
  omega

section
variable {top climb : Nat} {leaf : LeafIterator}

theorem set_leaf_other {other : Nat} (ne : other ≠ top) :
    (loserTree.setLeaf top leaf).leaves other = loserTree.leaves other := by
  rw [leaves_set_leaf, Function.update_of_ne ne]

variable (tournament : Tournament order loserTree current 0 win 1) (wins : win 1 = some top)
include tournament wins

theorem Tournament.stored_ne_top {node other : Nat} (pos : 1 ≤ node) (small : node < loserTree.size)
    (atNode : loserTree.tree node = some other) : other ≠ top := by
  rintro rfl
  exact tournament.free other wins node pos small atNode

variable (small : top < loserTree.size) (onPath : Ancestor climb (loserTree.size + top))
include small onPath

theorem Tournament.opened_other {node other : Nat} (pos : 1 ≤ node) (ne : other ≠ top) :
    opened win climb node = some other ↔ win node = some other := by
  by_cases ancestor : Ancestor node (climb / 2)
  · have byTop : win node = some top :=
      tournament.win_on_path wins pos (ancestor.of_parent.trans onPath) small
    rw [opened_on_path pos ancestor, byTop]
    simp [Ne.symm ne]
  · rw [opened_elsewhere ancestor]

omit small in
theorem Tournament.reopen_beats (beaten : ∀ node loser, 1 ≤ node → node < loserTree.size →
      climb ≤ node → win node = some top → loserTree.tree node = some loser →
      Beats order (loserTree.setLeaf top leaf) current (some top) (some loser))
    {node : Nat} (pos : 1 ≤ node) (nodeSmall : node < loserTree.size)
    (played : ¬Ancestor node (climb / 2)) :
    Beats order (loserTree.setLeaf top leaf) current (win node) (loserTree.tree node) := by
  by_cases byTop : win node = some top
  · cases atNode : loserTree.tree node with
    | none => exact absurd atNode (tournament.all_set node pos nodeSmall)
    | some loser =>
      rw [byTop]
      apply beaten node loser pos nodeSmall _ byTop atNode
      -- a node of the path that is not open lies at `climb` or below
      by_contra lower
      have ancestor := (tournament.ancestor_of_win pos (by omega) byTop).2.2.of_le onPath (by omega)
      exact played (ancestor.to_parent (by omega))
  · apply (tournament.closed_beats pos nodeSmall).congr
    · intro other either
      rw [set_leaf_other]
      · exact SameRecords.refl _
      · rintro rfl
        rcases either with isWinner | isLoser
        · exact byTop isWinner
        · exact tournament.stored_ne_top wins pos nodeSmall isLoser rfl
    · intro other isLoser
      rw [set_leaf_other (tournament.stored_ne_top wins pos nodeSmall isLoser)]

theorem Tournament.reopen_first_same {other : Nat} (ne : other ≠ top)
    (first : loserTree.FirstSame win other) :
    (loserTree.setLeaf top leaf).FirstSame (opened win climb) other := by
  apply first.congr (size_set_leaf loserTree top leaf) (by rw [set_leaf_other ne])
  intro node pos nodeSmall
  have sameAt : (loserTree.setLeaf top leaf).SameAt node ↔ loserTree.SameAt node :=
    SameAt.congr rfl (fun _ atNode =>
      set_leaf_other (tournament.stored_ne_top wins pos nodeSmall atNode))
  rw [tournament.opened_other wins small onPath pos ne, sameAt]

end

/-- The winner's leaf changes, and its path is open from the node `climb` on. -/
theorem Tournament.reopen (tournament : Tournament order loserTree current 0 win 1)
    {top climb : Nat} {leaf : LeafIterator} (small : top < loserTree.size)
    (wins : win 1 = some top) (positiveClimb : 1 ≤ climb)
    (onPath : Ancestor climb (loserTree.size + top))
    (beaten : ∀ node loser, 1 ≤ node → node < loserTree.size → climb ≤ node →
      win node = some top → loserTree.tree node = some loser →
      Beats order (loserTree.setLeaf top leaf) current (some top) (some loser))
    (first : ¬leaf.IsPopped → (loserTree.setLeaf top leaf).FirstSame (opened win climb) top) :
    Tournament order (loserTree.setLeaf top leaf) current 0 (opened win climb) climb := by
  have bounded := onPath.le
  constructor
  case leaf =>
    intro index indexSmall
    have notAncestor : ¬Ancestor (loserTree.size + index) (climb / 2) := by
      intro ancestor
      have upper := ancestor.le
      omega
    rw [size_set_leaf, opened_elsewhere notAncestor]
    exact tournament.leaf index indexSmall
  case children =>
    intro node pos nodeSmall played
    have kept : ∀ child, child / 2 = node → opened win climb child = win child := by
      intro child half
      apply opened_elsewhere
      intro ancestor
      exact played (half ▸ ancestor.parent)
    rw [kept (2 * node) (by omega), kept (2 * node + 1) (by omega), opened_elsewhere played]
    exact tournament.closed_children pos nodeSmall
  case beats =>
    intro node pos nodeSmall played
    rw [opened_elsewhere played, tree_set_leaf]
    exact tournament.reopen_beats wins onPath beaten pos nodeSmall played
  case pending =>
    intro node pos ancestor
    exact opened_on_path pos ancestor
  case siblings =>
    intro node inner ancestor
    have notSibling := not_ancestor_sibling inner ancestor
    rw [opened_elsewhere (fun other => notSibling other.of_parent)]
    exact tournament.sibling_of_path wins inner (ancestor.trans onPath) small
  case distinct => exact tournament.distinct
  case free =>
    intro other atClimb
    rw [opened_at_climb positiveClimb,
      tournament.win_on_path wins positiveClimb onPath small] at atClimb
    exact tournament.free other (wins.trans atClimb)
  case firstSame =>
    intro other otherSmall inserted unpopped
    by_cases isTop : other = top
    · subst isTop
      rw [leaves_set_leaf, Function.update_self] at unpopped
      exact first unpopped
    · rw [set_leaf_other isTop] at unpopped
      exact tournament.reopen_first_same wins small onPath isTop
        (tournament.firstSame other otherSmall inserted unpopped)

end LoserTree

end PaimonCore.MergeTree
