import PaimonCore.MergeTree.SortMergeReader

/-!
# `LoserTree`

The leaves are the readers to merge. Node `0` holds the overall winner, the nodes `1` to `size -
1` the loser of the match between the two subtrees below, where leaf `i` stands below node `(i +
size) / 2`. A popped leaf keeps its place until all records of its key are popped, and the states
of the leaves tell the matches still to be played. An unset index (`-1`) is `none`. A failed
assertion, the use of an unset index and a loop that does not end are faults of the model.
-/

namespace PaimonCore.MergeTree

inductive LeafState where
  | loserWithNewKey
  | loserWithSameKey
  | loserPopped
  | winnerWithNewKey
  | winnerWithSameKey
  | winnerPopped
  deriving DecidableEq, Repr

def LeafState.isWinner : LeafState → Bool
  | .loserWithNewKey | .loserWithSameKey | .loserPopped => false
  | .winnerWithNewKey | .winnerWithSameKey | .winnerPopped => true

/-- A reader is the list of its batches to come, the iterator of a batch the list of its records. -/
structure LeafIterator where
  endOfInput : Bool := false
  firstSameKeyIndex : Option Nat := none
  state : LeafState := .winnerWithNewKey
  reader : List (List KeyValue)
  iterator : Option (List KeyValue) := none
  kv : Option KeyValue := none
  deriving DecidableEq, Repr

namespace LeafIterator

def setFirstSameKeyIndex (leaf : LeafIterator) (index : Nat) : LeafIterator :=
  if leaf.firstSameKeyIndex.isNone then { leaf with firstSameKeyIndex := some index } else leaf

def withState (leaf : LeafIterator) (state : LeafState) : LeafIterator :=
  { leaf with state }

/-- The loop over `NextBatch`, which passes over empty batches. -/
def readBatches (leaf : LeafIterator) : List (List KeyValue) → LeafIterator
  | [] => { leaf with reader := [], iterator := none, endOfInput := true, kv := none }
  | [] :: later => readBatches leaf later
  | (first :: more) :: later =>
    { leaf with reader := later, iterator := some more, kv := some first }

def advanceIfAvailable (leaf : LeafIterator) : LeafIterator :=
  let fresh := { leaf with firstSameKeyIndex := none, state := .winnerWithNewKey }
  match leaf.iterator with
  | some (first :: more) => { fresh with iterator := some more, kv := some first }
  | _ => if leaf.endOfInput then fresh else readBatches fresh leaf.reader

end LeafIterator

structure LoserTree where
  size : Nat
  initialized : Bool := false
  tree : Nat → Option Nat
  leaves : Nat → LeafIterator

namespace LoserTree

def setTree (loserTree : LoserTree) (index : Nat) (leaf : Option Nat) : LoserTree :=
  { loserTree with tree := Function.update loserTree.tree index leaf }

def setLeaf (loserTree : LoserTree) (index : Nat) (leaf : LeafIterator) : LoserTree :=
  { loserTree with leaves := Function.update loserTree.leaves index leaf }

section
variable (loserTree : LoserTree)
include loserTree
variable (index : Nat)
include index

@[simp] theorem size_set_tree (leaf : Option Nat) :
    (loserTree.setTree index leaf).size = loserTree.size := rfl

@[simp] theorem leaves_set_tree (leaf : Option Nat) :
    (loserTree.setTree index leaf).leaves = loserTree.leaves := rfl

@[simp] theorem tree_set_tree (leaf : Option Nat) :
    (loserTree.setTree index leaf).tree = Function.update loserTree.tree index leaf := rfl

@[simp] theorem size_set_leaf (leaf : LeafIterator) :
    (loserTree.setLeaf index leaf).size = loserTree.size := rfl

@[simp] theorem tree_set_leaf (leaf : LeafIterator) :
    (loserTree.setLeaf index leaf).tree = loserTree.tree := rfl

@[simp] theorem leaves_set_leaf (leaf : LeafIterator) :
    (loserTree.setLeaf index leaf).leaves = Function.update loserTree.leaves index leaf := rfl

end

variable (order : RecordOrder)

/-- `first_comparator`, with `.gt` for a positive verdict: the left side wins. -/
def firstComparator (lhs rhs : Option KeyValue) : Ordering :=
  match lhs, rhs with
  | none, _ => .lt
  | some _, none => .gt
  | some left, some right => order.compareKey right left

def secondComparator (lhs rhs : Option KeyValue) : Ordering :=
  match lhs, rhs with
  | none, _ => .lt
  | some _, none => .gt
  | some left, some right =>
    match order.compareUserSequence right left with
    | .eq => if right.sequenceNumber < left.sequenceNumber then .lt else .gt
    | verdict => verdict

/-- `AdjustWithSameWinnerKey`: the nodes of the parent and of the winner afterwards. -/
def adjustWithSameWinnerKey (index : Nat) (parentNode winnerNode : LeafIterator) :
    Except Fault (LeafIterator × LeafIterator) :=
  match parentNode.state with
  | .loserWithSameKey =>
    if secondComparator order parentNode.kv winnerNode.kv = .gt then
      .ok ((parentNode.withState .winnerWithSameKey).setFirstSameKeyIndex index,
        winnerNode.withState .loserWithSameKey)
    else .ok (parentNode, winnerNode.setFirstSameKeyIndex index)
  | .loserWithNewKey | .loserPopped => .ok (parentNode, winnerNode)
  | _ => .error .assertion

def adjustWithNewWinnerKey (index : Nat) (parentNode winnerNode : LeafIterator) :
    Except Fault (LeafIterator × LeafIterator) :=
  match parentNode.state with
  | .loserWithNewKey =>
    match firstComparator order parentNode.kv winnerNode.kv with
    | .eq =>
      if secondComparator order parentNode.kv winnerNode.kv = .lt then
        .ok (parentNode.withState .loserWithSameKey, winnerNode.setFirstSameKeyIndex index)
      else
        .ok ((parentNode.withState .winnerWithNewKey).setFirstSameKeyIndex index,
          winnerNode.withState .loserWithSameKey)
    | .gt =>
      .ok (parentNode.withState .winnerWithNewKey, winnerNode.withState .loserWithNewKey)
    | .lt => .ok (parentNode, winnerNode)
  | .loserPopped =>
    .ok ({ parentNode with state := .winnerPopped, firstSameKeyIndex := none },
      winnerNode.withState .loserWithNewKey)
  | _ => .error .assertion

/-- Write both nodes back, exchanged when the winner has lost: the tree, the parent index and the
winner. -/
def exchange (loserTree : LoserTree) (parent parentLeaf winner : Nat)
    (parentNode winnerNode : LeafIterator) : LoserTree × Nat × Nat :=
  let updated := (loserTree.setLeaf parentLeaf parentNode).setLeaf winner winnerNode
  if winnerNode.state.isWinner then (updated, parent, winner)
  else (updated.setTree parent (some winner), parent, parentLeaf)

/-- One round of the loop of `Adjust` at a node whose loser is set. -/
def playMatch (loserTree : LoserTree) (parent parentLeaf winner : Nat) :
    Except Fault (LoserTree × Nat × Nat) :=
  let parentNode := loserTree.leaves parentLeaf
  let winnerNode := loserTree.leaves winner
  match winnerNode.state with
  | .winnerWithNewKey =>
    match adjustWithNewWinnerKey order parent parentNode winnerNode with
    | .error fault => .error fault
    | .ok (parentNode, winnerNode) =>
      .ok (loserTree.exchange parent parentLeaf winner parentNode winnerNode)
  | .winnerWithSameKey =>
    match adjustWithSameWinnerKey order parent parentNode winnerNode with
    | .error fault => .error fault
    | .ok (parentNode, winnerNode) =>
      .ok (loserTree.exchange parent parentLeaf winner parentNode winnerNode)
  | .winnerPopped =>
    match winnerNode.firstSameKeyIndex with
    -- the parent index becomes -1, which ends the loop
    | none => .ok (loserTree, 0, winner)
    | some index =>
      match loserTree.tree index with
      | none => .error .unsetIndex
      | some sameLeaf =>
        .ok (loserTree.exchange index sameLeaf winner
          ((loserTree.leaves sameLeaf).withState .winnerWithSameKey)
          (winnerNode.withState .loserPopped))
  | _ => .error .assertion

def adjustLoop : Nat → LoserTree → Nat → Nat → Except Fault LoserTree
  | fuel, loserTree, parent, winner =>
    if parent = 0 then .ok (loserTree.setTree 0 (some winner))
    else
      match fuel with
      | 0 => .error .endless
      | fuel + 1 =>
        match loserTree.tree parent with
        | none =>
          -- initialize the tree: the winner becomes -1, which ends the loop
          let stored :=
            loserTree.setLeaf winner ((loserTree.leaves winner).withState .loserWithNewKey)
          .ok ((stored.setTree parent (some winner)).setTree 0 none)
        | some parentLeaf =>
          match playMatch order loserTree parent parentLeaf winner with
          | .error fault => .error fault
          | .ok (played, next, nextWinner) => adjustLoop fuel played (next / 2) nextWinner

/-- `LoserTree::Adjust`. The parent index is halved in each round, except for one jump. -/
def adjust (loserTree : LoserTree) (winner : Nat) : Except Fault LoserTree :=
  adjustLoop order (2 * loserTree.size + 1) loserTree ((winner + loserTree.size) / 2) winner

def create (readers : List (List (List KeyValue))) : LoserTree where
  size := readers.length
  tree := fun _ => none
  leaves := fun index => { reader := readers.getD index [] }

/-- The loop of `InitializeIfNeeded` over the leaves below `count`, from the last down. -/
def initializeLeaves : Nat → LoserTree → Except Fault LoserTree
  | 0, loserTree => .ok loserTree
  | index + 1, loserTree =>
    let advanced := loserTree.setLeaf index (loserTree.leaves index).advanceIfAvailable
    match advanced.adjust order index with
    | .error fault => .error fault
    | .ok adjusted => initializeLeaves index adjusted

def initializeIfNeeded (loserTree : LoserTree) : Except Fault LoserTree :=
  if loserTree.initialized then .ok loserTree
  else
    match initializeLeaves order loserTree.size { loserTree with tree := fun _ => none } with
    | .error fault => .error fault
    | .ok filled => .ok { filled with initialized := true }

def adjustForNextLoopFrom : Nat → LoserTree → Except Fault LoserTree
  | fuel, loserTree =>
    match loserTree.tree 0 with
    | none => .error .unsetIndex
    | some winner =>
      if (loserTree.leaves winner).state = .winnerPopped then
        match fuel with
        | 0 => .error .endless
        | fuel + 1 =>
          let advanced := loserTree.setLeaf winner (loserTree.leaves winner).advanceIfAvailable
          match advanced.adjust order winner with
          | .error fault => .error fault
          | .ok adjusted => adjustForNextLoopFrom fuel adjusted
      else .ok loserTree

/-- `AdjustForNextLoop`: each round advances one popped leaf. -/
def adjustForNextLoop (loserTree : LoserTree) : Except Fault LoserTree :=
  adjustForNextLoopFrom order loserTree.size loserTree

def popWinner (loserTree : LoserTree) : Except Fault (Option KeyValue × LoserTree) :=
  match loserTree.tree 0 with
  | none => .error .unsetIndex
  | some winner =>
    let leaf := loserTree.leaves winner
    if leaf.state = .winnerPopped then .ok (none, loserTree)
    else
      match (loserTree.setLeaf winner (leaf.withState .winnerPopped)).adjust order winner with
      | .error fault => .error fault
      | .ok adjusted => .ok (leaf.kv, adjusted)

def peekWinner (loserTree : LoserTree) : Option KeyValue :=
  match loserTree.tree 0 with
  | none => none
  | some winner =>
    if (loserTree.leaves winner).state = .winnerPopped then none
    else (loserTree.leaves winner).kv

end LoserTree

end PaimonCore.MergeTree
