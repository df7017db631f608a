import PaimonCore.MergeTree.LoserTreeRounds
import PaimonCore.MergeTree.SortMergeReaderWithMinHeap

/-!
# `SortMergeReaderWithLoserTree`

The reader pops the records of one key from the loser tree and adds them to the merge
function. It meets the contract of a `SortMergeReader` over sorted inputs without ties.
-/

namespace PaimonCore.MergeTree

open Std SortedGroups List

structure SortMergeReaderWithLoserTree where
  loserTree : LoserTree
  log : MergeLog := {}

namespace SortMergeReaderWithLoserTree

variable (order : RecordOrder) (mergeFunction : MergeFunctionWrapper)

def create (readers : List (List (List KeyValue))) : SortMergeReaderWithLoserTree where
  loserTree := LoserTree.create readers

def nextBatch (reader : SortMergeReaderWithLoserTree) :
    Except Fault (Bool × SortMergeReaderWithLoserTree) :=
  match reader.loserTree.initializeIfNeeded order with
  | .error fault => .error fault
  | .ok loserTree => .ok (loserTree.peekWinner.isSome, { reader with loserTree })

/-- The loop of `Merge`. -/
def addWinners : Nat → LoserTree → List MergeCall → Except Fault (LoserTree × List MergeCall)
  | fuel, loserTree, calls =>
    if loserTree.peekWinner.isNone then .ok (loserTree, calls)
    else
      match fuel with
      | 0 => .error .endless
      | fuel + 1 =>
        match loserTree.popWinner order with
        | .error fault => .error fault
        | .ok (none, _) => .error .unsetIndex
        | .ok (some kv, popped) => addWinners fuel popped (calls ++ [.add kv])

/-- `Merge`: each round of its loop pops one leaf. -/
def merge (loserTree : LoserTree) (calls : List MergeCall) :
    Except Fault SortMergeReaderWithLoserTree :=
  match addWinners order loserTree.size loserTree calls with
  | .error fault => .error fault
  | .ok (loserTree, calls) =>
    let calls := calls ++ [.getResult]
    .ok { loserTree, log := { calls, result := mergeFunction calls } }

/-- One turn of the loop of `HasNext`. -/
def nextGroup (reader : SortMergeReaderWithLoserTree) :
    Except Fault (Bool × SortMergeReaderWithLoserTree) :=
  match reader.loserTree.adjustForNextLoop order with
  | .error fault => .error fault
  | .ok loserTree =>
    match loserTree.popWinner order with
    | .error fault => .error fault
    | .ok (none, loserTree) => .ok (false, { reader with loserTree })
    | .ok (some winner, loserTree) =>
      match merge order mergeFunction loserTree (reader.log.calls ++ [.reset] ++ [.add winner]) with
      | .error fault => .error fault
      | .ok reader => .ok (true, reader)

def sortMergeReader : SortMergeReader SortMergeReaderWithLoserTree where
  nextBatch := nextBatch order
  nextGroup := nextGroup order mergeFunction
  log := log

end SortMergeReaderWithLoserTree

namespace LoserTree

variable {order : RecordOrder} {loserTree after : LoserTree} {current : Option KeyValue}
  {top : Nat}

/-- A record of the current key or a hole is on top, and popped leaves go on above the key. -/
structure InGroup (order : RecordOrder) (loserTree : LoserTree) (current : Option KeyValue)
    (top : Nat) : Prop where
  standing : Standing order loserTree current top
  streams : Streams order loserTree
  positive : 1 ≤ loserTree.size
  held : (loserTree.leaves top).IsPopped ∨ AtKey order current (loserTree.leaves top).kv
  beyond : ∀ leaf < loserTree.size, (loserTree.leaves leaf).IsPopped →
    ∀ record ∈ (loserTree.leaves leaf).upcoming, Above order current (some record)

theorem InGroup.rested (inGroup : InGroup order loserTree current top)
    (popped : (loserTree.leaves top).IsPopped) : Rested order loserTree current top where
  standing := inGroup.standing
  streams := inGroup.streams
  positive := inGroup.positive
  later := by
    intro leaf small record isRecord
    by_cases leafPopped : (loserTree.leaves leaf).IsPopped
    · rw [LeafIterator.pending_of_popped leafPopped] at isRecord
      exact inGroup.beyond leaf small leafPopped record isRecord
    · rcases inGroup.standing.closed with ⟨win, tournament, wins⟩
      have above := (tournament.top_dominates small leafPopped wins).1 popped
      have inOrder := inGroup.streams.inOrder leaf small
      have sorted := inOrder.sorted
      rw [LeafIterator.pending_of_unpopped leafPopped] at isRecord sorted
      cases isKv : (loserTree.leaves leaf).kv with
      | none =>
        rw [isKv, inOrder.filled leafPopped isKv] at isRecord
        cases isRecord
      | some first =>
        rw [isKv] at isRecord sorted above
        rcases mem_cons.mp isRecord with isFirst | later
        · rw [isFirst]
          exact above
        · intro bound isCurrent other isOther
          rw [Option.some.injEq] at isOther
          subst isOther
          exact TransCmp.lt_trans (above bound isCurrent first rfl)
            (rel_of_pairwise_cons sorted later)

section
variable (unpopped : ¬(loserTree.leaves top).IsPopped)
include unpopped

theorem InGroup.pop (inGroup : InGroup order loserTree current top) :
    ∃ record final next, (loserTree.leaves top).kv = some record ∧
      loserTree.popWinner order = .ok (some record, final) ∧
      TakenFrom loserTree final top ∧ InGroup order final current next ∧
      loserTree.remaining.Perm (record :: final.remaining) := by
  have small := inGroup.standing.top_small inGroup.positive
  have atKey : AtKey order current (loserTree.leaves top).kv := by
    rcases inGroup.held with popped | atKey
    · exact absurd popped unpopped
    · exact atKey
  have inOrder := inGroup.streams.inOrder top small
  rcases inGroup.standing.pop_winner inGroup.positive unpopped (fun _ _ => atKey) with
    ⟨final, next, result, taken, standing, held⟩
  rcases atKey with ⟨bound, record, isCurrent, isRecord, same⟩
  rw [isRecord] at result
  have pendingTop : (loserTree.leaves top).pending = record :: (final.leaves top).pending := by
    rw [taken.taken.pending, LeafIterator.pending_of_unpopped unpopped, isRecord]
    rfl
  have upcomingTop : (final.leaves top).upcoming = (loserTree.leaves top).upcoming :=
    taken.taken.upcoming
  refine ⟨record, final, next, isRecord, result, taken, ?_, ?_⟩
  · constructor
    case standing => exact standing
    case held => exact held
    case positive =>
      rw [taken.size]
      exact inGroup.positive
    case streams =>
      apply inGroup.streams.of_fewer taken.size
      · intro leaf leafSmall
        by_cases isTop : leaf = top
        · rw [isTop]
          exact taken.taken.in_order (in_order_of_taken inOrder unpopped)
        · exact (taken.others leaf isTop).in_order (inGroup.streams.inOrder leaf leafSmall)
      · intro leaf _
        by_cases isTop : leaf = top
        · rw [isTop, pendingTop]
          exact subset_cons_self _ _
        · rw [(taken.others leaf isTop).pending]
          exact Subset.refl _
    case beyond =>
      intro leaf leafSmall popped other isOther
      rw [taken.size] at leafSmall
      by_cases isTop : leaf = top
      · rw [isTop, upcomingTop] at isOther
        have sorted := inOrder.sorted
        rw [LeafIterator.pending_of_unpopped unpopped, isRecord] at sorted
        intro bound' isCurrent' third isThird
        rw [isCurrent, Option.some.injEq] at isCurrent'
        rw [Option.some.injEq] at isThird
        subst isCurrent' isThird
        exact TransCmp.lt_of_eq_of_lt same (rel_of_pairwise_cons sorted isOther)
      · rw [(taken.others leaf isTop).upcoming] at isOther
        exact inGroup.beyond leaf leafSmall ((taken.others leaf isTop).popped.mp popped) other
          isOther
  · unfold remaining
    rw [taken.size]
    apply flat_map_taken nodup_range (mem_range.mpr small) pendingTop
    intro other different
    exact (taken.others other different).pending.symm

theorem TakenFrom.more_popped (taken : TakenFrom loserTree after top)
    (small : top < loserTree.size) :
    loserTree.poppedLeaves.card < after.poppedLeaves.card := by
  have nowPopped : top ∈ after.poppedLeaves := by
    apply mem_popped_leaves.mpr
    rw [taken.size]
    exact ⟨small, taken.taken.popped.mpr (Or.inl rfl)⟩
  apply Finset.card_lt_card
  apply (Finset.ssubset_iff_of_subset _).mpr
  · exact ⟨top, nowPopped, fun mem => unpopped (mem_popped_leaves.mp mem).2⟩
  · intro leaf mem
    rcases mem_popped_leaves.mp mem with ⟨leafSmall, leafPopped⟩
    by_cases isTop : leaf = top
    · rw [isTop]
      exact nowPopped
    · apply mem_popped_leaves.mpr
      rw [taken.size]
      exact ⟨leafSmall, (taken.others leaf isTop).popped.mpr leafPopped⟩

theorem InGroup.top_earlier (inGroup : InGroup order loserTree current top)
    {record other : KeyValue} {leaf : Nat}
    (isRecord : (loserTree.leaves top).kv = some record) (ne : leaf ≠ top)
    (small : leaf < loserTree.size) (leafUnpopped : ¬(loserTree.leaves leaf).IsPopped)
    (isOther : (loserTree.leaves leaf).kv = some other)
    (same : order.compareKey record other = .eq) : order.compareSequence record other = .lt := by
  rcases inGroup.standing.closed with ⟨win, tournament, wins⟩
  have atMost := (tournament.top_dominates small leafUnpopped wins).2 unpopped
  rw [isRecord, isOther] at atMost
  rcases atMost other rfl with ⟨smaller, isSmaller, lower⟩
  rw [Option.some.injEq] at isSmaller
  subst isSmaller
  have apart := inGroup.standing.noTies top leaf record other (Ne.symm ne)
    (inGroup.standing.top_small inGroup.positive) small unpopped leafUnpopped isRecord isOther same
  unfold compareLex at lower
  rw [same] at lower
  cases verdict : order.compareSequence record other with
  | lt => rfl
  | eq => exact absurd verdict apart
  | gt =>
    rw [verdict] at lower
    cases lower

theorem popped_leaves_card_lt (small : top < loserTree.size) :
    loserTree.poppedLeaves.card < loserTree.size := by
  calc loserTree.poppedLeaves.card < (Finset.range loserTree.size).card := by
        apply Finset.card_lt_card
        apply (Finset.ssubset_iff_of_subset (Finset.filter_subset _ _)).mpr
        exact ⟨top, Finset.mem_range.mpr small, fun mem => unpopped (mem_popped_leaves.mp mem).2⟩
    _ = loserTree.size := Finset.card_range _

end

structure GroupFrom (order : RecordOrder) (loserTree final : LoserTree)
    (current : Option KeyValue) (group : List KeyValue) : Prop where
  size : final.size = loserTree.size
  split : loserTree.remaining.Perm (group ++ final.remaining)
  atKey : ∀ record ∈ group, AtKey order current (some record)
  fromLeaf : ∀ record ∈ group, ∃ leaf < loserTree.size, ¬(loserTree.leaves leaf).IsPopped ∧
    (loserTree.leaves leaf).kv = some record
  ordered : group.Pairwise (fun left right =>
    order.compareKey left right = .eq ∧ order.compareSequence left right = .lt)

theorem at_key_same {first second : KeyValue} (firstAt : AtKey order current (some first))
    (secondAt : AtKey order current (some second)) : order.compareKey first second = .eq := by
  rcases firstAt with ⟨bound, record, isCurrent, isFirst, same⟩
  rcases secondAt with ⟨bound', record', isCurrent', isSecond, same'⟩
  rw [isCurrent, Option.some.injEq] at isCurrent'
  rw [Option.some.injEq] at isFirst isSecond
  subst isCurrent' isFirst isSecond
  exact TransCmp.eq_trans (OrientedCmp.eq_symm same) same'

theorem GroupFrom.cons {middle final : LoserTree} {group : List KeyValue} {record : KeyValue}
    (inGroup : InGroup order loserTree current top) (unpopped : ¬(loserTree.leaves top).IsPopped)
    (isRecord : (loserTree.leaves top).kv = some record) (taken : TakenFrom loserTree middle top)
    (split : loserTree.remaining.Perm (record :: middle.remaining))
    (rest : GroupFrom order middle final current group) :
    GroupFrom order loserTree final current (record :: group) := by
  have small := inGroup.standing.top_small inGroup.positive
  have recordAt : AtKey order current (some record) := by
    rcases inGroup.held with popped | atKey
    · exact absurd popped unpopped
    · rw [← isRecord]
      exact atKey
  have fromLater : ∀ other ∈ group, ∃ leaf < loserTree.size, leaf ≠ top ∧
      ¬(loserTree.leaves leaf).IsPopped ∧ (loserTree.leaves leaf).kv = some other := by
    intro other isOther
    rcases rest.fromLeaf other isOther with ⟨leaf, leafSmall, leafUnpopped, leafKv⟩
    have ne : leaf ≠ top := by
      rintro rfl
      exact leafUnpopped (taken.taken.popped.mpr (Or.inl rfl))
    have same := taken.others leaf ne
    rw [taken.size] at leafSmall
    rw [same.kv] at leafKv
    exact ⟨leaf, leafSmall, ne, fun popped => leafUnpopped (same.popped.mpr popped), leafKv⟩
  constructor
  case size => exact rest.size.trans taken.size
  case split => exact split.trans (rest.split.cons record)
  case atKey =>
    exact forall_mem_cons.mpr ⟨recordAt, rest.atKey⟩
  case fromLeaf =>
    refine forall_mem_cons.mpr ⟨⟨top, small, unpopped, isRecord⟩, ?_⟩
    intro other later
    rcases fromLater other later with ⟨leaf, leafSmall, _, leafUnpopped, leafKv⟩
    exact ⟨leaf, leafSmall, leafUnpopped, leafKv⟩
  case ordered =>
    apply pairwise_cons.mpr
    refine ⟨?_, rest.ordered⟩
    intro other isOther
    have same := at_key_same recordAt (rest.atKey other isOther)
    rcases fromLater other isOther with ⟨leaf, leafSmall, ne, leafUnpopped, leafKv⟩
    exact ⟨same, inGroup.top_earlier unpopped isRecord ne leafSmall leafUnpopped leafKv same⟩

open SortMergeReaderWithLoserTree in
theorem InGroup.add_none (inGroup : InGroup order loserTree current top)
    (popped : (loserTree.leaves top).IsPopped) (fuel : Nat) (calls : List MergeCall) :
    ∃ group final next, addWinners order fuel loserTree calls =
      .ok (final, calls ++ group.map .add) ∧
      Rested order final current next ∧ GroupFrom order loserTree final current group := by
  refine ⟨[], loserTree, top, ?_, inGroup.rested popped, rfl,
    Perm.refl _, by simp, by simp, Pairwise.nil⟩
  cases fuel <;> rw [addWinners, inGroup.standing.peek_of_popped popped] <;> simp

open SortMergeReaderWithLoserTree in
/-- `Merge` adds the records of the key that are left, by sequence. -/
theorem InGroup.add_winners {fuel : Nat} (inGroup : InGroup order loserTree current top)
    (enough : loserTree.size ≤ fuel + loserTree.poppedLeaves.card) (calls : List MergeCall) :
    ∃ group final next, addWinners order fuel loserTree calls =
      .ok (final, calls ++ group.map .add) ∧
      Rested order final current next ∧ GroupFrom order loserTree final current group := by
  induction fuel generalizing loserTree top calls with
  | zero =>
    apply inGroup.add_none
    by_contra unpopped
    have fewer := popped_leaves_card_lt unpopped (inGroup.standing.top_small inGroup.positive)
    omega
  | succ fuel ih =>
    by_cases popped : (loserTree.leaves top).IsPopped
    · exact inGroup.add_none popped _ calls
    · rcases inGroup.pop popped with ⟨record, middle, next, isRecord, result, taken, later, split⟩
      have more := taken.more_popped popped (inGroup.standing.top_small inGroup.positive)
      have size := taken.size
      rcases ih later (by omega) (calls ++ [.add record]) with
        ⟨group, final, last, finalResult, rested, rest⟩
      refine ⟨record :: group, final, last, ?_, rested,
        GroupFrom.cons inGroup popped isRecord taken split rest⟩
      rw [addWinners, inGroup.standing.peek_of_unpopped popped, isRecord]
      simp only [Option.isNone_some, Bool.false_eq_true, if_false, result, finalResult]
      simp

theorem play_match_initialized {parent parentLeaf winner next nextWinner : Nat}
    (result : playMatch order loserTree parent parentLeaf winner = .ok (after, next, nextWinner)) :
    after.initialized = loserTree.initialized := by
  have exchanged : ∀ index leaf parentNode winnerNode,
      (loserTree.exchange index leaf winner parentNode winnerNode).1.initialized =
        loserTree.initialized := by
    intro index leaf parentNode winnerNode
    unfold exchange
    split <;> rfl
  unfold playMatch at result
  dsimp only at result
  split at result
  · split at result
    · cases result
    · rw [Except.ok.injEq] at result
      rw [← exchanged, result]
  · split at result
    · cases result
    · rw [Except.ok.injEq] at result
      rw [← exchanged, result]
  · split at result
    · cases result
      rfl
    · split at result
      · cases result
      · rw [Except.ok.injEq] at result
        rw [← exchanged, result]
  · cases result

theorem adjust_loop_initialized {fuel parent winner : Nat}
    (result : adjustLoop order fuel loserTree parent winner = .ok after) :
    after.initialized = loserTree.initialized := by
  induction fuel generalizing loserTree parent winner with
  | zero =>
    rw [adjustLoop] at result
    split at result
    · cases result
      rfl
    · cases result
  | succ fuel ih =>
    rw [adjustLoop] at result
    split at result
    · cases result
      rfl
    · split at result
      · cases result
        rfl
      · split at result
        · cases result
        · rename_i played
          exact (ih result).trans (play_match_initialized played)

theorem adjust_initialized {index winner : Nat} {leaf : LeafIterator}
    (result : (loserTree.setLeaf index leaf).adjust order winner = .ok after) :
    after.initialized = loserTree.initialized := by
  have kept := adjust_loop_initialized result
  exact kept

theorem pop_winner_initialized {kv : Option KeyValue}
    (result : loserTree.popWinner order = .ok (kv, after)) :
    after.initialized = loserTree.initialized := by
  unfold popWinner at result
  split at result
  · cases result
  · dsimp only at result
    split at result
    · cases result
      rfl
    · split at result
      · cases result
      · rename_i adjusted
        cases result
        exact adjust_initialized adjusted

theorem next_loop_initialized {fuel : Nat}
    (result : adjustForNextLoopFrom order fuel loserTree = .ok after) :
    after.initialized = loserTree.initialized := by
  induction fuel generalizing loserTree with
  | zero =>
    rw [adjustForNextLoopFrom] at result
    split at result
    · cases result
    · split at result
      · cases result
      · cases result
        rfl
  | succ fuel ih =>
    rw [adjustForNextLoopFrom] at result
    split at result
    · cases result
    · split at result
      · dsimp only at result
        split at result
        · cases result
        · rename_i adjusted
          exact (ih result).trans (adjust_initialized adjusted)
      · cases result
        rfl

open SortMergeReaderWithLoserTree in
theorem add_winners_initialized {fuel : Nat} {calls allCalls : List MergeCall}
    (result : addWinners order fuel loserTree calls = .ok (after, allCalls)) :
    after.initialized = loserTree.initialized := by
  induction fuel generalizing loserTree calls with
  | zero =>
    rw [addWinners] at result
    split at result
    · cases result
      rfl
    · cases result
  | succ fuel ih =>
    rw [addWinners] at result
    split at result
    · cases result
      rfl
    · split at result
      · cases result
      · cases result
      · rename_i popped
        exact (ih result).trans (pop_winner_initialized popped)

end LoserTree

namespace SortMergeReaderWithLoserTree

variable {order : RecordOrder} {mergeFunction : MergeFunctionWrapper}
  {readers : List (List (List KeyValue))}

def Idle (readers : List (List (List KeyValue)))
    (reader : SortMergeReaderWithLoserTree) (records : List KeyValue) : Prop :=
  (reader.loserTree = LoserTree.create readers ∧ records = readers.flatMap List.flatten) ∨
    (reader.loserTree.initialized = true ∧ reader.loserTree.peekWinner = none ∧ records = [])

def Ready (order : RecordOrder) (reader : SortMergeReaderWithLoserTree) (records : List KeyValue)
    (fresh : Bool) : Prop :=
  reader.loserTree.initialized = true ∧ records.Perm reader.loserTree.remaining ∧
    (fresh = true → records ≠ []) ∧
    ∃ current top, LoserTree.Rested order reader.loserTree current top

variable {reader : SortMergeReaderWithLoserTree}

section
variable (mergeFunction : MergeFunctionWrapper) {loserTree : LoserTree} {current : Option KeyValue}
  {top : Nat} (adjusted : reader.loserTree.adjustForNextLoop order = .ok loserTree)
  (rested : LoserTree.Rested order loserTree current top)
  (unpopped : ¬(loserTree.leaves top).IsPopped)
include adjusted rested unpopped

theorem next_group_none (noKv : (loserTree.leaves top).kv = none) :
    ∃ final, reader.nextGroup order mergeFunction =
      .ok (false, { reader with loserTree := final }) ∧
      final.peekWinner = none ∧ final.initialized = loserTree.initialized := by
  have standing := rested.rebase unpopped
  rw [noKv] at standing
  have within : LoserTree.Within order none (loserTree.leaves top).kv := by
    intro record isRecord
    rw [noKv] at isRecord
    cases isRecord
  rcases standing.pop_winner rested.positive unpopped within with
    ⟨final, next, result, _, after, held⟩
  rw [noKv] at result
  have popped : (final.leaves next).IsPopped := by
    rcases held with popped | ⟨bound, _, no, _⟩
    · exact popped
    · cases no
  refine ⟨final, ?_, after.peek_of_popped popped, LoserTree.pop_winner_initialized result⟩
  rw [nextGroup, adjusted]
  simp only [result]

theorem next_group_some {record : KeyValue} (isKv : (loserTree.leaves top).kv = some record) :
    ∃ group final next bound, IsGroup order loserTree.remaining group final.remaining ∧
      LoserTree.Rested order final bound next ∧ final.initialized = loserTree.initialized ∧
      reader.nextGroup order mergeFunction = .ok (true, { loserTree := final, log := {
        calls := reader.log.calls ++ callsOf group,
        result := mergeFunction (reader.log.calls ++ callsOf group) } }) := by
  have standing := rested.rebase unpopped
  rw [isKv] at standing
  have inGroup : LoserTree.InGroup order loserTree (some record) top := by
    refine ⟨standing, rested.streams, rested.positive, ?_, ?_⟩
    · exact Or.inr ⟨record, record, rfl, isKv, ReflCmp.compare_self⟩
    · intro leaf small popped
      exact absurd popped (rested.none_popped unpopped leaf small)
  rcases inGroup.pop unpopped with ⟨first, middle, next, isFirst, result, taken, later, split⟩
  rw [isKv, Option.some.injEq] at isFirst
  subst isFirst
  rcases later.add_winners (show middle.size ≤ middle.size + middle.poppedLeaves.card by omega)
    (reader.log.calls ++ [.reset] ++ [.add record]) with
    ⟨group, final, last, added, restedLast, rest⟩
  have whole := LoserTree.GroupFrom.cons inGroup unpopped isKv taken split rest
  refine ⟨record :: group, final, last, some record, ?_, restedLast, ?_, ?_⟩
  · refine ⟨whole.split, cons_ne_nil _ _, whole.ordered, ?_⟩
    intro left isLeft right isRight
    rcases mem_flatMap.mp isRight with ⟨leaf, isLeaf, inPending⟩
    have above := restedLast.later leaf (mem_range.mp isLeaf) right inPending
    rcases whole.atKey left isLeft with ⟨bound, same, isBound, isSame, equal⟩
    rw [Option.some.injEq] at isSame
    subst isSame
    exact TransCmp.lt_of_eq_of_lt (OrientedCmp.eq_symm equal) (above bound isBound right rfl)
  · exact (LoserTree.add_winners_initialized added).trans (LoserTree.pop_winner_initialized result)
  · rw [nextGroup, adjusted]
    simp only [result, merge, added]
    simp [callsOf]

end

theorem contract (sorted : SortedReaders order readers) (apart : ApartReaders order readers)
    (nonempty : readers ≠ []) :
    (sortMergeReader order mergeFunction).Contract order mergeFunction (Idle readers)
    (Ready order) where
  batch := by
    intro reader records idle
    rcases idle with ⟨created, isRecords⟩ | ⟨initialized, exhausted, nothing⟩
    · rcases LoserTree.initialize_if_needed sorted apart nonempty with
        ⟨final, top, result, rested, unpopped, remaining, initialized⟩
      have batch : reader.nextBatch order =
          .ok ((final.leaves top).kv.isSome, { reader with loserTree := final }) := by
        rw [nextBatch, created, result]
        simp only [rested.standing.peek_of_unpopped unpopped]
      rw [← isRecords] at remaining
      cases isKv : (final.leaves top).kv with
      | none =>
        rw [isKv] at batch
        rw [rested.remaining_of_none unpopped isKv] at remaining
        exact Or.inl ⟨remaining.symm, _, batch, rfl⟩
      | some record =>
        rw [isKv] at batch
        have some := rested.remaining_of_some unpopped isKv
        refine Or.inr ⟨_, batch, ⟨initialized, ?_, ?_, none, top, rested⟩, rfl⟩
        · rw [remaining]
        · rw [remaining] at some
          exact fun _ => some
    · left
      refine ⟨nothing, reader, ?_, rfl⟩
      change reader.nextBatch order = .ok (false, reader)
      rw [nextBatch, LoserTree.initializeIfNeeded, if_pos initialized]
      simp only [exhausted, Option.isSome_none]
  group := by
    intro reader records fresh ready
    rcases ready with ⟨initialized, isRemaining, progress, current, top, rested⟩
    rcases rested.next_loop_from LoserTree.popped_leaves_card_le with
      ⟨loserTree, next, adjusted, restedNext, _, remaining, unpopped⟩
    have stillInitialized := (LoserTree.next_loop_initialized adjusted).trans initialized
    rw [← remaining] at isRemaining
    cases isKv : (loserTree.leaves next).kv with
    | none =>
      have nothing : records = [] := by
        rw [restedNext.remaining_of_none unpopped isKv] at isRemaining
        exact isRemaining.eq_nil
      rcases next_group_none mergeFunction adjusted restedNext unpopped isKv with
        ⟨final, result, exhausted, kept⟩
      left
      refine ⟨?_, _, result, Or.inr ⟨kept.trans stillInitialized, exhausted, nothing⟩, rfl⟩
      cases fresh with
      | false => rfl
      | true => exact absurd nothing (progress rfl)
    | some record =>
      rcases next_group_some mergeFunction adjusted restedNext unpopped isKv with
        ⟨group, final, last, bound, isGroup, restedLast, kept, result⟩
      right
      refine ⟨group, final.remaining, _, ?_, result, ⟨kept.trans stillInitialized,
        Perm.refl _, ?_, bound, last, restedLast⟩, rfl, rfl⟩
      · exact ⟨isRemaining.trans isGroup.split, isGroup.nonempty, isGroup.ordered, isGroup.least⟩
      · intro no
        cases no

end SortMergeReaderWithLoserTree

/-- Drained over sorted readers without ties, in whatever batches the records come, both
readers hand the merge function one group for each key, ascending by key, with the records
by user-defined sequence and sequence number. No assertion fails on the way. A reader is
created for at least one input: `ValidateReaders` and the sections of `IntervalPartition`
see to that. -/
theorem loser_tree_hands_out_groups_as_min_heap (order : RecordOrder)
    (mergeFunction : MergeFunctionWrapper) (readers : List (List (List KeyValue)))
    (nonempty : readers ≠ []) (sorted : SortedReaders order readers)
    (apart : ApartReaders order readers) (limit : Nat)
    (enough : (readers.flatMap List.flatten).length < limit) :
    ∃ groups, AreGroups order.compareKey order.compareSequence (readers.flatMap List.flatten)
        groups ∧ (SortMergeReaderWithLoserTree.sortMergeReader order mergeFunction).drain limit
          (SortMergeReaderWithLoserTree.create readers) =
        .ok (allCalls groups, resultsFrom mergeFunction [] groups) ∧
      (SortMergeReaderWithMinHeap.sortMergeReader order mergeFunction).drain limit
          (SortMergeReaderWithMinHeap.create readers) =
        .ok (allCalls groups, resultsFrom mergeFunction [] groups) := by
  have loserTree : (SortMergeReaderWithLoserTree.sortMergeReader order mergeFunction).Contract order
      mergeFunction _ _ := SortMergeReaderWithLoserTree.contract sorted apart nonempty
  have minHeap : (SortMergeReaderWithMinHeap.sortMergeReader order mergeFunction).Contract order
      mergeFunction _ _ := SortMergeReaderWithMinHeap.contract
  rcases loserTree.drain (Or.inl ⟨rfl, rfl⟩ : SortMergeReaderWithLoserTree.Idle readers
    (SortMergeReaderWithLoserTree.create readers) _) rfl enough with ⟨groups, drains, result⟩
  rcases minHeap.drain (SortMergeReaderWithMinHeap.idle_of_created sorted apart) rfl enough with
    ⟨others, othersDrain, othersResult⟩
  have same : others = groups := othersDrain.eq_groups_of.trans drains.eq_groups_of.symm
  rw [same] at othersResult
  exact ⟨groups, drains.are_groups, result, othersResult⟩

/-- Two readers that share a key, one of them with an empty batch. -/
def sampleReaders : List (List (List KeyValue)) :=
  [[[{ sequenceNumber := 2, key := [some (.integer 1)] }], [],
    [{ sequenceNumber := 1, key := [some (.integer 3)] }]],
   [[{ sequenceNumber := 0, key := [some (.integer 1)] },
     { sequenceNumber := 4, key := [some (.integer 2)] }]]]

def sampleOrder : RecordOrder where
  userKeyComparator :=
    { isAscendingOrder := true
      sortFields := (Fields.createSortFields 0 [.int32]).toOption.getD [] }

theorem both_readers_on_sample :
    ∃ groups, AreGroups sampleOrder.compareKey sampleOrder.compareSequence
        (sampleReaders.flatMap List.flatten) groups ∧
      (SortMergeReaderWithLoserTree.sortMergeReader sampleOrder (fun _ => none)).drain 5
          (SortMergeReaderWithLoserTree.create sampleReaders) =
        .ok (allCalls groups, resultsFrom (fun _ => none) [] groups) ∧
      (SortMergeReaderWithMinHeap.sortMergeReader sampleOrder (fun _ => none)).drain 5
          (SortMergeReaderWithMinHeap.create sampleReaders) =
        .ok (allCalls groups, resultsFrom (fun _ => none) [] groups) := by
  apply loser_tree_hands_out_groups_as_min_heap sampleOrder _ sampleReaders (by decide)
  · unfold SortedReaders
    decide
  · unfold ApartReaders
    decide
  · decide

end PaimonCore.MergeTree
