import Mathlib.Data.List.GetD
import PaimonCore.MergeTree.KeyValue

/-!
# `SortMergeReader`

A reader hands the records of one key after the other to the merge function. Its caller takes
iterators from `NextBatch`, and from each the results until `HasNext` says no. What a reader owes
for one call of `NextBatch` and one turn of the loop of `HasNext` determines all calls of the
merge function.
-/

namespace PaimonCore.MergeTree

open Std SortedGroups List

/-- A failed assertion, the use of an unset index or value, the reader's error, a loop without
end. -/
inductive Fault where
  | assertion
  | unsetIndex
  | emptyHeap
  | endless
  deriving DecidableEq, Repr

/-- The calls that a `MergeFunctionWrapper` receives. -/
inductive MergeCall where
  | reset
  | add (kv : KeyValue)
  | getResult
  deriving DecidableEq, Repr

/-- The answer to `GetResult`, which may depend on all calls so far. -/
abbrev MergeFunctionWrapper := List MergeCall → Option KeyValue

def callsOf (group : List KeyValue) : List MergeCall :=
  .reset :: group.map .add ++ [.getResult]

structure MergeLog where
  calls : List MergeCall := []
  result : Option KeyValue := none
  deriving DecidableEq, Repr

/-- `nextBatch` tells whether there is an iterator, `nextGroup` is one turn of the loop of
`HasNext`. -/
structure SortMergeReader (State : Type) where
  nextBatch : State → Except Fault (Bool × State)
  nextGroup : State → Except Fault (Bool × State)
  log : State → MergeLog

namespace SortMergeReader

variable {State : Type} (reader : SortMergeReader State)

/-- `Iterator::HasNext`: keys without a result are passed over. -/
def hasNext : Nat → State → Except Fault (Bool × State)
  | 0, _ => .error .endless
  | fuel + 1, state =>
    match reader.nextGroup state with
    | .error fault => .error fault
    | .ok (false, state) => .ok (false, state)
    | .ok (true, state) =>
      if (reader.log state).result.isSome then .ok (true, state) else hasNext fuel state

def drainIterator (limit : Nat) : Nat → State → Except Fault (State × List KeyValue)
  | 0, _ => .error .endless
  | fuel + 1, state =>
    match reader.hasNext limit state with
    | .error fault => .error fault
    | .ok (false, state) => .ok (state, [])
    | .ok (true, state) =>
      match drainIterator limit fuel state with
      | .error fault => .error fault
      | .ok (final, results) => .ok (final, (reader.log state).result.toList ++ results)

def drainFrom (limit : Nat) : Nat → State → Except Fault (State × List KeyValue)
  | 0, _ => .error .endless
  | fuel + 1, state =>
    match reader.nextBatch state with
    | .error fault => .error fault
    | .ok (false, state) => .ok (state, [])
    | .ok (true, state) =>
      match reader.drainIterator limit limit state with
      | .error fault => .error fault
      | .ok (state, results) =>
        match drainFrom limit fuel state with
        | .error fault => .error fault
        | .ok (final, later) => .ok (final, results ++ later)

/-- The calls of the merge function and the results, with a bound on the turns of each loop. -/
def drain (limit : Nat) (state : State) : Except Fault (List MergeCall × List KeyValue) :=
  match reader.drainFrom limit limit state with
  | .error fault => .error fault
  | .ok (final, results) => .ok ((reader.log final).calls, results)

end SortMergeReader

def SortedReaders (order : RecordOrder) (readers : List (List (List KeyValue))) : Prop :=
  ∀ reader ∈ readers, reader.flatten.Pairwise (fun first second =>
    order.compareKey first second = .lt)

def ApartReaders (order : RecordOrder) (readers : List (List (List KeyValue))) : Prop :=
  readers.Pairwise (fun left right => ∀ first ∈ left.flatten, ∀ second ∈ right.flatten,
    order.compareKey first second = .eq → order.compareSequence first second ≠ .eq)

theorem SortedReaders.at_index {order : RecordOrder} {readers : List (List (List KeyValue))}
    (sorted : SortedReaders order readers) (index : Nat) :
    (readers.getD index []).flatten.Pairwise (fun first second =>
      order.compareKey first second = .lt) := by
  by_cases small : index < readers.length
  · rw [getD_eq_getElem _ _ small]
    exact sorted _ (getElem_mem small)
  · rw [getD_eq_default _ _ (by omega)]
    exact Pairwise.nil

theorem ApartReaders.at_indices {order : RecordOrder} {readers : List (List (List KeyValue))}
    (apart : ApartReaders order readers) {left right : Nat} (ne : left ≠ right)
    {first second : KeyValue} (isFirst : first ∈ (readers.getD left []).flatten)
    (isSecond : second ∈ (readers.getD right []).flatten)
    (same : order.compareKey first second = .eq) : order.compareSequence first second ≠ .eq := by
  have inRange : ∀ index record, record ∈ (readers.getD index []).flatten →
      index < readers.length := by
    intro index record isRecord
    by_contra large
    rw [getD_eq_default _ _ (by omega)] at isRecord
    cases isRecord
  have leftSmall := inRange left first isFirst
  have rightSmall := inRange right second isSecond
  rw [getD_eq_getElem _ _ leftSmall] at isFirst
  rw [getD_eq_getElem _ _ rightSmall] at isSecond
  rcases Nat.lt_or_gt_of_ne ne with earlier | later
  · exact pairwise_iff_getElem.mp apart left right leftSmall rightSmall earlier first isFirst
      second isSecond same
  · intro tie
    exact pairwise_iff_getElem.mp apart right left rightSmall leftSmall later second isSecond
      first isFirst (OrientedCmp.eq_symm same) (OrientedCmp.eq_symm tie)

variable (mergeFunction : MergeFunctionWrapper)

def allCalls (groups : List (List KeyValue)) : List MergeCall :=
  groups.flatMap callsOf

def resultsFrom (calls : List MergeCall) : List (List KeyValue) → List KeyValue
  | [] => []
  | group :: groups =>
    (mergeFunction (calls ++ callsOf group)).toList ++ resultsFrom (calls ++ callsOf group) groups

variable {mergeFunction}

theorem results_from_append (calls : List MergeCall) (groups later : List (List KeyValue)) :
    resultsFrom mergeFunction calls (groups ++ later) = resultsFrom mergeFunction calls groups ++
        resultsFrom mergeFunction (calls ++ allCalls groups) later := by
  induction groups generalizing calls with
  | nil => simp [resultsFrom, allCalls]
  | cons group groups ih => simp [resultsFrom, allCalls, ih]

theorem all_calls_append (groups later : List (List KeyValue)) :
    allCalls (groups ++ later) = allCalls groups ++ allCalls later :=
  flatMap_append

structure HandsOut (order : RecordOrder) (records : List KeyValue)
    (groups : List (List KeyValue)) (rest : List KeyValue) : Prop where
  drains : ∀ later, Drains order.compareKey order.compareSequence rest later →
    Drains order.compareKey order.compareSequence records (groups ++ later)
  fewer : rest.length + groups.length ≤ records.length

variable {order : RecordOrder}

theorem HandsOut.nothing (records : List KeyValue) : HandsOut order records [] records :=
  ⟨fun _ drains => drains, Nat.le_refl _⟩

theorem HandsOut.trans {records middle rest : List KeyValue}
    {groups later : List (List KeyValue)} (first : HandsOut order records groups middle)
    (second : HandsOut order middle later rest) :
    HandsOut order records (groups ++ later) rest where
  drains := by
    intro last drains
    rw [append_assoc]
    exact first.drains _ (second.drains last drains)
  fewer := by
    have firstFewer := first.fewer
    have secondFewer := second.fewer
    rw [length_append]
    omega

structure IsGroup (order : RecordOrder) (records group rest : List KeyValue) : Prop where
  split : records.Perm (group ++ rest)
  nonempty : group ≠ []
  ordered : group.Pairwise (fun left right =>
    order.compareKey left right = .eq ∧ order.compareSequence left right = .lt)
  least : ∀ left ∈ group, ∀ right ∈ rest, order.compareKey left right = .lt

theorem IsGroup.hands_out {records group rest : List KeyValue}
    (isGroup : IsGroup order records group rest) : HandsOut order records [group] rest where
  drains := by
    intro later drains
    exact Drains.group isGroup.split isGroup.nonempty isGroup.ordered isGroup.least drains
  fewer := by
    have lengths := isGroup.split.length_eq
    have pos := length_pos_iff.mpr isGroup.nonempty
    rw [length_append] at lengths
    rw [length_singleton]
    omega

namespace SortMergeReader

variable {State : Type}

/-- `Idle` states are those between two iterators, `Ready` ones those of an iterator. -/
structure Contract (reader : SortMergeReader State) (order : RecordOrder)
    (mergeFunction : MergeFunctionWrapper) (Idle : State → List KeyValue → Prop)
    (Ready : State → List KeyValue → Bool → Prop) : Prop where
  batch : ∀ state records, Idle state records →
    (records = [] ∧ ∃ next, reader.nextBatch state = .ok (false, next) ∧
      (reader.log next).calls = (reader.log state).calls) ∨
    ∃ next, reader.nextBatch state = .ok (true, next) ∧ Ready next records true ∧
      (reader.log next).calls = (reader.log state).calls
  group : ∀ state records fresh, Ready state records fresh →
    (fresh = false ∧ ∃ next, reader.nextGroup state = .ok (false, next) ∧ Idle next records ∧
      (reader.log next).calls = (reader.log state).calls) ∨
    ∃ group rest next, IsGroup order records group rest ∧
      reader.nextGroup state = .ok (true, next) ∧ Ready next rest false ∧
      (reader.log next).calls = (reader.log state).calls ++ callsOf group ∧
      (reader.log next).result = mergeFunction ((reader.log state).calls ++ callsOf group)

variable {reader : SortMergeReader State} {Idle : State → List KeyValue → Prop}
  {Ready : State → List KeyValue → Bool → Prop} {state : State} {records : List KeyValue}

section
variable (contract : Contract reader order mergeFunction Idle Ready)
include contract

theorem Contract.has_next {fuel : Nat}
    {fresh : Bool} (ready : Ready state records fresh) (enough : records.length < fuel) :
    ∃ groups rest next answer, reader.hasNext fuel state = .ok (answer, next) ∧
      HandsOut order records groups rest ∧
      (reader.log next).calls = (reader.log state).calls ++ allCalls groups ∧
      resultsFrom mergeFunction (reader.log state).calls groups =
        (if answer then (reader.log next).result.toList else []) ∧
      (if answer then Ready next rest false ∧ groups ≠ [] else Idle next rest ∧
        (fresh = true → groups ≠ [])) := by
  induction fuel generalizing state records fresh with
  | zero => omega
  | succ fuel ih =>
    rcases contract.group state records fresh ready with
      ⟨notFresh, next, result, idle, calls⟩ |
      ⟨group, rest, next, isGroup, result, readyNext, calls, merged⟩
    · refine ⟨[], records, next, false, ?_, HandsOut.nothing records, ?_, rfl, idle, ?_⟩
      · rw [hasNext, result]
      · simp [calls, allCalls]
      · rw [notFresh]
        intro no
        cases no
    · have handsOut := isGroup.hands_out
      cases outcome : (reader.log next).result with
      | some kv =>
        refine ⟨[group], rest, next, true, ?_, handsOut, ?_, ?_, readyNext, by simp⟩
        · rw [hasNext, result]
          simp only [outcome, Option.isSome_some, if_true]
        · simp [calls, allCalls]
        · simp [resultsFrom, ← merged, outcome]
      | none =>
        have fewer := handsOut.fewer
        rw [length_singleton] at fewer
        rcases ih readyNext (by omega) with
          ⟨later, last, final, answer, finalResult, laterOut, laterCalls, results, state'⟩
        refine ⟨group :: later, last, final, answer, ?_, handsOut.trans laterOut, ?_, ?_, ?_⟩
        · rw [hasNext, result]
          simp only [outcome, Option.isSome_none, Bool.false_eq_true, if_false]
          exact finalResult
        · rw [laterCalls, calls]
          simp [allCalls]
        · rw [resultsFrom, ← merged, outcome, ← calls, results]
          rfl
        · cases answer with
          | true => exact ⟨state'.1, by simp⟩
          | false => exact ⟨state'.1, by simp⟩

theorem Contract.drain_iterator
    {limit fuel : Nat} {fresh : Bool} (ready : Ready state records fresh)
    (enough : records.length < limit) (enoughFuel : records.length < fuel) :
    ∃ groups rest next, reader.drainIterator limit fuel state =
        .ok (next, resultsFrom mergeFunction (reader.log state).calls groups) ∧
      HandsOut order records groups rest ∧ Idle next rest ∧
      (reader.log next).calls = (reader.log state).calls ++ allCalls groups ∧
      (fresh = true → groups ≠ []) := by
  induction fuel generalizing state records fresh with
  | zero => omega
  | succ fuel ih =>
    rcases contract.has_next ready enough with
      ⟨groups, rest, next, answer, result, handsOut, calls, results, outcome⟩
    cases answer with
    | false =>
      refine ⟨groups, rest, next, ?_, handsOut, outcome.1, calls, outcome.2⟩
      rw [drainIterator, result]
      simp only [results, Bool.false_eq_true, if_false]
    | true =>
      have fewer := handsOut.fewer
      have pos := length_pos_iff.mpr outcome.2
      rcases ih outcome.1 (by omega) (by omega) with
        ⟨later, last, final, finalResult, laterOut, idle, laterCalls, _⟩
      refine ⟨groups ++ later, last, final, ?_, handsOut.trans laterOut, idle, ?_, ?_⟩
      · rw [drainIterator, result]
        simp only [finalResult]
        rw [results_from_append, results, calls]
        rfl
      · rw [laterCalls, calls, all_calls_append, append_assoc]
      · intro _ empty
        exact outcome.2 (append_eq_nil_iff.mp empty).1

theorem Contract.drain_from
    {limit fuel : Nat} (idle : Idle state records) (enough : records.length < limit)
    (enoughFuel : records.length < fuel) : ∃ groups final, reader.drainFrom limit fuel state =
        .ok (final, resultsFrom mergeFunction (reader.log state).calls groups) ∧
      Drains order.compareKey order.compareSequence records groups ∧
      (reader.log final).calls = (reader.log state).calls ++ allCalls groups := by
  induction fuel generalizing state records with
  | zero => omega
  | succ fuel ih =>
    rcases contract.batch state records idle with
      ⟨rfl, next, result, calls⟩ | ⟨next, result, ready, calls⟩
    · refine ⟨[], next, ?_, Drains.done, ?_⟩
      · rw [drainFrom, result]
        rfl
      · simp [calls, allCalls]
    · rcases contract.drain_iterator ready enough enough with
        ⟨groups, rest, middle, drained, handsOut, idleNext, middleCalls, progress⟩
      have fewer := handsOut.fewer
      have pos := length_pos_iff.mpr (progress rfl)
      rcases ih idleNext (by omega) (by omega) with ⟨later, final, finalResult, drains, lastCalls⟩
      refine ⟨groups ++ later, final, ?_, handsOut.drains later drains, ?_⟩
      · rw [drainFrom, result]
        simp only [drained, finalResult]
        rw [results_from_append, middleCalls, calls]
      · rw [lastCalls, middleCalls, calls, all_calls_append, append_assoc]

theorem Contract.drain {limit : Nat} (idle : Idle state records)
    (fresh : (reader.log state).calls = [])
    (enough : records.length < limit) :
    ∃ groups, Drains order.compareKey order.compareSequence records groups ∧
      reader.drain limit state = .ok (allCalls groups, resultsFrom mergeFunction [] groups) := by
  rcases contract.drain_from idle enough enough with ⟨groups, final, result, drains, calls⟩
  refine ⟨groups, drains, ?_⟩
  rw [SortMergeReader.drain, result]
  simp only [calls, fresh, nil_append]

end

end SortMergeReader

end PaimonCore.MergeTree
