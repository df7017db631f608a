import PaimonCore.MergeTree.SortMergeReader

/-!
# `SortMergeReaderWithMinHeap`

The reader keeps one record of each reader in a heap. `NextBatch` opens the next batch of
the readers whose batch has ended, and an iterator ends as soon as one more batch does.
The priority queue is the list of its elements from the top down. Readers are read with
a merge function here.
-/

namespace PaimonCore.MergeTree

open Std SortedGroups List

/-- A record, the rest of its batch, and the batches the reader has yet to return. -/
structure HeapElement where
  kv : KeyValue
  reader : List (List KeyValue)
  iterator : List KeyValue
  deriving DecidableEq, Repr

structure SortMergeReaderWithMinHeap where
  nextBatchReaders : List (List (List KeyValue))
  minHeap : List HeapElement := []
  polled : List HeapElement := []
  log : MergeLog := {}

namespace SortMergeReaderWithMinHeap

variable (order : RecordOrder) (mergeFunction : MergeFunctionWrapper)

def create (readers : List (List (List KeyValue))) : SortMergeReaderWithMinHeap where
  nextBatchReaders := readers

/-- `HeapSorter`: the left element comes after the right one. -/
def heapSorter (lhs rhs : HeapElement) : Bool :=
  match order.compareKey lhs.kv rhs.kv with
  | .gt => true
  | .lt => false
  | .eq =>
    match order.compareUserSequence lhs.kv rhs.kv with
    | .gt => true
    | .lt => false
    | .eq => decide (rhs.kv.sequenceNumber < lhs.kv.sequenceNumber)

def push (minHeap : List HeapElement) (element : HeapElement) : List HeapElement :=
  minHeap.orderedInsert (fun lhs rhs => heapSorter order lhs rhs = false) element

def openBatch : List (List KeyValue) → Option HeapElement
  | [] => none
  | [] :: later => openBatch later
  | (first :: more) :: later => some { kv := first, reader := later, iterator := more }

def pushBatch (minHeap : List HeapElement) (reader : List (List KeyValue)) : List HeapElement :=
  match openBatch reader with
  | none => minHeap
  | some element => push order minHeap element

def nextBatch (reader : SortMergeReaderWithMinHeap) :
    Except Fault (Bool × SortMergeReaderWithMinHeap) :=
  let minHeap := reader.nextBatchReaders.foldl (pushBatch order) reader.minHeap
  .ok (!minHeap.isEmpty, { reader with nextBatchReaders := [], minHeap })

/-- A polled element goes back with its next record, or its reader waits for the next batch. -/
def putBack (heapAndReaders : List HeapElement × List (List (List KeyValue)))
    (element : HeapElement) : List HeapElement × List (List (List KeyValue)) :=
  match element.iterator with
  | [] => (heapAndReaders.1, heapAndReaders.2 ++ [element.reader])
  | first :: more =>
    (push order heapAndReaders.1 { element with kv := first, iterator := more }, heapAndReaders.2)

/-- Takes all elements with the key from the heap: those taken and the heap afterwards. -/
def takeSameKey (key : KeyValue) : Bool → List HeapElement → List HeapElement × List HeapElement
  | _, [] => ([], [])
  | isFirst, element :: minHeap =>
    if !isFirst && order.compareKey key element.kv != .eq then ([], element :: minHeap)
    else
      let (taken, rest) := takeSameKey key false minHeap
      (element :: taken, rest)

/-- One turn of the loop of `HasNext`: `NextImpl` and, if it found a key, `GetResult`. -/
def nextGroup (reader : SortMergeReaderWithMinHeap) :
    Except Fault (Bool × SortMergeReaderWithMinHeap) :=
  if !reader.nextBatchReaders.isEmpty then .error .assertion
  else
    let (minHeap, nextBatchReaders) := reader.polled.foldl (putBack order)
      (reader.minHeap, reader.nextBatchReaders)
    if !nextBatchReaders.isEmpty then
      .ok (false, { reader with nextBatchReaders, minHeap, polled := [] })
    else
      match minHeap with
      | [] => .error .emptyHeap
      | top :: _ =>
        let (polled, rest) := takeSameKey order top.kv true minHeap
        let calls := reader.log.calls ++ [.reset] ++
          polled.map (fun element => .add element.kv) ++ [.getResult]
        .ok (true, { nextBatchReaders, minHeap := rest, polled,
                     log := { calls, result := mergeFunction calls } })

def sortMergeReader : SortMergeReader SortMergeReaderWithMinHeap where
  nextBatch := nextBatch order
  nextGroup := nextGroup order mergeFunction
  log := log

end SortMergeReaderWithMinHeap

structure ValidSources (order : RecordOrder) (sources : List (List KeyValue)) : Prop where
  sorted : ∀ source ∈ sources, source.Pairwise (fun first second =>
    order.compareKey first second = .lt)
  apart : sources.Pairwise (fun left right => ∀ first ∈ left, ∀ second ∈ right,
    order.compareKey first second = .eq → order.compareSequence first second ≠ .eq)

variable {order : RecordOrder} {mergeFunction : MergeFunctionWrapper}

theorem ValidSources.perm {sources others : List (List KeyValue)}
    (valid : ValidSources order sources) (perm : others.Perm sources) :
    ValidSources order others where
  sorted := by
    intro source mem
    exact valid.sorted source (perm.mem_iff.mp mem)
  apart := by
    apply valid.apart.perm perm.symm
    intro left right apart first isFirst second isSecond same tie
    exact apart second isSecond first isFirst (OrientedCmp.eq_symm same) (OrientedCmp.eq_symm tie)

theorem ValidSources.sublist {sources others : List (List KeyValue)}
    (valid : ValidSources order sources) (sublist : others.Sublist sources) :
    ValidSources order others where
  sorted := by
    intro source mem
    exact valid.sorted source (sublist.subset mem)
  apart := valid.apart.sublist sublist

def HeapElement.rest (element : HeapElement) : List KeyValue :=
  element.iterator ++ element.reader.flatten

def HeapElement.source (element : HeapElement) : List KeyValue :=
  element.kv :: element.rest

namespace SortMergeReaderWithMinHeap

theorem heap_sorter_iff {lhs rhs : HeapElement} : heapSorter order lhs rhs = false ↔
    (compareLex order.compareKey order.compareSequence lhs.kv rhs.kv).isLE = true := by
  unfold heapSorter RecordOrder.compareSequence compareLex
  cases order.compareKey lhs.kv rhs.kv with
  | lt => simp
  | gt => simp
  | eq =>
    cases order.compareUserSequence lhs.kv rhs.kv with
    | lt => simp
    | gt => simp
    | eq => simp [compareOn, Int.isLE_compare]

def Ordered (order : RecordOrder) (minHeap : List HeapElement) : Prop :=
  minHeap.Pairwise (fun lhs rhs => heapSorter order lhs rhs = false)

instance heap_sorter_trans :
    IsTrans HeapElement (fun lhs rhs => heapSorter order lhs rhs = false) where
  trans first second third lower upper := by
    rw [heap_sorter_iff] at lower upper ⊢
    exact TransCmp.isLE_trans lower upper

instance heap_sorter_total :
    Std.Total (fun lhs rhs : HeapElement => heapSorter order lhs rhs = false) where
  total lhs rhs := by
    rw [heap_sorter_iff, heap_sorter_iff]
    exact Comparators.isLE_total _ _

variable {minHeap : List HeapElement}

theorem Ordered.push (ordered : Ordered order minHeap) (element : HeapElement) :
    Ordered order (push order minHeap element) :=
  Pairwise.orderedInsert element minHeap ordered

theorem push_perm (minHeap : List HeapElement) (element : HeapElement) :
    (push order minHeap element).Perm (element :: minHeap) :=
  perm_orderedInsert _ _ _

theorem open_batch_source (reader : List (List KeyValue)) :
    (openBatch reader).elim [] HeapElement.source = reader.flatten := by
  induction reader with
  | nil => rfl
  | cons batch later ih =>
    cases batch with
    | nil => exact ih
    | cons first more => rfl

theorem push_batches (readers : List (List (List KeyValue))) (ordered : Ordered order minHeap) :
    Ordered order (readers.foldl (pushBatch order) minHeap) ∧
      ((readers.foldl (pushBatch order) minHeap).map HeapElement.source).Perm
        (minHeap.map HeapElement.source ++
          (readers.map List.flatten).filter (fun source => !source.isEmpty)) := by
  induction readers generalizing minHeap with
  | nil => simpa using ordered
  | cons reader readers ih =>
    have opened := open_batch_source reader
    rw [foldl_cons, map_cons]
    cases isOpen : openBatch reader with
    | none =>
      rw [isOpen] at opened
      have kept : pushBatch order minHeap reader = minHeap := by
        unfold pushBatch
        rw [isOpen]
      rw [kept, ← opened]
      simpa using ih ordered
    | some element =>
      rw [isOpen] at opened
      have pushed : pushBatch order minHeap reader = push order minHeap element := by
        unfold pushBatch
        rw [isOpen]
      rw [pushed, ← opened]
      rcases ih (ordered.push element) with ⟨stillOrdered, perm⟩
      refine ⟨stillOrdered, perm.trans ?_⟩
      have sources : ((push order minHeap element).map HeapElement.source).Perm
          (element.source :: minHeap.map HeapElement.source) :=
        (push_perm minHeap element).map _
      exact (sources.append_right _).trans perm_middle.symm

theorem put_back_all (polled : List HeapElement) (readers : List (List (List KeyValue)))
    (ordered : Ordered order minHeap) :
    Ordered order (polled.foldl (putBack order) (minHeap, readers)).1 ∧
      ((polled.foldl (putBack order) (minHeap, readers)).1.map HeapElement.source ++
        (polled.foldl (putBack order) (minHeap, readers)).2.map List.flatten).Perm
        (minHeap.map HeapElement.source ++ polled.map HeapElement.rest ++
          readers.map List.flatten) := by
  induction polled generalizing minHeap readers with
  | nil => simpa using ordered
  | cons element polled ih =>
    rw [foldl_cons, map_cons]
    cases isIterator : element.iterator with
    | nil =>
      have back : putBack order (minHeap, readers) element =
          (minHeap, readers ++ [element.reader]) := by
        simp only [putBack, isIterator]
      have rest : element.rest = element.reader.flatten := by
        rw [HeapElement.rest, isIterator, nil_append]
      rw [back, rest]
      refine ⟨(ih _ ordered).1, (ih _ ordered).2.trans ?_⟩
      rw [perm_iff_count]
      intro source
      simp only [map_append, count_append, count_cons, map_cons, map_nil, count_nil]
      omega
    | cons first more =>
      have back : putBack order (minHeap, readers) element =
          (push order minHeap { element with kv := first, iterator := more }, readers) := by
        simp only [putBack, isIterator]
      have rest :
          element.rest = HeapElement.source { element with kv := first, iterator := more } := by
        rw [HeapElement.rest, isIterator]
        rfl
      rw [back, rest]
      rcases ih readers (ordered.push { element with kv := first, iterator := more }) with
        ⟨stillOrdered, perm⟩
      refine ⟨stillOrdered, perm.trans ?_⟩
      have pushed := (push_perm minHeap { element with kv := first, iterator := more } |>.map
        HeapElement.source : ((push order _ _).map _).Perm _)
      rw [perm_iff_count] at pushed ⊢
      intro source
      have count := pushed source
      simp only [map_cons, count_append, count_cons] at count ⊢
      omega

structure Takes (order : RecordOrder) (key : KeyValue) (minHeap taken rest : List HeapElement) :
    Prop where
  split : minHeap = taken ++ rest
  same : ∀ element ∈ taken, order.compareKey key element.kv = .eq
  stops : ∀ element, rest.head? = some element → order.compareKey key element.kv ≠ .eq

theorem take_same_key (order : RecordOrder) (key : KeyValue) (minHeap : List HeapElement) :
    Takes order key minHeap (takeSameKey order key false minHeap).1
      (takeSameKey order key false minHeap).2 := by
  induction minHeap with
  | nil => exact ⟨rfl, by simp [takeSameKey], by simp [takeSameKey]⟩
  | cons element minHeap ih =>
    by_cases isSame : order.compareKey key element.kv = .eq
    · have step : takeSameKey order key false (element :: minHeap) =
          (element :: (takeSameKey order key false minHeap).1,
            (takeSameKey order key false minHeap).2) := by
        simp [takeSameKey, isSame]
      rw [step]
      refine ⟨congrArg (element :: ·) ih.split, ?_, ih.stops⟩
      exact forall_mem_cons.mpr ⟨isSame, ih.same⟩
    · have step : takeSameKey order key false (element :: minHeap) = ([], element :: minHeap) := by
        simp [takeSameKey, isSame]
      rw [step]
      refine ⟨rfl, by simp, ?_⟩
      intro other isOther
      rw [head?_cons, Option.some.injEq] at isOther
      rw [← isOther]
      exact isSame

theorem take_from_top (order : RecordOrder) (top : HeapElement) (minHeap : List HeapElement) :
    ∃ taken rest, takeSameKey order top.kv true (top :: minHeap) = (top :: taken, rest) ∧
      Takes order top.kv (top :: minHeap) (top :: taken) rest := by
  have takes := take_same_key order top.kv minHeap
  refine ⟨_, _, by simp [takeSameKey], congrArg (top :: ·) takes.split, ?_, takes.stops⟩
  exact forall_mem_cons.mpr ⟨ReflCmp.compare_self, takes.same⟩

theorem key_le_of_ordered {lhs rhs : HeapElement} (ordered : heapSorter order lhs rhs = false) :
    (order.compareKey lhs.kv rhs.kv).isLE = true := by
  rw [heap_sorter_iff] at ordered
  unfold compareLex at ordered
  cases verdict : order.compareKey lhs.kv rhs.kv with
  | lt => rfl
  | eq => rfl
  | gt =>
    rw [verdict] at ordered
    cases ordered

variable {taken rest : List HeapElement}

theorem Takes.rest_above {top : HeapElement}
    (takes : Takes order top.kv (top :: taken ++ rest) (top :: taken) rest)
    (ordered : Ordered order (top :: taken ++ rest)) :
    ∀ element ∈ rest, order.compareKey top.kv element.kv = .lt := by
  cases rest with
  | nil =>
    intro element no
    cases no
  | cons next later =>
    have headAbove : order.compareKey top.kv next.kv = .lt := by
      have lower := key_le_of_ordered
        (rel_of_pairwise_cons ordered (show next ∈ taken ++ next :: later by simp))
      cases verdict : order.compareKey top.kv next.kv with
      | lt => rfl
      | eq => exact absurd verdict (takes.stops next rfl)
      | gt =>
        rw [verdict] at lower
        cases lower
    intro element isElement
    rcases mem_cons.mp isElement with rfl | inLater
    · exact headAbove
    · have laterOrdered : Ordered order (next :: later) :=
        (pairwise_append.mp ordered).2.1
      exact TransCmp.lt_of_lt_of_isLE headAbove
        (key_le_of_ordered (rel_of_pairwise_cons laterOrdered inLater))

theorem flatten_sources_perm (elements : List HeapElement) :
    (elements.map HeapElement.source).flatten.Perm
      (elements.map HeapElement.kv ++ (elements.map HeapElement.rest).flatten) := by
  induction elements with
  | nil => exact Perm.refl _
  | cons element elements ih =>
    rw [perm_iff_count] at ih ⊢
    intro record
    have count := ih record
    simp only [map_cons, flatten_cons, HeapElement.source, cons_append, count_cons,
      count_append] at count ⊢
    omega

theorem rest_subset_source (element : HeapElement) : element.rest ⊆ element.source :=
  subset_cons_self _ _

theorem valid_after_taking {others : List (List KeyValue)}
    (valid : ValidSources order (others ++ taken.map HeapElement.source)) :
    ValidSources order (others ++ taken.map HeapElement.rest) where
  sorted := by
    intro source mem
    rcases mem_append.mp mem with inOthers | inTaken
    · exact valid.sorted source (mem_append_left _ inOthers)
    · rcases mem_map.mp inTaken with ⟨element, isElement, rfl⟩
      have sorted := valid.sorted element.source (mem_append_right _ (mem_map_of_mem isElement))
      exact sorted.of_cons
  apart := by
    have apart := valid.apart
    rw [pairwise_append, pairwise_map] at apart ⊢
    refine ⟨apart.1, apart.2.1.imp ?_, ?_⟩
    · intro left right before first isFirst second isSecond
      exact before first (rest_subset_source left isFirst) second
        (rest_subset_source right isSecond)
    · intro other isOther source isSource first isFirst second isSecond
      rcases mem_map.mp isSource with ⟨element, isElement, rfl⟩
      exact apart.2.2 other isOther element.source (mem_map_of_mem isElement) first isFirst
        second (rest_subset_source element isSecond)

theorem Takes.is_group {top : HeapElement}
    (takes : Takes order top.kv (top :: taken ++ rest) (top :: taken) rest)
    (ordered : Ordered order (top :: taken ++ rest))
    (valid : ValidSources order ((top :: taken ++ rest).map HeapElement.source)) :
    IsGroup order ((top :: taken ++ rest).map HeapElement.source).flatten
      ((top :: taken).map HeapElement.kv)
      (rest.map HeapElement.source ++ (top :: taken).map HeapElement.rest).flatten where
  split := by
    have perm := flatten_sources_perm (top :: taken)
    rw [perm_iff_count] at perm ⊢
    intro record
    have count := perm record
    simp only [map_append, flatten_append, count_append] at count ⊢
    omega
  nonempty := cons_ne_nil _ _
  ordered := by
    rw [pairwise_map]
    have apart := (pairwise_map.mp valid.apart).and ordered
    have inTaken := (pairwise_append.mp apart).1
    apply inTaken.imp_of_mem
    intro left right isLeft isRight both
    have same : order.compareKey left.kv right.kv = .eq :=
      TransCmp.eq_trans (OrientedCmp.eq_symm (takes.same left isLeft)) (takes.same right isRight)
    have differ := both.1 left.kv mem_cons_self right.kv mem_cons_self same
    have lower := heap_sorter_iff.mp both.2
    unfold compareLex at lower
    rw [same] at lower
    refine ⟨same, ?_⟩
    cases verdict : order.compareSequence left.kv right.kv with
    | lt => rfl
    | eq => exact absurd verdict differ
    | gt =>
      rw [verdict] at lower
      cases lower
  least := by
    intro left isLeft right isRight
    rcases mem_map.mp isLeft with ⟨element, isElement, rfl⟩
    have same := OrientedCmp.eq_symm (takes.same element isElement)
    rcases mem_flatten.mp isRight with ⟨source, isSource, inSource⟩
    have ofSource : ∀ other ∈ top :: taken ++ rest, right ∈ other.rest →
        order.compareKey other.kv right = .lt := by
      intro other isOther inRest
      exact rel_of_pairwise_cons (valid.sorted other.source (mem_map_of_mem isOther))
        inRest
    rcases mem_append.mp isSource with inHeap | inTaken
    · rcases mem_map.mp inHeap with ⟨other, isOther, rfl⟩
      have above := takes.rest_above ordered other isOther
      rcases mem_cons.mp inSource with rfl | inRest
      · exact TransCmp.lt_of_eq_of_lt same above
      · exact TransCmp.lt_trans (TransCmp.lt_of_eq_of_lt same above)
          (ofSource other (mem_append_right _ isOther) inRest)
    · rcases mem_map.mp inTaken with ⟨other, isOther, rfl⟩
      exact TransCmp.lt_of_eq_of_lt (TransCmp.eq_trans same (takes.same other isOther))
        (ofSource other (mem_append_left _ isOther) inSource)

def sources (reader : SortMergeReaderWithMinHeap) : List (List KeyValue) :=
  reader.minHeap.map HeapElement.source ++ reader.polled.map HeapElement.rest ++
    reader.nextBatchReaders.map List.flatten

structure Holds (order : RecordOrder) (reader : SortMergeReaderWithMinHeap)
    (records : List KeyValue) : Prop where
  ordered : Ordered order reader.minHeap
  valid : ValidSources order reader.sources
  records : records.Perm reader.sources.flatten

def Idle (order : RecordOrder) (reader : SortMergeReaderWithMinHeap) (records : List KeyValue) :
    Prop :=
  Holds order reader records ∧ reader.polled = []

def Ready (order : RecordOrder) (reader : SortMergeReaderWithMinHeap) (records : List KeyValue)
    (fresh : Bool) : Prop :=
  Holds order reader records ∧ reader.nextBatchReaders = [] ∧
    if fresh then reader.polled = [] ∧ reader.minHeap ≠ [] else reader.polled ≠ []

variable {reader : SortMergeReaderWithMinHeap}

theorem next_group_waits {waiting : List (List KeyValue)} {others : List (List (List KeyValue))}
    (noReaders : reader.nextBatchReaders = [])
    (isBack : reader.polled.foldl (putBack order) (reader.minHeap, reader.nextBatchReaders) =
      (minHeap, waiting :: others)) : reader.nextGroup order mergeFunction = .ok (false,
      { reader with nextBatchReaders := waiting :: others, minHeap, polled := [] }) := by
  rw [nextGroup, isBack]
  simp [noReaders]

theorem next_group_takes {top : HeapElement} {later : List HeapElement}
    (noReaders : reader.nextBatchReaders = [])
    (isBack : reader.polled.foldl (putBack order) (reader.minHeap, reader.nextBatchReaders) =
      (top :: later, []))
    (takes : takeSameKey order top.kv true (top :: later) = (top :: taken, rest)) :
    reader.nextGroup order mergeFunction = .ok (true,
      { nextBatchReaders := [], minHeap := rest, polled := top :: taken,
        log :=
          { calls := reader.log.calls ++ callsOf ((top :: taken).map HeapElement.kv),
            result := mergeFunction
              (reader.log.calls ++ callsOf ((top :: taken).map HeapElement.kv)) } }) := by
  have calls : reader.log.calls ++ [.reset] ++ (top :: taken).map (fun element =>
      MergeCall.add element.kv) ++ [.getResult] =
      reader.log.calls ++ callsOf ((top :: taken).map HeapElement.kv) := by
    simp [callsOf, Function.comp_def]
  rw [nextGroup, isBack, ← calls]
  simp [noReaders, takes]

theorem heap_of_phase {fresh : Bool}
    (phase : if fresh then reader.polled = [] ∧ reader.minHeap ≠ [] else reader.polled ≠ [])
    (isBack : reader.polled.foldl (putBack order) (reader.minHeap, reader.nextBatchReaders) =
      ([], [])) (perm : (([] : List HeapElement).map HeapElement.source ++
      ([] : List (List (List KeyValue))).map List.flatten).Perm reader.sources) : False := by
  cases fresh with
  | true =>
    rw [phase.1] at isBack
    exact phase.2 (congrArg Prod.fst isBack)
  | false =>
    have lengths := perm.length_eq
    have pos := length_pos_iff.mpr phase
    simp only [sources, map_nil, append_nil, length_nil, length_append, length_map] at lengths
    omega

theorem idle_of_created {readers : List (List (List KeyValue))}
    (sorted : SortedReaders order readers) (apart : ApartReaders order readers) :
    Idle order (create readers) (readers.flatMap List.flatten) := by
  refine ⟨⟨Pairwise.nil, ⟨?_, ?_⟩, ?_⟩, rfl⟩
  · intro source isSource
    rcases mem_map.mp isSource with ⟨reader, isReader, rfl⟩
    exact sorted reader isReader
  · exact pairwise_map.mpr apart
  · exact Perm.refl _

theorem contract : (sortMergeReader order mergeFunction).Contract order mergeFunction (Idle order)
    (Ready order) where
  batch := by
    intro reader records idle
    rcases idle with ⟨holds, noPolled⟩
    rcases push_batches reader.nextBatchReaders holds.ordered with ⟨ordered, perm⟩
    generalize isHeap : reader.nextBatchReaders.foldl (pushBatch order) reader.minHeap =
        minHeap at ordered perm
    have batch : reader.nextBatch order = .ok (!minHeap.isEmpty,
        { reader with nextBatchReaders := [], minHeap }) := by
      rw [nextBatch, isHeap]
    have sublist : (reader.minHeap.map HeapElement.source ++
        (reader.nextBatchReaders.map List.flatten).filter (fun source => !source.isEmpty)).Sublist
          reader.sources := by
      rw [sources, noPolled, map_nil, append_nil]
      exact (Sublist.refl _).append filter_sublist
    have sameRecords : records.Perm (minHeap.map HeapElement.source).flatten := by
      apply holds.records.trans
      apply Perm.symm
      apply perm.flatten.trans
      rw [sources, noPolled, map_nil, append_nil, flatten_append, flatten_append,
        flatten_filter_not_isEmpty]
    cases minHeap with
    | nil => exact Or.inl ⟨sameRecords.eq_nil, _, batch, rfl⟩
    | cons top minHeap =>
      refine Or.inr ⟨_, batch, ⟨⟨ordered, ?_, ?_⟩, rfl, noPolled, cons_ne_nil _ _⟩, rfl⟩
      · simp only [sources, noPolled, map_nil, append_nil]
        exact (holds.valid.sublist sublist).perm perm
      · simp only [sources, noPolled, map_nil, append_nil]
        exact sameRecords
  group := by
    intro reader records fresh ready
    rcases ready with ⟨holds, noReaders, phase⟩
    have back := put_back_all reader.polled reader.nextBatchReaders holds.ordered
    generalize isBack : reader.polled.foldl (putBack order)
      (reader.minHeap, reader.nextBatchReaders) = heapAndReaders at back
    rcases heapAndReaders with ⟨minHeap, nextBatchReaders⟩
    rcases back with ⟨ordered, perm⟩
    have valid := holds.valid.perm perm
    have sameRecords := holds.records.trans perm.symm.flatten
    cases nextBatchReaders with
    | cons waiting others =>
      left
      refine ⟨?_, _, next_group_waits noReaders isBack, ⟨⟨ordered, ?_, ?_⟩, rfl⟩, rfl⟩
      · cases fresh with
        | false => rfl
        | true =>
          rw [phase.1, noReaders] at isBack
          cases isBack
      · simpa [sources] using valid
      · simpa [sources] using sameRecords
    | nil =>
      cases minHeap with
      | nil => exact absurd perm (heap_of_phase phase isBack)
      | cons top later =>
        rcases take_from_top order top later with ⟨taken, rest, result, takes⟩
        have isHeap := takes.split
        rw [map_nil, append_nil] at valid sameRecords
        rw [isHeap] at ordered valid sameRecords takes
        have isGroup := takes.is_group ordered valid
        right
        refine ⟨_, (rest.map HeapElement.source ++ (top :: taken).map HeapElement.rest).flatten,
          _, ?_, next_group_takes noReaders isBack result,
          ⟨⟨?_, ?_, ?_⟩, rfl, cons_ne_nil _ _⟩, rfl, rfl⟩
        · exact ⟨sameRecords.trans isGroup.split, isGroup.nonempty, isGroup.ordered, isGroup.least⟩
        · exact (pairwise_append.mp ordered).2.1
        · rw [map_append] at valid
          have swapped := valid_after_taking (valid.perm perm_append_comm)
          simpa [sources] using swapped
        · simp [sources]

end SortMergeReaderWithMinHeap

end PaimonCore.MergeTree
