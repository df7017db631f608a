import PaimonCore.Manifest.ManifestEntry

/-!
# `SortedRun` and `IntervalPartition`

`IntervalPartition` cuts a set of files into sections whose key intervals do not meet, and each
section into as few sorted runs as the overlaps allow. The priority queue of runs is the list of
its elements from the top down; a run under construction is the files before the last one, and
the last one.
-/

namespace PaimonCore.MergeTree

open Std PaimonCore.Fields List
open PaimonCore.Manifest (DataFileMeta)

structure SortedRun where
  files : List DataFileMeta
  deriving DecidableEq, Repr

namespace SortedRun

def fromSingle (file : DataFileMeta) : SortedRun := ⟨[file]⟩

def isEmpty (run : SortedRun) : Bool := run.files.isEmpty

def totalSize (run : SortedRun) : Int := (run.files.map DataFileMeta.fileSize).sum

def validFrom (comparator : FieldsComparator) : List DataFileMeta → Bool
  | first :: second :: rest =>
    if comparator.compareTo second.minKey first.maxKey = .gt then
      validFrom comparator (second :: rest)
    else false
  | _ => true

def isValid (comparator : FieldsComparator) (run : SortedRun) : Bool :=
  validFrom comparator run.files

def fromUnsorted (comparator : FieldsComparator) (files : List DataFileMeta) :
    Except String SortedRun :=
  let sorted : SortedRun := ⟨files.insertionSort (fun left right =>
    comparator.compareTo left.minKey right.minKey ≠ .gt)⟩
  if sorted.isValid comparator then .ok sorted else .error "from unsorted validate failed"

end SortedRun

namespace IntervalPartition

variable (comparator : FieldsComparator)

/-- The comparison of the constructor: by smallest key, then by largest key. -/
def precedes (o1 o2 : DataFileMeta) : Bool :=
  match comparator.compareTo o1.minKey o2.minKey with
  | .eq => comparator.compareTo o1.maxKey o2.maxKey = .lt
  | verdict => verdict = .lt

def sortFiles (files : List DataFileMeta) : List DataFileMeta :=
  files.insertionSort (fun o1 o2 => precedes comparator o2 o1 = false)

/-- The loop of `Partition`: the section under way, its bound and the files to come. -/
def sectionsFrom (running : List DataFileMeta) (bound : BinaryRow) :
    List DataFileMeta → List (List DataFileMeta)
  | [] => if running.isEmpty then [] else [running]
  | file :: files =>
    if !running.isEmpty && comparator.compareTo file.minKey bound == .gt then
      running :: sectionsFrom [file] file.maxKey files
    else
      let bound :=
        if bound = [] ∨ comparator.compareTo file.maxKey bound = .gt then file.maxKey else bound
      sectionsFrom (running ++ [file]) bound files

abbrev OpenRun := List DataFileMeta × DataFileMeta

def OpenRun.files (run : OpenRun) : List DataFileMeta := run.1 ++ [run.2]

/-- The comparison of the queue: the left run comes out after the right one. -/
def comesAfter (o1 o2 : OpenRun) : Bool :=
  match comparator.compareTo o1.2.maxKey o2.2.maxKey with
  | .eq => comparator.compareTo o1.2.minKey o2.2.minKey = .gt
  | verdict => verdict = .gt

def Queued (queue : List OpenRun) : Prop :=
  queue.Pairwise (fun o1 o2 => comesAfter comparator o1 o2 = false)

/-- `std::priority_queue`; runs that tie come out in any order. -/
structure RunQueue where
  push : List OpenRun → OpenRun → List OpenRun
  perm : ∀ queue run, (push queue run).Perm (run :: queue)
  ordered : ∀ queue run, Queued comparator queue → Queued comparator (push queue run)

variable {comparator} (heap : RunQueue comparator)

/-- One file goes to the run on top of the queue or opens a new one. -/
def place (queue : List OpenRun) (file : DataFileMeta) : List OpenRun :=
  match queue with
  | [] => [([], file)]
  | top :: queue =>
    if comparator.compareTo file.minKey top.2.maxKey = .gt then
      heap.push queue (top.files, file)
    else heap.push (heap.push queue ([], file)) top

def partitionSection (files : List DataFileMeta) : List SortedRun :=
  (files.foldl (place heap) []).map (fun run => ⟨run.files⟩)

def partition (files : List DataFileMeta) : List (List SortedRun) :=
  (sectionsFrom comparator [] [] (sortFiles comparator files)).map (partitionSection heap)

end IntervalPartition

section
variable {comparator : FieldsComparator}

instance min_key_comparison : TransCmp (fun left right : DataFileMeta =>
    comparator.compareTo left.minKey right.minKey) :=
  inferInstanceAs (TransCmp (Comparators.along DataFileMeta.minKey comparator.compareTo))

instance max_key_comparison : TransCmp (fun left right : DataFileMeta =>
    comparator.compareTo left.maxKey right.maxKey) :=
  inferInstanceAs (TransCmp (Comparators.along DataFileMeta.maxKey comparator.compareTo))

def EndsBefore (comparator : FieldsComparator) (left right : DataFileMeta) : Prop :=
  comparator.compareTo left.maxKey right.minKey = .lt

instance (comparator : FieldsComparator) (left right : DataFileMeta) :
    Decidable (EndsBefore comparator left right) :=
  inferInstanceAs (Decidable (_ = _))

structure Interval (comparator : FieldsComparator) (file : DataFileMeta) : Prop where
  nonempty : (comparator.compareTo file.minKey file.maxKey).isLE = true
  keyed : file.maxKey ≠ []

def Spans (comparator : FieldsComparator) (file : DataFileMeta) : Prop :=
  (comparator.compareTo file.minKey file.maxKey).isLE = true

instance (comparator : FieldsComparator) (file : DataFileMeta) :
    Decidable (Spans comparator file) :=
  inferInstanceAs (Decidable (_ = true))

theorem EndsBefore.trans {first second third : DataFileMeta}
    (lower : EndsBefore comparator first second) (upper : EndsBefore comparator second third)
    (spans : Spans comparator second) : EndsBefore comparator first third :=
  TransCmp.lt_trans (TransCmp.lt_of_lt_of_isLE lower spans) upper

variable {files : List DataFileMeta}

theorem valid_from_iff_chain :
    SortedRun.validFrom comparator files = true ↔ files.IsChain (EndsBefore comparator) := by
  induction files with
  | nil => simp [SortedRun.validFrom]
  | cons first files ih =>
    cases files with
    | nil => simp [SortedRun.validFrom]
    | cons second rest =>
      rw [SortedRun.validFrom, isChain_cons_cons, ← ih]
      have oriented : comparator.compareTo second.minKey first.maxKey = .gt ↔
          EndsBefore comparator first second :=
        ⟨OrientedCmp.lt_of_gt, OrientedCmp.gt_of_lt⟩
      by_cases later : comparator.compareTo second.minKey first.maxKey = .gt
      · rw [if_pos later]
        simp [oriented.mp later]
      · rw [if_neg later]
        have apart : ¬EndsBefore comparator first second := fun before =>
          later (oriented.mpr before)
        simp [apart]

theorem pairwise_of_chain (spans : ∀ file ∈ files, Spans comparator file)
    (chain : files.IsChain (EndsBefore comparator)) : files.Pairwise (EndsBefore comparator) := by
  induction files with
  | nil => exact Pairwise.nil
  | cons first files ih =>
    cases files with
    | nil => exact pairwise_singleton _ _
    | cons second rest =>
      rw [isChain_cons_cons] at chain
      have later := ih (forall_mem_cons.mp spans).2 chain.2
      apply pairwise_cons.mpr
      refine ⟨forall_mem_cons.mpr ⟨chain.1, ?_⟩, later⟩
      intro file inRest
      exact chain.1.trans (rel_of_pairwise_cons later inRest)
        (spans second (mem_cons_of_mem _ mem_cons_self))

variable {run : SortedRun}

theorem valid_iff_pairwise (spans : ∀ file ∈ run.files, Spans comparator file) :
    run.isValid comparator = true ↔ run.files.Pairwise (EndsBefore comparator) := by
  unfold SortedRun.isValid
  rw [valid_from_iff_chain]
  exact ⟨pairwise_of_chain spans, Pairwise.isChain⟩

section
variable (result : SortedRun.fromUnsorted comparator files = .ok run)
include result

theorem from_unsorted_valid : run.files.Perm files ∧ run.isValid comparator = true := by
  unfold SortedRun.fromUnsorted at result
  dsimp only at result
  split at result
  · rename_i valid
    cases result
    exact ⟨perm_insertionSort _ _, valid⟩
  · cases result

theorem from_unsorted_ascending : run.files.Pairwise (fun left right =>
      comparator.compareTo left.minKey right.minKey ≠ .gt) := by
  unfold SortedRun.fromUnsorted at result
  dsimp only at result
  split at result
  · cases result
    exact pairwise_insertionSort _ _
  · cases result

theorem from_unsorted_again : SortedRun.fromUnsorted comparator run.files = .ok run := by
  have sorted := (from_unsorted_ascending result).insertionSort_eq
  unfold SortedRun.fromUnsorted
  rw [sorted]
  exact if_pos (from_unsorted_valid result).2

theorem from_unsorted_pairwise : run.files.Pairwise (EndsBefore comparator) := by
  have chain := valid_from_iff_chain.mp (from_unsorted_valid result).2
  have ascending := from_unsorted_ascending result
  generalize run.files = files at chain ascending
  induction files with
  | nil => exact Pairwise.nil
  | cons first files ih =>
    cases files with
    | nil => exact pairwise_singleton _ _
    | cons second rest =>
      have later := pairwise_cons.mp ascending
      have next := isChain_cons_cons.mp chain
      apply pairwise_cons.mpr ⟨forall_mem_cons.mpr ⟨next.1, ?_⟩, ih next.2 later.2⟩
      intro file inRest
      have above := (pairwise_cons.mp later.2).1 file inRest
      exact TransCmp.lt_of_lt_of_isLE next.1 ((Comparators.not_gt_iff_isLE _ _).mp above)

end

end

namespace IntervalPartition

variable {comparator : FieldsComparator}

theorem sort_files_perm (files : List DataFileMeta) : (sortFiles comparator files).Perm files :=
  perm_insertionSort _ _

theorem not_precedes_iff (o1 o2 : DataFileMeta) : precedes comparator o2 o1 = false ↔
    compareLex (fun left right : DataFileMeta => comparator.compareTo left.minKey right.minKey)
      (fun left right => comparator.compareTo left.maxKey right.maxKey) o1 o2 ≠ .gt := by
  rw [ne_eq, OrientedCmp.gt_iff_lt]
  unfold precedes
  dsimp only [compareLex]
  cases comparator.compareTo o2.minKey o1.minKey <;>
    cases comparator.compareTo o2.maxKey o1.maxKey <;> simp

theorem sort_files_ascending (files : List DataFileMeta) :
    (sortFiles comparator files).Pairwise (fun left right =>
      (comparator.compareTo left.minKey right.minKey).isLE = true) := by
  unfold sortFiles
  simp only [not_precedes_iff]
  apply (pairwise_insertionSort _ _).imp
  intro left right lower
  unfold compareLex at lower
  cases verdict : comparator.compareTo left.minKey right.minKey <;> simp_all

@[simp]
theorem sections_from_flatten (running : List DataFileMeta) (bound : BinaryRow)
    (files : List DataFileMeta) :
    (sectionsFrom comparator running bound files).flatten = running ++ files := by
  induction files generalizing running bound with
  | nil =>
    unfold sectionsFrom
    split <;> simp_all
  | cons file files ih =>
    unfold sectionsFrom
    split
    · rw [flatten_cons, ih]
      simp
    · rw [ih]
      simp

def Bounded (comparator : FieldsComparator) (running : List DataFileMeta) (bound : BinaryRow) :
    Prop :=
  ∀ file ∈ running, (comparator.compareTo file.maxKey bound).isLE = true

/-- An unset bound is the empty row, which no key precedes. -/
theorem bound_le_extended (bound : BinaryRow) (file : DataFileMeta) :
    (comparator.compareTo bound (if bound = [] ∨ comparator.compareTo file.maxKey bound = .gt
      then file.maxKey else bound)).isLE = true ∧
    (comparator.compareTo file.maxKey (if bound = [] ∨ comparator.compareTo file.maxKey bound = .gt
      then file.maxKey else bound)).isLE = true := by
  split
  · rename_i either
    refine ⟨?_, ReflCmp.isLE_rfl⟩
    rcases either with isUnset | above
    · rw [isUnset]
      exact comparator.empty_row_le file.maxKey
    · rw [OrientedCmp.lt_of_gt above]
      rfl
  · rename_i neither
    exact ⟨ReflCmp.isLE_rfl, (Comparators.not_gt_iff_isLE _ _).mp (not_or.mp neither).2⟩

theorem Bounded.extend {running : List DataFileMeta} {bound : BinaryRow}
    (bounded : Bounded comparator running bound) (file : DataFileMeta) :
    Bounded comparator (running ++ [file])
      (if bound = [] ∨
        comparator.compareTo file.maxKey bound = .gt then file.maxKey else bound) := by
  obtain ⟨above, covers⟩ := @bound_le_extended comparator bound file
  intro other mem
  rcases mem_append.mp mem with inRunning | isFile
  · exact TransCmp.isLE_trans (bounded other inRunning) above
  · rw [mem_singleton.mp isFile]
    exact covers

theorem sections_from_apart (running : List DataFileMeta) (bound : BinaryRow)
    (files : List DataFileMeta) (bounded : Bounded comparator running bound)
    (ascending : files.Pairwise (fun left right =>
      (comparator.compareTo left.minKey right.minKey).isLE = true)) :
    (sectionsFrom comparator running bound files).Pairwise (fun earlier later =>
      ∀ left ∈ earlier, ∀ right ∈ later, EndsBefore comparator left right) := by
  induction files generalizing running bound with
  | nil =>
    unfold sectionsFrom
    split <;> simp
  | cons file files ih =>
    rw [pairwise_cons] at ascending
    unfold sectionsFrom
    split
    · rename_i opens
      have above : comparator.compareTo file.minKey bound = .gt := by
        simp only [Bool.and_eq_true, beq_iff_eq] at opens
        exact opens.2
      apply pairwise_cons.mpr
      constructor
      · intro later inLater left leftMember right rightMember
        have inFiles : right ∈ file :: files := by
          have flattened : (sectionsFrom comparator [file] file.maxKey files).flatten =
              file :: files := sections_from_flatten [file] file.maxKey files
          rw [← flattened]
          exact mem_flatten.mpr ⟨later, inLater, rightMember⟩
        have minBelow : (comparator.compareTo file.minKey right.minKey).isLE = true := by
          rcases mem_cons.mp inFiles with rfl | inRest
          · exact ReflCmp.isLE_rfl
          · exact ascending.1 right inRest
        exact TransCmp.lt_of_lt_of_isLE
          (TransCmp.lt_of_isLE_of_lt (bounded left leftMember) (OrientedCmp.lt_of_gt above))
          minBelow
      · apply ih _ _ _ ascending.2
        intro other mem
        rw [mem_singleton.mp mem]
        exact ReflCmp.isLE_rfl
    · exact ih _ _ (bounded.extend file) ascending.2

variable {heap : RunQueue comparator}

theorem place_perm (queue : List OpenRun) (file : DataFileMeta) :
    ((place heap queue file).flatMap OpenRun.files).Perm
      (queue.flatMap OpenRun.files ++ [file]) := by
  cases queue with
  | nil => exact .refl _
  | cons top queue =>
    unfold place
    dsimp only
    split
    · apply ((heap.perm _ _).flatMap_right _).trans
      simp only [flatMap_cons, OpenRun.files, perm_iff_count, count_append]
      intro other
      omega
    · apply ((heap.perm _ _).flatMap_right _).trans
      rw [flatMap_cons, flatMap_cons, append_assoc]
      apply Perm.append_left
      apply ((heap.perm _ _).flatMap_right _).trans
      exact perm_append_comm

theorem place_all_perm (files : List DataFileMeta) (queue : List OpenRun) :
    ((files.foldl (place heap) queue).flatMap OpenRun.files).Perm
      (queue.flatMap OpenRun.files ++ files) := by
  induction files generalizing queue with
  | nil => simp
  | cons file files ih =>
    apply (ih (place heap queue file)).trans
    have placed := (@place_perm comparator heap queue file).append_right files
    rwa [append_assoc] at placed

theorem partition_section_perm (files : List DataFileMeta) :
    ((partitionSection heap files).flatMap SortedRun.files).Perm files := by
  unfold partitionSection
  rw [flatMap_map]
  exact place_all_perm files []

/-- The runs under construction hold the files placed so far, each run in key order. -/
structure Arranged (comparator : FieldsComparator) (placed : List DataFileMeta)
    (queue : List OpenRun) : Prop where
  perm : (queue.flatMap OpenRun.files).Perm placed
  valid : ∀ run ∈ queue, run.files.Pairwise (EndsBefore comparator)

theorem push_valid {queue : List OpenRun} {run : OpenRun}
    (valid : ∀ other ∈ queue, other.files.Pairwise (EndsBefore comparator))
    (runValid : run.files.Pairwise (EndsBefore comparator)) :
    ∀ other ∈ heap.push queue run, other.files.Pairwise (EndsBefore comparator) := by
  intro other mem
  rcases mem_cons.mp ((heap.perm queue run).mem_iff.mp mem) with rfl | inQueue
  · exact runValid
  · exact valid other inQueue

theorem Arranged.place {placed : List DataFileMeta} {queue : List OpenRun}
    (arranged : Arranged comparator placed queue)
    (spans : ∀ file ∈ placed, Spans comparator file) (file : DataFileMeta) :
    Arranged comparator (placed ++ [file]) (place heap queue file) := by
  refine ⟨(place_perm queue file).trans (arranged.perm.append_right _), ?_⟩
  cases queue with
  | nil => simp [IntervalPartition.place, OpenRun.files]
  | cons top queue =>
    have othersValid : ∀ run ∈ queue, run.files.Pairwise (EndsBefore comparator) :=
      fun run mem => arranged.valid run (mem_cons_of_mem _ mem)
    have topValid := arranged.valid top mem_cons_self
    have topPlaced : top.2 ∈ placed := arranged.perm.mem_iff.mp (by simp [OpenRun.files])
    unfold IntervalPartition.place
    dsimp only
    split
    · rename_i later
      have next : EndsBefore comparator top.2 file := OrientedCmp.lt_of_gt later
      apply push_valid othersValid
      apply pairwise_append.mpr
      refine ⟨topValid, pairwise_singleton _ _, ?_⟩
      intro left inTop right isFile
      rw [mem_singleton.mp isFile]
      rcases mem_append.mp inTop with inInit | isLast
      · have before : EndsBefore comparator left top.2 :=
          (pairwise_append.mp topValid).2.2 left inInit top.2 (by simp)
        exact before.trans next (spans top.2 topPlaced)
      · rw [mem_singleton.mp isLast]
        exact next
    · exact push_valid (push_valid othersValid (pairwise_singleton _ _)) topValid

theorem arranged_after (files placed : List DataFileMeta) (queue : List OpenRun)
    (arranged : Arranged comparator placed queue)
    (spans : ∀ file ∈ placed ++ files, Spans comparator file) :
    Arranged comparator (placed ++ files) (files.foldl (IntervalPartition.place heap) queue) := by
  induction files generalizing placed queue with
  | nil => simpa using arranged
  | cons file files ih =>
    have placedSpans : ∀ other ∈ placed, Spans comparator other := fun other mem =>
      spans other (mem_append_left _ mem)
    have after := ih (placed ++ [file]) (IntervalPartition.place heap queue file)
      (arranged.place placedSpans file)
    rw [append_assoc] at after
    exact after spans

theorem partition_section_valid {files : List DataFileMeta}
    (spans : ∀ file ∈ files, Spans comparator file) :
    ∀ run ∈ partitionSection heap files, run.files.Pairwise (EndsBefore comparator) := by
  have arranged : Arranged comparator files (files.foldl (IntervalPartition.place heap) []) :=
    arranged_after files [] [] ⟨.refl _, by simp⟩ spans
  intro run mem
  obtain ⟨opened, inQueue, rfl⟩ := mem_map.mp mem
  exact arranged.valid opened inQueue

end IntervalPartition

end PaimonCore.MergeTree
