import Mathlib.Data.Finset.Sort
import PaimonCore.GlobalIndex.GlobalIndexEvaluator
import PaimonCore.Library.Matchings
import PaimonCore.Scan.DataEvolutionFileStoreScan

/-!
# `DataEvolutionBatchScan`

The row ids that the global indexes give become ranges, the data scan is restricted to them, and
every split of it is cut down to the ids that lie in its files. No row that satisfies the
predicate and is indexed is lost.
-/

namespace PaimonCore.GlobalIndex

open EvolutionScan Predicates Programs PaimonCore.Ranges List

/-- The loop of `ToRanges` over the ids in ascending order. -/
def rangesFrom (current : Range) : List Int → List Range
  | [] => [current]
  | next :: rest =>
    if next = current.last + 1 then
      rangesFrom ⟨current.first, current.last + 1, Int.le_add_one current.ordered⟩ rest
    else current :: rangesFrom ⟨next, next, Int.le_refl next⟩ rest

def toRanges (ids : Finset Int) : List Range :=
  match ids.sort with
  | [] => []
  | first :: rest => rangesFrom ⟨first, first, Int.le_refl first⟩ rest

structure PlannedSplit where
  files : List EvolutionFile
  ranges : List Range

def wholeSplit (files : List EvolutionFile) : PlannedSplit where
  files := files
  ranges := sortAndMergeOverlap (files.map EvolutionFile.range) true

/-- What `WrapToIndexedSplits` does with one split. -/
def wrapToIndexedSplit (index : RowRangeIndex) (files : List EvolutionFile) :
    Except String PlannedSplit :=
  match files with
  | [] => .error "Empty data files in WrapToIndexedSplits"
  | file :: rest =>
    let intersected := (file :: rest).flatMap (fun file => index.intersectedRanges file.range)
    let expected := sortAndMergeOverlap intersected true
    if expected.isEmpty then
      .error ("There should be intersected ranges for split with min row id " ++
        toString (groupFirst rest file.range.first) ++ " and max row id " ++
        toString (groupLast rest file.range.last) ++ ".")
    else .ok ⟨file :: rest, expected⟩

def scanPlan (table : EvolutionTable) (options : SplitOptions) (predicate : Predicate)
    (rowRangeIndex : Option RowRangeIndex) : Except String (List (List EvolutionFile)) := do
  let files ← scanFiles table.types.length predicate rowRangeIndex table.live
  return generateSplits options files

def planFor (table : EvolutionTable) (options : SplitOptions) (predicate : Predicate)
    (result : Option (Finset Int)) : Except String (List PlannedSplit) :=
  match result with
  | none => do
    let splits ← scanPlan table options predicate none
    return splits.map wholeSplit
  | some ids =>
    if (toRanges ids).isEmpty then .ok []
    else do
      let splits ← scanPlan table options predicate (some (.create (toRanges ids) true))
      splits.mapM (wrapToIndexedSplit (.create (toRanges ids) true))

def createPlan (table : EvolutionTable) (options : SplitOptions) (metas : IndexMetas)
    (predicate : Predicate) : Except String (List PlannedSplit) := do
  let result ← evaluate metas predicate
  planFor table options predicate result

def plannedRows (plan : List PlannedSplit) : List Int :=
  plan.flatMap (fun split => idsOf split.ranges)

theorem ranges_from_covers (current : Range) (rest : List Int) (id : Int) :
    Covers (rangesFrom current rest) id ↔ id ∈ current ∨ id ∈ rest := by
  induction rest generalizing current with
  | nil => simp [rangesFrom, covers_cons, covers_nil]
  | cons next rest ih =>
    rw [rangesFrom]
    split
    · next adjacent =>
        have ordered := current.ordered
        rw [ih, mem_cons, Range.mem_iff, Range.mem_iff]
        dsimp only
        constructor
        · rintro (inside | later)
          · omega
          · exact .inr (.inr later)
        · rintro (inside | same | later)
          · omega
          · omega
          · exact .inr later
    · rw [covers_cons, ih, mem_cons, @Range.mem_iff _ ⟨next, next, Int.le_refl next⟩]
      dsimp only
      constructor
      · rintro (inside | same | later)
        · exact .inl inside
        · exact .inr (.inl (by omega))
        · exact .inr (.inr later)
      · rintro (inside | same | later)
        · exact .inl inside
        · exact .inr (.inl (by omega))
        · exact .inr (.inr later)

theorem to_ranges_covers (ids : Finset Int) (id : Int) : Covers (toRanges ids) id ↔ id ∈ ids := by
  rw [← Finset.mem_sort (· ≤ ·), toRanges]
  split
  · next empty => simp [empty, covers_nil]
  · next first rest sorted =>
      rw [ranges_from_covers, sorted, mem_cons, Range.mem_iff]
      dsimp only
      constructor
      · rintro (same | later)
        · exact .inl (by omega)
        · exact .inr later
      · rintro (same | later)
        · exact .inl (by omega)
        · exact .inr later

def Disjoint (left right : List EvolutionFile) : Prop :=
  ∀ first ∈ left, ∀ second ∈ right, ∀ id, ¬(id ∈ first.range ∧ id ∈ second.range)

theorem disjoint_of_before {left right : List EvolutionFile}
    (before : GroupBefore EvolutionFile.range left right) : Disjoint left right := by
  rintro first isFirst second isSecond id ⟨inFirst, inSecond⟩
  have order := before first isFirst second isSecond
  rw [Range.mem_iff] at inFirst inSecond
  omega

theorem mem_split_for_batch {options : SplitOptions} {files : List EvolutionFile}
    {file : EvolutionFile} :
    (∃ split ∈ splitForBatch options files, file ∈ split) ↔ file ∈ files := by
  rw [← mem_flatten, splitForBatch, ← flatten_flatten, pack_flatten]
  exact (merge_overlapping_perm files).mem_iff

theorem split_for_batch_disjoint (options : SplitOptions) (files : List EvolutionFile) :
    (splitForBatch options files).Pairwise Disjoint := by
  have apart := @merge_overlapping_apart EvolutionFile EvolutionFile.range files
  rw [← pack_flatten (groupWeight options) options.targetSplitSize
    (mergeOverlappingRanges EvolutionFile.range files), pairwise_flatten] at apart
  rw [splitForBatch, pairwise_map]
  apply apart.2.imp
  intro left right before first isFirst second isSecond
  obtain ⟨firstGroup, isFirstGroup, inFirst⟩ := mem_flatten.mp isFirst
  obtain ⟨secondGroup, isSecondGroup, inSecond⟩ := mem_flatten.mp isSecond
  exact disjoint_of_before (before firstGroup isFirstGroup secondGroup isSecondGroup)
    first inFirst second inSecond

theorem split_for_batch_nonempty (options : SplitOptions) (files : List EvolutionFile) :
    ∀ split ∈ splitForBatch options files, split ≠ [] := by
  intro split mem empty
  obtain ⟨pack, isPack, rfl⟩ := mem_map.mp mem
  have filled := pack_from_nonempty _ _ _ _ _ pack isPack
  obtain ⟨group, isGroup⟩ := exists_mem_of_ne_nil pack filled
  have inGroups : group ∈ mergeOverlappingRanges EvolutionFile.range files := by
    rw [← pack_flatten (groupWeight options) options.targetSplitSize
      (mergeOverlappingRanges EvolutionFile.range files)]
    exact mem_flatten.mpr ⟨pack, isPack, isGroup⟩
  exact merge_overlapping_nonempty files group inGroups (flatten_eq_nil_iff.mp empty group isGroup)

theorem mem_generate_splits {options : SplitOptions} {files : List EvolutionFile}
    {file : EvolutionFile} :
    (∃ split ∈ generateSplits options files, file ∈ split) ↔ file ∈ files := by
  constructor
  · rintro ⟨split, mem, inSplit⟩
    obtain ⟨bucket, _, isSplit⟩ := mem_flatMap.mp mem
    exact mem_of_mem_filter (mem_split_for_batch.mp ⟨split, isSplit, inSplit⟩)
  · intro mem
    obtain ⟨split, isSplit, inSplit⟩ := (@mem_split_for_batch options
      (files.filter (fun other => decide (other.bucket = file.bucket))) file).mpr
        (mem_filter.mpr ⟨mem, by simp⟩)
    exact ⟨split, mem_flatMap.mpr ⟨file.bucket, mem_dedup.mpr (mem_map_of_mem mem),
      isSplit⟩, inSplit⟩

variable {table : EvolutionTable}

theorem generate_splits_disjoint (options : SplitOptions) {files : List EvolutionFile}
    (live : ∀ file ∈ files, file ∈ table.live) :
    (generateSplits options files).Pairwise Disjoint := by
  rw [generateSplits, pairwise_flatMap]
  refine ⟨fun bucket _ => split_for_batch_disjoint options _, ?_⟩
  apply (nodup_dedup _).imp
  intro left right differs leftSplit isLeft rightSplit isRight first inLeft second inRight
  obtain ⟨firstMember, firstBucket⟩ :=
    mem_filter.mp (mem_split_for_batch.mp ⟨leftSplit, isLeft, inLeft⟩)
  obtain ⟨secondMember, secondBucket⟩ :=
    mem_filter.mp (mem_split_for_batch.mp ⟨rightSplit, isRight, inRight⟩)
  rw [decide_eq_true_iff] at firstBucket secondBucket
  apply table.bucketsApart first (live first firstMember) second (live second secondMember)
  rw [firstBucket, secondBucket]
  exact differs

theorem generate_splits_nonempty (options : SplitOptions) (files : List EvolutionFile) :
    ∀ split ∈ generateSplits options files, split ≠ [] := by
  intro split mem
  obtain ⟨bucket, _, isSplit⟩ := mem_flatMap.mp mem
  exact split_for_batch_nonempty options _ split isSplit

/-- The planned ids of a split are those of its files that are requested. -/
structure Reads (requested : Int → Prop) (files : List EvolutionFile) (split : PlannedSplit) :
    Prop where
  same : split.files = files
  ascending : Ascending split.ranges
  covers : ∀ id, Covers split.ranges id ↔ (∃ file ∈ files, id ∈ file.range) ∧ requested id

theorem whole_split_reads (files : List EvolutionFile) :
    Reads (fun _ => True) files (wholeSplit files) where
  same := rfl
  ascending := sort_and_merge_ascending _ _
  covers := by
    intro id
    rw [wholeSplit, sort_and_merge_covers]
    simp [Covers]

variable {index : RowRangeIndex}

theorem wrapped_covers {files : List EvolutionFile} {id : Int} : Covers (sortAndMergeOverlap
        (files.flatMap (fun file => index.intersectedRanges file.range)) true) id ↔
      (∃ file ∈ files, id ∈ file.range) ∧ Covers index.ranges id := by
  rw [sort_and_merge_covers]
  constructor
  · rintro ⟨range, mem, inside⟩
    obtain ⟨file, isFile, isRange⟩ := mem_flatMap.mp mem
    obtain ⟨inFile, covered⟩ := (index.intersected_covers file.range id).mp ⟨range, isRange, inside⟩
    exact ⟨⟨file, isFile, inFile⟩, covered⟩
  · rintro ⟨⟨file, isFile, inFile⟩, covered⟩
    obtain ⟨range, isRange, inside⟩ :=
      (index.intersected_covers file.range id).mpr ⟨inFile, covered⟩
    exact ⟨range, mem_flatMap.mpr ⟨file, isFile, isRange⟩, inside⟩

theorem wrap_reads {files : List EvolutionFile} {split : PlannedSplit}
    (wraps : wrapToIndexedSplit index files = .ok split) :
    Reads (Covers index.ranges) files split := by
  rw [wrapToIndexedSplit.eq_def] at wraps
  split at wraps
  · cases wraps
  · dsimp only at wraps
    split at wraps
    · cases wraps
    · cases wraps
      exact ⟨rfl, sort_and_merge_ascending _ _, fun _ => wrapped_covers⟩

theorem wrap_ok {files : List EvolutionFile} (nonempty : files ≠ [])
    (requested : ∀ file ∈ files, index.intersects file.range = true) :
    ∃ split, wrapToIndexedSplit index files = .ok split := by
  cases files with
  | nil => exact absurd rfl nonempty
  | cons file rest =>
    rw [wrapToIndexedSplit]
    split
    · next empty =>
        obtain ⟨id, inFile, covered⟩ :=
          RowRangeIndex.intersects_iff.mp (requested file mem_cons_self)
        have found := wrapped_covers.mpr ⟨⟨file, mem_cons_self (l := rest), inFile⟩, covered⟩
        rw [isEmpty_iff.mp empty] at found
        exact absurd found (covers_nil id)
    · exact ⟨_, rfl⟩

variable {requested : Int → Prop} {splits : List (List EvolutionFile)} {plan : List PlannedSplit}

theorem planned_rows_nodup (disjoint : splits.Pairwise Disjoint)
    (reads : List.Forall₂ (Reads requested) splits plan) : (plannedRows plan).Nodup := by
  induction reads with
  | nil => exact .nil
  | @cons files split laterFiles laterPlan isRead laterRead ih =>
    obtain ⟨apart, laterDisjoint⟩ := pairwise_cons.mp disjoint
    rw [plannedRows, flatMap_cons, nodup_append]
    refine ⟨(ids_of_ascending isRead.ascending).imp ne_of_lt, ih laterDisjoint, ?_⟩
    intro id inSplit other inLater same
    subst same
    obtain ⟨laterSplit, isLater, inLaterSplit⟩ := mem_flatMap.mp inLater
    obtain ⟨otherFiles, isOther, otherRead⟩ := Matchings.forall₂_mem laterRead.flip isLater
    obtain ⟨⟨first, isFirst, inFirst⟩, -⟩ := (isRead.covers id).mp (mem_ids_of.mp inSplit)
    obtain ⟨⟨second, isSecond, inSecond⟩, -⟩ :=
      (otherRead.covers id).mp (mem_ids_of.mp inLaterSplit)
    exact apart otherFiles isOther first isFirst second isSecond id ⟨inFirst, inSecond⟩

theorem mem_planned_rows (reads : List.Forall₂ (Reads requested) splits plan) (id : Int) :
    id ∈ plannedRows plan ↔ (∃ files ∈ splits, ∃ file ∈ files, id ∈ file.range) ∧ requested id := by
  induction reads with
  | nil => simp [plannedRows]
  | @cons files split laterFiles laterPlan isRead _ ih =>
    rw [plannedRows, flatMap_cons, mem_append, ← plannedRows, ih, mem_ids_of, isRead.covers]
    rw [← or_and_right, exists_mem_cons_iff]

variable {predicate : Predicate}

theorem scan_plan_reads {options : SplitOptions} {rowRangeIndex : Option RowRangeIndex}
    (typed : WellTyped table.types predicate)
    (scans : scanPlan table options predicate rowRangeIndex = .ok splits)
    (implies : ∀ id, requested id → ∀ index, rowRangeIndex = some index → Covers index.ranges id)
    (reads : List.Forall₂ (Reads requested) splits plan) :
    (plannedRows plan).Nodup ∧ (∀ id ∈ plannedRows plan, table.Contains id) ∧
      ∀ id, table.Contains id → table.Satisfies predicate id → requested id →
        id ∈ plannedRows plan := by
  obtain ⟨kept, keeps, isSplits⟩ := bind_eq_ok.mp scans
  cases isSplits
  have live : ∀ file ∈ kept, file ∈ table.live := fun file mem => (scan_subset keeps file mem).1
  refine ⟨planned_rows_nodup (generate_splits_disjoint options live) reads, ?_, ?_⟩
  · intro id planned
    obtain ⟨⟨files, isSplit, file, inSplit, inside⟩, -⟩ := (mem_planned_rows reads id).mp planned
    exact ⟨file, live file (mem_generate_splits.mp ⟨files, isSplit, inSplit⟩), inside⟩
  · rintro id ⟨file, isLive, inside⟩ satisfies isRequested
    have isKept := scan_keeps typed keeps (implies id isRequested) satisfies file isLive inside
    obtain ⟨files, isSplit, inSplit⟩ := (@mem_generate_splits options kept file).mpr isKept
    exact (mem_planned_rows reads id).mpr ⟨⟨files, isSplit, file, inSplit, inside⟩, isRequested⟩

def filterRows (table : EvolutionTable) (predicate : Predicate) (ids : List Int) : List Int :=
  ids.filter (fun id => decide ((predicate.test (table.rows id)).toOption = some true))

theorem mem_filter_rows {ids : List Int} {id : Int} :
    id ∈ filterRows table predicate ids ↔ id ∈ ids ∧ table.Satisfies predicate id := by
  rw [filterRows, mem_filter, EvolutionTable.Satisfies]
  cases predicate.test (table.rows id) with
  | error error => simp [Except.toOption]
  | ok accepted => simp [Except.toOption]

theorem filter_rows_nodup {ids : List Int} (once : ids.Nodup) :
    (filterRows table predicate ids).Nodup := once.filter _

/-- Every row that satisfies the predicate and is not ruled out by the indexes is planned. -/
theorem plan_for_reads {table : EvolutionTable} {options : SplitOptions} {predicate : Predicate}
    {result : Option (Finset Int)} {plan : List PlannedSplit}
    (typed : WellTyped table.types predicate)
    (plans : planFor table options predicate result = .ok plan) :
    (plannedRows plan).Nodup ∧ (∀ id ∈ plannedRows plan, table.Contains id) ∧
      ∀ id, table.Contains id → table.Satisfies predicate id →
        (∀ ids, result = some ids → id ∈ ids) → id ∈ plannedRows plan := by
  cases result with
  | none =>
    obtain ⟨splits, scans, isPlan⟩ := bind_eq_ok.mp plans
    cases isPlan
    obtain ⟨once, contained, found⟩ :=
      scan_plan_reads typed scans (by intro id _ index isIndex; cases isIndex)
        (forall₂_map_right_iff.mpr (forall₂_same.mpr (fun files _ => whole_split_reads files)))
    exact ⟨once, contained, fun id contains satisfies _ => found id contains satisfies trivial⟩
  | some ids =>
    rw [planFor] at plans
    split at plans
    · next empty =>
        cases plans
        refine ⟨.nil, nofun, ?_⟩
        intro id _ _ inResult
        have covered := (to_ranges_covers ids id).mpr (inResult ids rfl)
        rw [isEmpty_iff.mp empty] at covered
        exact absurd covered (covers_nil id)
    · obtain ⟨splits, scans, wraps⟩ := bind_eq_ok.mp plans
      obtain ⟨once, contained, found⟩ := scan_plan_reads typed scans
        (by intro id covered index isIndex; cases isIndex; exact covered)
        ((map_m_pairs wraps).imp (fun _ _ => wrap_reads))
      refine ⟨once, contained, ?_⟩
      intro id contains satisfies inResult
      apply found id contains satisfies
      exact (sort_and_merge_covers _ _ _).mpr ((to_ranges_covers ids id).mpr (inResult ids rfl))

theorem plan_for_error {options : SplitOptions} {result : Option (Finset Int)} {error : String}
    (fails : planFor table options predicate result = .error error) :
    ∃ rowRangeIndex, scanPlan table options predicate rowRangeIndex = .error error := by
  cases result with
  | none =>
    rcases bind_eq_error.mp fails with scanFails | ⟨splits, _, isPlan⟩
    · exact ⟨none, scanFails⟩
    · cases isPlan
  | some ids =>
    rw [planFor] at fails
    split at fails
    · cases fails
    · rcases bind_eq_error.mp fails with scanFails | ⟨splits, scans, wrapFails⟩
      · exact ⟨_, scanFails⟩
      · obtain ⟨kept, keeps, isSplits⟩ := bind_eq_ok.mp scans
        cases isSplits
        obtain ⟨plan, isPlan⟩ := map_m_total (fun files isSplit =>
          @wrap_ok (RowRangeIndex.create (toRanges ids) true) files
            (generate_splits_nonempty options kept files isSplit) (fun file inSplit =>
              (scan_subset keeps file (mem_generate_splits.mp ⟨files, isSplit, inSplit⟩)).2))
        rw [isPlan] at wrapFails
        cases wrapFails

/-- Every row that satisfies the predicate and is covered by the indexes is planned. With indexes
on the whole table the plan and one without indexes give the same rows, each once. -/
theorem covered_rows_planned (table : EvolutionTable) (options : SplitOptions) (metas : IndexMetas)
    (predicate : Predicate) (typed : WellTyped table.types predicate)
    (shardsExact : ∀ field, ∀ index ∈ metas field, ∀ shard ∈ index.shards,
      shard.Exact table.types table.rows table.Contains field) :
    (∀ plan, createPlan table options metas predicate = .ok plan →
      (∀ id, table.Contains id → table.Satisfies predicate id → Indexed metas predicate id →
        id ∈ plannedRows plan) ∧ ((∀ id, table.Contains id → Indexed metas predicate id) →
        (filterRows table predicate (plannedRows plan)).Nodup ∧
        ∀ splits, scanPlan table options predicate none = .ok splits →
          (filterRows table predicate (plannedRows plan)).Perm
            (filterRows table predicate (plannedRows (splits.map wholeSplit))))) ∧
    ∀ error, createPlan table options metas predicate = .error error →
      evaluate metas predicate = .error error ∨
        ∃ rowRangeIndex, scanPlan table options predicate rowRangeIndex = .error error := by
  constructor
  · intro plan plans
    obtain ⟨result, evaluates, plans⟩ := bind_eq_ok.mp plans
    obtain ⟨once, contained, found⟩ := plan_for_reads typed plans
    have covered : ∀ id, table.Contains id → table.Satisfies predicate id →
        Indexed metas predicate id → id ∈ plannedRows plan := by
      intro id contains satisfies indexed
      apply found id contains satisfies
      rintro ids rfl
      exact evaluate_mem shardsExact typed contains indexed satisfies evaluates
    refine ⟨covered, ?_⟩
    intro allIndexed
    refine ⟨filter_rows_nodup once, ?_⟩
    intro splits scans
    obtain ⟨wholeOnce, wholeContained, wholeFound⟩ :=
      @plan_for_reads table options predicate none (splits.map wholeSplit) typed
        (bind_eq_ok.mpr ⟨splits, scans, rfl⟩)
    apply (perm_ext_iff_of_nodup (filter_rows_nodup once) (filter_rows_nodup wholeOnce)).mpr
    intro id
    rw [mem_filter_rows, mem_filter_rows]
    constructor
    · rintro ⟨planned, satisfies⟩
      refine ⟨wholeFound id (contained id planned) satisfies ?_, satisfies⟩
      intro ids isNone
      cases isNone
    · rintro ⟨planned, satisfies⟩
      have contains := wholeContained id planned
      exact ⟨covered id contains satisfies (allIndexed id contains), satisfies⟩
  · intro error fails
    rcases bind_eq_error.mp fails with evaluateFails | ⟨result, _, planFails⟩
    · exact .inl evaluateFails
    · exact .inr (plan_for_error planFails)

/-- Two rows; of all rows only that with id 1 has a value. -/
def pairFile (first : Int) : EvolutionFile where
  bucket := 0
  range := ⟨first, first + 1, by omega⟩
  maxSequenceNumber := 0
  fileSize := 1
  isBlob := false
  isNormal := true
  fields := [0]
  stats := fun _ => none
  values := fun id _ => if id = 1 then some (.integer 5) else none
  dedicated := by intro notNormal; cases notNormal

def pairFiles : List EvolutionFile := [pairFile 0, pairFile 2]

theorem pair_file_of_mem {file : EvolutionFile} (isLive : file ∈ pairFiles) :
    ∃ first, file = pairFile first := by
  rcases mem_pair.mp isLive with isFirst | isSecond
  · exact ⟨0, isFirst⟩
  · exact ⟨2, isSecond⟩

def twoFileTable : EvolutionTable where
  types := [.int]
  live := pairFiles
  rows := fun id => [if id = 1 then some (.integer 5) else none]
  width := fun _ => rfl
  newest := by
    rintro id field file ⟨isLive, -, has, -⟩
    obtain ⟨first, rfl⟩ := pair_file_of_mem isLive
    rw [List.mem_singleton.mp has]
    rfl
  missing := by
    intro id field noFile
    cases field with
    | succ field => rfl
    | zero =>
      by_cases isOne : id = 1
      · refine absurd ⟨mem_cons_self, ?_, List.mem_singleton.mpr rfl, ?_⟩ (noFile (pairFile 0))
        · rw [Range.mem_iff, isOne]
          decide
        · intro other isLive _ _
          obtain ⟨first, rfl⟩ := pair_file_of_mem isLive
          exact Int.le_refl 0
      · exact if_neg isOne
  described := by
    intro file isLive field stats _ _ hasStats
    obtain ⟨first, rfl⟩ := pair_file_of_mem isLive
    cases hasStats
  bucketsApart := by
    intro left isLeft right isRight differs
    obtain ⟨first, rfl⟩ := pair_file_of_mem isLeft
    obtain ⟨second, rfl⟩ := pair_file_of_mem isRight
    exact absurd rfl differs

/-- The shard of one file answers IS NULL only. -/
def nullShard (first : Int) (nulls : Finset Int) : Shard where
  range := ⟨first, first + 1, by omega⟩
  answer := fun function _ => if function = .isNull then some nulls else none

def nullShards : List Shard := [nullShard 0 {0}, nullShard 2 {0, 1}]

def nullMetas : IndexMetas := fun field => if field = 0 then [⟨"bitmap", true, nullShards⟩] else []

def isNullLeaf : Predicate := .leaf .isNull 0 .int []

/-- The second branch is unknown to the index: no shard answers its comparison. -/
def nullTree : Predicate :=
  .compound .and
    [isNullLeaf, .compound .or [isNullLeaf, .leaf .equal 0 .int [⟨.int, some (.integer 5)⟩]]]

theorem null_shard_exact {first : Int} {nulls : Finset Int}
    (right : ∀ position, position ∈ nulls ↔
      0 ≤ position ∧ position < 2 ∧ first + position ≠ 1) :
    (nullShard first nulls).Exact twoFileTable.types twoFileTable.rows twoFileTable.Contains 0 := by
  intro function fieldType literals ids column answers position _
  cases column
  cases function <;> cases answers
  rw [right position]
  have isNull : testLeaf (twoFileTable.rows (first + position)) .isNull 0 .int literals =
      .ok true ↔ first + position ≠ 1 := by
    by_cases isOne : first + position = 1
    · simp only [twoFileTable, isOne, if_true]
      exact ⟨nofun, fun differs => absurd rfl differs⟩
    · simp only [twoFileTable, isOne, if_false]
      exact ⟨fun _ => isOne, fun _ => rfl⟩
  have isCount : ((nullShard first nulls).range.count : Int) = 2 := by
    simp only [nullShard, Range.count]
    omega
  rw [isCount]
  exact and_congr_right fun _ => and_congr_right fun _ => isNull.symm

theorem null_shards_exact : ∀ field, ∀ index ∈ nullMetas field, ∀ shard ∈ index.shards,
    shard.Exact twoFileTable.types twoFileTable.rows twoFileTable.Contains field := by
  intro field index isIndex shard isShard
  rw [nullMetas] at isIndex
  split at isIndex
  · next isZero =>
      rw [mem_singleton.mp isIndex] at isShard
      rw [isZero]
      rcases mem_pair.mp isShard with rfl | rfl
      · apply null_shard_exact
        intro position
        rw [Finset.mem_singleton]
        omega
      · apply null_shard_exact
        intro position
        rw [Finset.mem_insert, Finset.mem_singleton]
        omega
  · cases isIndex

theorem normalize_compound (function : CompoundFunction) (children : List Predicate) :
    normalizePredicate (.compound function children) =
      (pruneChildren function (flattenChildren function children)).mapM normalizePredicate >>=
        buildCompound function := by
  rw [normalizePredicate, mapM_subtype (fun _ _ => rfl), unattach_attach]

theorem null_tree_normalizes : normalizePredicate nullTree = .ok nullTree := by
  have leaf : ∀ function literals, normalizePredicate (.leaf function 0 .int literals) =
      .ok (.leaf function 0 .int literals) := by
    intro function literals
    rw [normalizePredicate]
  simp [nullTree, isNullLeaf, normalize_compound, leaf, flattenChildren, flattenChild,
    pruneChildren, isRedundant, buildCompound, bind, Except.bind, pure, Except.pure]

theorem null_tree_evaluates : evaluate nullMetas nullTree = .ok (some {0, 2, 3}) := by
  rw [evaluate, null_tree_normalizes]
  simp only [bind, pure, Except.bind, Except.pure, nullTree, isNullLeaf, evaluatePredicate,
    map_cons, map_nil]
  decide

theorem to_ranges_nulls : toRanges {0, 2, 3} = [⟨0, 0, Int.le_refl 0⟩, ⟨2, 3, by omega⟩] := by
  have sorted : ([0, 2, 3] : List Int).toFinset.sort = [0, 2, 3] :=
    (toFinset_sort (· ≤ ·) (by decide)).mpr (by decide)
  rw [toRanges, show ({0, 2, 3} : Finset Int) = [0, 2, 3].toFinset from rfl, sorted]
  rfl

theorem null_plan :
    ∃ plan, createPlan twoFileTable ⟨100, 1, false⟩ nullMetas nullTree = .ok plan := by
  rw [createPlan, null_tree_evaluates]
  simp only [bind, Except.bind]
  rw [planFor, to_ranges_nulls, scanPlan, scanFiles]
  have groups : mergeOverlappingRanges EvolutionFile.range (twoFileTable.live.filter
      (filterByRowRanges (some (.create [⟨0, 0, Int.le_refl 0⟩, ⟨2, 3, by omega⟩] true)))) =
        [[pairFile 0], [pairFile 2]] := rfl
  have kept : keepGroups twoFileTable.types.length nullTree [[pairFile 0], [pairFile 2]] =
      .ok pairFiles := by
    simp only [keepGroups, filterByStatsWithSameRowId, nullTree, isNullLeaf, Predicate.testStats,
      map_cons, map_nil]
    rfl
  rw [groups, kept]
  exact ⟨_, rfl⟩

theorem null_tree_typed : WellTyped twoFileTable.types nullTree := by
  have isNull : WellTyped twoFileTable.types isNullLeaf := .leaf rfl rfl ⟨nofun, nofun, nofun⟩
  have isFive : WellTyped twoFileTable.types
      (.leaf .equal 0 .int [⟨.int, some (.integer 5)⟩]) := by
    refine .leaf rfl rfl ⟨?_, fun _ => cons_ne_nil _ _, nofun⟩
    intro literal mem
    rw [mem_singleton.mp mem]
  apply WellTyped.compound
  rw [forall_mem_cons, forall_mem_singleton]
  refine ⟨isNull, .compound ?_⟩
  rw [forall_mem_cons, forall_mem_singleton]
  exact ⟨isNull, isFive⟩

theorem null_rows_indexed {id : Int} (contains : twoFileTable.Contains id) :
    Indexed nullMetas nullTree id := by
  intro field _ index isIndex _
  rw [nullMetas] at isIndex
  split at isIndex
  · rw [mem_singleton.mp isIndex]
    obtain ⟨file, isLive, inside⟩ := contains
    rcases mem_pair.mp isLive with rfl | rfl
    · exact ⟨(nullShard 0 {0}).range, mem_map_of_mem mem_cons_self, inside⟩
    · exact ⟨(nullShard 2 {0, 1}).range, mem_map_of_mem (mem_cons_of_mem _ mem_cons_self), inside⟩
  · cases isIndex

theorem null_row_planned : ∃ plan,
    createPlan twoFileTable ⟨100, 1, false⟩ nullMetas nullTree = .ok plan ∧
      0 ∈ plannedRows plan ∧ 3 ∈ plannedRows plan := by
  obtain ⟨plan, plans⟩ := null_plan
  have planned := ((covered_rows_planned twoFileTable ⟨100, 1, false⟩ nullMetas nullTree
    null_tree_typed null_shards_exact).1 plan plans).1
  have first : twoFileTable.Contains 0 :=
    ⟨pairFile 0, mem_cons_self, by rw [Range.mem_iff]; decide⟩
  have last : twoFileTable.Contains 3 :=
    ⟨pairFile 2, mem_cons_of_mem _ mem_cons_self, by rw [Range.mem_iff]; decide⟩
  refine ⟨plan, plans, planned 0 first ?_ (null_rows_indexed first),
    planned 3 last ?_ (null_rows_indexed last)⟩ <;>
    simp only [EvolutionTable.Satisfies, nullTree, isNullLeaf, Predicate.test,
      map_cons, map_nil] <;>
    rfl

end PaimonCore.GlobalIndex
