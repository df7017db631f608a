import PaimonCore.Common.RangeHelper
import PaimonCore.Common.RowRangeIndex
import PaimonCore.Library.Programs
import PaimonCore.Predicate.StatisticsPruning

/-!
# `DataEvolutionFileStoreScan`

The files of a data-evolution table hold different columns of the same rows. The scan leaves out
files that no requested row id lies in, and then groups of overlapping files whose combined
statistics exclude the predicate.
-/

namespace PaimonCore.EvolutionScan

open Predicates Programs PaimonCore.Ranges List

structure ColumnStats where
  minValue : Option LiteralValue
  maxValue : Option LiteralValue
  nullCount : Option Int

/-- What the scan reads of a data file, and the values in it. -/
structure EvolutionFile where
  bucket : Nat
  range : Range
  maxSequenceNumber : Int
  fileSize : Int
  isBlob : Bool
  isNormal : Bool
  /-- The columns that predicates can be on, by their position in the table. -/
  fields : List Nat
  /-- Of those columns that are stored and have the type of now. -/
  stats : Nat → Option ColumnStats
  values : Int → Nat → Option LiteralValue
  dedicated : isNormal = false → fields = []

def groupFirst (group : List EvolutionFile) (first : Int) : Int :=
  group.foldl (fun least file => min least file.range.first) first

def groupLast (group : List EvolutionFile) (last : Int) : Int :=
  group.foldl (fun greatest file => max greatest file.range.last) last

/-- The first file in descending order of the sequence numbers that has the column. -/
def newestWith (group : List EvolutionFile) (field : Nat) : Option EvolutionFile :=
  ((group.filter EvolutionFile.isNormal).insertionSort
    (fun left right => right.maxSequenceNumber ≤ left.maxSequenceNumber)).find?
      (fun file => file.fields.contains field)

/-- Only a file with all rows of the group has statistics for the group. -/
def groupStats (group : List EvolutionFile) (first last : Int) (field : Nat) :
    Option (EvolutionFile × ColumnStats) := do
  let file ← newestWith group field
  let stats ← file.stats field
  if file.range.first = first ∧ file.range.last = last then some (file, stats) else none

def evolutionStats (fieldCount : Nat) (group : List EvolutionFile) : Except String Stats :=
  match group with
  | [] => .error "DataEvolutionFileStoreScan EvolutionStats: entries cannot be empty"
  | file :: rest =>
    if (file :: rest).any (fun file => decide (file.range.first < 0)) then
      .error "Invalid row id range in data-evolution statistics group"
    else
      let first := groupFirst rest file.range.first
      let last := groupLast rest file.range.last
      let columns := (List.range fieldCount).map
        (fun field => (groupStats (file :: rest) first last field).map Prod.snd)
      .ok
        { rowCount := last - first + 1
          minValues := columns.map (fun column => column.bind ColumnStats.minValue)
          maxValues := columns.map (fun column => column.bind ColumnStats.maxValue)
          nullCounts := columns.map (fun column => column.bind ColumnStats.nullCount) }

def filterByStatsWithSameRowId (fieldCount : Nat) (predicate : Predicate)
    (group : List EvolutionFile) : Except String Bool := do
  let stats ← evolutionStats fieldCount group
  predicate.testStats stats

/-- The loop of `PostFilterManifestEntries`. -/
def keepGroups (fieldCount : Nat) (predicate : Predicate) :
    List (List EvolutionFile) → Except String (List EvolutionFile)
  | [] => .ok []
  | group :: rest => do
    let saved ← filterByStatsWithSameRowId fieldCount predicate group
    let later ← keepGroups fieldCount predicate rest
    return if saved then group ++ later else later

def filterByRowRanges (rowRangeIndex : Option RowRangeIndex) (file : EvolutionFile) : Bool :=
  match rowRangeIndex with
  | none => true
  | some index => index.intersects file.range

def scanFiles (fieldCount : Nat) (predicate : Predicate) (rowRangeIndex : Option RowRangeIndex)
    (live : List EvolutionFile) : Except String (List EvolutionFile) :=
  keepGroups fieldCount predicate
    (mergeOverlappingRanges EvolutionFile.range (live.filter (filterByRowRanges rowRangeIndex)))

structure SplitOptions where
  targetSplitSize : Int
  openFileCost : Int
  countBlobSize : Bool

def groupWeight (options : SplitOptions) (group : List EvolutionFile) : Int :=
  max (group.foldl (fun fileSizeSum file => fileSizeSum +
    (if file.isBlob && !options.countBlobSize then options.openFileCost else file.fileSize)) 0)
    options.openFileCost

def splitForBatch (options : SplitOptions) (files : List EvolutionFile) :
    List (List EvolutionFile) :=
  (packForOrdered (groupWeight options) options.targetSplitSize
    (mergeOverlappingRanges EvolutionFile.range files)).map List.flatten

/-- `SnapshotReader::GenerateSplits`: every bucket is split on its own. -/
def generateSplits (options : SplitOptions) (files : List EvolutionFile) :
    List (List EvolutionFile) :=
  (files.map EvolutionFile.bucket).dedup.flatMap (fun bucket =>
    splitForBatch options (files.filter (fun file => decide (file.bucket = bucket))))

structure Provides (live : List EvolutionFile) (id : Int) (field : Nat) (file : EvolutionFile) :
    Prop where
  isLive : file ∈ live
  inside : id ∈ file.range
  has : field ∈ file.fields
  newest : ∀ other ∈ live, id ∈ other.range → field ∈ other.fields →
    other.maxSequenceNumber ≤ file.maxSequenceNumber

def ColumnStats.ofType (stats : ColumnStats) (fieldType : FieldType) (rowCount : Int) :
    FieldStats where
  rowCount := rowCount
  minValue := ⟨fieldType, stats.minValue⟩
  maxValue := ⟨fieldType, stats.maxValue⟩
  nullCount := stats.nullCount

/-- A column of a row has the value of the newest live file with it. -/
structure EvolutionTable where
  types : List FieldType
  live : List EvolutionFile
  rows : Int → Row
  width : ∀ id, (rows id).length = types.length
  newest : ∀ id field file, Provides live id field file →
    (rows id)[field]?.join = file.values id field
  missing : ∀ id field, (∀ file, ¬Provides live id field file) → (rows id)[field]?.join = none
  /-- The statistics of a file are those of its values. -/
  described : ∀ file ∈ live, ∀ field stats fieldType comparison, file.stats field = some stats →
    types[field]? = some fieldType → fieldType.comparison = some comparison →
      (stats.ofType fieldType file.range.count).Describes fieldType comparison
        (file.range.ids.map (fun id => file.values id field))
  bucketsApart : ∀ left ∈ live, ∀ right ∈ live, left.bucket ≠ right.bucket → ∀ id,
    ¬(id ∈ left.range ∧ id ∈ right.range)

namespace EvolutionTable

def Contains (table : EvolutionTable) (id : Int) : Prop := ∃ file ∈ table.live, id ∈ file.range

def Satisfies (table : EvolutionTable) (predicate : Predicate) (id : Int) : Prop :=
  predicate.test (table.rows id) = .ok true

end EvolutionTable

variable {group : List EvolutionFile}

theorem newest_with_spec {field : Nat} {file : EvolutionFile}
    (found : newestWith group field = some file) :
    file ∈ group ∧ field ∈ file.fields ∧ ∀ other ∈ group, field ∈ other.fields →
      other.maxSequenceNumber ≤ file.maxSequenceNumber := by
  have descending := pairwise_insertionSort
    (fun left right : EvolutionFile => right.maxSequenceNumber ≤ left.maxSequenceNumber)
    (group.filter EvolutionFile.isNormal)
  obtain ⟨hasField, before, after, isSorted, skipped⟩ := find?_eq_some_iff_append.mp found
  have sortedMember : ∀ other, other ∈ (group.filter EvolutionFile.isNormal).insertionSort
      (fun left right => right.maxSequenceNumber ≤ left.maxSequenceNumber) ↔
        other ∈ group ∧ other.isNormal = true := by
    intro other
    rw [mem_insertionSort, mem_filter]
  have isMember := (sortedMember file).mp (isSorted ▸ mem_append_right _ mem_cons_self)
  refine ⟨isMember.1, contains_iff_mem.mp hasField, ?_⟩
  intro other inGroup otherHas
  have normal : other.isNormal = true := by
    by_contra dedicated
    rw [other.dedicated (by simpa using dedicated)] at otherHas
    cases otherHas
  have inSorted := (sortedMember other).mpr ⟨inGroup, normal⟩
  rw [isSorted] at inSorted descending
  rcases mem_append.mp inSorted with isBefore | isAfter
  · have lacks := skipped other isBefore
    rw [Bool.not_eq_true', contains_eq_mem, decide_eq_false_iff_not] at lacks
    exact absurd otherHas lacks
  · rcases mem_cons.mp isAfter with rfl | isAfter
    · exact le_rfl
    · exact (pairwise_cons.mp (pairwise_append.mp descending).2.1).1 other isAfter

theorem group_first_le (group : List EvolutionFile) (first : Int) :
    groupFirst group first ≤ first ∧ ∀ file ∈ group, groupFirst group first ≤ file.range.first := by
  induction group generalizing first with
  | nil => simp [groupFirst]
  | cons file rest ih =>
    obtain ⟨least, others⟩ := ih (min first file.range.first)
    rw [groupFirst, foldl_cons, ← groupFirst]
    exact ⟨by omega, forall_mem_cons.mpr ⟨by omega, others⟩⟩

theorem le_group_last (group : List EvolutionFile) (last : Int) :
    last ≤ groupLast group last ∧ ∀ file ∈ group, file.range.last ≤ groupLast group last := by
  induction group generalizing last with
  | nil => simp [groupLast]
  | cons file rest ih =>
    obtain ⟨greatest, others⟩ := ih (max last file.range.last)
    rw [groupLast, foldl_cons, ← groupLast]
    exact ⟨by omega, forall_mem_cons.mpr ⟨by omega, others⟩⟩

theorem group_stats_spec {first last : Int} {field : Nat} {file : EvolutionFile}
    {stats : ColumnStats} (found : groupStats group first last field = some (file, stats)) :
    newestWith group field = some file ∧ file.stats field = some stats ∧
      file.range.first = first ∧ file.range.last = last := by
  rw [groupStats] at found
  simp only [Option.bind_eq_bind, Option.bind_eq_some_iff] at found
  obtain ⟨newest, isNewest, newestStats, hasStats, found⟩ := found
  split at found
  · next whole =>
      cases found
      exact ⟨isNewest, hasStats, whole.1, whole.2⟩
  · cases found

section
variable (table : EvolutionTable) (group : List EvolutionFile) (first last : Int)

def groupRow (id : Int) : Row :=
  (List.range table.types.length).map (fun field =>
    match groupStats group first last field with
    | some (file, _) => file.values id field
    | none => (table.rows id)[field]?.join)

variable {table group first last}

theorem group_row_eq {id : Int} (members : group ⊆ table.live)
    (closed : ∀ file ∈ table.live, id ∈ file.range → file ∈ group)
    (inside : first ≤ id ∧ id ≤ last) : groupRow table group first last id = table.rows id := by
  apply ext_getElem?
  intro field
  rcases Nat.lt_or_ge field table.types.length with within | beyond
  · have fieldInRow : field < (table.rows id).length := by rw [table.width]; exact within
    rw [groupRow, getElem?_map, getElem?_range within, Option.map_some]
    split
    · next file stats found =>
        obtain ⟨isNewest, -, isFirst, isLast⟩ := group_stats_spec found
        obtain ⟨inGroup, has, newest⟩ := newest_with_spec isNewest
        have provides : Provides table.live id field file :=
          { isLive := members inGroup
            inside := Range.mem_iff.mpr (by omega)
            has := has
            newest := fun other isLive otherInside otherHas =>
              newest other (closed other isLive otherInside) otherHas }
        rw [← table.newest id field file provides, getElem?_eq_getElem fieldInRow]
        rfl
    · rw [getElem?_eq_getElem fieldInRow]
      rfl
  · rw [getElem?_eq_none (by simpa [groupRow] using beyond),
      getElem?_eq_none (by rw [table.width]; exact beyond)]

end

variable {table : EvolutionTable}

theorem evolution_stats_describe {stats : Stats} (members : group ⊆ table.live)
    (collects : evolutionStats table.types.length group = .ok stats) :
    ∃ range : Range, (∀ file ∈ group, range.first ≤ file.range.first ∧
        file.range.last ≤ range.last) ∧ stats.Describe table.types
        (range.ids.map (groupRow table group range.first range.last)) := by
  cases group with
  | nil => cases collects
  | cons file rest =>
    rw [evolutionStats] at collects
    split at collects
    · cases collects
    · cases collects
      have least := group_first_le rest file.range.first
      have greatest := le_group_last rest file.range.last
      have fileOrdered := file.range.ordered
      generalize groupFirst rest file.range.first = first at least ⊢
      generalize groupLast rest file.range.last = last at greatest ⊢
      have ordered : first ≤ last := by omega
      refine ⟨⟨first, last, ordered⟩, ?_, ?_⟩
      · exact forall_mem_cons.mpr
          ⟨⟨least.1, greatest.1⟩, fun other mem => ⟨least.2 other mem, greatest.2 other mem⟩⟩
      · constructor
        · intro row mem
          obtain ⟨id, _, rfl⟩ := mem_map.mp mem
          simp [groupRow]
        · intro field fieldType comparison column isComparison
          have inside := column_inside column
          have values : ((⟨first, last, ordered⟩ : Range).ids.map
              (groupRow table (file :: rest) first last)).map (fun row => row[field]?.join) =
              (⟨first, last, ordered⟩ : Range).ids.map (fun id =>
                match groupStats (file :: rest) first last field with
                | some (file, _) => file.values id field
                | none => (table.rows id)[field]?.join) := by
            rw [map_map]
            apply map_congr_left
            intro id _
            rw [Function.comp_apply, groupRow, getElem?_map, getElem?_range inside]
            rfl
          have count : (((⟨first, last, ordered⟩ : Range).count : Nat) : Int) =
              last - first + 1 := by
            rw [Range.count]
            dsimp only
            omega
          rw [values]
          simp only [Stats.column, getElem?_map, getElem?_range inside, Option.map_some]
          cases found : groupStats (file :: rest) first last field with
          | none =>
            constructor
            · rw [length_map, Range.ids, length_map, length_range, count]
            all_goals simp
          | some known =>
            obtain ⟨source, columnStats⟩ := known
            obtain ⟨isNewest, hasStats, isFirst, isLast⟩ := group_stats_spec found
            have sourceLive := members (newest_with_spec isNewest).1
            have sameRange : source.range = ⟨first, last, ordered⟩ := by
              cases range : source.range with
              | mk sourceFirst sourceLast _ =>
                rw [range] at isFirst isLast
                subst isFirst isLast
                rfl
            have described := table.described source sourceLive field columnStats fieldType
              comparison hasStats column isComparison
            rw [sameRange, count] at described
            exact described

variable {predicate : Predicate}

theorem group_saved {saved : Bool} {id : Int} (typed : WellTyped table.types predicate)
    (members : group ⊆ table.live) (closed : ∀ file ∈ table.live, id ∈ file.range → file ∈ group)
    (contained : ∃ file ∈ group, id ∈ file.range) (satisfies : table.Satisfies predicate id)
    (filters : filterByStatsWithSameRowId table.types.length predicate group = .ok saved) :
    saved = true := by
  obtain ⟨stats, collects, tests⟩ := bind_eq_ok.mp filters
  obtain ⟨range, bounds, describe⟩ := evolution_stats_describe members collects
  obtain ⟨file, inGroup, inFile⟩ := contained
  have fileBounds := bounds file inGroup
  rw [Range.mem_iff] at inFile
  have inRange : id ∈ range := Range.mem_iff.mpr (by omega)
  have isRow : table.rows id ∈ range.ids.map (groupRow table group range.first range.last) := by
    rw [← group_row_eq members closed (Range.mem_iff.mp inRange)]
    exact mem_map_of_mem (Range.mem_ids.mpr inRange)
  exact verdict_keeps typed describe tests isRow satisfies

variable {kept : List EvolutionFile}

theorem keep_groups_mem {fieldCount : Nat} {groups : List (List EvolutionFile)}
    (keeps : keepGroups fieldCount predicate groups = .ok kept) : kept.Sublist groups.flatten ∧
      ∀ group ∈ groups, ∃ saved, filterByStatsWithSameRowId fieldCount predicate group = .ok saved ∧
        (saved = true → group ⊆ kept) := by
  induction groups generalizing kept with
  | nil =>
    cases keeps
    exact ⟨.refl _, nofun⟩
  | cons group rest ih =>
    obtain ⟨saved, filters, keeps⟩ := bind_eq_ok.mp keeps
    obtain ⟨later, keepsRest, keeps⟩ := bind_eq_ok.mp keeps
    obtain ⟨sublist, others⟩ := ih keepsRest
    cases keeps
    cases saved with
    | true =>
      refine ⟨sublist.append_left group, ?_⟩
      intro other mem
      rcases mem_cons.mp mem with rfl | mem
      · exact ⟨true, filters, fun _ => subset_append_left _ _⟩
      · obtain ⟨otherSaved, otherFilters, subset⟩ := others other mem
        exact ⟨otherSaved, otherFilters, fun isSaved file mem =>
          mem_append_right _ (subset isSaved mem)⟩
    | false =>
      refine ⟨sublist.trans (sublist_append_right _ _), ?_⟩
      exact forall_mem_cons.mpr ⟨⟨false, filters, nofun⟩, others⟩

/-- The scan keeps all files of a requested row that satisfies the predicate. -/
theorem scan_keeps {rowRangeIndex : Option RowRangeIndex} {id : Int}
    (typed : WellTyped table.types predicate)
    (scans : scanFiles table.types.length predicate rowRangeIndex table.live = .ok kept)
    (requested : ∀ index, rowRangeIndex = some index → Covers index.ranges id)
    (satisfies : table.Satisfies predicate id) :
    ∀ file ∈ table.live, id ∈ file.range → file ∈ kept := by
  intro file isLive inside
  obtain ⟨-, groupsKept⟩ := keep_groups_mem scans
  have perm := @merge_overlapping_perm EvolutionFile EvolutionFile.range
    (table.live.filter (filterByRowRanges rowRangeIndex))
  have passes : ∀ other ∈ table.live, id ∈ other.range →
      other ∈ table.live.filter (filterByRowRanges rowRangeIndex) := by
    intro other otherLive otherInside
    refine mem_filter.mpr ⟨otherLive, ?_⟩
    cases isIndex : rowRangeIndex with
    | none => rfl
    | some index =>
      exact RowRangeIndex.intersects_iff.mpr ⟨id, otherInside, requested index isIndex⟩
  obtain ⟨group, isGroup, inGroup⟩ := mem_flatten.mp (perm.mem_iff.mpr (passes file isLive inside))
  -- Files of other groups end before the row or start after it.
  have closed : ∀ other ∈ table.live, id ∈ other.range → other ∈ group := by
    intro other otherLive otherInside
    obtain ⟨otherGroup, isOtherGroup, inOther⟩ :=
      mem_flatten.mp (perm.mem_iff.mpr (passes other otherLive otherInside))
    rwa [merge_overlapping_together isGroup isOtherGroup inGroup inOther inside otherInside]
  have members : group ⊆ table.live := by
    intro other mem
    exact mem_of_mem_filter (perm.mem_iff.mp (mem_flatten.mpr ⟨group, isGroup, mem⟩))
  obtain ⟨saved, filters, subset⟩ := groupsKept group isGroup
  exact subset (group_saved typed members closed ⟨file, inGroup, inside⟩ satisfies filters) inGroup

theorem scan_subset {rowRangeIndex : Option RowRangeIndex}
    (scans : scanFiles table.types.length predicate rowRangeIndex table.live = .ok kept) :
    ∀ file ∈ kept, file ∈ table.live ∧ filterByRowRanges rowRangeIndex file = true := by
  intro file mem
  have perm := @merge_overlapping_perm EvolutionFile EvolutionFile.range
    (table.live.filter (filterByRowRanges rowRangeIndex))
  exact mem_filter.mp (perm.mem_iff.mp ((keep_groups_mem scans).1.subset mem))

end PaimonCore.EvolutionScan
