import PaimonCore.Commit.ConflictDetection
import PaimonCore.Library.Matchings

/-!
# Key ranges of the files of a level

`CheckKeyRange` and `TryUpgrade` sort files by their minimum key and compare neighbours. In the
order in which the keys were computed this is a complete test for overlaps. Both build the
comparator with the direction of `sequence.field.sort-order`, though, while keys are always
ordered ascending.
-/

namespace PaimonCore.Commit

open Std Comparators PaimonCore.Fields Manifest List
open PaimonCore.Matchings (forall₂_mem)

def InKeyRange (order : FieldsComparator) (entry : ManifestEntry) (key : BinaryRow) : Prop :=
  (order.compareTo entry.file.minKey key).isLE ∧ (order.compareTo key entry.file.maxKey).isLE

def KeyRangesDisjoint (order : FieldsComparator) (left right : ManifestEntry) : Prop :=
  ∀ key, ¬(InKeyRange order left key ∧ InKeyRange order right key)

section
variable {order : FieldsComparator}

def EndsBefore (order : FieldsComparator) (left right : ManifestEntry) : Prop :=
  order.compareTo left.file.maxKey right.file.minKey = .lt

theorem EndsBefore.disjoint {left right : ManifestEntry} (before : EndsBefore order left right) :
    KeyRangesDisjoint order left right := by
  intro key both
  rcases both with ⟨⟨_, belowLeft⟩, ⟨aboveRight, _⟩⟩
  have smaller : order.compareTo key right.file.minKey = .lt :=
    TransCmp.lt_of_isLE_of_lt belowLeft before
  have larger := OrientedCmp.gt_of_lt smaller
  rw [larger] at aboveRight
  cases aboveRight

theorem KeyRangesDisjoint.symm {left right : ManifestEntry}
    (disjoint : KeyRangesDisjoint order left right) : KeyRangesDisjoint order right left := by
  intro key both
  exact disjoint key ⟨both.2, both.1⟩

instance (order : FieldsComparator) : Std.Total (fun left right : ManifestEntry =>
      order.compareTo left.file.minKey right.file.minKey ≠ .gt) where
  total left right := by
    have either : (order.compareTo left.file.minKey right.file.minKey).isLE = true ∨
        (order.compareTo right.file.minKey left.file.minKey).isLE = true := isLE_total _ _
    rcases either with lower | upper
    · exact Or.inl ((not_gt_iff_isLE _ _).mpr lower)
    · exact Or.inr ((not_gt_iff_isLE _ _).mpr upper)

instance (order : FieldsComparator) : IsTrans ManifestEntry (fun left right =>
      order.compareTo left.file.minKey right.file.minKey ≠ .gt) where
  trans first second third lower upper := by
    have lowerLe := (not_gt_iff_isLE _ _).mp lower
    have upperLe := (not_gt_iff_isLE _ _).mp upper
    exact (not_gt_iff_isLE _ _).mpr (TransCmp.isLE_trans lowerLe upperLe)

theorem sort_by_min_key_sorted (entries : List ManifestEntry) :
    (sortByMinKey order entries).Pairwise (fun left right =>
      order.compareTo left.file.minKey right.file.minKey ≠ .gt) :=
  pairwise_insertionSort _ _

theorem sort_by_min_key_perm (entries : List ManifestEntry) :
    (sortByMinKey order entries).Perm entries :=
  perm_insertionSort _ _

/-- Neighbours without overlap, in a sorted list, are a whole list without overlap. -/
theorem ends_before_of_no_overlap (entries : List ManifestEntry)
    (sorted : entries.Pairwise (fun left right =>
      order.compareTo left.file.minKey right.file.minKey ≠ .gt))
    (clear : firstOverlap order entries = none) : entries.Pairwise (EndsBefore order) := by
  induction entries with
  | nil => exact Pairwise.nil
  | cons head rest ih =>
    rcases pairwise_cons.mp sorted with ⟨_, restSorted⟩
    cases rest with
    | nil => exact pairwise_singleton _ _
    | cons next tail =>
      simp only [firstOverlap] at clear
      split_ifs at clear with overlap
      have headBefore : EndsBefore order head next := not_not.mp overlap
      apply Pairwise.cons
      · refine forall_mem_cons.mpr ⟨headBefore, ?_⟩
        intro later inTail
        have above := (pairwise_cons.mp restSorted).1 later inTail
        exact TransCmp.lt_of_lt_of_isLE headBefore ((not_gt_iff_isLE _ _).mp above)
      · exact ih restSorted clear

theorem sorted_disjoint_of_no_overlap {entries : List ManifestEntry}
    (clear : firstOverlap order (sortByMinKey order entries) = none) :
    (sortByMinKey order entries).Pairwise (KeyRangesDisjoint order) :=
  (ends_before_of_no_overlap _ (sort_by_min_key_sorted entries) clear).imp EndsBefore.disjoint

theorem disjoint_of_no_overlap (entries : List ManifestEntry)
    (clear : firstOverlap order (sortByMinKey order entries) = none) :
    entries.Pairwise (KeyRangesDisjoint order) :=
  ((sort_by_min_key_perm entries).pairwise_iff KeyRangesDisjoint.symm).mp
    (sorted_disjoint_of_no_overlap clear)

end

structure BucketKey where
  partition : BinaryRow
  bucket : Int
  deriving DecidableEq, Repr

def bucketKey (entry : ManifestEntry) : BucketKey := ⟨entry.partition, entry.bucket⟩

def bucketFiles (entries : List ManifestEntry) (key : BucketKey) : List ManifestEntry :=
  entries.filter (fun entry => bucketKey entry = key)

def upgradeEntry (maxLevel : Int) (entry : ManifestEntry) : Except String ManifestEntry :=
  match entry.file.upgrade maxLevel with
  | .error message => .error message
  | .ok upgraded => .ok { entry with file := upgraded }

def upgradeEntries (maxLevel : Int) : List ManifestEntry → Except String (List ManifestEntry)
  | [] => .ok []
  | entry :: rest =>
    match upgradeEntry maxLevel entry with
    | .error message => .error message
    | .ok upgraded =>
      match upgradeEntries maxLevel rest with
      | .error message => .error message
      | .ok others => .ok (upgraded :: others)

/-- One bucket: files that overlap stay, others move to the highest level. -/
def upgradeBucket (keyComparator : FieldsComparator) (maxLevel : Int)
    (entries : List ManifestEntry) : Except String (List ManifestEntry) :=
  match firstOverlap keyComparator (sortByMinKey keyComparator entries) with
  | some _ => .ok entries
  | none => upgradeEntries maxLevel (sortByMinKey keyComparator entries)

def upgradeBuckets (keyComparator : FieldsComparator) (maxLevel : Int)
    (appendFiles : List ManifestEntry) : List BucketKey → Except String (List ManifestEntry)
  | [] => .ok []
  | key :: rest =>
    match upgradeBucket keyComparator maxLevel (bucketFiles appendFiles key) with
    | .error message => .error message
    | .ok upgraded =>
      match upgradeBuckets keyComparator maxLevel appendFiles rest with
      | .error message => .error message
      | .ok others => .ok (upgraded ++ others)

def maxLevel (config : TableConfig) : Int := config.numLevels - 1

def tryUpgrade (config : TableConfig) (appendFiles : List ManifestEntry) :
    Except String (List ManifestEntry) :=
  if !config.overwriteUpgrade then .ok appendFiles
  else if config.trimmedPrimaryKeyTypes = [] then .ok appendFiles
  else
    match FieldsComparator.create config.trimmedPrimaryKeyTypes
        config.sequenceFieldSortOrderIsAscending with
    | .error message => .error message
    | .ok keyComparator =>
      if appendFiles.any (fun entry => 0 < entry.file.level ∨ entry.bucket < 0) then
        .ok appendFiles
      else
        upgradeBuckets keyComparator (maxLevel config) appendFiles (appendFiles.map bucketKey).dedup

def LevelDisjoint (order : FieldsComparator) (level : Int) (left right : ManifestEntry) : Prop :=
  bucketKey left = bucketKey right → left.file.level = level → right.file.level = level →
    KeyRangesDisjoint order left right

/-- A result of `TryUpgrade` covers the keys of the entry it comes from. -/
structure SameRange (entry result : ManifestEntry) : Prop where
  bucket : bucketKey result = bucketKey entry
  minKey : result.file.minKey = entry.file.minKey
  maxKey : result.file.maxKey = entry.file.maxKey

section
variable {order : FieldsComparator} {level : Int}

theorem upgrade_entry_same_range {entry upgraded : ManifestEntry}
    (ok : upgradeEntry level entry = .ok upgraded) : SameRange entry upgraded := by
  unfold upgradeEntry DataFileMeta.upgrade at ok
  split_ifs at ok with low
  simp only [Except.ok.injEq] at ok
  rw [← ok]
  exact ⟨rfl, rfl, rfl⟩

variable {entries upgraded : List ManifestEntry}

theorem upgrade_entries_same_range (ok : upgradeEntries level entries = .ok upgraded) :
    List.Forall₂ SameRange entries upgraded := by
  induction entries generalizing upgraded with
  | nil =>
    simp only [upgradeEntries, Except.ok.injEq] at ok
    rw [← ok]
    exact Forall₂.nil
  | cons entry rest ih =>
    simp only [upgradeEntries] at ok
    cases first : upgradeEntry level entry with
    | error message => simp [first] at ok
    | ok head =>
      cases others : upgradeEntries level rest with
      | error message => simp [first, others] at ok
      | ok tail =>
        simp only [first, others, Except.ok.injEq] at ok
        rw [← ok]
        exact Forall₂.cons (upgrade_entry_same_range first) (ih others)

theorem SameRange.disjoint {left left' right right' : ManifestEntry}
    (leftSame : SameRange left left') (rightSame : SameRange right right')
    (disjoint : KeyRangesDisjoint order left right) : KeyRangesDisjoint order left' right' := by
  intro key both
  apply disjoint key
  unfold InKeyRange at both ⊢
  rw [leftSame.minKey, leftSame.maxKey, rightSame.minKey, rightSame.maxKey] at both
  exact both

theorem same_ranges_disjoint (images : List.Forall₂ SameRange entries upgraded)
    (disjoint : entries.Pairwise (KeyRangesDisjoint order)) :
    upgraded.Pairwise (KeyRangesDisjoint order) := by
  induction images with
  | nil => exact Pairwise.nil
  | cons head tail ih =>
    rcases pairwise_cons.mp disjoint with ⟨headDisjoint, restDisjoint⟩
    apply Pairwise.cons
    · intro later mem
      rcases forall₂_mem tail.flip mem with ⟨entry, entryMember, same⟩
      exact head.disjoint same (headDisjoint entry entryMember)
    · exact ih restDisjoint

/-- The files that come back keep their bucket and do not overlap unless they did before. -/
theorem upgrade_bucket_ok {key : BucketKey} (bucket : ∀ entry ∈ entries, bucketKey entry = key)
    (before : entries.Pairwise (LevelDisjoint order level))
    (ok : upgradeBucket order level entries = .ok upgraded) :
    (∀ entry ∈ upgraded, bucketKey entry = key) ∧
      upgraded.Pairwise (LevelDisjoint order level) := by
  unfold upgradeBucket at ok
  cases overlap : firstOverlap order (sortByMinKey order entries) with
  | some pair =>
    simp only [overlap, Except.ok.injEq] at ok
    rw [← ok]
    exact ⟨bucket, before⟩
  | none =>
    simp only [overlap] at ok
    have images := upgrade_entries_same_range ok
    constructor
    · intro result mem
      rcases forall₂_mem images.flip mem with ⟨entry, entryMember, same⟩
      rw [same.bucket]
      exact bucket entry ((sort_by_min_key_perm entries).mem_iff.mp entryMember)
    · apply (same_ranges_disjoint images (sorted_disjoint_of_no_overlap overlap)).imp
      intro left right apart _ _ _
      exact apart

theorem upgrade_buckets_ok {appendFiles results : List ManifestEntry} {keys : List BucketKey}
    (before : appendFiles.Pairwise (LevelDisjoint order level)) (nodup : keys.Nodup)
    (ok : upgradeBuckets order level appendFiles keys = .ok results) :
    (∀ entry ∈ results, bucketKey entry ∈ keys) ∧ results.Pairwise (LevelDisjoint order level) := by
  induction keys generalizing results with
  | nil =>
    simp only [upgradeBuckets, Except.ok.injEq] at ok
    rw [← ok]
    simp
  | cons key rest ih =>
    simp only [upgradeBuckets] at ok
    rcases nodup_cons.mp nodup with ⟨fresh, restDistinct⟩
    cases first : upgradeBucket order level (bucketFiles appendFiles key) with
    | error message => simp [first] at ok
    | ok upgraded =>
      cases others : upgradeBuckets order level appendFiles rest with
      | error message => simp [first, others] at ok
      | ok tail =>
        simp only [first, others, Except.ok.injEq] at ok
        have sameBucket : ∀ entry ∈ bucketFiles appendFiles key, bucketKey entry = key := by
          intro entry mem
          simpa using of_mem_filter mem
        rcases upgrade_bucket_ok sameBucket (before.filter _) first with ⟨inKey, headOk⟩
        rcases ih restDistinct others with ⟨inRest, tailOk⟩
        rw [← ok]
        constructor
        · intro entry mem
          rcases mem_append.mp mem with inHead | inTail
          · rw [inKey entry inHead]
            exact mem_cons_self
          · exact mem_cons_of_mem _ (inRest entry inTail)
        · apply pairwise_append.mpr
          refine ⟨headOk, tailOk, ?_⟩
          -- files of two different buckets are never compared
          intro left leftMember right rightMember sameKey
          rw [inKey left leftMember] at sameKey
          exact absurd (sameKey ▸ inRest right rightMember) fresh

end

/-- A table as schema validation lets it through: comparable key types, no data evolution. -/
structure PrimaryKeyTable where
  config : TableConfig
  keyed : config.trimmedPrimaryKeyTypes ≠ []
  /-- The ascending order in which `min_key` and `max_key` of a file are computed. -/
  keyOrder : FieldsComparator
  ordered : FieldsComparator.create config.trimmedPrimaryKeyTypes true = .ok keyOrder
  withoutDataEvolution : config.dataEvolutionEnabled = false

namespace PrimaryKeyTable

variable (table : PrimaryKeyTable)

def LevelsDisjoint (merged : List ManifestEntry) : Prop :=
  ∀ key, (levelFiles merged key).Pairwise (KeyRangesDisjoint table.keyOrder)

def MaxLevelDisjoint (entries : List ManifestEntry) : Prop :=
  entries.Pairwise (LevelDisjoint table.keyOrder (maxLevel table.config))

/-- `CheckConflicts` lets no overlap inside a level through. -/
def DetectsOverlaps : Prop :=
  ∀ (rowIdChecks : RowIdChecks) (checked : CheckedPartitions) (latestSnapshot : Snapshot)
    (baseEntries deltaEntries : List ManifestEntry) (commitKind : CommitKind),
    (checkConflicts table.config rowIdChecks checked latestSnapshot baseEntries deltaEntries
      commitKind).1 = .ok () →
    ∃ merged, mergeEntries (baseEntries ++ deltaEntries) = .ok merged ∧ table.LevelsDisjoint merged

/-- `TryUpgrade` brings no overlap to the highest level. -/
def UpgradesWithoutOverlap : Prop :=
  ∀ appendFiles results, table.MaxLevelDisjoint appendFiles →
    tryUpgrade table.config appendFiles = .ok results → table.MaxLevelDisjoint results

variable {table}

/-- The comparator that both build when sequence fields are sorted descending. -/
def descendingOrder (table : PrimaryKeyTable) : FieldsComparator :=
  { table.keyOrder with isAscendingOrder := false }

section
variable (ascending : table.config.sequenceFieldSortOrderIsAscending = true)
include ascending

theorem key_comparator_ascending : FieldsComparator.create table.config.trimmedPrimaryKeyTypes
      table.config.sequenceFieldSortOrderIsAscending = .ok table.keyOrder := by
  rw [ascending]
  exact table.ordered

theorem check_key_range_ascending {baseCommitUser : String}
    {merged baseEntries deltaEntries : List ManifestEntry}
    (ok : checkKeyRange table.config baseCommitUser merged baseEntries deltaEntries = .ok ()) :
    table.LevelsDisjoint merged := by
  unfold checkKeyRange at ok
  rw [if_neg table.keyed, key_comparator_ascending ascending] at ok
  dsimp only at ok
  split at ok
  case h_2 => cases ok
  case h_1 clear =>
    intro key
    by_cases present : key ∈ (merged.map levelKey).dedup
    · exact disjoint_of_no_overlap _ (findSome?_eq_none_iff.mp clear key present)
    · have empty : levelFiles merged key = [] := by
        apply filter_eq_nil_iff.mpr
        intro entry mem sameKey
        apply present
        simp only [Bool.decide_and, Bool.and_eq_true, decide_eq_true_eq] at sameKey
        rw [mem_dedup, ← sameKey.2.2]
        exact mem_map_of_mem mem
      rw [empty]
      exact Pairwise.nil

theorem detects_overlaps_of_ascending : table.DetectsOverlaps := by
  intro rowIdChecks checked latestSnapshot baseEntries deltaEntries commitKind ok
  rcases check_conflicts_ok ok with ⟨_, mergedOk⟩
  rcases check_merged_entries_ok mergedOk with ⟨merged, merges, _, ranges⟩
  exact ⟨merged, merges, check_key_range_ascending ascending ranges⟩

theorem upgrades_without_overlap_of_ascending : table.UpgradesWithoutOverlap := by
  intro appendFiles results before ok
  unfold tryUpgrade at ok
  rw [if_neg table.keyed, key_comparator_ascending ascending] at ok
  split_ifs at ok with disabled placed
  · rw [Except.ok.injEq] at ok
    rw [← ok]
    exact before
  · rw [Except.ok.injEq] at ok
    rw [← ok]
    exact before
  · exact (upgrade_buckets_ok before (nodup_dedup _) ok).2

end

/-! In descending order the check accepts every pair of files that share a key and
begin apart: the file that begins later comes first and ends, in that order, before
the other one begins. -/

section
variable {lowKey highKey : BinaryRow}

def fileAtLevelOne (fileName : String) (minKey maxKey : BinaryRow) : ManifestEntry where
  kind := .add
  totalBuckets := 1
  file := { fileName, minKey, maxKey, level := 1 }

def laterFile (highKey : BinaryRow) : ManifestEntry := fileAtLevelOne "later" highKey highKey

def widerFile (lowKey highKey : BinaryRow) : ManifestEntry :=
  fileAtLevelOne "wider" lowKey highKey

theorem later_wider_overlap (lower : table.keyOrder.compareTo lowKey highKey = .lt) :
    ¬KeyRangesDisjoint table.keyOrder (laterFile highKey) (widerFile lowKey highKey) := by
  intro disjoint
  have same : (table.keyOrder.compareTo highKey highKey).isLE = true := ReflCmp.isLE_rfl
  have above : (table.keyOrder.compareTo lowKey highKey).isLE = true := by
    rw [lower]
    rfl
  exact disjoint highKey ⟨⟨same, same⟩, ⟨above, same⟩⟩

theorem bucketed : resolveBucketMode table.config ≠ .bucketUnaware := by
  have keyed : table.config.trimmedPrimaryKeyTypes.isEmpty = false := by
    simpa using table.keyed
  unfold resolveBucketMode
  rw [keyed]
  simp only [Bool.not_false, Bool.true_and]
  split_ifs <;> simp

theorem check_key_range_descending
    (descending : table.config.sequenceFieldSortOrderIsAscending = false)
    (apart : table.descendingOrder.compareTo highKey lowKey = .lt) (baseCommitUser : String)
    (baseEntries deltaEntries) :
    checkKeyRange table.config baseCommitUser [laterFile highKey, widerFile lowKey highKey]
      baseEntries deltaEntries = .ok () := by
  have cmp : FieldsComparator.create table.config.trimmedPrimaryKeyTypes
      table.config.sequenceFieldSortOrderIsAscending = .ok table.descendingOrder := by
    rw [descending]
    exact FieldsComparator.create_direction table.ordered false
  have keys : ([laterFile highKey, widerFile lowKey highKey].map levelKey).dedup =
      [⟨[], 0, 1⟩] := by
    rfl
  have grouped : levelFiles [laterFile highKey, widerFile lowKey highKey] ⟨[], 0, 1⟩ =
      [laterFile highKey, widerFile lowKey highKey] := by
    rfl
  have sorted : sortByMinKey table.descendingOrder [laterFile highKey, widerFile lowKey highKey] =
      [laterFile highKey, widerFile lowKey highKey] := by
    simp [sortByMinKey, laterFile, widerFile, fileAtLevelOne, apart]
  have clear : firstOverlap table.descendingOrder [laterFile highKey, widerFile lowKey highKey] =
      none := by
    simp [firstOverlap, laterFile, widerFile, fileAtLevelOne, apart]
  unfold checkKeyRange
  rw [if_neg table.keyed, cmp, keys]
  simp only [List.findSome?, grouped, sorted, clear]

theorem descending_misses_overlap
    (descending : table.config.sequenceFieldSortOrderIsAscending = false)
    (apart : table.descendingOrder.compareTo highKey lowKey = .lt) (rowIdChecks : RowIdChecks)
    (latestSnapshot : Snapshot) :
    (checkConflicts table.config rowIdChecks LinkedHashMap.empty latestSnapshot
      [laterFile highKey] [widerFile lowKey highKey] .append).1 = .ok () := by
  have ranges := check_key_range_descending descending apart latestSnapshot.commitUser
    [laterFile highKey] [widerFile lowKey highKey]
  have bypass :
      checkDeletionVectorsNotBypassed table.config [widerFile lowKey highKey] = .ok () := by
    simp [checkDeletionVectorsNotBypassed, bucketed]
  have buckets : (checkBucketKeepSame table.config LinkedHashMap.empty .append
      latestSnapshot.commitUser [laterFile highKey] [widerFile lowKey highKey]).1 = .ok () := by
    rfl
  have merges : checkMergedEntries table.config rowIdChecks latestSnapshot [laterFile highKey]
      [widerFile lowKey highKey] .append = .ok () := by
    have deltaMerge : mergeEntries [widerFile lowKey highKey] = .ok [widerFile lowKey highKey] := by
      rfl
    have merge : mergeEntries ([laterFile highKey] ++ [widerFile lowKey highKey]) =
        .ok [laterFile highKey, widerFile lowKey highKey] := by
      rfl
    simp only [checkMergedEntries, mergeForCheck, deltaMerge, merge, Bind.bind, Except.bind]
    rw [ranges]
    simp [checkRowIds, table.withoutDataEvolution, checkDeleteInEntries, laterFile, widerFile,
      fileAtLevelOne]
  unfold checkConflicts
  rw [bypass]
  rcases verdict : checkBucketKeepSame table.config LinkedHashMap.empty .append
      latestSnapshot.commitUser [laterFile highKey] [widerFile lowKey highKey] with ⟨_ | _, cache⟩
  · simp [verdict] at buckets
  · exact merges

end

/-- The checks are complete exactly for the ascending sequence order, although the
order of sequence fields has no bearing on keys. -/
theorem key_ranges_guarded_iff_ascending (table : PrimaryKeyTable) :
    table.DetectsOverlaps ∧ table.UpgradesWithoutOverlap ↔
      table.config.sequenceFieldSortOrderIsAscending = true := by
  constructor
  · intro guarded
    by_contra notAscending
    have descending := Bool.eq_false_iff.mpr notAscending
    rcases FieldsComparator.exists_separated table.keyed table.ordered with
      ⟨lowKey, highKey, lower, apart⟩
    have accepted := descending_misses_overlap descending apart (fun _ _ _ _ _ => .ok ())
      { id := firstSnapshotId, baseManifestList := ⟨0, 0⟩, deltaManifestList := ⟨0, 1⟩ }
    rcases guarded.1 _ _ _ _ _ _ accepted with ⟨merged, merges, disjoint⟩
    have mergedFiles : merged = [laterFile highKey, widerFile lowKey highKey] := by
      have computed : mergeEntries ([laterFile highKey] ++ [widerFile lowKey highKey]) =
          .ok [laterFile highKey, widerFile lowKey highKey] := by
        rfl
      rw [computed, Except.ok.injEq] at merges
      exact merges.symm
    subst mergedFiles
    have level := disjoint ⟨[], 0, 1⟩
    have pair : KeyRangesDisjoint table.keyOrder (laterFile highKey) (widerFile lowKey highKey) :=
      (pairwise_cons.mp level).1 _ mem_cons_self
    exact later_wider_overlap lower pair
  · intro ascending
    exact ⟨detects_overlaps_of_ascending ascending, upgrades_without_overlap_of_ascending ascending⟩

def descendingIntTable : PrimaryKeyTable where
  config :=
    { trimmedPrimaryKeyTypes := [.int32]
      sequenceFieldSortOrderIsAscending := false }
  keyed := by decide
  keyOrder :=
    { isAscendingOrder := true
      sortFields := [⟨0, along getInteger compare, inferInstance⟩] }
  ordered := rfl
  withoutDataEvolution := rfl

def intFile (fileName : String) (level minKey maxKey : Int) : ManifestEntry where
  kind := .add
  totalBuckets := 1
  file :=
    { fileName
      minKey := [some (.integer minKey)]
      maxKey := [some (.integer maxKey)]
      level }

/-- Keys 5 to 7 are in both files: the check passes, and so does the upgrade. -/
theorem descending_table_accepts_overlap :
    (checkConflicts descendingIntTable.config (fun _ _ _ _ _ => .ok ()) LinkedHashMap.empty
        { id := firstSnapshotId, baseManifestList := ⟨0, 0⟩, deltaManifestList := ⟨0, 1⟩ }
        [intFile "base" 1 5 10] [intFile "delta" 1 3 7] .compact).1 = .ok () ∧
      mergeEntries [intFile "base" 1 5 10, intFile "delta" 1 3 7] =
        .ok [intFile "base" 1 5 10, intFile "delta" 1 3 7] ∧
      ¬descendingIntTable.LevelsDisjoint [intFile "base" 1 5 10, intFile "delta" 1 3 7] ∧
      tryUpgrade descendingIntTable.config [intFile "first" 0 5 10, intFile "second" 0 3 7] =
        .ok [intFile "first" 5 5 10, intFile "second" 5 3 7] ∧
      descendingIntTable.MaxLevelDisjoint [intFile "first" 0 5 10, intFile "second" 0 3 7] ∧
      ¬descendingIntTable.MaxLevelDisjoint [intFile "first" 5 5 10, intFile "second" 5 3 7] := by
  have inBoth : ∀ leftName rightName leftLevel rightLevel,
      ¬KeyRangesDisjoint descendingIntTable.keyOrder (intFile leftName leftLevel 5 10)
        (intFile rightName rightLevel 3 7) := by
    intro leftName rightName leftLevel rightLevel disjoint
    exact disjoint [some (.integer 6)] ⟨⟨rfl, rfl⟩, ⟨rfl, rfl⟩⟩
  refine ⟨rfl, rfl, ?_, rfl, ?_, ?_⟩
  · intro disjoint
    have level := disjoint ⟨[], 0, 1⟩
    exact inBoth _ _ _ _ ((pairwise_cons.mp level).1 _ mem_cons_self)
  · apply pairwise_pair.mpr
    intro _ atMaxLevel
    exact absurd atMaxLevel (by decide)
  · intro disjoint
    exact inBoth _ _ _ _ (pairwise_pair.mp disjoint rfl rfl rfl)

end PrimaryKeyTable

end PaimonCore.Commit
