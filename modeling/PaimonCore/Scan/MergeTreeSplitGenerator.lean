import Mathlib.Data.List.Dedup
import PaimonCore.Common.RangeHelper
import PaimonCore.MergeTree.IntervalSections
import PaimonCore.MergeTree.ReducerMergeFunctionWrapper

/-!
# `MergeTreeSplitGenerator`

The files of a bucket become splits that are read independently. Files that share keys go
to one split; a split that is marked raw convertible is read file by file, without merging.
A file without a delete count, as old versions wrote them, counts as one without deletes.
-/

namespace PaimonCore.Scan

open List

open Std (TransCmp OrientedCmp)
open PaimonCore.Ranges PaimonCore.Fields MergeTree
open PaimonCore.Manifest (DataFileMeta)
open PaimonCore.MergeTree.IntervalPartition (RunQueue keyRanges filesOf partition)

inductive MergeEngine where
  | deduplicate
  | partialUpdate
  | aggregate
  | firstRow
  deriving DecidableEq, Repr

structure SplitGroup where
  files : List DataFileMeta
  rawConvertible : Bool
  deriving DecidableEq, Repr

structure MergeTreeSplitGenerator where
  targetSplitSize : Int
  openFileCost : Int
  deletionVectorsEnabled : Bool := false
  mergeEngine : MergeEngine := .deduplicate
  keyComparator : FieldsComparator
  runQueue : RunQueue keyComparator := .inserted keyComparator

/-- `null` to `true`, to be compatible with old versions. -/
def withoutDeleteRow (file : DataFileMeta) : Bool :=
  match file.deleteRowCount with
  | none => true
  | some count => count == 0

namespace MergeTreeSplitGenerator

variable (generator : MergeTreeSplitGenerator)

/-- No file of level 0, none with deletes, and levels that need no merging. -/
def needsNoMerge (files : List DataFileMeta) : Bool :=
  let rawConvertible := files.all (fun file => !(file.level == 0 || !withoutDeleteRow file))
  let oneLevel := (files.map DataFileMeta.level).dedup.length == 1
  rawConvertible &&
    (generator.deletionVectorsEnabled || generator.mergeEngine == .firstRow || oneLevel)

def singleFileRawConvertible (files : List DataFileMeta) : Bool :=
  match files with
  | [file] => withoutDeleteRow file && (!generator.deletionVectorsEnabled || file.level > 0)
  | _ => false

def packSplits (sections : List (List DataFileMeta)) : List (List DataFileMeta) :=
  (packForOrdered (fun files => max (files.map DataFileMeta.fileSize).sum generator.openFileCost)
    generator.targetSplitSize sections).map List.flatten

def splitForBatch (input : List DataFileMeta) : List SplitGroup :=
  if generator.needsNoMerge input then
    (packForOrdered (fun file => max file.fileSize generator.openFileCost)
      generator.targetSplitSize input).map (fun files => { files, rawConvertible := true })
  else
    let sections := (partition generator.runQueue input).map filesOf
    (generator.packSplits sections).map (fun files =>
      { files
        rawConvertible := generator.singleFileRawConvertible files ||
          generator.needsNoMerge files })

end MergeTreeSplitGenerator

/-- One record for each key, in key order, inside the key range, with the deletes it records. -/
structure Describes (order : RecordOrder) (contents : List KeyValue) (file : DataFileMeta) :
    Prop where
  inside : ∀ kv ∈ contents, (keyRanges order.userKeyComparator).covers kv.key file = true
  ascending : contents.Pairwise (fun left right => order.compareKey left right = .lt)
  counted : ∀ count, file.deleteRowCount = some count →
    count = contents.countP (fun kv => kv.valueKind.isRetract)

/-- Records by key and sequence, one key after another through the reducer, deletes dropped. -/
def mergeRead {State : Type} (order : RecordOrder) (merger : Merger KeyValue State)
    (state : ReducerState KeyValue State) (records : List KeyValue) :
    Except String (List KeyValue) := do
  let merged ← mergeGroups (reducer merger)
    (SortedGroups.groupsOf order.compareKey order.compareSequence records) state
  .ok (merged.filter (fun kv => kv.valueKind.isAdd))

/-- Whatever the merge function is; files without a delete count are taken to hold no deletes. -/
def MergesToConcatenation (comparator : FieldsComparator) (files : List DataFileMeta) : Prop :=
  ∀ {State : Type} (order : RecordOrder) (merger : Merger KeyValue State)
    (state : ReducerState KeyValue State) (contents : DataFileMeta → List KeyValue),
    order.userKeyComparator = comparator →
    (∀ file ∈ files, Describes order (contents file) file) →
    (∀ file ∈ files, file.deleteRowCount = none → ∀ kv ∈ contents file, kv.valueKind.isAdd = true) →
      ∃ merged, mergeRead order merger state (files.flatMap contents) = .ok merged ∧
        merged.Perm (files.flatMap contents)

section
variable {order : RecordOrder} {records : List KeyValue}

section
variable (nodup : records.Pairwise (fun left right => order.compareKey left right ≠ .eq))
include nodup

theorem groups_singletons :
    ∀ group ∈ SortedGroups.groupsOf order.compareKey order.compareSequence records,
      ∃ record, group = [record] := by
  intro group mem
  have sameKey := SortedGroups.groups_of_member mem
  have apart : group.Pairwise (fun left right => order.compareKey left right ≠ .eq) := by
    have symmetric : ∀ {left right : KeyValue}, order.compareKey left right ≠ .eq →
        order.compareKey right left ≠ .eq := fun differ same => differ (OrientedCmp.eq_symm same)
    have perm := @SortedGroups.groups_of_perm _ order.compareKey order.compareSequence records
    exact (pairwise_flatten.mp ((perm.pairwise_iff symmetric).mpr nodup)).1 group mem
  match group, sameKey, apart, mem with
  | [], _, _, mem => exact absurd mem (nil_notMem_splitBy _ _)
  | [record], _, _, _ => exact ⟨record, rfl⟩
  | first :: second :: rest, sameKey, apart, _ =>
    have same := (pairwise_cons.mp sameKey).1 second mem_cons_self
    exact absurd same.1 ((pairwise_cons.mp apart).1 second mem_cons_self)

theorem merge_read_distinct {State : Type} (merger : Merger KeyValue State)
    (state : ReducerState KeyValue State) (adds : ∀ kv ∈ records, kv.valueKind.isAdd = true) :
    ∃ merged, mergeRead order merger state records = .ok merged ∧ merged.Perm records := by
  have perm := @SortedGroups.groups_of_perm _ order.compareKey order.compareSequence records
  refine ⟨_, ?_, perm⟩
  unfold mergeRead
  rw [merge_groups_singletons merger (groups_singletons nodup)]
  have allAdds := filter_eq_self.mpr (fun kv mem => adds kv (perm.mem_iff.mp mem))
  exact congrArg Except.ok allAdds

end

/-- A key lies in one file only. -/
theorem contents_distinct {contents : DataFileMeta → List KeyValue} {files : List DataFileMeta}
    (described : ∀ file ∈ files, Describes order (contents file) file)
    (disjoint : files.Pairwise (fun left right =>
      ¬(keyRanges order.userKeyComparator).Meet left right)) :
    (files.flatMap contents).Pairwise (fun left right => order.compareKey left right ≠ .eq) := by
  rw [flatMap_def, pairwise_flatten]
  constructor
  · intro rows isRows
    obtain ⟨file, mem, rfl⟩ := mem_map.mp isRows
    apply (described file mem).ascending.imp
    intro left right lower
    rw [lower]
    exact Ordering.noConfusion
  · rw [pairwise_map]
    apply disjoint.imp_of_mem
    intro left right isLeft isRight apart first inLeft second inRight same
    apply apart
    have atSecond := (described right isRight).inside second inRight
    rw [← Overlaps.Ranges.covers_congr same] at atSecond
    exact ⟨first.key, (described left isLeft).inside first inLeft, atSecond⟩

theorem adds_of_without_delete {contents : List KeyValue} {file : DataFileMeta}
    (described : Describes order contents file) (without : withoutDeleteRow file = true)
    (old : file.deleteRowCount = none → ∀ kv ∈ contents, kv.valueKind.isAdd = true) :
    ∀ kv ∈ contents, kv.valueKind.isAdd = true := by
  cases recorded : file.deleteRowCount with
  | none => exact old recorded
  | some count =>
    have noDelete : count = 0 := by simpa [withoutDeleteRow, recorded] using without
    have counted := described.counted count recorded
    rw [noDelete] at counted
    have noRetract := countP_eq_zero.mp (Int.ofNat_eq_zero.mp counted.symm)
    intro kv mem
    have notRetract := noRetract kv mem
    rw [is_retract_iff] at notRetract
    exact Bool.eq_true_of_not_eq_false notRetract

theorem disjoint_merges_to_concatenation {cmp : FieldsComparator} {files : List DataFileMeta}
    (disjoint : files.Pairwise (fun left right => ¬(keyRanges cmp).Meet left right))
    (without : ∀ file ∈ files, withoutDeleteRow file = true) :
    MergesToConcatenation cmp files := by
  intro State order merger state contents isOrder described old
  subst isOrder
  apply merge_read_distinct (contents_distinct described disjoint) merger state
  intro kv mem
  obtain ⟨file, inFiles, inContents⟩ := mem_flatMap.mp mem
  exact adds_of_without_delete (described file inFiles) (without file inFiles) (old file inFiles)
    kv inContents

end

def LevelsDisjoint (comparator : FieldsComparator) (files : List DataFileMeta) : Prop :=
  files.Pairwise (fun left right => left.level = right.level → left.level ≠ 0 →
    ¬(keyRanges comparator).Meet left right)

structure RawSplit (comparator : FieldsComparator) (files : List DataFileMeta) : Prop where
  disjoint : files.Pairwise (fun left right => ¬(keyRanges comparator).Meet left right)
  undeleted : ∀ file ∈ files, file.deleteRowCount.getD 0 = 0
  settled : (∃ file ∈ files, file.level = 0) → files.length = 1
  concatenated : MergesToConcatenation comparator files

structure IndependentSplits (generator : MergeTreeSplitGenerator) (input : List DataFileMeta)
    (splits : List SplitGroup) : Prop where
  complete : (splits.flatMap SplitGroup.files).Perm input
  apart : splits.Pairwise (fun earlier later => ∀ left ∈ earlier.files, ∀ right ∈ later.files,
    ¬(keyRanges generator.keyComparator).Meet left right)
  raw : ∀ split ∈ splits, split.rawConvertible = true → RawSplit generator.keyComparator split.files
  ascending : generator.needsNoMerge input = false →
    splits.Pairwise (fun earlier later => ∀ left ∈ earlier.files, ∀ right ∈ later.files,
      EndsBefore generator.keyComparator left right)

namespace MergeTreeSplitGenerator

variable {generator : MergeTreeSplitGenerator} {input files : List DataFileMeta}

theorem without_delete_iff (file : DataFileMeta) :
    withoutDeleteRow file = true ↔ file.deleteRowCount.getD 0 = 0 := by
  unfold withoutDeleteRow
  cases file.deleteRowCount <;> simp

variable {cmp : FieldsComparator}

theorem levels_disjoint_perm {others : List DataFileMeta} (same : files.Perm others)
    (disjoint : LevelsDisjoint cmp others) : LevelsDisjoint cmp files := by
  apply (same.pairwise_iff _).mpr disjoint
  intro left right apart sameLevel above meet
  exact apart sameLevel.symm (sameLevel ▸ above) meet.symm

theorem raw_of_disjoint (apart : files.Pairwise (fun left right =>
    ¬(keyRanges cmp).Meet left right))
    (plain : ∀ file ∈ files, file.level ≠ 0 ∧ withoutDeleteRow file = true) :
    RawSplit cmp files where
  disjoint := apart
  undeleted file mem := (without_delete_iff file).mp (plain file mem).2
  settled := by
    rintro ⟨file, mem, isZero⟩
    exact absurd isZero (plain file mem).1
  concatenated := disjoint_merges_to_concatenation apart (fun file mem => (plain file mem).2)

theorem raw_single {file : DataFileMeta} (without : withoutDeleteRow file = true) :
    RawSplit cmp [file] where
  disjoint := pairwise_singleton _ _
  undeleted := by simpa using (without_delete_iff file).mp without
  settled _ := rfl
  concatenated := disjoint_merges_to_concatenation (pairwise_singleton _ _) (by simpa)

section
variable (noVectors : generator.deletionVectorsEnabled = false)
  (notFirstRow : generator.mergeEngine ≠ .firstRow)
include noVectors notFirstRow

theorem needs_no_merge_iff : generator.needsNoMerge files = true ↔
    (∀ file ∈ files, file.level ≠ 0 ∧ withoutDeleteRow file = true) ∧
      ∃ level, (files.map DataFileMeta.level).dedup = [level] := by
  unfold needsNoMerge
  rw [noVectors]
  simp [notFirstRow, length_eq_one_iff]

theorem needs_no_merge_apart (disjoint : LevelsDisjoint generator.keyComparator files)
    (raw : generator.needsNoMerge files = true) :
    files.Pairwise (fun left right => ¬(keyRanges generator.keyComparator).Meet left right) := by
  obtain ⟨plain, level, oneLevel⟩ := (needs_no_merge_iff noVectors notFirstRow).mp raw
  have isLevel : ∀ file ∈ files, file.level = level := by
    intro file mem
    have inLevels : file.level ∈ (files.map DataFileMeta.level).dedup :=
      mem_dedup.mpr (mem_map_of_mem mem)
    rw [oneLevel] at inLevels
    exact mem_singleton.mp inLevels
  apply disjoint.imp_of_mem
  intro left right inLeft inRight separate
  exact separate ((isLevel left inLeft).trans (isLevel right inRight).symm) (plain left inLeft).1

theorem needs_no_merge_raw (disjoint : LevelsDisjoint generator.keyComparator files)
    (raw : generator.needsNoMerge files = true) : RawSplit generator.keyComparator files :=
  raw_of_disjoint (needs_no_merge_apart noVectors notFirstRow disjoint raw)
    ((needs_no_merge_iff noVectors notFirstRow).mp raw).1

theorem raw_bucket_independent (disjoint : LevelsDisjoint generator.keyComparator input)
    (raw : generator.needsNoMerge input = true) :
    IndependentSplits generator input (generator.splitForBatch input) := by
  have plain := ((needs_no_merge_iff noVectors notFirstRow).mp raw).1
  have apart := needs_no_merge_apart noVectors notFirstRow disjoint raw
  have packed := pack_flatten (fun file => max file.fileSize generator.openFileCost)
    generator.targetSplitSize input
  unfold splitForBatch
  rw [if_pos raw]
  generalize packForOrdered (fun file => max file.fileSize generator.openFileCost)
    generator.targetSplitSize input = bins at packed
  rw [← packed, pairwise_flatten] at apart
  constructor
  case complete =>
    rw [flatMap_map, ← packed]
    simp
  case apart => exact pairwise_map.mpr apart.2
  case raw =>
    intro split isSplit _
    obtain ⟨bin, isBin, rfl⟩ := mem_map.mp isSplit
    apply raw_of_disjoint (apart.1 bin isBin)
    intro file mem
    apply plain
    rw [← packed]
    exact mem_flatten.mpr ⟨bin, isBin, mem⟩
  case ascending =>
    intro merging
    rw [raw] at merging
    cases merging

omit noVectors notFirstRow in
theorem pack_splits_sections (input : List DataFileMeta) :
    (generator.packSplits ((partition generator.runQueue input).map filesOf)).Pairwise
      (fun earlier later => ∀ left ∈ earlier, ∀ right ∈ later,
        EndsBefore generator.keyComparator left right) ∧
    (generator.packSplits ((partition generator.runQueue input).map filesOf)).flatten.Perm
      input := by
  unfold packSplits
  have packed :=
    pack_flatten (fun files : List DataFileMeta => max (files.map DataFileMeta.fileSize).sum
      generator.openFileCost) generator.targetSplitSize
    ((partition generator.runQueue input).map filesOf)
  generalize packForOrdered _ _ _ = bins at packed ⊢
  constructor
  · have ascending : ((partition generator.runQueue input).map filesOf).Pairwise
        (fun earlier later => ∀ left ∈ earlier, ∀ right ∈ later,
          EndsBefore generator.keyComparator left right) :=
      pairwise_map.mpr (IntervalPartition.partition_ascending input)
    rw [← packed, pairwise_flatten] at ascending
    rw [pairwise_map]
    apply ascending.2.imp
    intro earlier later ordered left inEarlier right inLater
    obtain ⟨first, isFirst, inFirst⟩ := mem_flatten.mp inEarlier
    obtain ⟨second, isSecond, inSecond⟩ := mem_flatten.mp inLater
    exact ordered first isFirst second isSecond left inFirst right inSecond
  · rw [← flatten_flatten, packed, ← flatMap_def]
    exact IntervalPartition.partition_complete input

theorem sections_independent (disjoint : LevelsDisjoint generator.keyComparator input)
    (merging : generator.needsNoMerge input = false) :
    IndependentSplits generator input (generator.splitForBatch input) := by
  obtain ⟨ordered, complete⟩ := @pack_splits_sections generator input
  have levels := (pairwise_flatten.mp (levels_disjoint_perm complete disjoint)).1
  unfold splitForBatch
  rw [if_neg (by simp [merging])]
  constructor
  case complete =>
    rw [flatMap_map]
    simpa using complete
  case apart =>
    rw [pairwise_map]
    apply ordered.imp
    intro earlier later before left inEarlier right inLater
    exact IntervalPartition.ends_before_not_meet (before left inEarlier right inLater)
  case raw =>
    intro split isSplit raw
    obtain ⟨files, isPack, rfl⟩ := mem_map.mp isSplit
    rcases Bool.or_eq_true _ _ ▸ raw with single | plain
    · unfold singleFileRawConvertible at single
      split at single
      · exact raw_single (Bool.and_eq_true _ _ ▸ single).1
      · cases single
    · exact needs_no_merge_raw noVectors notFirstRow (levels files isPack) plain
  case ascending => exact fun _ => pairwise_map.mpr ordered

/-- Splits are read on their own: whatever the sizes, each file is in one of them, splits
share no key, and a raw convertible one needs no merging. -/
theorem split_for_batch_independent (disjoint : LevelsDisjoint generator.keyComparator input) :
    IndependentSplits generator input (generator.splitForBatch input) := by
  cases raw : generator.needsNoMerge input with
  | true => exact raw_bucket_independent noVectors notFirstRow disjoint raw
  | false => exact sections_independent noVectors notFirstRow disjoint raw

end

open IntervalPartition (integerKeys spanning)

def smallSplits : MergeTreeSplitGenerator :=
  { targetSplitSize := 2, openFileCost := 1, keyComparator := integerKeys }

def oldFile : DataFileMeta := { spanning "old" 1 1 with level := 1 }

def oldContents : List KeyValue := [{ valueKind := .delete, key := [some (.integer 1)] }]

/-- The old file holds a delete row, and its split is marked raw convertible; a merging read
returns nothing where the file holds a record. -/
theorem old_delete_raw_convertible : Describes ⟨integerKeys, none⟩ oldContents oldFile ∧
      smallSplits.splitForBatch [oldFile] = [{ files := [oldFile], rawConvertible := true }] ∧
      (∃ kv ∈ oldContents, kv.valueKind.isRetract = true) ∧
      mergeRead ⟨integerKeys, none⟩ (deduplicate false).merger { mergeFunction := none }
        oldContents = .ok [] :=
  ⟨⟨by decide, by decide, by decide⟩, by decide, by decide, rfl⟩

def threeLevels : List DataFileMeta :=
  [{ spanning "upper" 1 4 with level := 1, deleteRowCount := some 0 },
    { spanning "beside" 5 5 with level := 1, deleteRowCount := some 0 },
    { spanning "lower" 6 9 with level := 2, deleteRowCount := some 0 },
    { spanning "fresh" 8 8 with deleteRowCount := some 0 }]

theorem levels_disjoint_of_ordered
    (ordered : files.Pairwise (fun left right => left.level = right.level → left.level ≠ 0 →
      EndsBefore cmp left right)) : LevelsDisjoint cmp files := by
  apply ordered.imp
  intro left right before sameLevel above
  exact IntervalPartition.ends_before_not_meet (before sameLevel above)

theorem three_levels_independent : (smallSplits.splitForBatch threeLevels).map (fun split =>
      (split.files.map DataFileMeta.fileName, split.rawConvertible)) =
        [(["upper", "beside"], true), (["fresh", "lower"], false)] ∧
      IndependentSplits smallSplits threeLevels (smallSplits.splitForBatch threeLevels) :=
  ⟨by decide, split_for_batch_independent rfl (by decide) (levels_disjoint_of_ordered (by decide))⟩

end MergeTreeSplitGenerator

end PaimonCore.Scan
