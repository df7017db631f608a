import PaimonCore.Commit.ConflictDetection

/-!
# `CommitScanner`

A commit reads the live entries of the partitions it changes from the manifests of
the latest snapshot. The scan drops an addition as soon as any deletion of the same
file is among the entries, wherever it stands.
-/

namespace PaimonCore.Commit

open PaimonCore.Fields Manifest List

def mergeLiveEntries (unmergedEntries : List ManifestEntry) : List ManifestEntry :=
  let deletedEntries := (pendingDeletes unmergedEntries).map ManifestEntry.createIdentifier
  (liveFiles unmergedEntries).filter (fun entry => entry.createIdentifier ∉ deletedEntries)

/-- An entry of an index manifest; of its file only what a commit reads. -/
structure IndexManifestEntry where
  kind : FileKind
  partition : BinaryRow := []
  bucket : Int := 0
  indexType : String
  fileName : String
  hasGlobalIndexMeta : Bool := false
  deriving DecidableEq, Repr

def deletionVectorsIndex : String := "DELETION_VECTORS"

def changedPartitions (dataFileChanges : List ManifestEntry)
    (indexFileChanges : List IndexManifestEntry) : List BinaryRow :=
  let ofIndex := indexFileChanges.filter (fun file =>
    file.indexType = deletionVectorsIndex ∨ file.hasGlobalIndexMeta)
  (dataFileChanges.map ManifestEntry.partition ++ ofIndex.map IndexManifestEntry.partition).dedup

/-- The scan filters manifest entries by partition before it merges them. -/
def readAllEntriesFromChangedPartitions (entries : List ManifestEntry)
    (partitions : List BinaryRow) : List ManifestEntry :=
  mergeLiveEntries (entries.filter (fun entry => entry.partition ∈ partitions))

/-- The loop of `ReadTotalBuckets`: the first positive count of each partition. -/
def firstTotalBuckets (partitions : List BinaryRow) :
    TotalBuckets → List ManifestEntry → TotalBuckets
  | totals, [] => totals
  | totals, entry :: rest =>
    if entry.kind ≠ .add ∨ entry.totalBuckets ≤ 0 ∨ entry.partition ∉ partitions then
      firstTotalBuckets partitions totals rest
    else firstTotalBuckets partitions (totals.insert entry.partition entry.totalBuckets) rest

def readTotalBuckets (entries : List ManifestEntry) (partitions : List BinaryRow) : TotalBuckets :=
  firstTotalBuckets partitions LinkedHashMap.empty
    (readAllEntriesFromChangedPartitions entries partitions)

/-- Filtering by partition first does not change what is live in the partitions read. -/
theorem mem_read_all_entries_iff (entries : List ManifestEntry) (partitions : List BinaryRow)
    (entry : ManifestEntry) : entry ∈ readAllEntriesFromChangedPartitions entries partitions ↔
      entry ∈ mergeLiveEntries entries ∧ entry.partition ∈ partitions := by
  have sameDeletes : entry.partition ∈ partitions →
      (entry.createIdentifier ∈ (pendingDeletes (entries.filter
          (fun entry => entry.partition ∈ partitions))).map ManifestEntry.createIdentifier ↔
        entry.createIdentifier ∈ (pendingDeletes entries).map ManifestEntry.createIdentifier) := by
    intro read
    simp only [pendingDeletes, mem_map, mem_filter, decide_eq_true_eq]
    constructor
    · intro found
      rcases found with ⟨deleted, ⟨⟨mem, _⟩, isDelete⟩, same⟩
      exact ⟨deleted, ⟨mem, isDelete⟩, same⟩
    · intro found
      rcases found with ⟨deleted, ⟨mem, isDelete⟩, same⟩
      have samePartition : deleted.partition = entry.partition := congrArg Identifier.partition same
      exact ⟨deleted, ⟨⟨mem, samePartition ▸ read⟩, isDelete⟩, same⟩
  unfold readAllEntriesFromChangedPartitions mergeLiveEntries
  simp only [mem_filter, liveFiles, decide_eq_true_eq]
  constructor
  · intro found
    rcases found with ⟨⟨⟨mem, read⟩, isAdd⟩, live⟩
    exact ⟨⟨⟨mem, isAdd⟩, fun deleted => live ((sameDeletes read).mpr deleted)⟩, read⟩
  · intro found
    rcases found with ⟨⟨⟨mem, isAdd⟩, live⟩, read⟩
    exact ⟨⟨⟨mem, read⟩, isAdd⟩, fun deleted => live ((sameDeletes read).mp deleted)⟩

end PaimonCore.Commit
