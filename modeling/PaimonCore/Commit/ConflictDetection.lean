import Mathlib.Data.List.Dedup
import PaimonCore.Commit.Snapshot

/-!
# `ConflictDetection`

`CheckConflicts` compares the entries a commit wants to publish with those of the snapshot it
builds on. The row id checks of data-evolution tables are a parameter with any verdict; the
others are as in the source, with the cache of partitions already checked.
-/

namespace PaimonCore.Commit

open PaimonCore.Fields Manifest

/-- The order in which a loop meets the partitions of an `unordered_map`. -/
structure PartitionOrder where
  walk : List (BinaryRow × Int) → List (BinaryRow × Int)
  perm : ∀ pairs, (walk pairs).Perm pairs

structure TableConfig where
  tableName : String := ""
  commitUser : String := ""
  partitionKeys : List String := []
  trimmedPrimaryKeyTypes : List FieldType := []
  sequenceFieldSortOrderIsAscending : Bool := true
  deletionVectorsEnabled : Bool := false
  bucket : Int := 1
  dataEvolutionEnabled : Bool := false
  overwriteUpgrade : Bool := true
  numLevels : Int := 6
  commitDiscardDuplicateFiles : Bool := false
  writeOnly : Bool := false
  bucketAppendOrdered : Bool := false
  writeSequenceNumberFromSnapshot : Bool := false
  partitionOrder : PartitionOrder := ⟨id, List.Perm.refl⟩

inductive BucketMode where
  | hashFixed
  | hashDynamic
  | bucketUnaware
  | postponeMode
  deriving DecidableEq, Repr

def postponeBucket : Int := -2

def resolveBucketMode (config : TableConfig) : BucketMode :=
  let hasPrimaryKeys := !config.trimmedPrimaryKeyTypes.isEmpty
  if hasPrimaryKeys && config.bucket = postponeBucket then .postponeMode
  else if config.bucket = -1 then
    if hasPrimaryKeys then .hashDynamic else .bucketUnaware
  else .hashFixed

def possibleCauses : String :=
  "Don't panic!\n" ++
  "Conflicts during commits are normal and this failure is intended to resolve the " ++
  "conflicts.\n" ++
  "Conflicts are mainly caused by the following scenarios:\n" ++
  "1. Multiple jobs are writing into the same partition at the same time, or you use " ++
  "STATEMENT SET to execute multiple INSERT statements into the same Paimon table.\n" ++
  "   You'll probably see different base commit user and current commit user below.\n" ++
  "   You can use dedicated compaction job to support multiple writing.\n" ++
  "2. You're recovering from an old savepoint, or you're creating multiple jobs from a " ++
  "savepoint.\n" ++
  "   The job will fail continuously in this scenario to protect metadata from corruption.\n" ++
  "   You can either recover from the latest savepoint, or you can revert the table to the " ++
  "snapshot corresponding to the old savepoint."

def maxEntry : Nat := 50

def joinEntries (entries : List ManifestEntry) : String :=
  "\n".intercalate ((entries.take maxEntry).map reprStr)

def buildConflictMessage (config : TableConfig) (message baseCommitUser : String)
    (baseEntries deltaEntries : List ManifestEntry) (cause : String) : String :=
  let commitUsers := "Base commit user is: " ++ baseCommitUser ++ "; Current commit user is: " ++
    config.commitUser
  let body := message ++ "\n\n" ++ possibleCauses ++ "\n\n" ++ commitUsers ++ "\n\n" ++
    "Base entries are:\n" ++ joinEntries baseEntries ++ "\n\n" ++
    "Changes are:\n" ++ joinEntries deltaEntries
  let truncated :=
    if maxEntry < baseEntries.length ∨ maxEntry < deltaEntries.length then
      body ++ "\n\nThe entry list above are not fully displayed, please refer to logs for more " ++
        "information."
    else body
  if cause = "" then truncated else truncated ++ "\n\nCaused by: " ++ cause

abbrev CheckedPartitions := LinkedHashMap BinaryRow Bool

abbrev TotalBuckets := LinkedHashMap BinaryRow Int

def sameBucketCheckCacheMaxSize : Nat := 1000

def totalBucketsChanged (partition : BinaryRow) (numBuckets previousNumBuckets : Int) : String :=
  "Total buckets of partition " ++ rowToString partition ++ " changed from " ++
    toString previousNumBuckets ++ " to " ++ toString numBuckets ++
    " without overwrite. Give up committing."

def bucketNumMismatch (config : TableConfig) (partition : BinaryRow)
    (numBuckets previousNumBuckets : Int) : String :=
  let partInfo :=
    if config.partitionKeys = [] then "table"
    else "partition \x7b" ++ rowToString partition ++ "\x7d"
  "Try to write " ++ partInfo ++ " with a new bucket num " ++ toString numBuckets ++
    ", but the previous bucket num is " ++ toString previousNumBuckets ++
    ". Please switch to batch mode, and perform INSERT OVERWRITE to rescale current data " ++
    "layout first."

/-- The first count seen for each partition of the entries that are not skipped. -/
def collectCounts (skipped : ManifestEntry → Bool) (mismatch : BinaryRow → Int → Int → String) :
    TotalBuckets → List ManifestEntry → Except String TotalBuckets
  | totals, [] => .ok totals
  | totals, entry :: rest =>
    if skipped entry then collectCounts skipped mismatch totals rest
    else
      match totals.find entry.partition with
      | none =>
        collectCounts skipped mismatch (totals.insert entry.partition entry.totalBuckets) rest
      | some previous =>
        if previous = entry.totalBuckets then collectCounts skipped mismatch totals rest
        else .error (mismatch entry.partition entry.totalBuckets previous)

/-- The loop of `CheckBucketKeepSame`, which skips the partitions in the cache. -/
def collectTotalBuckets (checked : CheckedPartitions) (entries : List ManifestEntry) :
    Except String TotalBuckets :=
  collectCounts (fun entry => entry.totalBuckets ≤ 0 ∨ entry.partition ∈ checked.keys)
    totalBucketsChanged LinkedHashMap.empty entries

def collectUncheckedBucketPartitions (config : TableConfig) (checked : CheckedPartitions)
    (deltaEntries : List ManifestEntry) : Except String TotalBuckets :=
  collectCounts (fun entry => entry.kind ≠ .add ∨ entry.totalBuckets ≤ 0 ∨
    entry.partition ∈ checked.keys)
    (bucketNumMismatch config) LinkedHashMap.empty deltaEntries

def markBucketChecked (checked : CheckedPartitions) (partition : BinaryRow) : CheckedPartitions :=
  (checked.insertOrAssign partition true).shrinkTo sameBucketCheckCacheMaxSize

def markBucketCheckedPartitions (order : PartitionOrder) (checked : CheckedPartitions)
    (totals : TotalBuckets) : CheckedPartitions :=
  ((order.walk totals.order).map Prod.fst).foldl markBucketChecked checked

/-- `CheckBucketKeepSame`, with the cache it leaves. -/
def checkBucketKeepSame (config : TableConfig) (checked : CheckedPartitions)
    (commitKind : CommitKind) (baseCommitUser : String)
    (baseEntries deltaEntries : List ManifestEntry) : Except String Unit × CheckedPartitions :=
  if commitKind = .overwrite then (.ok (), checked)
  else
    match collectTotalBuckets checked (baseEntries ++ deltaEntries) with
    | .error message =>
      (.error (buildConflictMessage config message baseCommitUser baseEntries deltaEntries ""),
        checked)
    | .ok totals => (.ok (), markBucketCheckedPartitions config.partitionOrder checked totals)

/-- `CheckSameBucketByTotalBuckets`: the expected counts against those of the table. -/
def checkSameBucketByTotalBuckets (config : TableConfig) (checked : CheckedPartitions)
    (expectedTotalBuckets previousTotalBuckets : TotalBuckets) :
    Except String Unit × CheckedPartitions :=
  let expected := config.partitionOrder.walk expectedTotalBuckets.order
  let changed := expected.findSome? (fun (partition, totalBuckets) =>
    match previousTotalBuckets.find partition with
    | some previous =>
      if previous = totalBuckets then none
      else some (bucketNumMismatch config partition totalBuckets previous)
    | none => none)
  match changed with
  | some message => (.error message, checked)
  | none =>
    (.ok (), markBucketCheckedPartitions config.partitionOrder checked expectedTotalBuckets)

/-- `std::sort` by the minimum key. -/
def sortByMinKey (keyComparator : FieldsComparator) (entries : List ManifestEntry) :
    List ManifestEntry :=
  entries.insertionSort (fun left right =>
    keyComparator.compareTo left.file.minKey right.file.minKey ≠ .gt)

/-- The first neighbours of which the left does not end before the right begins. -/
def firstOverlap (keyComparator : FieldsComparator) :
    List ManifestEntry → Option (ManifestEntry × ManifestEntry)
  | left :: right :: rest =>
    if keyComparator.compareTo left.file.maxKey right.file.minKey ≠ .lt then some (left, right)
    else firstOverlap keyComparator (right :: rest)
  | _ => none

structure LevelKey where
  partition : BinaryRow
  bucket : Int
  level : Int
  deriving DecidableEq, Repr

def levelKey (entry : ManifestEntry) : LevelKey :=
  ⟨entry.partition, entry.bucket, entry.file.level⟩

def levelFiles (merged : List ManifestEntry) (key : LevelKey) : List ManifestEntry :=
  merged.filter (fun entry => entry.kind = .add ∧ 1 ≤ entry.file.level ∧ levelKey entry = key)

def lsmConflictMessage (left right : ManifestEntry) : String :=
  let describe (entry : ManifestEntry) : String :=
    rowToString entry.partition ++ ", bucket " ++ toString entry.bucket ++ ", level " ++
      toString entry.file.level ++ ", file " ++ entry.file.fileName
  "LSM conflicts detected! Give up committing. Conflict files are:\n" ++ describe left ++ "\n" ++
    describe right

def checkKeyRange (config : TableConfig) (baseCommitUser : String)
    (merged baseEntries deltaEntries : List ManifestEntry) : Except String Unit :=
  if config.trimmedPrimaryKeyTypes = [] then .ok ()
  else
    match FieldsComparator.create config.trimmedPrimaryKeyTypes
        config.sequenceFieldSortOrderIsAscending with
    | .error message => .error message
    | .ok keyComparator =>
      match (merged.map levelKey).dedup.findSome? (fun key =>
          firstOverlap keyComparator (sortByMinKey keyComparator (levelFiles merged key))) with
      | none => .ok ()
      | some (left, right) =>
        .error (buildConflictMessage config (lsmConflictMessage left right) baseCommitUser
          baseEntries deltaEntries "")

def checkDeletionVectorsNotBypassed (config : TableConfig) (deltaEntries : List ManifestEntry) :
    Except String Unit :=
  if !config.deletionVectorsEnabled || resolveBucketMode config ≠ .bucketUnaware then .ok ()
  else
    match deltaEntries.find? (fun entry => entry.kind = .delete) with
    | none => .ok ()
    | some entry =>
      .error ("Committing the deletion of data file " ++ entry.file.fileName ++
        " is not supported while deletion vectors are enabled on a table without buckets: " ++
        "the conflict between it and a concurrent commit rewriting that file's deletion " ++
        "vector cannot be detected yet.")

def checkDeleteInEntries (config : TableConfig) (baseCommitUser : String)
    (merged baseEntries deltaEntries : List ManifestEntry) : Except String Unit :=
  match merged.find? (fun entry => entry.kind = .delete) with
  | none => .ok ()
  | some entry =>
    .error (buildConflictMessage config
      ("File deletion conflicts detected! Give up committing. Trying to delete file " ++
        entry.file.fileName ++ " for table " ++ config.tableName ++
        " which is not previously added.") baseCommitUser baseEntries deltaEntries "")

/-- The row id checks of a data-evolution table, on the latest snapshot, the entries and the commit
kind. -/
abbrev RowIdChecks :=
  Snapshot → List ManifestEntry → List ManifestEntry → List ManifestEntry → CommitKind →
    Except String Unit

def checkRowIds (config : TableConfig) (rowIdChecks : RowIdChecks) (latestSnapshot : Snapshot)
    (baseEntries deltaEntries merged : List ManifestEntry) (commitKind : CommitKind) :
    Except String Unit :=
  if config.dataEvolutionEnabled then
    rowIdChecks latestSnapshot baseEntries deltaEntries merged commitKind
  else .ok ()

/-- `MergeEntries` inside `CheckConflicts`, with its own error text. -/
def mergeForCheck (config : TableConfig) (baseCommitUser : String)
    (entries baseEntries deltaEntries : List ManifestEntry) :
    Except String (List ManifestEntry) :=
  match mergeEntries entries with
  | .ok merged => .ok merged
  | .error cause =>
    .error (buildConflictMessage config "File deletion conflicts detected! Give up committing."
      baseCommitUser baseEntries deltaEntries cause)

/-- The checks after `CheckBucketKeepSame`; none of them touches the cache. -/
def checkMergedEntries (config : TableConfig) (rowIdChecks : RowIdChecks)
    (latestSnapshot : Snapshot) (baseEntries deltaEntries : List ManifestEntry)
    (commitKind : CommitKind) : Except String Unit := do
  let baseCommitUser := latestSnapshot.commitUser
  let _ ← mergeForCheck config baseCommitUser deltaEntries baseEntries deltaEntries
  let merged ← mergeForCheck config baseCommitUser (baseEntries ++ deltaEntries) baseEntries
    deltaEntries
  checkDeleteInEntries config baseCommitUser merged baseEntries deltaEntries
  checkKeyRange config baseCommitUser merged baseEntries deltaEntries
  checkRowIds config rowIdChecks latestSnapshot baseEntries deltaEntries merged commitKind

/-- `ConflictDetection::CheckConflicts`, with the cache it leaves. -/
def checkConflicts (config : TableConfig) (rowIdChecks : RowIdChecks)
    (checked : CheckedPartitions) (latestSnapshot : Snapshot)
    (baseEntries deltaEntries : List ManifestEntry) (commitKind : CommitKind) :
    Except String Unit × CheckedPartitions :=
  match checkDeletionVectorsNotBypassed config deltaEntries with
  | .error message => (.error message, checked)
  | .ok () =>
    match checkBucketKeepSame config checked commitKind latestSnapshot.commitUser baseEntries
        deltaEntries with
    | (.error message, checked') => (.error message, checked')
    | (.ok (), checked') =>
      (checkMergedEntries config rowIdChecks latestSnapshot baseEntries deltaEntries
        commitKind, checked')

theorem check_merged_entries_ok {config : TableConfig} {rowIdChecks : RowIdChecks}
    {latestSnapshot : Snapshot} {baseEntries deltaEntries : List ManifestEntry}
    {commitKind : CommitKind}
    (ok : checkMergedEntries config rowIdChecks latestSnapshot baseEntries deltaEntries
      commitKind = .ok ()) : ∃ merged, mergeEntries (baseEntries ++ deltaEntries) = .ok merged ∧
      checkDeleteInEntries config latestSnapshot.commitUser merged baseEntries deltaEntries =
        .ok () ∧
      checkKeyRange config latestSnapshot.commitUser merged baseEntries deltaEntries = .ok () := by
  obtain ⟨_, _, ok⟩ := Programs.bind_eq_ok.mp ok
  obtain ⟨merged, merges, ok⟩ := Programs.bind_eq_ok.mp ok
  obtain ⟨_, deletes, ok⟩ := Programs.bind_eq_ok.mp ok
  obtain ⟨_, ranges, _⟩ := Programs.bind_eq_ok.mp ok
  rw [mergeForCheck] at merges
  split at merges
  · next allMerge =>
      cases merges
      exact ⟨merged, allMerge, deletes, ranges⟩
  · cases merges

theorem check_conflicts_ok {config : TableConfig} {rowIdChecks : RowIdChecks}
    {checked : CheckedPartitions} {latestSnapshot : Snapshot}
    {baseEntries deltaEntries : List ManifestEntry} {commitKind : CommitKind}
    (ok : (checkConflicts config rowIdChecks checked latestSnapshot baseEntries deltaEntries
      commitKind).1 = .ok ()) :
    (checkBucketKeepSame config checked commitKind latestSnapshot.commitUser baseEntries
      deltaEntries).1 = .ok () ∧
      checkMergedEntries config rowIdChecks latestSnapshot baseEntries deltaEntries commitKind =
        .ok () := by
  unfold checkConflicts at ok
  cases bypassed : checkDeletionVectorsNotBypassed config deltaEntries with
  | error message => simp [bypassed] at ok
  | ok _ =>
    simp only [bypassed] at ok
    rcases buckets : checkBucketKeepSame config checked commitKind latestSnapshot.commitUser
      baseEntries deltaEntries with ⟨_ | _, checked'⟩
    · simp [buckets] at ok
    · simp only [buckets] at ok
      exact ⟨rfl, ok⟩

end PaimonCore.Commit
