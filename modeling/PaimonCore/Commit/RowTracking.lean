import Mathlib.Data.List.Infix
import PaimonCore.Commit.Snapshot
import PaimonCore.Manifest.ManifestEntry

/-!
# Row ids of a row-tracking table

`AssignRowTracking` numbers the rows of the new files of a commit from the `NextRowId` of the
snapshot it builds on. Blob and vector-store files repeat the ids of the normal file they belong
to. A rollback publishes older content but keeps the larger of the two `NextRowId`s.
-/

namespace PaimonCore.RowTracking

open PaimonCore.Fields Manifest List
open PaimonCore.Commit (firstSnapshotId)

def isBlobFile (fileName : String) : Bool :=
  ".blob".toList.isSuffixOf fileName.toList

def isVectorStoreFile (fileName : String) : Bool :=
  decide (".vector.".toList <:+: fileName.toList)

/-- `SpecialFields::RowId().Name()`. -/
def rowIdColumn : String := "_ROW_ID"

def assignSequenceNumber (entry : ManifestEntry) (minimum maximum : Int) : ManifestEntry :=
  { entry with file :=
      { entry.file with minSequenceNumber := minimum, maxSequenceNumber := maximum } }

def assignFirstRowId (entry : ManifestEntry) (firstRowId : Int) : ManifestEntry :=
  { entry with file := { entry.file with firstRowId := some firstRowId } }

/-- New files take the snapshot id, modified ones as the upper end, compacted files keep both
ends. -/
def assignSnapshotId (snapshotId : Int) (entry : ManifestEntry) : ManifestEntry :=
  if entry.file.minSequenceNumber = 0 then assignSequenceNumber entry snapshotId snapshotId
  else if entry.file.maxSequenceNumber = 0 then
    assignSequenceNumber entry entry.file.minSequenceNumber snapshotId
  else entry

/-- The counters of the loop in `AssignRowTrackingMeta`. -/
structure RowIdCounters where
  start : Int
  blobStartDefault : Int
  blobStarts : String → Option Int
  vectorStoreStart : Int

def containsRowId (file : DataFileMeta) : Bool :=
  match file.writeCols with
  | none => false
  | some columns => decide (rowIdColumn ∈ columns)

/-- New rows get ids only in an appended file that has none yet. -/
def needsRowIds (file : DataFileMeta) : Bool :=
  decide (file.fileSource = some .append) && file.firstRowId.isNone && !containsRowId file

def assignBlobFile (counters : RowIdCounters) (entry : ManifestEntry) :
    Except String (RowIdCounters × ManifestEntry) :=
  match entry.file.writeCols with
  | none | some [] =>
    .error ("invalid blob file " ++ entry.file.fileName ++ ": does not have write_cols")
  | some (blobFieldName :: _) =>
    let blobStart := (counters.blobStarts blobFieldName).getD counters.blobStartDefault
    if counters.start ≤ blobStart then
      .error ("This is a bug, blobStart " ++ toString blobStart ++
        " should be less than start " ++ toString counters.start ++
        " when assigning a blob entry file.")
    else
      .ok ({ counters with
        blobStarts := Function.update counters.blobStarts blobFieldName
          (some (blobStart + entry.file.rowCount)) }, assignFirstRowId entry blobStart)

def assignVectorStoreFile (counters : RowIdCounters) (entry : ManifestEntry) :
    Except String (RowIdCounters × ManifestEntry) :=
  if counters.start ≤ counters.vectorStoreStart then
    .error ("This is a bug, vectorStoreStart " ++ toString counters.vectorStoreStart ++
      " should be less than start " ++ toString counters.start ++
      " when assigning a vector-store entry file.")
  else
    .ok ({ counters with
      vectorStoreStart := counters.vectorStoreStart + entry.file.rowCount },
      assignFirstRowId entry counters.vectorStoreStart)

def assignNormalFile (counters : RowIdCounters) (entry : ManifestEntry) :
    RowIdCounters × ManifestEntry :=
  ({ counters with
    blobStartDefault := counters.start
    blobStarts := fun _ => none
    start := counters.start + entry.file.rowCount }, assignFirstRowId entry counters.start)

def assignRowId (counters : RowIdCounters) (entry : ManifestEntry) :
    Except String (RowIdCounters × ManifestEntry) :=
  if entry.file.fileSource.isNone then
    .error "This is a bug, file source field for row-tracking table must present."
  else if needsRowIds entry.file then
    if isBlobFile entry.file.fileName then assignBlobFile counters entry
    else if isVectorStoreFile entry.file.fileName then assignVectorStoreFile counters entry
    else .ok (assignNormalFile counters entry)
  else .ok (counters, entry)

def assignRowIds (counters : RowIdCounters) :
    List ManifestEntry → Except String (RowIdCounters × List ManifestEntry)
  | [] => .ok (counters, [])
  | entry :: rest =>
    match assignRowId counters entry with
    | .error message => .error message
    | .ok (next, assigned) =>
      match assignRowIds next rest with
      | .error message => .error message
      | .ok (last, others) => .ok (last, assigned :: others)

def assignRowTrackingMeta (firstRowIdStart : Int) (deltaFiles : List ManifestEntry) :
    Except String (Int × List ManifestEntry) :=
  match assignRowIds ⟨firstRowIdStart, firstRowIdStart, fun _ => none, firstRowIdStart⟩
      deltaFiles with
  | .error message => .error message
  | .ok (counters, assigned) => .ok (counters.start, assigned)

def assignRowTracking (newSnapshotId firstRowIdStart : Int) (deltaFiles : List ManifestEntry) :
    Except String (Int × List ManifestEntry) :=
  assignRowTrackingMeta firstRowIdStart (deltaFiles.map (assignSnapshotId newSnapshotId))

/-- The ids of a file's rows: `[first, first + count - 1]`. -/
structure RowRange where
  first : Int
  count : Nat
  deriving DecidableEq, Repr

def RowRange.Contains (range : RowRange) (rowId : Int) : Prop :=
  range.first ≤ rowId ∧ rowId ≤ range.first + range.count - 1

def RowRange.Disjoint (left right : RowRange) : Prop :=
  ∀ rowId, ¬(left.Contains rowId ∧ right.Contains rowId)

def isNormalFile (file : DataFileMeta) : Bool :=
  !isBlobFile file.fileName && !isVectorStoreFile file.fileName

def grantedRange (before after : ManifestEntry) : Option RowRange :=
  if needsRowIds before.file && isNormalFile before.file then
    after.file.firstRowId.map (fun first => ⟨first, after.file.rowCount⟩)
  else none

/-- Normal files that need ids are the ones `start` counts. -/
def isGranted (entry : ManifestEntry) : Bool :=
  needsRowIds entry.file && isNormalFile entry.file

def grantedCounts (entries : List ManifestEntry) : List Nat :=
  (entries.filter isGranted).map (fun entry => entry.file.rowCount)

theorem granted_counts_append (left right : List ManifestEntry) :
    grantedCounts (left ++ right) = grantedCounts left ++ grantedCounts right := by
  simp [grantedCounts]

def grantedRanges : List ManifestEntry → List ManifestEntry → List RowRange
  | before :: rest, after :: others =>
    (grantedRange before after).toList ++ grantedRanges rest others
  | _, _ => []

def Consecutive : Int → List RowRange → Int → Prop
  | start, [], next => start = next
  | start, range :: rest, next =>
    range.first = start ∧ Consecutive (start + range.count) rest next

section
variable {start next : Int} {ranges : List RowRange} (consecutive : Consecutive start ranges next)
include consecutive

theorem Consecutive.le : start ≤ next := by
  induction ranges generalizing start with
  | nil =>
    have same : start = next := consecutive
    omega
  | cons range rest ih =>
    have tailBound := ih consecutive.2
    omega

theorem Consecutive.within (range : RowRange) (mem : range ∈ ranges) (rowId : Int)
    (contains : range.Contains rowId) : start ≤ rowId ∧ rowId < next := by
  induction ranges generalizing start with
  | nil => simp at mem
  | cons head rest ih =>
    rcases consecutive with ⟨first, tail⟩
    have tailBound := tail.le
    rcases mem_cons.mp mem with rfl | later
    · rcases contains with ⟨lower, upper⟩
      omega
    · have inner := ih tail later
      omega

theorem Consecutive.disjoint : ranges.Pairwise RowRange.Disjoint := by
  induction ranges generalizing start with
  | nil => exact Pairwise.nil
  | cons head rest ih =>
    rcases consecutive with ⟨first, tail⟩
    apply Pairwise.cons
    · intro later mem rowId both
      have beyond := tail.within later mem rowId both.2
      have inside := both.1.2
      omega
    · exact ih tail

end

theorem Consecutive.append {start middle next : Int} {left right : List RowRange}
    (first : Consecutive start left middle) (second : Consecutive middle right next) :
    Consecutive start (left ++ right) next := by
  induction left generalizing start with
  | nil =>
    have same : start = middle := first
    rw [same]
    exact second
  | cons range rest ih => exact ⟨first.1, ih first.2⟩

/-- One entry: a normal file that needs ids takes `rowCount` of them from `start`, every other
entry leaves `start` alone. -/
theorem assign_row_id_grants {counters next : RowIdCounters} {entry assigned : ManifestEntry}
    (ok : assignRowId counters entry = .ok (next, assigned)) :
    if isGranted entry then
      grantedRange entry assigned = some ⟨counters.start, entry.file.rowCount⟩ ∧
        next.start = counters.start + entry.file.rowCount
    else grantedRange entry assigned = none ∧ next.start = counters.start := by
  unfold assignRowId at ok
  by_cases noSource : entry.file.fileSource.isNone
  · simp [noSource] at ok
  · simp only [noSource, if_false, Bool.false_eq_true] at ok
    by_cases needs : needsRowIds entry.file
    · simp only [needs, if_true] at ok
      by_cases blob : isBlobFile entry.file.fileName
      · simp only [blob, if_true, assignBlobFile] at ok
        split at ok
        · cases ok
        · cases ok
        · split at ok
          · cases ok
          · simp only [Except.ok.injEq, Prod.mk.injEq] at ok
            simp [isGranted, grantedRange, isNormalFile, blob, ← ok.1]
      · by_cases vector : isVectorStoreFile entry.file.fileName
        · simp only [blob, vector, if_true, if_false, Bool.false_eq_true,
            assignVectorStoreFile] at ok
          split at ok
          · cases ok
          · simp only [Except.ok.injEq, Prod.mk.injEq] at ok
            simp [isGranted, grantedRange, isNormalFile, vector, ← ok.1]
        · simp only [blob, vector, if_false, Bool.false_eq_true, assignNormalFile,
            Except.ok.injEq, Prod.mk.injEq] at ok
          simp [isGranted, grantedRange, isNormalFile, needs, blob, vector, ← ok.1, ← ok.2,
            assignFirstRowId]
    · simp only [needs, if_false, Bool.false_eq_true, Except.ok.injEq, Prod.mk.injEq] at ok
      simp [isGranted, grantedRange, needs, ← ok.1]

theorem assign_row_id_consecutive {counters next : RowIdCounters} {entry assigned : ManifestEntry}
    (ok : assignRowId counters entry = .ok (next, assigned)) :
    Consecutive counters.start (grantedRange entry assigned).toList next.start ∧
      (grantedRange entry assigned).toList.map RowRange.count = grantedCounts [entry] := by
  have grants := assign_row_id_grants ok
  by_cases granted : isGranted entry
  · rw [if_pos granted] at grants
    simp [grants.1, grants.2, Consecutive, grantedCounts, granted]
  · rw [if_neg granted] at grants
    simp [grants.1, grants.2, Consecutive, grantedCounts, granted]

theorem assign_row_ids_consecutive {counters last : RowIdCounters}
    {entries assigned : List ManifestEntry}
    (ok : assignRowIds counters entries = .ok (last, assigned)) :
    Consecutive counters.start (grantedRanges entries assigned) last.start ∧
      (grantedRanges entries assigned).map RowRange.count = grantedCounts entries := by
  induction entries generalizing counters assigned with
  | nil =>
    simp only [assignRowIds, Except.ok.injEq, Prod.mk.injEq] at ok
    rw [← ok.1]
    exact ⟨rfl, rfl⟩
  | cons entry rest ih =>
    simp only [assignRowIds] at ok
    cases first : assignRowId counters entry with
    | error message => simp [first] at ok
    | ok round =>
      rcases round with ⟨next, head⟩
      simp only [first] at ok
      cases others : assignRowIds next rest with
      | error message => simp [others] at ok
      | ok result =>
        rcases result with ⟨final, tail⟩
        simp only [others, Except.ok.injEq, Prod.mk.injEq] at ok
        rcases ok with ⟨rfl, rfl⟩
        have one := assign_row_id_consecutive first
        have more := ih others
        constructor
        · exact one.1.append more.1
        · rw [grantedRanges, map_append, one.2, more.2, ← granted_counts_append]
          rfl

theorem is_granted_assign_snapshot_id (snapshotId : Int) (entry : ManifestEntry) :
    isGranted (assignSnapshotId snapshotId entry) = isGranted entry := by
  unfold assignSnapshotId
  split_ifs <;> rfl

theorem granted_counts_assign_snapshot_id (snapshotId : Int) (entries : List ManifestEntry) :
    grantedCounts (entries.map (assignSnapshotId snapshotId)) = grantedCounts entries := by
  have sameCount : ∀ entry : ManifestEntry,
      (assignSnapshotId snapshotId entry).file.rowCount = entry.file.rowCount := by
    intro entry
    unfold assignSnapshotId
    split_ifs <;> rfl
  simp [grantedCounts, filter_map, Function.comp_def, is_granted_assign_snapshot_id, sameCount]

theorem granted_range_assign_snapshot_id (snapshotId : Int) (before after : ManifestEntry) :
    grantedRange (assignSnapshotId snapshotId before) after = grantedRange before after := by
  have same := is_granted_assign_snapshot_id snapshotId before
  unfold isGranted at same
  unfold grantedRange
  rw [same]

theorem granted_ranges_assign_snapshot_id (snapshotId : Int)
    (entries assigned : List ManifestEntry) :
    grantedRanges (entries.map (assignSnapshotId snapshotId)) assigned =
      grantedRanges entries assigned := by
  induction entries generalizing assigned with
  | nil => rfl
  | cons entry rest ih =>
    cases assigned with
    | nil => rfl
    | cons after others =>
      simp only [map_cons, grantedRanges, granted_range_assign_snapshot_id, ih]

theorem assign_row_tracking_consecutive {newSnapshotId firstRowIdStart next : Int}
    {deltaFiles assigned : List ManifestEntry}
    (ok : assignRowTracking newSnapshotId firstRowIdStart deltaFiles = .ok (next, assigned)) :
    Consecutive firstRowIdStart (grantedRanges deltaFiles assigned) next ∧
      (grantedRanges deltaFiles assigned).map RowRange.count = grantedCounts deltaFiles := by
  unfold assignRowTracking assignRowTrackingMeta at ok
  split at ok
  · cases ok
  · rename_i counters assigned' loop
    rcases ok with ⟨rfl, rfl⟩
    have consecutive := assign_row_ids_consecutive loop
    rw [granted_ranges_assign_snapshot_id, granted_counts_assign_snapshot_id] at consecutive
    exact consecutive

/-- A published snapshot with its delta before and after numbering; a rollback numbers nothing. -/
structure TrackedSnapshot where
  id : Int
  nextRowId : Option Int
  delta : List ManifestEntry
  assigned : List ManifestEntry

def TrackedSnapshot.ranges (snapshot : TrackedSnapshot) : List RowRange :=
  grantedRanges snapshot.delta snapshot.assigned

/-- `delta_files_by_partition`, in the order of a hash map. -/
def groupByPartition (partitionOrder : List BinaryRow) (deltaFiles : List ManifestEntry) :
    List ManifestEntry :=
  partitionOrder.flatMap (fun partition =>
    deltaFiles.filter (fun entry => entry.partition = partition))

inductive TableAction where
  | commit (partitionGrouping : Option (List BinaryRow)) (deltaFiles : List ManifestEntry)
  | rollbackToAsLatest (targetSnapshotId : Int)

/-- `first_row_id_start` of `TryCommitOnce`. -/
def firstRowIdStart (latest : Option TrackedSnapshot) : Int :=
  (latest.bind TrackedSnapshot.nextRowId).getD 0

def commitDelta (table : List TrackedSnapshot) (partitionGrouping : Option (List BinaryRow))
    (deltaFiles : List ManifestEntry) : Except String (List TrackedSnapshot) :=
  let newSnapshotId := match table.getLast? with
    | none => firstSnapshotId
    | some latest => latest.id + 1
  let grouped := match partitionGrouping with
    | none => deltaFiles
    | some partitionOrder => groupByPartition partitionOrder deltaFiles
  match assignRowTracking newSnapshotId (firstRowIdStart table.getLast?) grouped with
  | .error message => .error message
  | .ok (nextRowId, assigned) =>
    .ok (table ++ [⟨newSnapshotId, some nextRowId, grouped, assigned⟩])

/-- `std::max` on optional values: the missing one is the smallest. -/
def maxOptional : Option Int → Option Int → Option Int
  | none, right => right
  | some left, none => some left
  | some left, some right => some (max left right)

def rollback (table : List TrackedSnapshot) (targetSnapshotId : Int) :
    Except String (List TrackedSnapshot) :=
  match table.getLast? with
  | none => .error "Latest snapshot is null, can not roll back."
  | some latest =>
    match table.find? (fun snapshot => snapshot.id = targetSnapshotId) with
    | none => .error "snapshot file does not exist"
    | some target =>
      .ok (table ++ [⟨latest.id + 1, maxOptional latest.nextRowId target.nextRowId, [], []⟩])

/-- A failed call publishes nothing. -/
def applyAction (table : List TrackedSnapshot) (action : TableAction) : List TrackedSnapshot :=
  let outcome := match action with
    | .commit partitionGrouping deltaFiles => commitDelta table partitionGrouping deltaFiles
    | .rollbackToAsLatest targetSnapshotId => rollback table targetSnapshotId
  match outcome with
  | .ok published => published
  | .error _ => table

def runActions (actions : List TableAction) : List TrackedSnapshot :=
  actions.foldl applyAction []

/-- A missing `NextRowId` is below every present one. -/
def NextRowIdLe : Option Int → Option Int → Prop
  | none, _ => True
  | some _, none => False
  | some left, some right => left ≤ right

theorem NextRowIdLe.trans {first second third : Option Int} (lower : NextRowIdLe first second)
    (upper : NextRowIdLe second third) : NextRowIdLe first third := by
  cases first <;> cases second <;> cases third <;> simp only [NextRowIdLe] at *
  omega

theorem next_row_id_le_max (left right : Option Int) :
    NextRowIdLe left (maxOptional left right) := by
  cases left <;> cases right <;> simp [NextRowIdLe, maxOptional]

def latestNextRowId (table : List TrackedSnapshot) : Option Int :=
  table.getLast?.bind TrackedSnapshot.nextRowId

/-- The ids a snapshot grants: each eligible file of its delta has a range of its row count,
and the ranges follow one another up to the `NextRowId` that the snapshot publishes. -/
def TrackedSnapshot.Numbered (snapshot : TrackedSnapshot) : Prop :=
  snapshot.ranges.map RowRange.count = grantedCounts snapshot.delta ∧
    (snapshot.ranges = [] ∨ ∃ start next, snapshot.nextRowId = some next ∧
      Consecutive start snapshot.ranges next)

structure Tracked (table : List TrackedSnapshot) : Prop where
  bounded : ∀ snapshot ∈ table, NextRowIdLe snapshot.nextRowId (latestNextRowId table)
  monotone : table.Pairwise (fun older newer => NextRowIdLe older.nextRowId newer.nextRowId)
  below : ∀ snapshot ∈ table, ∀ range ∈ snapshot.ranges,
    ∃ next, snapshot.nextRowId = some next ∧ ∀ rowId, range.Contains rowId → rowId < next
  disjoint : (table.flatMap TrackedSnapshot.ranges).Pairwise RowRange.Disjoint
  granted : ∀ snapshot ∈ table, snapshot.Numbered

variable {table : List TrackedSnapshot}

section
variable (tracked : Tracked table)
include tracked

theorem Tracked.below_start {range : RowRange}
    (mem : range ∈ table.flatMap TrackedSnapshot.ranges) {rowId : Int}
    (contains : range.Contains rowId) : rowId < firstRowIdStart table.getLast? := by
  rcases mem_flatMap.mp mem with ⟨snapshot, snapshotMember, rangeMember⟩
  rcases tracked.below snapshot snapshotMember range rangeMember with ⟨next, isNext, bound⟩
  have inside := bound rowId contains
  have grown := tracked.bounded snapshot snapshotMember
  rw [isNext] at grown
  unfold latestNextRowId at grown
  unfold firstRowIdStart
  cases latest : table.getLast?.bind TrackedSnapshot.nextRowId with
  | none => simp [latest, NextRowIdLe] at grown
  | some start =>
    simp only [latest, NextRowIdLe] at grown
    simp only [Option.getD_some]
    omega

theorem Tracked.publish {snapshot : TrackedSnapshot}
    (grows : NextRowIdLe (latestNextRowId table) snapshot.nextRowId)
    (counted : snapshot.ranges.map RowRange.count = grantedCounts snapshot.delta)
    (numbered : snapshot.ranges = [] ∨ ∃ next, snapshot.nextRowId = some next ∧
      Consecutive (firstRowIdStart table.getLast?) snapshot.ranges next) :
    Tracked (table ++ [snapshot]) := by
  have isLatest : latestNextRowId (table ++ [snapshot]) = snapshot.nextRowId := by
    simp [latestNextRowId]
  constructor
  · rw [isLatest, forall_mem_append, forall_mem_singleton]
    refine ⟨fun older old => (tracked.bounded older old).trans grows, ?_⟩
    cases snapshot.nextRowId <;> simp [NextRowIdLe]
  · apply pairwise_append.mpr
    constructor
    · exact tracked.monotone
    constructor
    · exact pairwise_singleton _ _
    · intro older old newer new
      rw [mem_singleton.mp new]
      exact (tracked.bounded older old).trans grows
  · rw [forall_mem_append, forall_mem_singleton]
    refine ⟨tracked.below, ?_⟩
    intro range rangeMember
    rcases numbered with none | ⟨next, isNext, consecutive⟩
    · rw [none] at rangeMember
      simp at rangeMember
    · exact ⟨next, isNext, fun rowId contains =>
        (consecutive.within range rangeMember rowId contains).2⟩
  · rw [flatMap_append, flatMap_singleton]
    apply pairwise_append.mpr
    constructor
    · exact tracked.disjoint
    rcases numbered with none | ⟨next, _, consecutive⟩
    · rw [none]
      simp
    · constructor
      · exact consecutive.disjoint
      · intro older old newer new rowId both
        have before := tracked.below_start old both.1
        have after := (consecutive.within newer new rowId both.2).1
        omega
  · rw [forall_mem_append, forall_mem_singleton]
    refine ⟨tracked.granted, counted, ?_⟩
    rcases numbered with none | ⟨next, isNext, consecutive⟩
    · exact Or.inl none
    · exact Or.inr ⟨_, next, isNext, consecutive⟩

theorem commit_delta_tracked {published : List TrackedSnapshot}
    {partitionGrouping : Option (List BinaryRow)} {deltaFiles : List ManifestEntry}
    (ok : commitDelta table partitionGrouping deltaFiles = .ok published) : Tracked published := by
  unfold commitDelta at ok
  simp only at ok
  split at ok
  · cases ok
  · rename_i nextRowId assigned numbering
    simp only [Except.ok.injEq] at ok
    rw [← ok]
    rcases assign_row_tracking_consecutive numbering with ⟨consecutive, counted⟩
    apply tracked.publish
    · have grows := consecutive.le
      unfold firstRowIdStart at grows
      unfold latestNextRowId
      cases latest : table.getLast?.bind TrackedSnapshot.nextRowId with
      | none => trivial
      | some start =>
        rw [latest] at grows
        exact grows
    · exact counted
    · exact Or.inr ⟨nextRowId, rfl, consecutive⟩

theorem rollback_tracked {published : List TrackedSnapshot} {targetSnapshotId : Int}
    (ok : rollback table targetSnapshotId = .ok published) :
    Tracked published := by
  unfold rollback at ok
  cases isLatest : table.getLast? with
  | none => simp [isLatest] at ok
  | some latest =>
    simp only [isLatest] at ok
    split at ok
    · cases ok
    · simp only [Except.ok.injEq] at ok
      rw [← ok]
      apply tracked.publish
      · have latestNext : latestNextRowId table = latest.nextRowId := by
          simp [latestNextRowId, isLatest]
        rw [latestNext]
        exact next_row_id_le_max _ _
      · rfl
      · exact Or.inl rfl

theorem apply_action_tracked (action : TableAction) : Tracked (applyAction table action) := by
  unfold applyAction
  cases action with
  | commit partitionGrouping deltaFiles =>
    simp only
    cases outcome : commitDelta table partitionGrouping deltaFiles with
    | error message => exact tracked
    | ok published => exact commit_delta_tracked tracked outcome
  | rollbackToAsLatest targetSnapshotId =>
    simp only
    cases outcome : rollback table targetSnapshotId with
    | error message => exact tracked
    | ok published => exact rollback_tracked tracked outcome

end

theorem run_actions_tracked (actions : List TableAction) : Tracked (runActions actions) := by
  have fromTable : ∀ table, Tracked table → Tracked (actions.foldl applyAction table) := by
    induction actions with
    | nil =>
      intro table tracked
      exact tracked
    | cons action rest ih =>
      intro table tracked
      exact ih (applyAction table action) (apply_action_tracked tracked action)
  apply fromTable
  constructor <;> simp

/-- Row ids are globally unique: over every sequence of commits and rollbacks,
`NextRowId` never decreases, and the ranges given to normal files are pairwise
disjoint, within a commit and across commits, and lie below the `NextRowId` that
their commit publishes. Every normal file that needs ids is given a range of its row count. -/
theorem row_ids_globally_unique (actions : List TableAction) : (runActions actions).Pairwise
        (fun older newer => NextRowIdLe older.nextRowId newer.nextRowId) ∧
      ((runActions actions).flatMap TrackedSnapshot.ranges).Pairwise RowRange.Disjoint ∧
      (∀ snapshot ∈ runActions actions, ∀ range ∈ snapshot.ranges,
        ∃ next, snapshot.nextRowId = some next ∧
          ∀ rowId, range.Contains rowId → rowId < next) ∧
      ∀ snapshot ∈ runActions actions, snapshot.Numbered := by
  have tracked := run_actions_tracked actions
  exact ⟨tracked.monotone, tracked.disjoint, tracked.below, tracked.granted⟩

end PaimonCore.RowTracking
