import PaimonCore.Commit.CommitScanner

/-!
# Bucket counts of partitions over whole runs

Several committers work on one table. Each remembers the partitions whose bucket count it has
compared with the table, and never compares them again. The count it saw there exists only in the
run model, where it says up to when the memory is good.
-/

namespace PaimonCore.Commit

open PaimonCore.Fields Manifest List LinkedHashMap

def UniformAt (partition : BinaryRow) (entries : List ManifestEntry) : Prop :=
  ∀ left ∈ entries, ∀ right ∈ entries, left.partition = partition → right.partition = partition →
    0 < left.totalBuckets → 0 < right.totalBuckets → left.totalBuckets = right.totalBuckets

def SameBucketCounts (entries : List ManifestEntry) : Prop :=
  ∀ left ∈ entries, ∀ right ∈ entries, left.partition = right.partition →
    0 < left.totalBuckets → 0 < right.totalBuckets → left.totalBuckets = right.totalBuckets

instance (entries : List ManifestEntry) : Decidable (SameBucketCounts entries) :=
  inferInstanceAs (Decidable (∀ left ∈ entries, ∀ right ∈ entries, _ → _ → _ → _))

/-- What a commit adds has one count per partition, that of the entries it leaves there. -/
def AddsAgree (entries files : List ManifestEntry) : Prop :=
  SameBucketCounts (mergeLiveEntries files) ∧ ∀ entry ∈ mergeLiveEntries entries,
    ∀ added ∈ mergeLiveEntries files, entry.partition = added.partition →
      0 < entry.totalBuckets → 0 < added.totalBuckets →
      entry.createIdentifier ∉ (pendingDeletes files).map ManifestEntry.createIdentifier →
        entry.totalBuckets = added.totalBuckets

instance (entries files : List ManifestEntry) : Decidable (AddsAgree entries files) :=
  inferInstanceAs (Decidable (_ ∧ ∀ entry ∈ mergeLiveEntries entries,
    ∀ added ∈ mergeLiveEntries files, _ → _ → _ → _ → _))

theorem same_bucket_counts_iff (entries : List ManifestEntry) :
    SameBucketCounts entries ↔ ∀ partition, UniformAt partition entries := by
  constructor
  · intro same partition left leftMember right rightMember leftHere rightHere
    exact same left leftMember right rightMember (leftHere.trans rightHere.symm)
  · intro uniform left leftMember right rightMember together
    exact uniform right.partition left leftMember right rightMember together rfl

theorem UniformAt.subset {partition : BinaryRow} {entries others : List ManifestEntry}
    (uniform : UniformAt partition entries)
    (inside : ∀ entry ∈ others, entry.partition = partition → entry ∈ entries) :
    UniformAt partition others := by
  intro left leftMember right rightMember leftHere rightHere
  exact uniform left (inside left leftMember leftHere) right (inside right rightMember rightHere)
    leftHere rightHere

section
variable {skipped : ManifestEntry → Bool} {mismatch : BinaryRow → Int → Int → String}
  {entries : List ManifestEntry} {totals collected : TotalBuckets}

section
variable (ok : collectCounts skipped mismatch totals entries = .ok collected)
include ok

/-- Known counts stay, and every entry not skipped has the count of its partition. -/
theorem collect_counts_ok : (∀ partition count, totals.find partition = some count →
      collected.find partition = some count) ∧ ∀ entry ∈ entries, skipped entry = false →
      collected.find entry.partition = some entry.totalBuckets := by
  induction entries generalizing totals with
  | nil =>
    cases ok
    exact ⟨fun _ _ known => known, by simp⟩
  | cons head rest ih =>
    rw [forall_mem_cons]
    simp only [collectCounts] at ok
    split at ok
    case isTrue headSkipped =>
      obtain ⟨keeps, counted⟩ := ih ok
      exact ⟨keeps, by simp [headSkipped], counted⟩
    case isFalse =>
      split at ok
      case h_1 absent =>
        obtain ⟨keeps, counted⟩ := ih ok
        have fresh := (find_eq_none_iff _ _).mp absent
        refine ⟨fun _ _ known => keeps _ _ (find_insert_known _ known), ?_, counted⟩
        intro _
        apply keeps
        rw [find_insert_fresh _ _ _ _ fresh, if_pos rfl]
      case h_2 previous found =>
        split at ok
        case isTrue same =>
          obtain ⟨keeps, counted⟩ := ih ok
          exact ⟨keeps, fun _ => keeps _ _ (same ▸ found), counted⟩
        case isFalse => cases ok

theorem collect_counts_uniform
    {left right : ManifestEntry} (leftMember : left ∈ entries) (rightMember : right ∈ entries)
    (leftKept : skipped left = false) (rightKept : skipped right = false)
    (same : left.partition = right.partition) : left.totalBuckets = right.totalBuckets := by
  have leftCount := (collect_counts_ok ok).2 left leftMember leftKept
  have rightCount := (collect_counts_ok ok).2 right rightMember rightKept
  rw [same, rightCount] at leftCount
  exact (Option.some.inj leftCount).symm

end

end

section
variable {config : TableConfig} {checked : CheckedPartitions} {partition : BinaryRow}
  {entries : List ManifestEntry} {totals : TotalBuckets}

/-- What `CheckBucketKeepSame` compares: entries of partitions it does not remember. -/
theorem collect_total_buckets_uniform (ok : collectTotalBuckets checked entries = .ok totals)
    (unknown : partition ∉ checked.keys) : UniformAt partition entries := by
  intro left leftMember right rightMember leftHere rightHere leftPositive rightPositive
  apply collect_counts_uniform ok leftMember rightMember
  · simp [leftHere, unknown, leftPositive]
  · simp [rightHere, unknown, rightPositive]
  · rw [leftHere, rightHere]

variable {deltaEntries baseEntries : List ManifestEntry} {commitKind : CommitKind}

theorem check_bucket_keep_same_ok {baseCommitUser : String} (notOverwrite : commitKind ≠ .overwrite)
    (ok : (checkBucketKeepSame config checked commitKind baseCommitUser baseEntries
      deltaEntries).1 = .ok ()) (unknown : partition ∉ checked.keys) :
    UniformAt partition (baseEntries ++ deltaEntries) := by
  unfold checkBucketKeepSame at ok
  rw [if_neg notOverwrite] at ok
  split at ok
  case h_1 => cases ok
  case h_2 totals collected => exact collect_total_buckets_uniform collected unknown

theorem check_bucket_keep_same_marks {baseCommitUser : String}
    (marked : partition ∈ (checkBucketKeepSame config checked commitKind baseCommitUser
      baseEntries deltaEntries).2.keys) (unknown : partition ∉ checked.keys) :
    UniformAt partition (baseEntries ++ deltaEntries) := by
  unfold checkBucketKeepSame at marked
  split at marked
  · exact absurd marked unknown
  · split at marked
    · exact absurd marked unknown
    case h_2 totals collected => exact collect_total_buckets_uniform collected unknown

theorem check_conflicts_marks {rowIdChecks : RowIdChecks} {latestSnapshot : Snapshot}
    (marked : partition ∈ (checkConflicts config rowIdChecks checked latestSnapshot baseEntries
      deltaEntries commitKind).2.keys) (unknown : partition ∉ checked.keys) :
    UniformAt partition (baseEntries ++ deltaEntries) := by
  unfold checkConflicts at marked
  split at marked
  · exact absurd marked unknown
  · have cached : partition ∈ (checkBucketKeepSame config checked commitKind
        latestSnapshot.commitUser baseEntries deltaEntries).2.keys := by
      split at marked
      all_goals
        rename_i verdict
        rw [verdict]
        exact marked
    exact check_bucket_keep_same_marks cached unknown

theorem first_total_buckets_keeps {partitions : List BinaryRow} {count : Int}
    (known : totals.find partition = some count) :
    (firstTotalBuckets partitions totals entries).find partition = some count := by
  induction entries generalizing totals with
  | nil => exact known
  | cons entry rest ih =>
    rw [firstTotalBuckets]
    split
    · exact ih known
    · exact ih (find_insert_known _ known)

theorem first_total_buckets_found {partitions : List BinaryRow} {entry : ManifestEntry}
    (mem : entry ∈ entries) (isAdd : entry.kind = .add) (pos : 0 < entry.totalBuckets)
    (read : entry.partition ∈ partitions) (uniform : UniformAt entry.partition entries)
    (fresh : entry.partition ∉ totals.keys) :
    (firstTotalBuckets partitions totals entries).find entry.partition =
      some entry.totalBuckets := by
  induction entries generalizing totals with
  | nil => cases mem
  | cons head rest ih =>
    have restUniform : UniformAt entry.partition rest :=
      uniform.subset (fun _ mem _ => mem_cons_of_mem _ mem)
    rw [firstTotalBuckets]
    split
    case isTrue skipped =>
      rcases mem_cons.mp mem with rfl | inRest
      · rcases skipped with notAdd | notPositive | unread
        · exact absurd isAdd notAdd
        · omega
        · exact absurd read unread
      · exact ih inRest restUniform fresh
    case isFalse counted =>
      by_cases here : head.partition = entry.partition
      · have headFresh : head.partition ∉ totals.keys := here ▸ fresh
        have headPositive : 0 < head.totalBuckets := by
          by_contra notPositive
          exact counted (Or.inr (Or.inl (by omega)))
        have sameCount := uniform head mem_cons_self entry mem here rfl headPositive
          pos
        apply first_total_buckets_keeps
        rw [find_insert_fresh _ _ _ _ headFresh, if_pos here.symm, sameCount]
      · have stillFresh :
            entry.partition ∉ (totals.insert head.partition head.totalBuckets).keys := by
          intro known
          rcases (mem_keys_insert _ _ _ _).mp known with old | same
          · exact fresh old
          · exact here same.symm
        rcases mem_cons.mp mem with rfl | inRest
        · exact absurd rfl here
        · exact ih inRest restUniform stillFresh

/-- `FileStoreCommitImpl::CheckSameBucketFromSnapshot`, with a latest snapshot. -/
def checkSameBucketFromSnapshot (config : TableConfig) (checked : CheckedPartitions)
    (entries deltaEntries : List ManifestEntry) : Except String Unit × CheckedPartitions :=
  match collectUncheckedBucketPartitions config checked deltaEntries with
  | .error message => (.error message, checked)
  | .ok expectedTotalBuckets =>
    if expectedTotalBuckets.keys = [] then (.ok (), checked)
    else
      checkSameBucketByTotalBuckets config checked expectedTotalBuckets
        (readTotalBuckets entries expectedTotalBuckets.keys)

theorem mem_live_files_iff {entry : ManifestEntry} :
    entry ∈ liveFiles entries ↔ entry ∈ entries ∧ entry.kind = .add := by
  simp [liveFiles]

variable (unknown : partition ∉ checked.keys)
include unknown

theorem expected_counts_uniform {expected : TotalBuckets} {previous : TotalBuckets}
    (collected : collectUncheckedBucketPartitions config checked deltaEntries = .ok expected)
    (reads : previous = readTotalBuckets entries expected.keys)
    (agrees : ∀ count, expected.find partition = some count →
      ∀ seen, previous.find partition = some seen → seen = count)
    (uniform : UniformAt partition (mergeLiveEntries entries)) :
    UniformAt partition (mergeLiveEntries entries ++ liveFiles deltaEntries) := by
  have delta : ∀ entry ∈ liveFiles deltaEntries, entry.partition = partition →
      0 < entry.totalBuckets → expected.find partition = some entry.totalBuckets := by
    intro entry mem here pos
    rcases mem_live_files_iff.mp mem with ⟨inDelta, isAdd⟩
    have counted :=
      (collect_counts_ok collected).2 entry inDelta (by simp [isAdd, pos, here, unknown])
    rw [here] at counted
    exact counted
  have table : ∀ count, expected.find partition = some count → ∀ entry ∈ mergeLiveEntries entries,
      entry.partition = partition → 0 < entry.totalBuckets → entry.totalBuckets = count := by
    intro count expects entry mem here pos
    have isKey : partition ∈ expected.keys := by
      by_contra absent
      rw [(find_eq_none_iff _ _).mpr absent] at expects
      cases expects
    have read : entry ∈ readAllEntriesFromChangedPartitions entries expected.keys :=
      (mem_read_all_entries_iff _ _ _).mpr ⟨mem, here ▸ isKey⟩
    have readUniform :
        UniformAt entry.partition (readAllEntriesFromChangedPartitions entries expected.keys) := by
      rw [here]
      exact uniform.subset (fun _ mem _ => ((mem_read_all_entries_iff _ _ _).mp mem).1)
    have isAdd := (mem_live_files_iff.mp (mem_of_mem_filter mem)).2
    have fresh : entry.partition ∉ (empty : TotalBuckets).keys := by simp
    have found := first_total_buckets_found read isAdd pos (here ▸ isKey) readUniform fresh
    apply agrees count expects
    rw [reads, ← here]
    exact found
  intro left leftMember right rightMember leftHere rightHere leftPositive rightPositive
  rcases mem_append.mp leftMember with leftLive | leftNew
  · rcases mem_append.mp rightMember with rightLive | rightNew
    · exact uniform left leftLive right rightLive leftHere rightHere leftPositive rightPositive
    · exact table _ (delta right rightNew rightHere rightPositive) left leftLive leftHere
        leftPositive
  · have leftCount := delta left leftNew leftHere leftPositive
    rcases mem_append.mp rightMember with rightLive | rightNew
    · exact (table _ leftCount right rightLive rightHere rightPositive).symm
    · have rightCount := delta right rightNew rightHere rightPositive
      rw [leftCount] at rightCount
      exact Option.some.inj rightCount

theorem check_same_bucket_from_snapshot_ok
    (ok : (checkSameBucketFromSnapshot config checked entries deltaEntries).1 = .ok ())
    (uniform : UniformAt partition (mergeLiveEntries entries)) :
    UniformAt partition (mergeLiveEntries entries ++ liveFiles deltaEntries) := by
  unfold checkSameBucketFromSnapshot at ok
  split at ok
  case h_1 => cases ok
  case h_2 expected collected =>
    apply expected_counts_uniform unknown collected rfl _ uniform
    intro count expects seen sees
    split at ok
    case isTrue none =>
      have absent : partition ∉ expected.keys := by simp [none]
      rw [(find_eq_none_iff _ _).mpr absent] at expects
      cases expects
    case isFalse =>
      unfold checkSameBucketByTotalBuckets at ok
      dsimp only at ok
      split at ok
      case h_1 => cases ok
      case h_2 unchanged =>
        have pair := (config.partitionOrder.perm _).mem_iff.mpr (mem_order_of_find _ _ _ expects)
        have compared := findSome?_eq_none_iff.mp unchanged _ pair
        simp only [sees] at compared
        by_contra ne
        rw [if_neg ne] at compared
        cases compared

theorem check_same_bucket_from_snapshot_marks (marked : partition ∈
      (checkSameBucketFromSnapshot config checked entries deltaEntries).2.keys) :
    (checkSameBucketFromSnapshot config checked entries deltaEntries).1 = .ok () := by
  unfold checkSameBucketFromSnapshot checkSameBucketByTotalBuckets at marked ⊢
  cases collected : collectUncheckedBucketPartitions config checked deltaEntries with
  | error message =>
    simp only [collected] at marked
    exact absurd marked unknown
  | ok expected =>
    simp only [collected] at marked ⊢
    split
    · rfl
    case isFalse some =>
      rw [if_neg some] at marked
      split
      case h_1 changed =>
        simp only [changed] at marked
        exact absurd marked unknown
      case h_2 => rfl

end

/-- One call of `TryCommitOnce`; `published` is the snapshot it publishes if it gets that far. -/
structure CommitAttempt where
  commitKind : CommitKind
  deltaEntries : List ManifestEntry
  indexEntries : List IndexManifestEntry := []
  detectConflicts : Bool := true
  rowIdChecks : RowIdChecks := fun _ _ _ _ _ => .ok ()
  published : Option Snapshot

/-- The data entries of the latest snapshot and the memory of every committer; `countAtCheck` is the
count a partition had when the committer came to remember it. -/
structure BucketRun (Committer : Type) where
  latestSnapshot : Option Snapshot
  entries : List ManifestEntry
  checked : Committer → CheckedPartitions
  countAtCheck : Committer → BinaryRow → Int

def shouldCheckSameBucket (config : TableConfig) (commitKind : CommitKind) : Bool :=
  commitKind = .append && resolveBucketMode config = .hashFixed &&
    ((config.writeOnly && !config.bucketAppendOrdered) ||
      (config.writeOnly && config.writeSequenceNumberFromSnapshot))

def discardsDuplicates (config : TableConfig) (attempt : CommitAttempt) : Bool :=
  config.commitDiscardDuplicateFiles && attempt.commitKind = .append

def checksConflicts (config : TableConfig) (attempt : CommitAttempt) : Bool :=
  discardsDuplicates config attempt || attempt.detectConflicts

def baseDataFiles (entries : List ManifestEntry) (attempt : CommitAttempt) : List ManifestEntry :=
  readAllEntriesFromChangedPartitions entries
    (changedPartitions attempt.deltaEntries attempt.indexEntries)

/-- The entries of the commit, less those the table holds already when duplicates are discarded. -/
def deltaFiles (config : TableConfig) (entries : List ManifestEntry) (attempt : CommitAttempt) :
    List ManifestEntry :=
  if discardsDuplicates config attempt then
    let baseIdentifiers := (baseDataFiles entries attempt).map ManifestEntry.createIdentifier
    attempt.deltaEntries.filter (fun entry => entry.createIdentifier ∉ baseIdentifiers)
  else attempt.deltaEntries

def observedCount (entries : List ManifestEntry) (partition : BinaryRow) : Int :=
  match entries.find? (fun entry => entry.partition = partition ∧ 0 < entry.totalBuckets) with
  | some entry => entry.totalBuckets
  | none => 0

section
variable {attempt : CommitAttempt} {tableConfig : TableConfig} {entries : List ManifestEntry}
  {partition : BinaryRow} {entry : ManifestEntry}

theorem mem_delta_entries_of_files (mem : entry ∈ deltaFiles tableConfig entries attempt) :
    entry ∈ attempt.deltaEntries := by
  unfold deltaFiles at mem
  split at mem
  · exact mem_of_mem_filter mem
  · exact mem

theorem live_after_append {added : List ManifestEntry}
    (live : entry ∈ mergeLiveEntries (entries ++ added)) :
    (entry ∈ mergeLiveEntries entries ∧
        entry.createIdentifier ∉ (pendingDeletes added).map ManifestEntry.createIdentifier) ∨
      entry ∈ mergeLiveEntries added := by
  simp only [mergeLiveEntries, liveFiles, pendingDeletes, filter_append, map_append,
    mem_filter, mem_append, decide_eq_true_eq, not_or] at live ⊢
  rcases live with ⟨old, notDeleted, kept⟩ | ⟨new, _, kept⟩
  · exact Or.inl ⟨⟨old, decide_eq_true notDeleted⟩, kept⟩
  · exact Or.inr ⟨new, decide_eq_true kept⟩

theorem AddsAgree.after_append {files : List ManifestEntry} (agree : AddsAgree entries files)
    (uniform : SameBucketCounts (mergeLiveEntries entries)) :
    SameBucketCounts (mergeLiveEntries (entries ++ files)) := by
  obtain ⟨among, withTable⟩ := agree
  intro left leftLive right rightLive together leftPositive rightPositive
  rcases live_after_append leftLive with ⟨leftOld, leftKept⟩ | leftNew
  · rcases live_after_append rightLive with ⟨rightOld, _⟩ | rightNew
    · exact uniform left leftOld right rightOld together leftPositive rightPositive
    · exact withTable left leftOld right rightNew together leftPositive rightPositive leftKept
  · rcases live_after_append rightLive with ⟨rightOld, rightKept⟩ | rightNew
    · exact (withTable right rightOld left leftNew together.symm rightPositive leftPositive
        rightKept).symm
    · exact among left leftNew right rightNew together leftPositive rightPositive

theorem observed_count_eq {front back : List ManifestEntry} (mem : entry ∈ front)
    (pos : 0 < entry.totalBuckets) (uniform : UniformAt entry.partition front) :
    observedCount (front ++ back) entry.partition = entry.totalBuckets := by
  have found : (front.find? (fun other =>
      other.partition = entry.partition ∧ 0 < other.totalBuckets)).isSome = true := by
    rw [find?_isSome]
    exact ⟨entry, mem, by simp [pos]⟩
  rcases Option.isSome_iff_exists.mp found with ⟨first, isFirst⟩
  have inFront := mem_of_find?_eq_some isFirst
  have here := find?_some isFirst
  simp only [decide_eq_true_eq] at here
  rw [observedCount, find?_append, isFirst]
  exact uniform first inFront entry mem here.1 rfl here.2 pos

theorem uniform_with_table (base : UniformAt partition (baseDataFiles entries attempt ++
      deltaFiles tableConfig entries attempt))
    (table : UniformAt partition (mergeLiveEntries entries)) :
    UniformAt partition (mergeLiveEntries entries ++
      liveFiles (deltaFiles tableConfig entries attempt)) := by
  by_cases changed : partition ∈ changedPartitions attempt.deltaEntries attempt.indexEntries
  · apply base.subset
    intro entry mem here
    rcases mem_append.mp mem with live | new
    · apply mem_append_left
      exact (mem_read_all_entries_iff _ _ _).mpr ⟨live, here ▸ changed⟩
    · exact mem_append_right _ (mem_live_files_iff.mp new).1
  · apply table.subset
    intro entry mem here
    rcases mem_append.mp mem with live | new
    · exact live
    · have inDelta := mem_delta_entries_of_files (mem_live_files_iff.mp new).1
      apply absurd _ changed
      rw [changedPartitions, mem_dedup, ← here]
      exact mem_append_left _ (mem_map_of_mem inDelta)

theorem delta_files_of_unchecked (unchecked : checksConflicts tableConfig attempt = false) :
    deltaFiles tableConfig entries attempt = attempt.deltaEntries := by
  have keeps : discardsDuplicates tableConfig attempt = false := by
    simp only [checksConflicts, Bool.or_eq_false_iff] at unchecked
    exact unchecked.1
  simp [deltaFiles, keeps]

variable {Committer : Type} (config : Committer → TableConfig)

/-- The checks of `TryCommitOnce`, with the memory they leave. -/
def examine (state : BucketRun Committer) (committer : Committer) (attempt : CommitAttempt) :
    Except String Unit × CheckedPartitions :=
  match state.latestSnapshot with
  | none => (.ok (), state.checked committer)
  | some latestSnapshot =>
    if checksConflicts (config committer) attempt then
      checkConflicts (config committer) attempt.rowIdChecks (state.checked committer)
        latestSnapshot (baseDataFiles state.entries attempt)
        (deltaFiles (config committer) state.entries attempt) attempt.commitKind
    else if shouldCheckSameBucket (config committer) attempt.commitKind then
      checkSameBucketFromSnapshot (config committer) (state.checked committer) state.entries
        attempt.deltaEntries
    else (.ok (), state.checked committer)

def Examined (state : BucketRun Committer) (committer : Committer) (attempt : CommitAttempt) :
    Prop :=
  attempt.commitKind ≠ .overwrite ∧ state.latestSnapshot.isSome ∧
    (checksConflicts (config committer) attempt ∨
      shouldCheckSameBucket (config committer) attempt.commitKind)

instance (state : BucketRun Committer) (committer : Committer) (attempt : CommitAttempt) :
    Decidable (Examined config state committer attempt) :=
  inferInstanceAs (Decidable (_ ∧ _ ∧ _))

variable {config} {state : BucketRun Committer} {committer : Committer}

theorem examine_ok (examined : Examined config state committer attempt)
    (ok : (examine config state committer attempt).1 = .ok ())
    (unknown : partition ∉ (state.checked committer).keys)
    (table : UniformAt partition (mergeLiveEntries state.entries)) :
    UniformAt partition (mergeLiveEntries state.entries ++
      liveFiles (deltaFiles (config committer) state.entries attempt)) := by
  rcases examined with ⟨notOverwrite, present, checks⟩
  rcases Option.isSome_iff_exists.mp present with ⟨latestSnapshot, isLatest⟩
  simp only [examine, isLatest] at ok
  split at ok
  case isTrue =>
    have buckets := (check_conflicts_ok ok).1
    exact uniform_with_table (check_bucket_keep_same_ok notOverwrite buckets unknown) table
  case isFalse unchecked =>
    have sameBucket : shouldCheckSameBucket (config committer) attempt.commitKind = true := by
      rcases checks with conflicts | sameBucket
      · exact absurd conflicts unchecked
      · exact sameBucket
    rw [if_pos sameBucket] at ok
    rw [delta_files_of_unchecked (by simpa using unchecked)]
    exact check_same_bucket_from_snapshot_ok unknown ok table

theorem examine_marks (marked : partition ∈ (examine config state committer attempt).2.keys)
    (unknown : partition ∉ (state.checked committer).keys)
    (table : UniformAt partition (mergeLiveEntries state.entries)) :
    UniformAt partition (mergeLiveEntries state.entries ++
      liveFiles (deltaFiles (config committer) state.entries attempt)) := by
  unfold examine at marked
  split at marked
  · exact absurd marked unknown
  · split at marked
    · exact uniform_with_table (check_conflicts_marks marked unknown) table
    case isFalse unchecked =>
      split at marked
      · have ok := check_same_bucket_from_snapshot_marks unknown marked
        rw [delta_files_of_unchecked (by simpa using unchecked)]
        exact check_same_bucket_from_snapshot_ok unknown ok table
      · exact absurd marked unknown

end

section
variable {Committer : Type} [DecidableEq Committer] (config : Committer → TableConfig)

/-- Partitions that are new in the memory are noted with the count they have now. -/
def noteCounts (state : BucketRun Committer) (committer : Committer) (attempt : CommitAttempt) :
    BinaryRow → Int :=
  fun partition =>
    if partition ∈ (state.checked committer).keys then state.countAtCheck committer partition
    else
      let files := deltaFiles (config committer) state.entries attempt
      observedCount (mergeLiveEntries state.entries ++ liveFiles files ++ files) partition

def remember (state : BucketRun Committer) (committer : Committer) (attempt : CommitAttempt) :
    BucketRun Committer where
  latestSnapshot := state.latestSnapshot
  entries := state.entries
  checked := Function.update state.checked committer (examine config state committer attempt).2
  countAtCheck :=
    Function.update state.countAtCheck committer (noteCounts config state committer attempt)

def applyAttempt (state : BucketRun Committer) (committer : Committer) (attempt : CommitAttempt) :
    BucketRun Committer :=
  let remembered := remember config state committer attempt
  match (examine config state committer attempt).1, attempt.published with
  | .ok (), some snapshot =>
    { remembered with
      latestSnapshot := some snapshot
      entries := state.entries ++ deltaFiles (config committer) state.entries attempt }
  | _, _ => remembered

def runAttempts : BucketRun Committer → List (Committer × CommitAttempt) → BucketRun Committer
  | state, [] => state
  | state, (committer, attempt) :: rest =>
    runAttempts (applyAttempt config state committer attempt) rest

/-- The commit keeps to the counts some committer remembers; where no check looks, what it adds
agrees with itself and with what it leaves. -/
structure KeepsCounts (state : BucketRun Committer) (committer : Committer)
    (attempt : CommitAttempt) : Prop where
  remembered : ∀ entry ∈ attempt.deltaEntries, 0 < entry.totalBuckets →
    ∀ other, entry.partition ∈ (state.checked other).keys →
      entry.totalBuckets = state.countAtCheck other entry.partition
  unexamined : ¬Examined config state committer attempt →
    AddsAgree state.entries (deltaFiles (config committer) state.entries attempt)

def KeepsCountsAlong : BucketRun Committer → List (Committer × CommitAttempt) → Prop
  | _, [] => True
  | state, (committer, attempt) :: rest =>
    KeepsCounts config state committer attempt ∧
      KeepsCountsAlong (applyAttempt config state committer attempt) rest

/-- The table is uniform, and what a committer remembers is still the case. -/
structure Current (state : BucketRun Committer) : Prop where
  uniform : SameBucketCounts (mergeLiveEntries state.entries)
  remembered : ∀ committer, ∀ entry ∈ mergeLiveEntries state.entries, 0 < entry.totalBuckets →
    entry.partition ∈ (state.checked committer).keys →
      entry.totalBuckets = state.countAtCheck committer entry.partition

/-- The memory is updated in any case, the table only when the checks let the attempt through. -/
theorem apply_attempt_entries (state : BucketRun Committer) (committer : Committer)
    (attempt : CommitAttempt) :
    (applyAttempt config state committer attempt).entries = state.entries ∨
      ((examine config state committer attempt).1 = .ok () ∧
        (applyAttempt config state committer attempt).entries =
          state.entries ++ deltaFiles (config committer) state.entries attempt) := by
  unfold applyAttempt
  split
  case h_1 snapshot ok _ => exact Or.inr ⟨ok, rfl⟩
  case h_2 => exact Or.inl rfl

theorem apply_attempt_checks (state : BucketRun Committer) (committer : Committer)
    (attempt : CommitAttempt) : (applyAttempt config state committer attempt).checked =
        Function.update state.checked committer (examine config state committer attempt).2 ∧
      (applyAttempt config state committer attempt).countAtCheck =
        Function.update state.countAtCheck committer
          (noteCounts config state committer attempt) := by
  unfold applyAttempt
  split <;> exact ⟨rfl, rfl⟩

variable {config} {state : BucketRun Committer} {committer : Committer} {attempt : CommitAttempt}

theorem live_after_attempt {entry : ManifestEntry}
    (live : entry ∈ mergeLiveEntries (applyAttempt config state committer attempt).entries) :
    entry ∈ mergeLiveEntries state.entries ++
      liveFiles (deltaFiles (config committer) state.entries attempt) := by
  rcases apply_attempt_entries config state committer attempt with same | ⟨_, appended⟩
  · rw [same] at live
    exact mem_append_left _ live
  · rw [appended] at live
    rcases live_after_append live with ⟨old, _⟩ | new
    · exact mem_append_left _ old
    · exact mem_append_right _ (mem_of_mem_filter new)

section
variable (current : Current state) (keeps : KeepsCounts config state committer attempt)
include current keeps

theorem remembered_after_attempt {entry : ManifestEntry}
    (live : entry ∈ mergeLiveEntries (applyAttempt config state committer attempt).entries)
    (pos : 0 < entry.totalBuckets) (other : Committer)
    (known : entry.partition ∈ (state.checked other).keys) :
    entry.totalBuckets = state.countAtCheck other entry.partition := by
  rcases mem_append.mp (live_after_attempt live) with old | new
  · exact current.remembered other entry old pos known
  · have inDelta := mem_delta_entries_of_files (mem_live_files_iff.mp new).1
    exact keeps.remembered entry inDelta pos other known

theorem uniform_after_attempt :
    SameBucketCounts (mergeLiveEntries (applyAttempt config state committer attempt).entries) := by
  rcases apply_attempt_entries config state committer attempt with same | ⟨ok, appended⟩
  · rw [same]
    exact current.uniform
  · by_cases examined : Examined config state committer attempt
    · apply (same_bucket_counts_iff _).mpr
      intro partition left leftLive right rightLive leftHere rightHere leftPositive rightPositive
      by_cases known : partition ∈ (state.checked committer).keys
      · have leftCount :=
          remembered_after_attempt current keeps leftLive leftPositive committer (leftHere ▸ known)
        have rightCount := remembered_after_attempt current keeps rightLive rightPositive committer
          (rightHere ▸ known)
        rw [leftCount, rightCount, leftHere, rightHere]
      · have table := (same_bucket_counts_iff _).mp current.uniform partition
        exact examine_ok examined ok known table left (live_after_attempt leftLive) right
          (live_after_attempt rightLive) leftHere rightHere leftPositive rightPositive
    · rw [appended]
      exact (keeps.unexamined examined).after_append current.uniform

theorem current_after_attempt : Current (applyAttempt config state committer attempt) where
  uniform := uniform_after_attempt current keeps
  remembered := by
    intro other entry live pos known
    obtain ⟨isChecked, isCounted⟩ := apply_attempt_checks config state committer attempt
    rw [isChecked] at known
    rw [isCounted]
    by_cases same : other = committer
    · subst same
      rw [Function.update_self] at known ⊢
      by_cases before : entry.partition ∈ (state.checked other).keys
      · rw [noteCounts, if_pos before]
        exact remembered_after_attempt current keeps live pos other before
      · have table := (same_bucket_counts_iff _).mp current.uniform entry.partition
        have compared := examine_marks known before table
        rw [noteCounts, if_neg before]
        exact (observed_count_eq (live_after_attempt live) pos compared).symm
    · rw [Function.update_of_ne same] at known ⊢
      exact remembered_after_attempt current keeps live pos other known

end

theorem current_after_run {attempts : List (Committer × CommitAttempt)} (current : Current state)
    (keeps : KeepsCountsAlong config state attempts) :
    Current (runAttempts config state attempts) := by
  induction attempts generalizing state with
  | nil => exact current
  | cons step rest ih => exact ih (current_after_attempt current keeps.1) keeps.2

theorem keeps_counts_along_append {before after : List (Committer × CommitAttempt)}
    (keeps : KeepsCountsAlong config state (before ++ after)) :
    KeepsCountsAlong config state before ∧
      KeepsCountsAlong config (runAttempts config state before) after := by
  induction before generalizing state with
  | nil => exact ⟨trivial, keeps⟩
  | cons step rest ih =>
    rcases ih keeps.2 with ⟨restKeeps, afterKeeps⟩
    exact ⟨⟨keeps.1, restKeeps⟩, afterKeeps⟩

omit [DecidableEq Committer] in
theorem accepted_counts_agree (current : Current state)
    (keeps : KeepsCounts config state committer attempt) {latestSnapshot : Snapshot}
    (notOverwrite : attempt.commitKind ≠ .overwrite)
    (accepted : (checkConflicts (config committer) attempt.rowIdChecks (state.checked committer)
      latestSnapshot (baseDataFiles state.entries attempt)
      (deltaFiles (config committer) state.entries attempt) attempt.commitKind).1 = .ok ()) :
    SameBucketCounts (baseDataFiles state.entries attempt ++
      deltaFiles (config committer) state.entries attempt) := by
  have known : ∀ entry ∈ baseDataFiles state.entries attempt ++
      deltaFiles (config committer) state.entries attempt, 0 < entry.totalBuckets →
      entry.partition ∈ (state.checked committer).keys →
        entry.totalBuckets = state.countAtCheck committer entry.partition := by
    intro entry mem pos isKnown
    rcases mem_append.mp mem with base | delta
    · have live := ((mem_read_all_entries_iff _ _ _).mp base).1
      exact current.remembered committer entry live pos isKnown
    · exact keeps.remembered entry (mem_delta_entries_of_files delta) pos committer isKnown
  apply (same_bucket_counts_iff _).mpr
  intro partition left leftMember right rightMember leftHere rightHere leftPositive rightPositive
  by_cases isKnown : partition ∈ (state.checked committer).keys
  · have leftCount := known left leftMember leftPositive (leftHere ▸ isKnown)
    have rightCount := known right rightMember rightPositive (rightHere ▸ isKnown)
    rw [leftCount, rightCount, leftHere, rightHere]
  · have buckets := (check_conflicts_ok accepted).1
    exact check_bucket_keep_same_ok notOverwrite buckets isKnown left leftMember right rightMember
      leftHere rightHere leftPositive rightPositive

/-- As long as no commit brings another bucket count to a partition that a committer
remembers, and what overwrites and unchecked commits add agrees with what they leave, no
partition comes to two counts, and every commit that `CheckConflicts` accepts agrees with its
base. -/
theorem bucket_counts_kept (config : Committer → TableConfig) (start : BucketRun Committer)
    (uniform : SameBucketCounts (mergeLiveEntries start.entries))
    (fresh : ∀ committer, start.checked committer = LinkedHashMap.empty)
    (attempts : List (Committer × CommitAttempt)) (keeps : KeepsCountsAlong config start attempts) :
    SameBucketCounts (mergeLiveEntries (runAttempts config start attempts).entries) ∧
      ∀ before committer attempt after latestSnapshot,
        attempts = before ++ (committer, attempt) :: after → attempt.commitKind ≠ .overwrite →
        (checkConflicts (config committer) attempt.rowIdChecks
          ((runAttempts config start before).checked committer) latestSnapshot
          (baseDataFiles (runAttempts config start before).entries attempt)
          (deltaFiles (config committer) (runAttempts config start before).entries attempt)
          attempt.commitKind).1 = .ok () →
        SameBucketCounts (baseDataFiles (runAttempts config start before).entries attempt ++
          deltaFiles (config committer) (runAttempts config start before).entries attempt) := by
  have current : Current start := by
    apply Current.mk uniform
    intro committer entry _ _ known
    rw [fresh committer] at known
    cases known
  constructor
  · exact (current_after_run current keeps).uniform
  · intro before committer attempt after latestSnapshot split notOverwrite accepted
    subst split
    rcases keeps_counts_along_append keeps with ⟨beforeKeeps, afterKeeps⟩
    exact accepted_counts_agree (current_after_run current beforeKeeps) afterKeeps.1 notOverwrite
      accepted

end

def bucketFile (fileName : String) (kind : FileKind) (totalBuckets : Int) : ManifestEntry where
  kind
  totalBuckets
  file := { fileName }

def emptyRun : BucketRun Bool where
  latestSnapshot := none
  entries := []
  checked := fun _ => LinkedHashMap.empty
  countAtCheck := fun _ _ => 0

def snapshotAt (id : Nat) : Snapshot where
  id
  baseManifestList := ⟨id, 0⟩
  deltaManifestList := ⟨id, 1⟩

def attemptAt (id : Nat) (commitKind : CommitKind) (deltaEntries : List ManifestEntry) :
    CommitAttempt where
  commitKind
  deltaEntries
  published := some (snapshotAt id)

/-- Four buckets become eight before anyone remembers the partition; then both committers append. -/
theorem bucket_counts_kept_for_two :
    SameBucketCounts (mergeLiveEntries (runAttempts (fun _ => {}) emptyRun
      [(false, attemptAt 1 .append [bucketFile "a" .add 4]),
        (true, attemptAt 2 .overwrite [bucketFile "a" .delete 4, bucketFile "b" .add 8]),
        (false, attemptAt 3 .append [bucketFile "c" .add 8]),
        (true, attemptAt 4 .append [bucketFile "d" .add 8])]).entries) := by
  apply (bucket_counts_kept (fun _ => {}) emptyRun (by decide) (fun _ => rfl) _ _).1
  refine ⟨⟨?_, ?_⟩, ⟨?_, ?_⟩, ⟨?_, ?_⟩, ⟨?_, ?_⟩, trivial⟩ <;> decide

/-- The first committer appends to a partition of four buckets and remembers it. The
second one rescales it to eight. The first one may still append with four. -/
theorem stale_memory_mixes_counts :
    let before :=
      runAttempts (fun _ => {}) emptyRun [(false, attemptAt 1 .append [bucketFile "a" .add 4]),
        (false, attemptAt 2 .append [bucketFile "b" .add 4]),
        (true, attemptAt 3 .overwrite [bucketFile "a" .delete 4, bucketFile "b" .delete 4,
          bucketFile "c" .add 8])]
    let attempt := attemptAt 4 .append [bucketFile "d" .add 4]
    (checkConflicts {} attempt.rowIdChecks (before.checked false) (snapshotAt 3)
        (baseDataFiles before.entries attempt) (deltaFiles {} before.entries attempt)
        attempt.commitKind).1 = .ok () ∧
      baseDataFiles before.entries attempt = [bucketFile "c" .add 8] ∧
      deltaFiles {} before.entries attempt = [bucketFile "d" .add 4] ∧
      ¬SameBucketCounts
        (mergeLiveEntries (applyAttempt (fun _ => {}) before false attempt).entries) := by
  refine ⟨rfl, rfl, rfl, ?_⟩
  decide

end PaimonCore.Commit
