import PaimonCore.Commit.Snapshot
import PaimonCore.Library.Runs

/-!
# `SnapshotManager` and its hints

The directory of the snapshots holds one file for each snapshot and the two hint files.
Committers publish a snapshot and write `LATEST` afterwards; expirers delete snapshots one
after the other. The lookup of the latest snapshot believes the hint if there is no next
snapshot.
-/

namespace PaimonCore.Snapshots

open Runs List
open PaimonCore.Commit (firstSnapshotId)

structure SnapshotDirectory where
  /-- The ids of the snapshot files, in the order of the listing. -/
  snapshots : List Int := []
  latestHint : Option Int := none
  earliestHint : Option Int := none
  deriving DecidableEq, Repr

namespace SnapshotDirectory

variable (directory : SnapshotDirectory)

def findByListFiles (reducer : Int → Int → Int) : Option Int :=
  match directory.snapshots with
  | [] => none
  | first :: rest => some ((first :: rest).foldl reducer first)

/-- `hintRead` tells whether the hint file could be read. -/
def findLatest (hintRead : Bool) : Option Int :=
  match if hintRead then directory.latestHint else none with
  | some id =>
    if 0 < id then
      -- It is the latest only if there is no next one.
      if id + 1 ∈ directory.snapshots then directory.findByListFiles max else some id
    else directory.findByListFiles max
  | none => directory.findByListFiles max

def findEarliest (hintRead : Bool) : Option Int :=
  match if hintRead then directory.earliestHint else none with
  | some id => if id ∈ directory.snapshots then some id else directory.findByListFiles min
  | none => directory.findByListFiles min

/-- `LatestSnapshot`, which also loads the snapshot; `none` is the failure to load it. -/
def latestSnapshot (hintRead : Bool) : Option (Option Int) :=
  match directory.findLatest hintRead with
  | none => some none
  | some id => if id ∈ directory.snapshots then some (some id) else none

/-- `LatestSnapshotIdFromFileSystem` gives the largest id there is. -/
structure LatestRight : Prop where
  greatest : ∀ hintRead id, directory.findLatest hintRead = some id ↔
    IsGreatest { id | id ∈ directory.snapshots } id
  none_iff : ∀ hintRead, directory.findLatest hintRead = none ↔ directory.snapshots = []

/-- The hint is the latest id, or the next one is there to say that it is not. -/
def HintTrusted : Prop :=
  ∀ hint ∈ directory.latestHint, 0 < hint → hint + 1 ∈ directory.snapshots ∨
    ∀ id ∈ directory.snapshots, id ≤ hint

theorem find_by_list_files_max : directory.findByListFiles max = directory.snapshots.max? := by
  rw [findByListFiles]
  cases directory.snapshots with
  | nil => rfl
  | cons first rest =>
    rw [max?_cons']
    simp only [foldl_cons, max_self]

theorem list_files_greatest (id : Int) :
    directory.findByListFiles max = some id ↔ IsGreatest { id | id ∈ directory.snapshots } id := by
  rw [find_by_list_files_max, max?_eq_some_iff]
  rfl

theorem list_files_none : directory.findByListFiles max = none ↔ directory.snapshots = [] := by
  rw [find_by_list_files_max, max?_eq_none_iff]

def Reaches (id : Int) : Prop := ∃ newer ∈ directory.snapshots, id ≤ newer

variable {directory}

theorem Reaches.mono {later : SnapshotDirectory} {id : Int} (reaches : directory.Reaches id)
    (kept : ∀ snapshot ∈ directory.snapshots, later.Reaches snapshot) : later.Reaches id := by
  obtain ⟨newer, isThere, notOlder⟩ := reaches
  obtain ⟨newest, isNewest, stillNotOlder⟩ := kept newer isThere
  exact ⟨newest, isNewest, le_trans notOlder stillNotOlder⟩

theorem reaches_of_mem {id : Int} (isThere : id ∈ directory.snapshots) : directory.Reaches id :=
  ⟨id, isThere, le_refl id⟩

theorem find_latest_of_no_next {hint : Int} (isHint : directory.latestHint = some hint)
    (pos : 0 < hint) (noNext : hint + 1 ∉ directory.snapshots) :
    directory.findLatest true = some hint := by
  simp [findLatest, isHint, pos, noNext]

theorem latest_right_of_list (listed : ∀ hintRead, directory.findLatest hintRead =
    directory.findByListFiles max) :
    directory.LatestRight := by
  constructor
  · intro hintRead id
    rw [listed hintRead]
    exact directory.list_files_greatest id
  · intro hintRead
    rw [listed hintRead]
    exact directory.list_files_none

theorem latest_right_iff (pos : ∀ hint ∈ directory.latestHint, 0 < hint)
    (reached : ∀ hint ∈ directory.latestHint, directory.Reaches hint) :
    directory.LatestRight ↔ directory.HintTrusted := by
  constructor
  · intro right hint isHint _
    by_cases next : hint + 1 ∈ directory.snapshots
    · exact .inl next
    · have found := find_latest_of_no_next isHint (pos hint isHint) next
      exact .inr ((right.greatest true hint).mp found).2
  · intro trusted
    cases isHint : directory.latestHint with
    | none =>
      apply latest_right_of_list
      intro hintRead
      cases hintRead <;> simp [findLatest, isHint]
    | some hint =>
      rcases trusted hint isHint (pos hint isHint) with next | newest
      · exact latest_right_of_list
          (fun hintRead => by cases hintRead <;> simp [findLatest, isHint, next])
      · obtain ⟨newer, isThere, notOlder⟩ := reached hint isHint
        have isHead : newer = hint := le_antisymm (newest newer isThere) notOlder
        subst isHead
        have noNext : newer + 1 ∉ directory.snapshots := by
          intro next
          have := newest _ next
          omega
        have listed : directory.findByListFiles max = some newer :=
          (directory.list_files_greatest newer).mpr ⟨isThere, newest⟩
        apply latest_right_of_list
        intro hintRead
        cases hintRead with
        | false => simp [findLatest]
        | true => rw [find_latest_of_no_next isHint (pos newer isHint) noNext, listed]

end SnapshotDirectory

open SnapshotDirectory

/-- An expiration that deletes the snapshots from `next` up to `endExclusive`. -/
structure Expirer where
  next : Int
  endExclusive : Int
  deriving DecidableEq, Repr

structure World where
  directory : SnapshotDirectory := {}
  /-- The latest snapshots that committers have read. -/
  bases : List (Option Int) := []
  /-- The snapshots that are published and not yet hinted at. -/
  unhinted : List Int := []
  expirers : List Expirer := []
  deriving DecidableEq, Repr

inductive Action where
  | readLatest (hintRead : Bool)
  | publish (base : Option Int)
  | writeHint (id : Int)
  /-- The commit failed before it was published, or the hint could not be written. -/
  | giveUp (base : Option Int)
  | giveUpHint (id : Int)
  | expireUntil (latestRead earliestRead : Bool) (endExclusive : Int)
  | deleteNext (expirer : Expirer)
  | writeEarliest (expirer : Expirer)
  deriving DecidableEq, Repr

def newSnapshotId (latest : Option Int) : Int :=
  match latest with
  | some id => id + 1
  | none => firstSnapshotId

/-- The search downwards for the first missing snapshot. -/
def beginInclusive (snapshots : List Int) (earliest : Int) : Nat → Int → Int
  | 0, _ => earliest
  | count + 1, id =>
    if id < earliest then earliest
    else if id ∈ snapshots then beginInclusive snapshots earliest count (id - 1)
    else id + 1

namespace World

variable (world : World)

/-- `ExpireUntil` up to the deletions; at least one snapshot is retained. -/
def startExpiration (latestRead earliestRead : Bool) (endExclusive : Int) : Option World :=
  match world.directory.latestSnapshot latestRead, world.directory.findEarliest earliestRead with
  | some (some latest), some earliest =>
    if earliest < endExclusive ∧ endExclusive ≤ latest ∧
      endExclusive ∈ world.directory.snapshots then
      let first := beginInclusive world.directory.snapshots earliest
        (endExclusive - earliest).toNat (endExclusive - 1)
      some { world with expirers := ⟨first, endExclusive⟩ :: world.expirers }
    else none
  | _, _ => none

def step (action : Action) : Option World :=
  match action with
  | .readLatest hintRead =>
    match world.directory.latestSnapshot hintRead with
    | some latest => some { world with bases := latest :: world.bases }
    | none => none
  | .publish base =>
    if base ∈ world.bases then
      let id := newSnapshotId base
      if id ∈ world.directory.snapshots then
        some { world with bases := world.bases.erase base }
      else
        some
          { world with
            directory := { world.directory with snapshots := world.directory.snapshots ++ [id] }
            bases := world.bases.erase base
            unhinted := id :: world.unhinted }
    else none
  | .writeHint id =>
    if id ∈ world.unhinted then
      some
        { world with
          directory := { world.directory with latestHint := some id }
          unhinted := world.unhinted.erase id }
    else none
  | .giveUp base => some { world with bases := world.bases.erase base }
  | .giveUpHint id => some { world with unhinted := world.unhinted.erase id }
  | .expireUntil latestRead earliestRead endExclusive =>
    world.startExpiration latestRead earliestRead endExclusive
  | .deleteNext expirer =>
    if expirer ∈ world.expirers ∧ expirer.next < expirer.endExclusive then
      some
        { world with
          directory :=
            { world.directory with
              snapshots := world.directory.snapshots.filter (fun id => id ≠ expirer.next) }
          expirers :=
            { expirer with next := expirer.next + 1 } :: world.expirers.erase expirer }
    else none
  | .writeEarliest expirer =>
    if expirer ∈ world.expirers ∧ expirer.endExclusive ≤ expirer.next then
      some
        { world with
          directory := { world.directory with earliestHint := some expirer.endExclusive }
          expirers := world.expirers.erase expirer }
    else none

/-- Every id that somebody still holds is reached by a snapshot that is there. -/
structure Bounded : Prop where
  first : ∀ id ∈ world.directory.snapshots, firstSnapshotId ≤ id
  hint : ∀ id ∈ world.directory.latestHint, firstSnapshotId ≤ id ∧ world.directory.Reaches id
  bases : ∀ id, some id ∈ world.bases → firstSnapshotId ≤ id ∧ world.directory.Reaches id
  unhinted : ∀ id ∈ world.unhinted, firstSnapshotId ≤ id ∧ world.directory.Reaches id
  expirers : ∀ expirer ∈ world.expirers, world.directory.Reaches expirer.endExclusive

/-- A hint is written while nothing newer or its next snapshot exists, and its successor stays. -/
def Timely : Action → Prop
  | .writeHint id =>
    id + 1 ∈ world.directory.snapshots ∨ ∀ other ∈ world.directory.snapshots, other ≤ id
  | .deleteNext expirer =>
    expirer.next ∈ world.directory.snapshots → world.directory.latestHint ≠ some (expirer.next - 1)
  | _ => True

instance decidableTimely (action : Action) : Decidable (world.Timely action) := by
  cases action <;> simp only [Timely] <;> infer_instance

variable {world}

theorem Bounded.latest_right_iff (bounded : world.Bounded) :
    world.directory.LatestRight ↔ world.directory.HintTrusted := by
  apply SnapshotDirectory.latest_right_iff
  · intro hint isHint
    have := (bounded.hint hint isHint).1
    rw [firstSnapshotId] at this
    omega
  · intro hint isHint
    exact (bounded.hint hint isHint).2

variable {next : World}

theorem Bounded.of_kept (bounded : world.Bounded)
    (kept : ∀ snapshot ∈ world.directory.snapshots, next.directory.Reaches snapshot)
    (first : ∀ id ∈ next.directory.snapshots, firstSnapshotId ≤ id)
    (hint : next.directory.latestHint = world.directory.latestHint)
    (bases : next.bases ⊆ world.bases)
    (unhinted : ∀ id ∈ next.unhinted, id ∈ world.unhinted ∨ id ∈ next.directory.snapshots)
    (expirers : ∀ expirer ∈ next.expirers, ∃ earlier ∈ world.expirers,
      expirer.endExclusive = earlier.endExclusive) : next.Bounded where
  first := first
  hint := by
    rw [hint]
    intro id isHint
    obtain ⟨notZero, reaches⟩ := bounded.hint id isHint
    exact ⟨notZero, reaches.mono kept⟩
  bases := by
    intro id isBase
    obtain ⟨notZero, reaches⟩ := bounded.bases id (bases isBase)
    exact ⟨notZero, reaches.mono kept⟩
  unhinted := by
    intro id isUnhinted
    rcases unhinted id isUnhinted with earlier | isThere
    · obtain ⟨notZero, reaches⟩ := bounded.unhinted id earlier
      exact ⟨notZero, reaches.mono kept⟩
    · exact ⟨first id isThere, reaches_of_mem isThere⟩
  expirers := by
    intro expirer isExpirer
    obtain ⟨earlier, isEarlier, same⟩ := expirers expirer isExpirer
    rw [same]
    exact (bounded.expirers earlier isEarlier).mono kept

theorem latest_snapshot_mem {directory : SnapshotDirectory} {hintRead : Bool} {id : Int}
    (latest : directory.latestSnapshot hintRead = some (some id)) : id ∈ directory.snapshots := by
  rw [latestSnapshot] at latest
  split at latest
  · cases latest
  · split at latest
    · next isThere =>
        cases latest
        exact isThere
    · cases latest

theorem new_snapshot_id_first (bounded : world.Bounded) {base : Option Int}
    (isBase : base ∈ world.bases) : firstSnapshotId ≤ newSnapshotId base := by
  cases base with
  | none => exact le_refl _
  | some id =>
    have := (bounded.bases id isBase).1
    change firstSnapshotId ≤ id + 1
    omega

inductive Effect (world : World) : Action → World → Prop where
  | read {hintRead : Bool} {latest : Option Int} (found : world.directory.latestSnapshot hintRead =
      some latest) :
      Effect world (.readLatest hintRead) { world with bases := latest :: world.bases }
  | taken {base : Option Int} :
      Effect world (.publish base) { world with bases := world.bases.erase base }
  | published {base : Option Int} (isBase : base ∈ world.bases) : Effect world (.publish base)
        { world with
          directory :=
            { world.directory with
              snapshots := world.directory.snapshots ++ [newSnapshotId base] }
          bases := world.bases.erase base
          unhinted := newSnapshotId base :: world.unhinted }
  | hinted {id : Int} (isUnhinted : id ∈ world.unhinted) : Effect world (.writeHint id)
        { world with
          directory := { world.directory with latestHint := some id }
          unhinted := world.unhinted.erase id }
  | gaveUp {base : Option Int} :
      Effect world (.giveUp base) { world with bases := world.bases.erase base }
  | gaveUpHint {id : Int} :
      Effect world (.giveUpHint id) { world with unhinted := world.unhinted.erase id }
  | started {latestRead earliestRead : Bool} {first endExclusive : Int}
      (isThere : endExclusive ∈ world.directory.snapshots) :
      Effect world (.expireUntil latestRead earliestRead endExclusive)
        { world with expirers := ⟨first, endExclusive⟩ :: world.expirers }
  | deleted {expirer : Expirer} (isExpirer : expirer ∈ world.expirers)
      (unfinished : expirer.next < expirer.endExclusive) :
      Effect world (.deleteNext expirer)
        { world with
          directory :=
            { world.directory with
              snapshots := world.directory.snapshots.filter (fun id => id ≠ expirer.next) }
          expirers := { expirer with next := expirer.next + 1 } :: world.expirers.erase expirer }
  | finished {expirer : Expirer} : Effect world (.writeEarliest expirer)
        { world with
          directory := { world.directory with earliestHint := some expirer.endExclusive }
          expirers := world.expirers.erase expirer }

theorem start_expiration_effect {latestRead earliestRead : Bool} {endExclusive : Int}
    (starts : world.startExpiration latestRead earliestRead endExclusive = some next) :
    Effect world (.expireUntil latestRead earliestRead endExclusive) next := by
  rw [startExpiration] at starts
  split at starts
  · split at starts
    · next allowed =>
        cases starts
        exact .started allowed.2.2
    · cases starts
  · cases starts

theorem step_effect {action : Action} (steps : world.step action = some next) :
    Effect world action next := by
  cases action with
  | readLatest hintRead =>
    rw [step] at steps
    split at steps
    · next latest found =>
        cases steps
        exact .read found
    · cases steps
  | publish base =>
    simp only [step] at steps
    split at steps
    · next isBase =>
        split at steps
        · cases steps
          exact .taken
        · cases steps
          exact .published isBase
    · cases steps
  | writeHint id =>
    simp only [step] at steps
    split at steps
    · next isUnhinted =>
        cases steps
        exact .hinted isUnhinted
    · cases steps
  | giveUp base =>
    cases steps
    exact .gaveUp
  | giveUpHint id =>
    cases steps
    exact .gaveUpHint
  | expireUntil latestRead earliestRead endExclusive => exact start_expiration_effect steps
  | deleteNext expirer =>
    simp only [step] at steps
    split at steps
    · next allowed =>
        cases steps
        exact .deleted allowed.1 allowed.2
    · cases steps
  | writeEarliest expirer =>
    simp only [step] at steps
    split at steps
    · cases steps
      exact .finished
    · cases steps

variable (bounded : world.Bounded)
include bounded

/-- An expirer never deletes the latest snapshot. -/
theorem Bounded.kept_by_delete {expirer : Expirer}
    (isExpirer : expirer ∈ world.expirers) (unfinished : expirer.next < expirer.endExclusive) :
    ∃ newer ∈ world.directory.snapshots.filter (fun id => id ≠ expirer.next),
      expirer.next < newer := by
  obtain ⟨newer, isThere, notOlder⟩ := bounded.expirers expirer isExpirer
  refine ⟨newer, ?_, by omega⟩
  simp only [mem_filter, decide_eq_true_eq]
  exact ⟨isThere, by omega⟩

theorem bounded_step {action : Action} (steps : world.step action = some next) : next.Bounded := by
  cases step_effect steps with
  | @read hintRead latest found =>
    refine { bounded with bases := ?_ }
    intro id isBase
    rcases mem_cons.mp isBase with rfl | isBase
    · have isThere := latest_snapshot_mem found
      exact ⟨bounded.first id isThere, reaches_of_mem isThere⟩
    · exact bounded.bases id isBase
  | taken | gaveUp =>
    refine { bounded with bases := ?_ }
    intro id mem
    exact bounded.bases id (mem_of_mem_erase mem)
  | @published base isBase =>
    apply bounded.of_kept
    · intro snapshot isThere
      exact reaches_of_mem (mem_append_left _ isThere)
    · rw [forall_mem_append, forall_mem_singleton]
      exact ⟨bounded.first, new_snapshot_id_first bounded isBase⟩
    · rfl
    · exact erase_subset
    · exact forall_mem_cons.mpr ⟨.inr (mem_append_right _ (mem_singleton_self _)),
        fun id mem => .inl mem⟩
    · intro expirer mem
      exact ⟨expirer, mem, rfl⟩
  | @hinted id isUnhinted =>
    refine { bounded with hint := ?_, unhinted := ?_ }
    · intro other isHint
      cases isHint
      exact bounded.unhinted id isUnhinted
    · intro other mem
      exact bounded.unhinted other (mem_of_mem_erase mem)
  | gaveUpHint =>
    refine { bounded with unhinted := ?_ }
    intro other mem
    exact bounded.unhinted other (mem_of_mem_erase mem)
  | @started _ _ first endExclusive isThere =>
    refine { bounded with expirers := ?_ }
    exact forall_mem_cons.mpr ⟨reaches_of_mem isThere, bounded.expirers⟩
  | @deleted expirer isExpirer unfinished =>
    apply bounded.of_kept
    · intro snapshot mem
      by_cases isNext : snapshot = expirer.next
      · obtain ⟨newer, isThere, isNewer⟩ := bounded.kept_by_delete isExpirer unfinished
        exact ⟨newer, isThere, by omega⟩
      · apply reaches_of_mem
        simp only [mem_filter, decide_eq_true_eq]
        exact ⟨mem, isNext⟩
    · intro id mem
      exact bounded.first id (mem_of_mem_filter mem)
    · rfl
    · exact Subset.refl _
    · intro id mem
      exact .inl mem
    · exact forall_mem_cons.mpr ⟨⟨expirer, isExpirer, rfl⟩, fun other mem =>
        ⟨other, mem_of_mem_erase mem, rfl⟩⟩
  | finished =>
    refine { bounded with expirers := ?_ }
    intro other mem
    exact bounded.expirers other (mem_of_mem_erase mem)

theorem trusted_published {base : Option Int}
    (isBase : base ∈ world.bases) (trusted : world.directory.HintTrusted) :
    SnapshotDirectory.HintTrusted { world.directory with
        snapshots := world.directory.snapshots ++ [newSnapshotId base] } := by
  intro hint isHint pos
  rcases trusted hint isHint pos with next | newest
  · exact .inl (mem_append_left _ next)
  · -- The new id is at most one above the hint: its base is not newer than the hint.
    have close : newSnapshotId base ≤ hint + 1 := by
      cases base with
      | none =>
        change firstSnapshotId ≤ hint + 1
        rw [firstSnapshotId]
        omega
      | some id =>
        obtain ⟨newer, isThere, notOlder⟩ := (bounded.bases id isBase).2
        have := newest newer isThere
        change id + 1 ≤ hint + 1
        omega
    rcases eq_or_lt_of_le close with isNext | older
    · left
      rw [← isNext]
      exact mem_append_right _ (mem_singleton_self _)
    · right
      rw [forall_mem_append, forall_mem_singleton]
      exact ⟨newest, by omega⟩

theorem trusted_deleted_iff {expirer : Expirer}
    (isExpirer : expirer ∈ world.expirers) (unfinished : expirer.next < expirer.endExclusive)
    (trusted : world.directory.HintTrusted) : SnapshotDirectory.HintTrusted { world.directory with
          snapshots := world.directory.snapshots.filter (fun id => id ≠ expirer.next) } ↔
      world.Timely (.deleteNext expirer) := by
  constructor
  · intro stillTrusted isThere isHint
    have pos : 0 < expirer.next - 1 := by
      have := (bounded.hint _ isHint).1
      rw [firstSnapshotId] at this
      omega
    rcases stillTrusted _ isHint pos with next | newest
    · simp at next
    · obtain ⟨newer, isKept, isNewer⟩ := bounded.kept_by_delete isExpirer unfinished
      have := newest newer isKept
      omega
  · intro timely hint isHint pos
    rcases trusted hint isHint pos with next | newest
    · left
      simp only [mem_filter, decide_eq_true_eq]
      refine ⟨next, ?_⟩
      intro isNext
      apply timely (isNext ▸ next)
      rw [isHint]
      congr 1
      omega
    · right
      intro id mem
      exact newest id (mem_of_mem_filter mem)

theorem trusted_step_iff {action : Action}
    (trusted : world.directory.HintTrusted) (steps : world.step action = some next) :
    next.directory.HintTrusted ↔ world.Timely action := by
  cases step_effect steps with
  | read | taken | gaveUp | gaveUpHint | started | finished =>
    exact ⟨fun _ => trivial, fun _ => trusted⟩
  | published isBase =>
    exact ⟨fun _ => trivial, fun _ => trusted_published bounded isBase trusted⟩
  | @hinted id isUnhinted =>
    have pos : 0 < id := by
      have := (bounded.unhinted id isUnhinted).1
      rw [firstSnapshotId] at this
      omega
    constructor
    · intro stillTrusted
      exact stillTrusted id rfl pos
    · intro timely hint isHint _
      cases isHint
      exact timely
  | deleted isExpirer unfinished =>
    exact trusted_deleted_iff bounded isExpirer unfinished trusted

end World

theorem empty_bounded : World.Bounded {} where
  first := by simp
  hint := by simp
  bases := by simp
  unhinted := by simp
  expirers := by simp

/-- The lookup is right all along a run exactly when every hint is written in time and no
snapshot is deleted that the hint needs. -/
theorem latest_right_iff_timely {trace : List (World × Action)} {final : World}
    (run : Run World.step {} trace final) :
    Always (fun world => world.directory.LatestRight) trace final ↔
      ∀ transition ∈ trace, transition.1.Timely transition.2 := by
  apply @Run.always_iff World Action World.step {} final trace World.Bounded _ _ empty_bounded
  · exact empty_bounded.latest_right_iff.mpr (by simp [SnapshotDirectory.HintTrusted])
  · intro world action next bounded steps
    exact World.bounded_step bounded steps
  · intro world action next bounded right steps
    rw [(World.bounded_step bounded steps).latest_right_iff]
    exact World.trusted_step_iff bounded (bounded.latest_right_iff.mp right) steps
  · exact run

/-- Two commits, the second of which hints first, and an expiration. -/
def twoCommits : List Action :=
  [.readLatest true, .publish none, .readLatest true, .publish (some 1), .writeHint 2,
    .writeHint 1, .expireUntil true true 2, .deleteNext ⟨1, 2⟩]

theorem two_commits_right : ∃ trace final, follow World.step {} twoCommits = some (trace, final) ∧
      Always (fun world => world.directory.LatestRight) trace final := by
  have timely : (follow World.step {} twoCommits).any (fun run =>
      run.1.all (fun transition => transition.1.Timely transition.2)) = true := by decide
  obtain ⟨⟨trace, final⟩, follows, timely⟩ := (Option.any_eq_true _ _).mp timely
  refine ⟨trace, final, follows, (latest_right_iff_timely (follow_run follows)).mpr ?_⟩
  simpa using timely

/-- The first hint is written after its snapshot and the next one have expired. -/
def lateHint : List Action :=
  [.readLatest true, .publish none, .readLatest true, .publish (some 1), .writeHint 2,
    .readLatest true, .publish (some 2), .writeHint 3, .expireUntil true true 3,
    .deleteNext ⟨1, 3⟩, .deleteNext ⟨2, 3⟩, .writeEarliest ⟨3, 3⟩, .writeHint 1]

theorem late_hint_wrong :
    ∃ trace final, Run World.step {} trace final ∧ final.directory.snapshots = [3] ∧
      final.directory.findLatest true = some 1 ∧ ¬final.directory.LatestRight := by
  have wrong : (follow World.step {} lateHint).any (fun run =>
      run.2.directory.snapshots = [3] ∧ run.2.directory.findLatest true = some 1) =
        true := by decide
  obtain ⟨⟨trace, final⟩, follows, wrong⟩ := (Option.any_eq_true _ _).mp wrong
  obtain ⟨remaining, found⟩ := of_decide_eq_true wrong
  refine ⟨trace, final, follow_run follows, remaining, found, ?_⟩
  intro right
  have isThere : 1 ∈ final.directory.snapshots := ((right.greatest true 1).mp found).1
  change final.directory.snapshots = [3] at remaining
  simp [remaining] at isThere

end PaimonCore.Snapshots
