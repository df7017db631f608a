import PaimonCore.Library.Runs
import PaimonCore.Operation.OrphanFilesCleaner

/-!
# Which files an orphan cleaning deletes

No file in use is deleted as long as the looks into the tag and branch directories are answered
and no snapshot expires that the cleaner still has to read, or that only a new tag keeps.
-/

namespace PaimonCore.Orphans

open Runs List

section
variable (contents : Contents) (options : Options)

def Old (name : String) : Prop := contents.modificationTime name < options.olderThanMs

def Usage.Awaits (tags : List Snapshot) (snapshot : Snapshot) : Usage → Prop
  | .unlisted => snapshot ∈ tags
  | .loading _ loaded => snapshot ∈ loaded
  | .reading readers => ∃ reader ∈ readers, reader.pending ≠ [] ∧ reader.snapshot = snapshot

/-- It stands for a tag that the cleaner has not seen, or its files are still to be read. -/
def Awaits (state : State) (snapshot : Snapshot) : Prop :=
  match state.cleaner with
  | .lookBranches => snapshot ∈ state.tags
  | .listDirs => snapshot ∈ state.tags
  | .collecting collection => collection.usage.Awaits state.tags snapshot
  | _ => False

def Read.Yields : Read → String → Prop
  | .indexManifest file, name => name ∈ contents.indexFiles file
  | .manifestList file, name =>
    ∃ manifest ∈ contents.manifests file, name = manifest ∨ name ∈ contents.dataFiles manifest
  | .manifest file, name => name = file ∨ name ∈ contents.dataFiles file

def Read.Of (snapshot : Snapshot) : Read → Prop
  | .indexManifest file => file ∈ snapshot.indexManifest.toList
  | .manifestList file => file = snapshot.baseManifestList ∨ file = snapshot.deltaManifestList
  | .manifest file => file ∈ contents.manifestsOf snapshot

structure Reader.Sound (reader : Reader) : Prop where
  named : ∀ read ∈ reader.pending, read.Of contents reader.snapshot
  complete : ∀ name ∈ contents.reachable reader.snapshot,
    name ∈ reader.usedFiles ∨ (∃ read ∈ reader.pending, read.Yields contents name) ∨
      options.realtimeEnabled = false ∧ contents.directory name = offsetsDirectory

def Covered (state : State) (listed : List Snapshot) : Prop :=
  ∀ name, Old contents options name → state.Reachable contents name →
    ∃ snapshot ∈ listed, name ∈ contents.reachable snapshot

def UsageSafe (state : State) : Usage → Prop
  | .unlisted => True
  | .loading pending loaded => Covered contents options state (pending ++ loaded)
  | .reading readers =>
    Covered contents options state (readers.map Reader.snapshot) ∧
      ∀ reader ∈ readers, reader.Sound contents options

/-- The offsets are listed only where they are collected. -/
structure Placed (unlisted : List Path) (fileStatuses : List String) : Prop where
  dirs : options.realtimeEnabled = false → offsetsDirectory ∉ unlisted
  files : options.realtimeEnabled = false → ∀ name ∈ fileStatuses, contents.directory name ≠
    offsetsDirectory

def CleanerSafe (state : State) : Prop :=
  match state.cleaner with
  | .listDirs => state.branches = []
  | .collecting ⟨unlisted, fileStatuses, usage⟩ =>
    state.branches = [] ∧ Placed contents options unlisted fileStatuses ∧
      UsageSafe contents options state usage
  | .deleting pending _ =>
    ∀ name ∈ pending, Old contents options name ∧ ¬state.Reachable contents name
  | _ => True

structure Safe (state : State) : Prop where
  intact : ∀ snapshot ∈ state.snapshots, ∀ name ∈ contents.metadata snapshot, name ∈ state.files
  awaited : ∀ snapshot, Awaits state snapshot → snapshot ∈ state.snapshots
  cleanerSafe : CleanerSafe contents options state

variable {contents options} {snapshot : Snapshot}

theorem Read.Of.mem {read : Read} (isOf : read.Of contents snapshot) :
    read.fileName ∈ contents.metadata snapshot := by
  cases read with
  | indexManifest file => exact mem_append_left _ (mem_append_right _ isOf)
  | manifestList file =>
    refine mem_append_left _ (mem_append_left _ ?_)
    rcases isOf with rfl | rfl
    · exact mem_cons_self
    · exact mem_cons_of_mem _ mem_cons_self
  | manifest file => exact mem_append_right _ isOf

theorem open_reader_sound (snapshot : Snapshot) :
    (openReader options snapshot).Sound contents options where
  named := by
    intro read mem
    simp only [openReader, mem_append, mem_map, mem_cons, not_mem_nil, or_false] at mem
    rcases mem with ⟨file, isIndex, rfl⟩ | rfl | rfl
    · exact isIndex
    · exact .inl rfl
    · exact .inr rfl
  complete := by
    intro name mem
    simp only [openReader, Contents.reachable, Contents.metadata, Contents.manifestsOf,
      mem_append, mem_flatMap, mem_cons, not_mem_nil, or_false] at mem ⊢
    rcases mem with (((((rfl | rfl) | isIndex) | isBase | isDelta) |
      ⟨manifest, isBase | isDelta, isFile⟩) | ⟨index, isIndex, isFile⟩) | isOffsets
    · simp
    · simp
    · exact .inl (.inl (.inr isIndex))
    · exact .inr (.inl ⟨_, .inr (.inl rfl), name, isBase, .inl rfl⟩)
    · exact .inr (.inl ⟨_, .inr (.inr rfl), name, isDelta, .inl rfl⟩)
    · exact .inr (.inl ⟨_, .inr (.inl rfl), manifest, isBase, .inr isFile⟩)
    · exact .inr (.inl ⟨_, .inr (.inr rfl), manifest, isDelta, .inr isFile⟩)
    · exact .inr (.inl ⟨.indexManifest index, .inl (mem_map_of_mem isIndex), isFile⟩)
    · cases realtime : options.realtimeEnabled with
      | true => exact .inl (.inr isOffsets)
      | false =>
        refine .inr (.inr ⟨rfl, contents.offsetsPlaced name ?_⟩)
        exact snapshot.offsetsNamed name (Option.mem_toList.mp isOffsets)

variable {name : String}

theorem read_if_file_exist {Item : Type} {files : List String} {content : String → List Item}
    (isThere : name ∈ files) : readIfFileExist files content name = content name :=
  if_pos (contains_iff_mem.mpr isThere)

theorem advance_snapshot (files : List String) (reader : Reader) :
    (reader.advance contents files).snapshot = reader.snapshot := by
  rw [Reader.advance.eq_def]
  split <;> rfl

/-- A reader whose files are all there finds what it looks for. -/
theorem advance_sound {reader : Reader} {files : List String}
    (sound : reader.Sound contents options)
    (present : ∀ name ∈ contents.metadata reader.snapshot, name ∈ files) :
    (reader.advance contents files).Sound contents options := by
  obtain ⟨snapshot, usedFiles, pending⟩ := reader
  obtain ⟨named, complete⟩ := sound
  dsimp only at named complete present
  cases pending with
  | nil => exact ⟨named, complete⟩
  | cons first rest =>
    have isThere := present _ (named first mem_cons_self).mem
    have laterNamed : ∀ read ∈ rest, read.Of contents snapshot :=
      fun read mem => named read (mem_cons_of_mem _ mem)
    -- The names of the first file are known once it is read.
    have found : ∀ names, (∀ name, first.Yields contents name → name ∈ names) →
        Reader.Sound contents options ⟨snapshot, usedFiles ++ names, rest⟩ := by
      refine fun names yielded => ⟨laterNamed, ?_⟩
      intro name mem
      rcases complete name mem with found | ⟨read, isRead, yields⟩ | placed
      · exact .inl (mem_append_left _ found)
      · rcases mem_cons.mp isRead with rfl | isLater
        · exact .inl (mem_append_right _ (yielded name yields))
        · exact .inr (.inl ⟨read, isLater, yields⟩)
      · exact .inr (.inr placed)
    cases first with
    | indexManifest file =>
      have isFile : file ∈ files := isThere
      dsimp only [Reader.advance]
      rw [read_if_file_exist isFile]
      exact found _ (fun name yields => yields)
    | manifestList file =>
      have isFile : file ∈ files := isThere
      dsimp only [Reader.advance]
      rw [read_if_file_exist isFile]
      constructor
      · intro read mem
        rcases mem_append.mp mem with isLater | isManifest
        · exact laterNamed read isLater
        · obtain ⟨manifest, isListed, rfl⟩ := mem_map.mp isManifest
          rcases named (.manifestList file) mem_cons_self with rfl | rfl
          · exact mem_append_left _ isListed
          · exact mem_append_right _ isListed
      · intro name mem
        rcases complete name mem with found | ⟨read, isRead, yields⟩ | placed
        · exact .inl found
        · rcases mem_cons.mp isRead with rfl | isLater
          · obtain ⟨manifest, isListed, isName⟩ := yields
            exact .inr
              (.inl ⟨.manifest manifest, mem_append_right _ (mem_map_of_mem isListed), isName⟩)
          · exact .inr (.inl ⟨read, mem_append_left _ isLater, yields⟩)
        · exact .inr (.inr placed)
    | manifest file =>
      have isFile : file ∈ files := isThere
      dsimp only [Reader.advance]
      rw [read_if_file_exist isFile]
      exact found _ (fun name yields => mem_cons.mpr yields)

theorem select_files_mem {usedFiles needToDeletes fileStatuses : List String}
    (selected : name ∈ (selectFiles contents options usedFiles needToDeletes fileStatuses).1) :
    name ∈ needToDeletes ∨ name ∈ fileStatuses ∧ Old contents options name ∧ name ∉ usedFiles := by
  induction fileStatuses generalizing needToDeletes with
  | nil => exact .inl selected
  | cons status rest ih =>
    have later : name ∈ (selectFiles contents options usedFiles needToDeletes rest).1 →
        name ∈ needToDeletes ∨ name ∈ status :: rest ∧ Old contents options name ∧
          name ∉ usedFiles := by
      intro inRest
      rcases ih inRest with before | ⟨listed, isOrphan⟩
      · exact .inl before
      · exact .inr ⟨mem_cons_of_mem _ listed, isOrphan⟩
    rw [selectFiles] at selected
    split_ifs at selected with unsupported orphan retained invalid
    · exact later selected
    · exact later selected
    · exact .inl selected
    · rcases ih selected with before | ⟨listed, isOrphan⟩
      · rcases mem_append.mp before with before | isStatus
        · exact .inl before
        · rw [Bool.and_eq_true, decide_eq_true_iff, Bool.not_eq_true', contains_eq_mem,
            decide_eq_false_iff_not] at orphan
          rw [mem_singleton.mp isStatus]
          exact .inr ⟨mem_cons_self, orphan⟩
      · exact .inr ⟨mem_cons_of_mem _ listed, isOrphan⟩
    · exact later selected

theorem list_file_dirs_bucket {listing : Path → List Path} {level : Nat} {paths : List Path}
    {dir : Path} (mem : dir ∈ listFileDirs listing level paths) :
    startsWith (getName dir) "bucket-" = true := by
  induction level generalizing paths with
  | zero => exact (mem_filter.mp mem).2
  | succ level ih => exact ih mem

theorem list_paimon_file_dirs_placed {answer : Path → Option (List Path)} {allDirs : List Path}
    (lists : listPaimonFileDirs options answer = .ok allDirs)
    (disabled : options.realtimeEnabled = false) : offsetsDirectory ∉ allDirs := by
  intro mem
  rw [listPaimonFileDirs] at lists
  split at lists
  · cases lists
  · cases lists
    rw [mem_dedup, disabled, mem_append] at mem
    rcases mem with isFixed | isBucket
    · revert isFixed
      decide
    · exact absurd (list_file_dirs_bucket isBucket) (by decide)
  · cases lists

variable {state next : State}

section
variable (safe : Safe contents options state)
include safe

theorem ended_safe (result : Except String (List String)) :
    Safe contents options (state.moveTo (.ended result)) where
  intact := safe.intact
  awaited := by
    intro snapshot awaits
    cases awaits
  cleanerSafe := trivial

theorem Safe.collecting {collection : Collection}
    (isCleaner : state.cleaner = .collecting collection) :
    state.branches = [] ∧ Placed contents options collection.unlisted collection.fileStatuses ∧
      UsageSafe contents options state collection.usage ∧
      ∀ snapshot, collection.usage.Awaits state.tags snapshot → snapshot ∈ state.snapshots := by
  obtain ⟨_, awaited, cleanerSafe⟩ := safe
  simp only [CleanerSafe, isCleaner] at cleanerSafe
  simp only [Awaits, isCleaner] at awaited
  exact ⟨cleanerSafe.1, cleanerSafe.2.1, cleanerSafe.2.2, awaited⟩

theorem look_tags_safe {fails : Bool}
    (answered : fails = true → state.tags = []) (steps : lookTags state fails = some next) :
    Safe contents options next := by
  rw [lookTags.eq_def] at steps
  split at steps
  · split at steps
    · next unseen =>
        cases steps
        have noTags : state.tags = [] := by
          rcases (Bool.or_eq_true _ _).mp unseen with failed | empty
          · exact answered failed
          · exact isEmpty_iff.mp empty
        refine ⟨safe.intact, ?_, trivial⟩
        intro snapshot isTag
        have isTag : snapshot ∈ state.tags := isTag
        rw [noTags] at isTag
        cases isTag
    · cases steps
      exact ended_safe safe _
  · cases steps

theorem look_branches_safe {fails : Bool}
    (answered : fails = true → state.branches = []) (steps : lookBranches state fails = some next) :
    Safe contents options next := by
  rw [lookBranches.eq_def] at steps
  split at steps
  · next isCleaner =>
      split at steps
      · next unseen =>
          cases steps
          have noBranches : state.branches = [] := by
            rcases (Bool.or_eq_true _ _).mp unseen with failed | empty
            · exact answered failed
            · exact isEmpty_iff.mp empty
          refine ⟨safe.intact, ?_, noBranches⟩
          intro snapshot isTag
          apply safe.awaited
          rw [Awaits, isCleaner]
          exact isTag
      · cases steps
        exact ended_safe safe _
  · cases steps

theorem list_dirs_safe {answer : Path → Option (List Path)}
    (steps : listDirs options state answer = some next) : Safe contents options next := by
  rw [listDirs.eq_def] at steps
  split at steps
  · next isCleaner =>
      split at steps
      · cases steps
        exact ended_safe safe _
      · next allDirs lists =>
          cases steps
          have noBranches := safe.cleanerSafe
          rw [CleanerSafe, isCleaner] at noBranches
          refine ⟨safe.intact, ?_, noBranches, ⟨list_paimon_file_dirs_placed lists, ?_⟩, trivial⟩
          · intro snapshot isTag
            apply safe.awaited
            rw [Awaits, isCleaner]
            exact isTag
          · intro _ name listed
            cases listed
  · cases steps

theorem list_files_safe {dir : Path} {fails : Bool}
    (steps : listFiles contents state dir fails = some next) : Safe contents options next := by
  rw [listFiles.eq_def] at steps
  split at steps
  · next unlisted fileStatuses usage isCleaner =>
      split at steps
      · next isUnlisted =>
          cases steps
          obtain ⟨noBranches, placed, usageSafe, awaited⟩ := safe.collecting isCleaner
          refine ⟨safe.intact, awaited, noBranches, ⟨?_, ?_⟩, usageSafe⟩
          · intro disabled mem
            exact placed.dirs disabled (mem_of_mem_erase mem)
          · intro disabled name mem
            rcases mem_append.mp mem with before | found
            · exact placed.files disabled name before
            · split at found
              · cases found
              · rw [of_decide_eq_true (mem_filter.mp found).2]
                intro isOffsets
                exact placed.dirs disabled (isOffsets ▸ isUnlisted)
      · cases steps
  · cases steps

end

variable {failure : Option String}

section
variable (safe : Safe contents options state)
include safe

theorem list_snapshots_safe (steps : listSnapshots state failure = some next) :
    Safe contents options next := by
  rw [listSnapshots.eq_def] at steps
  split at steps
  · next unlisted fileStatuses isCleaner =>
      split at steps
      · cases steps
        exact ended_safe safe _
      · cases steps
        obtain ⟨noBranches, placed, -, awaited⟩ := safe.collecting isCleaner
        refine ⟨safe.intact, ?_, noBranches, placed, ?_⟩
        · intro snapshot loaded
          cases loaded
        · -- A tag that was set after the look into its directory is on a listed snapshot.
          rintro name _ ⟨snapshot, isRoot, names⟩
          have isRoot : snapshot ∈ state.snapshots ++ state.tags ++ state.branches := isRoot
          rw [noBranches, append_nil, mem_append] at isRoot
          rcases isRoot with isSnapshot | isTag
          · exact ⟨snapshot, by simpa using isSnapshot, names⟩
          · exact ⟨snapshot, by simpa using awaited snapshot isTag, names⟩
  · cases steps

theorem load_snapshot_safe (steps : loadSnapshot state failure = some next) :
    Safe contents options next := by
  rw [loadSnapshot.eq_def] at steps
  split at steps
  · next unlisted fileStatuses snapshot pending loaded isCleaner =>
      split at steps
      · cases steps
        exact ended_safe safe _
      · split at steps
        · next isThere =>
            cases steps
            obtain ⟨noBranches, placed, covered, awaited⟩ := safe.collecting isCleaner
            refine ⟨safe.intact, ?_, noBranches, placed, ?_⟩
            · exact forall_mem_append.mpr ⟨awaited, forall_mem_singleton.mpr isThere⟩
            · intro name old reachable
              obtain ⟨other, isListed, names⟩ := covered name old reachable
              refine ⟨other, ?_, names⟩
              grind
        · cases steps
  · cases steps

theorem open_readers_safe (steps : openReaders options state = some next) :
    Safe contents options next := by
  rw [openReaders.eq_def] at steps
  split at steps
  · next unlisted fileStatuses loaded isCleaner =>
      split at steps
      · cases steps
        exact ended_safe safe _
      · cases steps
        obtain ⟨noBranches, placed, covered, awaited⟩ := safe.collecting isCleaner
        refine ⟨safe.intact, ?_, noBranches, placed, ?_, ?_⟩
        · rintro snapshot ⟨reader, isReader, -, rfl⟩
          obtain ⟨loadedSnapshot, isLoaded, rfl⟩ := mem_map.mp isReader
          exact awaited loadedSnapshot isLoaded
        · rw [map_map]
          have same : Reader.snapshot ∘ openReader options = id := rfl
          rw [same, map_id]
          exact covered
        · intro reader isReader
          obtain ⟨snapshot, _, rfl⟩ := mem_map.mp isReader
          exact open_reader_sound snapshot
  · cases steps

theorem read_safe {index : Nat}
    (steps : read contents state index failure = some next) : Safe contents options next := by
  rw [read.eq_def] at steps
  split at steps
  · next unlisted fileStatuses readers isCleaner =>
      split at steps
      · cases steps
      · next reader isReader =>
          split at steps
          · cases steps
          · next unfinished =>
              split at steps
              · cases steps
                exact ended_safe safe _
              · cases steps
                obtain ⟨noBranches, placed, ⟨covered, sound⟩, awaited⟩ := safe.collecting isCleaner
                have mem := mem_of_getElem? isReader
                have isThere : reader.snapshot ∈ state.snapshots := by
                  apply awaited
                  refine ⟨reader, mem, ?_, rfl⟩
                  intro finished
                  exact unfinished (isEmpty_iff.mpr finished)
                have advanced :=
                  advance_sound (sound reader mem) (safe.intact reader.snapshot isThere)
                refine ⟨safe.intact, ?_, noBranches, placed, ?_, ?_⟩
                · rintro snapshot ⟨other, isOther, otherUnfinished, rfl⟩
                  rcases mem_or_eq_of_mem_set isOther with before | rfl
                  · exact awaited _ ⟨other, before, otherUnfinished, rfl⟩
                  · rw [advance_snapshot]
                    exact isThere
                · have same : (readers.set index (reader.advance contents state.files)).map
                      Reader.snapshot = readers.map Reader.snapshot := by
                    obtain ⟨bound, rfl⟩ := List.getElem?_eq_some_iff.mp isReader
                    rw [map_set, advance_snapshot, ← map_set, set_getElem_self]
                  rw [same]
                  exact covered
                · intro other isOther
                  rcases mem_or_eq_of_mem_set isOther with before | rfl
                  · exact sound other before
                  · exact advanced
  · cases steps

theorem select_safe (steps : select contents options state = some next) :
    Safe contents options next := by
  rw [select.eq_def] at steps
  split at steps
  · next fileStatuses readers isCleaner =>
      split at steps
      · next finished =>
          cases steps
          obtain ⟨-, placed, ⟨covered, sound⟩, -⟩ := safe.collecting isCleaner
          refine ⟨safe.intact, ?_, ?_⟩
          · intro snapshot awaits
            cases awaits
          · intro name selected
            rcases select_files_mem selected with none | ⟨listed, old, unused⟩
            · cases none
            · refine ⟨old, ?_⟩
              intro reachable
              obtain ⟨snapshot, isListed, names⟩ := covered name old reachable
              obtain ⟨reader, isReader, rfl⟩ := mem_map.mp isListed
              have done : reader.pending = [] :=
                isEmpty_iff.mp (all_eq_true.mp finished reader isReader)
              rcases (sound reader isReader).complete name names with used | ⟨read,
                isRead, _⟩ | offsets
              · apply unused
                exact mem_append_right _ (mem_flatMap.mpr ⟨reader, isReader, used⟩)
              · rw [done] at isRead
                cases isRead
              · exact placed.files offsets.1 name listed offsets.2
      · cases steps
  · cases steps

end

theorem metadata_reachable (isRoot : snapshot ∈ state.roots)
    (mem : name ∈ contents.metadata snapshot) : state.Reachable contents name := by
  refine ⟨snapshot, isRoot, ?_⟩
  rw [Contents.reachable, append_assoc, append_assoc]
  exact mem_append_left _ mem

theorem snapshot_root (isSnapshot : snapshot ∈ state.snapshots) : snapshot ∈ state.roots :=
  mem_append_left _ (mem_append_left _ isSnapshot)

theorem delete_safe {fails : Bool} (safe : Safe contents options state)
    (steps : delete state name fails = some next) : Safe contents options next := by
  rw [delete.eq_def] at steps
  split at steps
  · next pending result isCleaner =>
      split at steps
      · next isPending =>
          cases steps
          have orphans := safe.cleanerSafe
          simp only [CleanerSafe, isCleaner] at orphans
          refine ⟨?_, ?_, ?_⟩
          · intro snapshot isSnapshot file isMetadata
            have isThere := safe.intact snapshot isSnapshot file isMetadata
            split
            · exact isThere
            · refine mem_filter.mpr ⟨isThere, bne_iff_ne.mpr ?_⟩
              rintro rfl
              exact (orphans file isPending).2
                (metadata_reachable (snapshot_root isSnapshot) isMetadata)
          · intro snapshot awaits
            cases awaits
          · intro other stillPending
            exact orphans other (mem_of_mem_erase stillPending)
      · cases steps
  · cases steps

theorem cleaner_safe_of_reachable (safe : CleanerSafe contents options state)
    (cleaner : next.cleaner = state.cleaner) (branches : next.branches = state.branches)
    (reachable : ∀ name, Old contents options name → next.Reachable contents name →
      state.Reachable contents name) : CleanerSafe contents options next := by
  have covered : ∀ listed, Covered contents options state listed →
      Covered contents options next listed :=
    fun listed isCovered name old inUse => isCovered name old (reachable name old inUse)
  rw [CleanerSafe.eq_def] at safe ⊢
  rw [cleaner, branches]
  cases isCleaner : state.cleaner with
  | lookTags => trivial
  | lookBranches => trivial
  | listDirs =>
    rw [isCleaner] at safe
    exact safe
  | collecting collection =>
    rw [isCleaner] at safe
    obtain ⟨unlisted, fileStatuses, usage⟩ := collection
    obtain ⟨noBranches, placed, usageSafe⟩ := safe
    refine ⟨noBranches, placed, ?_⟩
    cases usage with
    | unlisted => trivial
    | loading pending loaded => exact covered _ usageSafe
    | reading readers => exact ⟨covered _ usageSafe.1, usageSafe.2⟩
  | deleting pending result =>
    rw [isCleaner] at safe
    intro name isPending
    obtain ⟨old, unused⟩ := safe name isPending
    exact ⟨old, fun inUse => unused (reachable name old inUse)⟩
  | ended result => trivial

theorem awaits_congr (cleaner : next.cleaner = state.cleaner) (tags : next.tags = state.tags)
    (awaits : Awaits next snapshot) : Awaits state snapshot := by
  rw [Awaits, cleaner, tags] at awaits
  exact awaits

theorem awaits_new_tag {tagged : Snapshot}
    (awaits : Awaits { state with tags := state.tags ++ [tagged] } snapshot) :
    Awaits state snapshot ∨ snapshot = tagged := by
  obtain ⟨snapshots, tags, branches, files, cleaner⟩ := state
  have tagCase : snapshot ∈ tags ++ [tagged] → snapshot ∈ tags ∨ snapshot = tagged := by
    intro isTag
    rcases mem_append.mp isTag with isOld | isNew
    · exact .inl isOld
    · exact .inr (mem_singleton.mp isNew)
  cases cleaner with
  | lookTags => cases awaits
  | lookBranches => exact tagCase awaits
  | listDirs => exact tagCase awaits
  | collecting collection =>
    obtain ⟨unlisted, fileStatuses, usage⟩ := collection
    cases usage with
    | unlisted => exact tagCase awaits
    | loading pending loaded => exact .inl awaits
    | reading readers => exact .inl awaits
  | deleting pending result => cases awaits
  | ended result => cases awaits

section
variable (safe : Safe contents options state)
include safe

theorem write_safe : Safe contents options { state with files := name :: state.files } where
  intact := fun snapshot isSnapshot file isMetadata =>
    mem_cons_of_mem _ (safe.intact snapshot isSnapshot file isMetadata)
  awaited := fun snapshot awaits => safe.awaited snapshot (awaits_congr rfl rfl awaits)
  cleanerSafe := cleaner_safe_of_reachable safe.cleanerSafe rfl rfl (fun _ _ inUse => inUse)

theorem commit_safe (steps : commit contents options state snapshot = some next) :
    Safe contents options next := by
  rw [commit] at steps
  split at steps
  · next fits =>
      cases steps
      obtain ⟨known, present⟩ := (Bool.and_eq_true _ _).mp fits
      refine ⟨?_, ?_, ?_⟩
      · rw [forall_mem_append, forall_mem_singleton]
        refine ⟨safe.intact, ?_⟩
        intro name isMetadata
        exact contains_iff_mem.mp (all_eq_true.mp present name isMetadata)
      · intro other awaits
        exact mem_append_left _ (safe.awaited other (awaits_congr rfl rfl awaits))
      · refine cleaner_safe_of_reachable safe.cleanerSafe rfl rfl ?_
        rintro name old ⟨root, isRoot, names⟩
        have isRoot : root ∈ state.snapshots ++ [snapshot] ++ state.tags ++ state.branches := isRoot
        by_cases isNew : root = snapshot
        · rw [isNew] at names
          rcases (Bool.or_eq_true _ _).mp (all_eq_true.mp known name names) with inUse | young
          · obtain ⟨other, isOther, otherNames⟩ := any_eq_true.mp inUse
            exact ⟨other, snapshot_root isOther, contains_iff_mem.mp otherNames⟩
          · exact (Int.not_lt.mpr (of_decide_eq_true young) old).elim
        · refine ⟨root, ?_, names⟩
          simp only [mem_append, mem_singleton, isNew, or_false] at isRoot
          simpa only [State.roots, mem_append] using isRoot
  · cases steps

theorem expire_safe (unneeded : ¬Awaits state snapshot)
    (steps : expire state snapshot = some next) : Safe contents options next := by
  rw [expire] at steps
  split at steps
  · cases steps
    refine ⟨?_, ?_, ?_⟩
    · intro other isSnapshot name isMetadata
      exact safe.intact other (mem_of_mem_filter isSnapshot) name isMetadata
    · intro other awaits
      have wasAwaited : Awaits state other := awaits_congr rfl rfl awaits
      refine mem_filter.mpr ⟨safe.awaited other wasAwaited, decide_eq_true ?_⟩
      rintro rfl
      exact unneeded wasAwaited
    · refine cleaner_safe_of_reachable safe.cleanerSafe rfl rfl ?_
      rintro name _ ⟨root, isRoot, names⟩
      refine ⟨root, ?_, names⟩
      simp only [State.roots, mem_append] at isRoot ⊢
      rcases isRoot with (isSnapshot | isTag) | isBranch
      · exact .inl (.inl (mem_of_mem_filter isSnapshot))
      · exact .inl (.inr isTag)
      · exact .inr isBranch
  · cases steps

theorem remove_safe (steps : remove contents state name = some next) :
    Safe contents options next := by
  rw [remove] at steps
  split at steps
  · cases steps
  · next unneeded =>
      cases steps
      refine ⟨?_, ?_, ?_⟩
      · intro snapshot isSnapshot file isMetadata
        refine mem_filter.mpr ⟨safe.intact snapshot isSnapshot file isMetadata, bne_iff_ne.mpr ?_⟩
        rintro rfl
        exact unneeded
          (any_eq_true.mpr ⟨snapshot, snapshot_root isSnapshot, contains_iff_mem.mpr isMetadata⟩)
      · intro snapshot awaits
        exact safe.awaited snapshot (awaits_congr rfl rfl awaits)
      · exact cleaner_safe_of_reachable safe.cleanerSafe rfl rfl (fun _ _ inUse => inUse)

theorem create_tag_safe (isThere : snapshot ∈ state.snapshots) :
    Safe contents options { state with tags := state.tags ++ [snapshot] } where
  intact := safe.intact
  awaited := by
    intro other awaits
    rcases awaits_new_tag awaits with before | rfl
    · exact safe.awaited other before
    · exact isThere
  cleanerSafe := by
    refine cleaner_safe_of_reachable safe.cleanerSafe rfl rfl ?_
    rintro name _ ⟨root, isRoot, names⟩
    refine ⟨root, ?_, names⟩
    simp only [State.roots, mem_append, mem_singleton] at isRoot ⊢
    rcases isRoot with (isSnapshot | isTag | rfl) | isBranch
    · exact .inl (.inl isSnapshot)
    · exact .inl (.inr isTag)
    · exact .inl (.inl isThere)
    · exact .inr isBranch

end

/-- Looks into the tag and branch directories are answered, and no snapshot relied on expires. -/
def Meets (state : State) : Label → Prop
  | .lookTags fails => fails = true → state.tags = []
  | .lookBranches fails => fails = true → state.branches = []
  | .expire snapshot => ¬Awaits state snapshot
  | _ => True

theorem step_safe {label : Label} (safe : Safe contents options state) (meets : Meets state label)
    (steps : step contents options state label = some next) : Safe contents options next := by
  cases label with
  | lookTags fails => exact look_tags_safe safe meets steps
  | lookBranches fails => exact look_branches_safe safe meets steps
  | listDirs answer => exact list_dirs_safe safe steps
  | listFiles dir fails => exact list_files_safe safe steps
  | listSnapshots failure => exact list_snapshots_safe safe steps
  | loadSnapshot failure => exact load_snapshot_safe safe steps
  | openReaders => exact open_readers_safe safe steps
  | read index failure => exact read_safe safe steps
  | select => exact select_safe safe steps
  | delete name fails => exact delete_safe safe steps
  | write name =>
    rw [step] at steps
    split at steps
    · cases steps
      exact write_safe safe
    · cases steps
  | commit snapshot => exact commit_safe safe steps
  | expire snapshot => exact expire_safe safe meets steps
  | remove name => exact remove_safe safe steps
  | createTag snapshot =>
    rw [step] at steps
    split at steps
    · next isThere =>
        cases steps
        exact create_tag_safe safe isThere
    · cases steps

def Harmless (contents : Contents) (transition : State × Label) : Prop :=
  ∀ name fails, transition.2 = .delete name fails → ¬transition.1.Reachable contents name

theorem delete_harmless {label : Label} (safe : Safe contents options state)
    (steps : step contents options state label = some next) : Harmless contents (state, label) := by
  rintro name fails isDelete inUse
  subst isDelete
  have steps : delete state name fails = some next := steps
  rw [delete.eq_def] at steps
  split at steps
  · next pending result isCleaner =>
      split at steps
      · next isPending =>
          have orphans := safe.cleanerSafe
          simp only [CleanerSafe, isCleaner] at orphans
          exact (orphans name isPending).2 inUse
      · cases steps
  · cases steps

structure Ready (contents : Contents) (state : State) : Prop where
  intact : ∀ snapshot ∈ state.snapshots, ∀ name ∈ contents.metadata snapshot, name ∈ state.files
  cleaner : state.cleaner = .lookTags

theorem ready_safe (ready : Ready contents state) : Safe contents options state where
  intact := ready.intact
  awaited := by
    intro snapshot awaits
    rw [Awaits, ready.cleaner] at awaits
    cases awaits
  cleanerSafe := by
    rw [CleanerSafe, ready.cleaner]
    trivial

theorem run_safe {start final : State} {trace : List (State × Label)}
    (ready : Ready contents start) (run : Run (step contents options) start trace final)
    (meets : ∀ transition ∈ trace, Meets transition.1 transition.2) :
    Safe contents options final ∧ ∀ transition ∈ trace, Harmless contents transition := by
  induction run with
  | start => exact ⟨ready_safe ready, fun transition mem => by cases mem⟩
  | @step trace middle next label run steps ih =>
    have earlier : ∀ transition ∈ trace, Meets transition.1 transition.2 :=
      fun transition mem => meets transition (mem_append_left _ mem)
    obtain ⟨safe, harmless⟩ := ih earlier
    have last : Meets middle label := meets (middle, label) (by simp)
    refine ⟨step_safe safe last steps, ?_⟩
    rw [forall_mem_append, forall_mem_singleton]
    exact ⟨harmless, delete_harmless safe steps⟩

end

instance decidableUsageAwaits (tags : List Snapshot) (snapshot : Snapshot) :
    (usage : Usage) → Decidable (usage.Awaits tags snapshot)
  | .unlisted => inferInstanceAs (Decidable (snapshot ∈ tags))
  | .loading _ loaded => inferInstanceAs (Decidable (snapshot ∈ loaded))
  | .reading readers => inferInstanceAs (Decidable
      (∃ reader ∈ readers, reader.pending ≠ [] ∧ reader.snapshot = snapshot))

instance decidableAwaits :
    (state : State) → (snapshot : Snapshot) → Decidable (Awaits state snapshot)
  | ⟨_, _, _, _, .lookTags⟩, _ => inferInstanceAs (Decidable False)
  | ⟨_, tags, _, _, .lookBranches⟩, snapshot => inferInstanceAs (Decidable (snapshot ∈ tags))
  | ⟨_, tags, _, _, .listDirs⟩, snapshot => inferInstanceAs (Decidable (snapshot ∈ tags))
  | ⟨_, tags, _, _, .collecting collection⟩, snapshot =>
    decidableUsageAwaits tags snapshot collection.usage
  | ⟨_, _, _, _, .deleting _ _⟩, _ => inferInstanceAs (Decidable False)
  | ⟨_, _, _, _, .ended _⟩, _ => inferInstanceAs (Decidable False)

instance decidableMeets (state : State) : (label : Label) → Decidable (Meets state label)
  | .lookTags fails => inferInstanceAs (Decidable (fails = true → state.tags = []))
  | .lookBranches fails => inferInstanceAs (Decidable (fails = true → state.branches = []))
  | .expire snapshot => inferInstanceAs (Decidable (¬Awaits state snapshot))
  | .listDirs _ | .listFiles _ _ | .listSnapshots _ | .loadSnapshot _ | .openReaders | .read _ _
  | .select | .delete _ _ | .write _ | .commit _ | .remove _ | .createTag _ =>
    inferInstanceAs (Decidable True)

def sampleManifests (name : String) : List String :=
  if name = "manifest-list-1" then ["manifest-1"]
  else if name = "manifest-list-3" then ["manifest-1"]
  else if name = "manifest-list-4" then ["manifest-2"]
  else []

def sampleEntries (name : String) : List DataFile :=
  if name = "manifest-1" then [⟨"data-1.orc", []⟩]
  else if name = "manifest-2" then [⟨"data-2.orc", []⟩]
  else []

def sampleContents : Contents where
  manifests := sampleManifests
  entries := sampleEntries
  indexFiles := fun _ => []
  modificationTime := fun name =>
    if name ∈ ["manifest-list-3", "manifest-list-4", "manifest-2", "data-2.orc"] then 30000000000
    else 15000000000
  directory := fun name =>
    if endsWith name ".offsets" then offsetsDirectory
    else if startsWith name "data-" then ["bucket-0"]
    else ["manifest"]
  offsetsPlaced := fun _ isOffsets => if_pos isOffsets

def sampleOptions : Options where
  olderThanMs := 20000000000
  partitionKeys := 0
  realtimeEnabled := false
  externalPaths := .ok []
  shouldBeRetained := fun _ => false

def firstSnapshot : Snapshot where
  id := 1
  baseManifestList := "manifest-list-1"
  deltaManifestList := "manifest-list-2"
  offsetsNamed := by
    intro name isSome
    cases isSome

def secondSnapshot : Snapshot where
  id := 2
  baseManifestList := "manifest-list-3"
  deltaManifestList := "manifest-list-4"
  offsetsNamed := by
    intro name isSome
    cases isSome

def emptiedSnapshot : Snapshot where
  id := 2
  baseManifestList := "manifest-list-5"
  deltaManifestList := "manifest-list-6"
  offsetsNamed := by
    intro name isSome
    cases isSome

def sampleState (snapshots tags : List Snapshot) : State where
  snapshots := snapshots
  tags := tags
  branches := []
  files := ["manifest-list-1", "manifest-list-2", "manifest-list-3", "manifest-list-4",
    "manifest-list-5", "manifest-list-6", "manifest-1", "manifest-2", "data-0.orc", "data-1.orc",
    "data-2.orc"]
  cleaner := .lookTags

def sampleListing : List Label :=
  [.listDirs (fun path => if path = [] then some [["bucket-0"]] else none),
    .listFiles ["bucket-0"] false, .listFiles ["snapshot"] false, .listFiles ["manifest"] false,
    .listFiles ["index"] false, .listSnapshots none, .loadSnapshot none, .openReaders]

def sampleReads : List Label := [.read 0 none, .read 0 none, .read 0 none]

def failedLook : State × List Label :=
  (sampleState [emptiedSnapshot] [firstSnapshot], [.lookTags true, .lookBranches false] ++
    sampleListing ++ [.read 0 none, .read 0 none, .select, .delete "data-0.orc" false,
      .delete "data-1.orc" false])

/-- A snapshot expires after the look, and only a new tag keeps its files. -/
def taggedThenExpired : State × List Label :=
  (sampleState [firstSnapshot, emptiedSnapshot] [],
    [.lookTags false, .lookBranches false, .createTag firstSnapshot, .expire firstSnapshot] ++
      sampleListing ++ [.read 0 none, .read 0 none, .select, .delete "data-0.orc" false,
        .delete "data-1.orc" false])

/-- The listed snapshot expires before its manifest list is read. -/
def expiredWhileRead : State × List Label :=
  (sampleState [firstSnapshot] [], [.lookTags false, .lookBranches false] ++ sampleListing ++
      [.commit secondSnapshot, .expire firstSnapshot, .remove "manifest-list-1", .read 0 none,
        .read 0 none, .select, .delete "data-0.orc" false, .delete "data-1.orc" false])

def expiredAfterRead : State × List Label :=
  (sampleState [firstSnapshot] [], [.lookTags false, .lookBranches false] ++ sampleListing ++
      [.commit secondSnapshot] ++ sampleReads ++
      [.createTag firstSnapshot, .expire firstSnapshot, .select, .delete "data-0.orc" false])

def LosesFile (sample : State × List Label) : Prop :=
  Ready sampleContents sample.1 ∧
    ∃ trace final state, Run (step sampleContents sampleOptions) sample.1 trace final ∧
      (state, Label.delete "data-1.orc" false) ∈ trace ∧
      state.Reachable sampleContents "data-1.orc"

def deletesInUse (state : State) : Label → Bool
  | .delete name fails => name == "data-1.orc" && !fails &&
      state.roots.any (fun snapshot => (sampleContents.reachable snapshot).contains "data-1.orc")
  | _ => false

theorem deletes_in_use {state : State} {label : Label} (deletes : deletesInUse state label = true) :
    label = .delete "data-1.orc" false ∧ state.Reachable sampleContents "data-1.orc" := by
  cases label with
  | delete name fails =>
    simp only [deletesInUse, Bool.and_eq_true, beq_iff_eq, Bool.not_eq_true', any_eq_true,
      contains_iff_mem] at deletes
    obtain ⟨⟨rfl, rfl⟩, inUse⟩ := deletes
    exact ⟨rfl, inUse⟩
  | _ => cases deletes

theorem loses_file_of_follow {sample : State × List Label} (ready : Ready sampleContents sample.1)
    (follows : (follow (step sampleContents sampleOptions) sample.1 sample.2).any
      (fun run => run.1.any (fun transition => deletesInUse transition.1 transition.2)) = true) :
    LosesFile sample := by
  obtain ⟨⟨trace, final⟩, follows, deletes⟩ := (Option.any_eq_true _ _).mp follows
  obtain ⟨⟨state, label⟩, mem, deletes⟩ := any_eq_true.mp deletes
  obtain ⟨rfl, inUse⟩ := deletes_in_use deletes
  exact ⟨ready, trace, final, state, follow_run follows, mem, inUse⟩

end PaimonCore.Orphans
