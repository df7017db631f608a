import PaimonCore.Manifest.RollingFileWriter

/-!
# `ManifestFileMerger`

A commit rewrites the manifests of the previous snapshot: a full compaction of
everything after the leading large manifests without deletions, or else a minor
compaction of contiguous groups. The new manifests are registered for clean-up
until the merge has succeeded.
-/

namespace PaimonCore.Manifest

open Programs ChangeLog List

structure MergeState where
  store : ManifestStore
  newMetasForAbort : List ManifestFileMeta

structure MinorCompaction where
  result : List ManifestFileMeta := []
  candidates : List ManifestFileMeta := []
  totalSize : Int := 0

def MinorCompaction.push (progress : MinorCompaction) (manifest : ManifestFileMeta) :
    MinorCompaction where
  result := progress.result
  candidates := progress.candidates ++ [manifest]
  totalSize := progress.totalSize + manifest.fileSize

section
variable (fs : FileSystem) (manifestFile : ManifestFile)

def readEntries (metas : List ManifestFileMeta) :
    Program ManifestStore String (List ManifestEntry) :=
  metas.foldlM (fun entries file => do
    let more ← ManifestFile.read fs file.fileName
    pure (entries ++ more)) []

def mergeManifestEntries (metas : List ManifestFileMeta) :
    Program ManifestStore String (List ManifestFileMeta) :=
  if metas.length = 1 then pure metas
  else do
    let entries ← readEntries fs metas
    match mergeEntries entries with
    | .error message => throw message
    | .ok merged => ManifestFile.write fs manifestFile merged

def onManifests {Result : Type} (program : Program ManifestStore String Result) :
    Program MergeState String Result :=
  zoom MergeState.store (fun state store => { state with store }) program

/-- `MergeEntries` with its new manifests registered for clean-up. -/
def mergeAndRegister (metas : List ManifestFileMeta) :
    Program MergeState String (List ManifestFileMeta) := do
  let merged ← onManifests (mergeManifestEntries fs manifestFile metas)
  (fun state =>
    (.ok (), { state with newMetasForAbort := state.newMetasForAbort ++ merged }) : Program
      MergeState String Unit)
  pure merged

def tryFullCompaction (all : List ManifestFileMeta) (targetFileSize fullCompactionFileSize : Int) :
    Program MergeState String (Option (List ManifestFileMeta)) :=
  let inBase : ManifestFileMeta → Bool := fun file =>
    file.numDeletedFiles = 0 ∧ targetFileSize ≤ file.fileSize
  let base := all.takeWhile inBase
  let delta := all.dropWhile inBase
  let totalDeltaFileSize := (delta.map ManifestFileMeta.fileSize).sum
  if totalDeltaFileSize < fullCompactionFileSize then pure none
  else if delta.length ≤ 1 then pure none
  else do
    let mergedDelta ← mergeAndRegister fs manifestFile delta
    pure (some (base ++ mergedDelta))

/-- A group of candidates: a single one stays, several are merged. -/
def mergeCandidates (candidates : List ManifestFileMeta) :
    Program MergeState String (List ManifestFileMeta) :=
  if candidates.length = 1 then pure candidates
  else mergeAndRegister fs manifestFile candidates

def minorCompactionStep (suggestedMetaSize : Int) (progress : MinorCompaction)
    (manifest : ManifestFileMeta) : Program MergeState String MinorCompaction :=
  let pushed := progress.push manifest
  if suggestedMetaSize ≤ pushed.totalSize then do
    let merged ← mergeCandidates fs manifestFile pushed.candidates
    pure { result := pushed.result ++ merged, candidates := [], totalSize := 0 }
  else pure pushed

def tryMinorCompaction (input : List ManifestFileMeta) (suggestedMetaSize : Int)
    (suggestedMinMetaCount : Int) : Program MergeState String (List ManifestFileMeta) := do
  let progress ← input.foldlM (minorCompactionStep fs manifestFile suggestedMetaSize) {}
  if (suggestedMinMetaCount % 2 ^ 32).toNat ≤ progress.candidates.length then do
    let merged ← mergeCandidates fs manifestFile progress.candidates
    pure (progress.result ++ merged)
  else pure (progress.result ++ progress.candidates)

def mergeOrCompact (all : List ManifestFileMeta) (targetFileSize mergeMinCount
    fullCompactionFileSize : Int) : Program MergeState String (List ManifestFileMeta) := do
  let fullCompacted ← tryFullCompaction fs manifestFile all targetFileSize fullCompactionFileSize
  match fullCompacted with
  | some results => pure results
  | none => tryMinorCompaction fs manifestFile all targetFileSize mergeMinCount

/-- The scope guard of `Merge`. -/
def abortMerge (state : MergeState) : MergeState :=
  { state with
    store := (state.newMetasForAbort.map ManifestFileMeta.fileName).foldl
      (fun store name => deleteQuietly fs name store) state.store }

def merge (all : List ManifestFileMeta) (targetFileSize mergeMinCount
    fullCompactionFileSize : Int) : Program ManifestStore String (List ManifestFileMeta) :=
  fun store =>
    let (result, state) := runFrom (guarded (mergeOrCompact fs manifestFile all targetFileSize
      mergeMinCount fullCompactionFileSize) (abortMerge fs)) { store, newMetasForAbort := [] }
    (result, state.store)

end

variable {files files' : Directory}

theorem read_all_prefix {left right : List ManifestFileMeta} {entries : List ManifestEntry}
    (whole : readAll files (left ++ right) = some entries) :
    ∃ before after, readAll files left = some before ∧ readAll files right = some after ∧
      entries = before ++ after := by
  rw [read_all_append] at whole
  cases first : readAll files left with
  | none => simp [first] at whole
  | some before =>
    cases second : readAll files right with
    | none => simp [first, second] at whole
    | some after =>
      simp only [first, second, Option.some.injEq] at whole
      exact ⟨before, after, rfl, rfl, whole.symm⟩

def Keeps (files files' : Directory) : Prop :=
  ∀ name, files name ≠ none → files' name = files name

theorem read_all_keeps (keeps : Keeps files files') {metas : List ManifestFileMeta}
    {entries : List ManifestEntry} (present : readAll files metas = some entries) :
    readAll files' metas = some entries := by
  rw [← present]
  refine read_all_congr (fun file mem => keeps _ (fun absent => ?_))
  obtain ⟨left, right, rfl⟩ := append_of_mem mem
  obtain ⟨_, _, _, rest, _⟩ := read_all_prefix present
  simp [readAll, absent] at rest

variable {fs : FileSystem} {manifestFile : ManifestFile} {start : ManifestStore} {count : Nat}

theorem read_entries_meets {metas : List ManifestFileMeta} {entries : List ManifestEntry}
    (present : readAll files metas = some entries) : Meets (At files count) (readEntries fs metas)
      (fun result store => result = entries ∧ At files count store)
      (fun store => At files count store ∧ Faulty fs) := by
  have loop :
      Meets (fun store => readAll files [] = some [] ∧ At files count store) (readEntries fs metas)
      (fun result store => readAll files metas = some result ∧ At files count store)
      (fun store => At files count store ∧ Faulty fs) := by
    apply Meets.forEach (fun handled result store =>
      readAll files handled = some result ∧ At files count store)
    intro handled file later result split
    apply Meets.fact
    intro readSoFar
    rw [split, ← singleton_append, ← append_assoc] at present
    obtain ⟨_, _, upToFile, _, _⟩ := read_all_prefix present
    obtain ⟨_, _, _, single, _⟩ := read_all_prefix upToFile
    cases found : files file.fileName with
    | none => simp [readAll, found] at single
    | some content =>
      apply Meets.bindValue content _ (read_meets found)
      apply Meets.pure
      intro store unchanged
      constructor
      · simp [read_all_append, readSoFar, readAll, found]
      · exact unchanged
  apply loop.weaken (fun _ unchanged => ⟨rfl, unchanged⟩) _ (fun _ failing => failing)
  intro result store done
  have readBack := done.1
  rw [present, Option.some.injEq] at readBack
  exact ⟨readBack.symm, done.2⟩

/-- A call failed, or manifests of the configured format cannot be written. -/
def Unwritable (fs : FileSystem) (manifestFile : ManifestFile) : Prop :=
  Faulty fs ∨ manifestFile.fileFormatIdentifier ≠ "avro"

theorem merge_manifest_entries_meets (deletesWork : ∀ number, fs.deletes number = true)
    {start : ManifestStore} (fresh : FreshPaths manifestFile.uuid start)
    {metas : List ManifestFileMeta} {entries : List ManifestEntry}
    (several : metas.length ≠ 1) (present : readAll start.files metas = some entries)
    (valid : ValidHistory entries) :
    Meets (At start.files start.manifestFileCount) (mergeManifestEntries fs manifestFile metas)
      (fun merged store => ∃ net, IsMerged net entries ∧
        Written manifestFile.uuid start net merged store) (fun store => store.files = start.files ∧
        start.manifestFileCount ≤ store.manifestFileCount ∧ Unwritable fs manifestFile) := by
  obtain ⟨net, mergedOk, isNet⟩ := merge_entries_is_net valid
  unfold mergeManifestEntries
  rw [if_neg several]
  apply Meets.bindValue entries (At start.files start.manifestFileCount)
  · apply (read_entries_meets present).weaken (fun _ unchanged => unchanged) (fun _ _ done => done)
    intro store failing
    exact ⟨failing.1.files, failing.1.count.ge, Or.inl failing.2⟩
  · rw [mergedOk]
    exact (manifest_write_meets deletesWork fresh net).weaken (fun _ unchanged => unchanged)
      (fun _ _ written => ⟨net, isNet, written⟩) (fun _ failing => failing)

section
variable {uuid : Nat} {names : List PathName}

theorem Contained.fresh (contained : Contained uuid start files count names)
    (fresh : FreshPaths uuid start) (calls : Nat) : FreshPaths uuid ⟨calls, count, files⟩ := by
  intro later atLeast
  have outside : (⟨uuid, later⟩ : PathName) ∉ names := by
    intro mem
    have below := (contained.owned _ mem).2.2
    have least : count ≤ later := atLeast
    simp only at below
    omega
  exact (contained.untouched _ outside).trans (fresh later (contained.counted.trans atLeast))

section
variable {entries : List ManifestEntry} {metas : List ManifestFileMeta}
  {middle store : ManifestStore} (written : Written uuid middle entries metas store)
include written

theorem Written.contained
    (contained : Contained uuid start middle.files middle.manifestFileCount names) :
    Contained uuid start store.files store.manifestFileCount
      (names ++ metas.map ManifestFileMeta.fileName) where
  untouched := by
    intro name outside
    rw [mem_append, not_or] at outside
    rw [written.untouched name outside.2]
    exact contained.untouched name outside.1
  owned := by
    intro name mem
    rw [mem_append] at mem
    rcases mem with old | new
    · obtain ⟨sameUuid, later, below⟩ := contained.owned name old
      exact ⟨sameUuid, later, below.trans_le written.counted⟩
    · obtain ⟨file, fileMember, rfl⟩ := mem_map.mp new
      obtain ⟨sameUuid, later, below⟩ := written.owned file fileMember
      exact ⟨sameUuid, contained.counted.trans later, below⟩
  counted := contained.counted.trans written.counted

theorem Written.keeps (fresh : FreshPaths uuid middle) : Keeps middle.files store.files := by
  intro name present
  refine written.untouched name (fun mem => present ?_)
  obtain ⟨file, fileMember, rfl⟩ := mem_map.mp mem
  obtain ⟨sameUuid, later, _⟩ := written.owned file fileMember
  rw [← sameUuid] at fresh
  exact fresh _ later

end

theorem Keeps.trans {first second third : Directory} (lower : Keeps first second)
    (upper : Keeps second third) : Keeps first third := by
  intro name present
  have same := lower name present
  rw [← same]
  exact upper name (by rwa [same])

end

/-- The new manifests of a merge are registered, and nothing else was written. -/
def Registered (uuid : Nat) (start : ManifestStore) (state : MergeState) : Prop :=
  Contained uuid start state.store.files state.store.manifestFileCount
    (state.newMetasForAbort.map ManifestFileMeta.fileName)

/-- `merged` may stand for the manifests whose content was `entries` in `files`. -/
def Replaces (uuid : Nat) (start : ManifestStore) (files : Directory)
    (entries : List ManifestEntry) (merged : List ManifestFileMeta) (state : MergeState) : Prop :=
  (∃ content, readAll state.store.files merged = some content ∧
    Reduces ManifestEntry.kind ManifestEntry.createIdentifier entries content) ∧
  Keeps files state.store.files ∧ Registered uuid start state

theorem on_manifests_meets {Result : Type} {program : Program ManifestStore String Result}
    {before failed : ManifestStore → Prop} {after : Result → ManifestStore → Prop}
    (registered : List ManifestFileMeta) (meets : Meets before program after failed) :
    Meets (fun state => before state.store ∧ state.newMetasForAbort = registered)
      (onManifests program)
      (fun result state => after result state.store ∧ state.newMetasForAbort = registered)
      (fun state => failed state.store ∧ state.newMetasForAbort = registered) :=
  Meets.zoom (fun state : MergeState => state.newMetasForAbort = registered) (fun _ _ => rfl)
    (fun _ _ same => same) meets

section
variable {metas : List ManifestFileMeta} {entries : List ManifestEntry}
  (deletesWork : ∀ number, fs.deletes number = true) (fresh : FreshPaths manifestFile.uuid start)
include deletesWork fresh

theorem merge_and_register_meets (several : metas.length ≠ 1)
    (present : readAll files metas = some entries) (valid : ValidHistory entries) :
    Meets (fun state => state.store.files = files ∧ Registered manifestFile.uuid start state)
      (mergeAndRegister fs manifestFile metas) (Replaces manifestFile.uuid start files entries)
      (fun state => Registered manifestFile.uuid start state ∧ Unwritable fs manifestFile) := by
  apply Meets.pointwise
  intro state start_
  rcases state with ⟨middle, registered⟩
  rcases start_ with ⟨rfl, contained⟩
  have freshNow : FreshPaths manifestFile.uuid middle := contained.fresh fresh middle.calls
  apply Meets.bind (fun merged state => (∃ net, IsMerged net entries ∧
    Written manifestFile.uuid middle net merged state.store) ∧ state.newMetasForAbort = registered)
  · have merging := merge_manifest_entries_meets deletesWork freshNow several present valid
    apply (on_manifests_meets registered merging).weaken
    · intro state same
      rw [same]
      exact ⟨⟨rfl, rfl⟩, rfl⟩
    · intro merged state done
      exact done
    · intro state failing
      rcases failing with ⟨⟨restored, counted, unwritable⟩, rfl⟩
      refine ⟨⟨?_, ?_, contained.counted.trans counted⟩, unwritable⟩
      · rw [restored]
        exact contained.untouched
      · intro name mem
        obtain ⟨sameUuid, later, below⟩ := contained.owned name mem
        exact ⟨sameUuid, later, below.trans_le counted⟩
  · intro merged
    apply Meets.bind (fun _ => Replaces manifestFile.uuid start middle.files entries merged)
    · apply Meets.total
      intro state done
      rcases done with ⟨⟨net, isNet, written⟩, rfl⟩
      have extended := written.contained contained
      rw [← map_append] at extended
      exact ⟨⟨net, written.readBack, isNet.reduces⟩, written.keeps freshNow, extended⟩
    · intro _
      exact Meets.pure _ (fun _ done => done)

theorem merge_candidates_meets (present : readAll files metas = some entries)
    (valid : ValidHistory entries) :
    Meets (fun state => state.store.files = files ∧ Registered manifestFile.uuid start state)
      (mergeCandidates fs manifestFile metas) (Replaces manifestFile.uuid start files entries)
      (fun state => Registered manifestFile.uuid start state ∧ Unwritable fs manifestFile) := by
  unfold mergeCandidates
  split_ifs with single
  · apply Meets.pure
    intro state unchanged
    rcases unchanged with ⟨rfl, registered⟩
    exact ⟨⟨entries, present, Reduces.refl entries⟩, fun _ _ => rfl, registered⟩
  · exact merge_and_register_meets deletesWork fresh single present valid

end

/-- The finished manifests and the pending candidates together stand for what was handled. -/
structure Compacting (uuid : Nat) (start : ManifestStore) (handled : List ManifestFileMeta)
    (progress : MinorCompaction) (state : MergeState) : Prop where
  registered : Registered uuid start state
  keeps : Keeps start.files state.store.files
  contents : ∃ entries finished pending, readAll start.files handled = some entries ∧
    readAll state.store.files progress.result = some finished ∧
    readAll state.store.files progress.candidates = some pending ∧
    Reduces ManifestEntry.kind ManifestEntry.createIdentifier entries (finished ++ pending)

section
variable {all : List ManifestFileMeta} {history : List ManifestEntry}

theorem flush_candidates_meets (deletesWork : ∀ number, fs.deletes number = true)
    (fresh : FreshPaths manifestFile.uuid start) {handled : List ManifestFileMeta}
    {entries : List ManifestEntry} (present : readAll start.files handled = some entries)
    (valid : ValidHistory entries) (progress : MinorCompaction) :
    Meets (Compacting manifestFile.uuid start handled progress)
      (mergeCandidates fs manifestFile progress.candidates)
      (fun merged => Compacting manifestFile.uuid start handled
        { result := progress.result ++ merged, candidates := [], totalSize := 0 })
      (fun state => Registered manifestFile.uuid start state ∧ Unwritable fs manifestFile) := by
  apply Meets.pointwise
  intro state compacting
  obtain ⟨_, finished, pending, readHandled, readFinished, readPending, reduces⟩ :=
    compacting.contents
  obtain rfl : entries = _ := Option.some.inj (present.symm.trans readHandled)
  have pendingValid : ValidHistory pending :=
    valid_sublist (reduces.agree valid).valid (sublist_append_right _ _)
  apply (merge_candidates_meets deletesWork fresh readPending pendingValid).weaken
  · intro _ same
    rw [same]
    exact ⟨rfl, compacting.registered⟩
  · intro merged state' replaces
    rcases replaces with ⟨⟨content, readMerged, mergedReduces⟩, keeps, registered⟩
    refine ⟨registered, compacting.keeps.trans keeps, entries, finished ++ content,
      [], present, ?_, rfl, ?_⟩
    · simp [read_all_append, read_all_keeps keeps readFinished, readMerged]
    · rw [append_nil]
      exact reduces.trans ((Reduces.refl finished).append mergedReduces)
  · intro state' failing
    exact failing

theorem minor_compaction_step_meets (deletesWork : ∀ number, fs.deletes number = true)
    (fresh : FreshPaths manifestFile.uuid start)
    (present : readAll start.files all = some history) (valid : ValidHistory history)
    (suggestedMetaSize : Int) {handled later : List ManifestFileMeta}
    {manifest : ManifestFileMeta} (split : all = handled ++ manifest :: later)
    (progress : MinorCompaction) : Meets (Compacting manifestFile.uuid start handled progress)
      (minorCompactionStep fs manifestFile suggestedMetaSize progress manifest)
      (Compacting manifestFile.uuid start (handled ++ [manifest]))
      (fun state => Registered manifestFile.uuid start state ∧ Unwritable fs manifestFile) := by
  rw [split, ← singleton_append, ← append_assoc] at present
  obtain ⟨entries, _, readHandled', _, rfl⟩ := read_all_prefix present
  obtain ⟨before, content, readHandled, readManifest, rfl⟩ := read_all_prefix readHandled'
  have entriesValid : ValidHistory (before ++ content) :=
    valid_sublist valid (sublist_append_left _ _)
  have pushed : ∀ state, Compacting manifestFile.uuid start handled progress state →
      Compacting manifestFile.uuid start (handled ++ [manifest]) (progress.push manifest)
        state := by
    intro state compacting
    obtain ⟨_, finished, pending, readBefore, readFinished, readPending, reduces⟩ :=
      compacting.contents
    obtain rfl : before = _ := Option.some.inj (readHandled.symm.trans readBefore)
    refine ⟨compacting.registered, compacting.keeps, before ++ content, finished,
      pending ++ content, readHandled', readFinished, ?_, ?_⟩
    · simp [MinorCompaction.push, read_all_append, readPending,
        read_all_keeps compacting.keeps readManifest]
    · rw [← append_assoc]
      exact reduces.append (Reduces.refl content)
  unfold minorCompactionStep
  simp only
  split_ifs with full
  · have flushed :=
      flush_candidates_meets deletesWork fresh readHandled' entriesValid (progress.push manifest)
    apply Meets.bind _ (flushed.weaken pushed (fun _ _ done => done) (fun _ failing => failing))
    intro merged
    exact Meets.pure _ (fun _ done => done)
  · exact Meets.pure _ pushed

/-- Both compactions end in manifests that stand for all of the input. -/
def Compacted (uuid : Nat) (start : ManifestStore) (history : List ManifestEntry)
    (results : List ManifestFileMeta) (state : MergeState) : Prop :=
  Replaces uuid start start.files history results state

section
variable (deletesWork : ∀ number, fs.deletes number = true)
  (fresh : FreshPaths manifestFile.uuid start)
include deletesWork fresh

section
variable (present : readAll start.files all = some history) (valid : ValidHistory history)
include present valid

theorem try_minor_compaction_meets (suggestedMetaSize suggestedMinMetaCount : Int) :
    Meets (fun state => state.store.files = start.files ∧ Registered manifestFile.uuid start state)
      (tryMinorCompaction fs manifestFile all suggestedMetaSize suggestedMinMetaCount)
      (Compacted manifestFile.uuid start history)
      (fun state => Registered manifestFile.uuid start state ∧ Unwritable fs manifestFile) := by
  have finish : ∀ result state, Compacting manifestFile.uuid start all
        { result, candidates := [], totalSize := 0 } state →
      Compacted manifestFile.uuid start history result state := by
    intro result state compacting
    obtain ⟨_, finished, _, readAllInput, readFinished, readNone, reduces⟩ := compacting.contents
    obtain rfl : history = _ := Option.some.inj (present.symm.trans readAllInput)
    obtain rfl : [] = _ := Option.some.inj readNone
    rw [append_nil] at reduces
    exact ⟨⟨finished, readFinished, reduces⟩, compacting.keeps, compacting.registered⟩
  apply Meets.bind (Compacting manifestFile.uuid start all)
  · apply Meets.weaken (Meets.forEach (Compacting manifestFile.uuid start) _ {})
      _ (fun _ _ done => done) (fun _ failing => failing)
    · intro handled manifest later progress split
      exact minor_compaction_step_meets deletesWork fresh present valid suggestedMetaSize split
        progress
    · intro state unchanged
      rcases unchanged with ⟨sameFiles, registered⟩
      have keeps : Keeps start.files state.store.files := by
        intro name _
        rw [sameFiles]
      exact ⟨registered, keeps, [], [], [], rfl, rfl, rfl, Reduces.refl _⟩
  · intro progress
    split_ifs with enough
    · apply Meets.bind _ (flush_candidates_meets deletesWork fresh present valid progress)
      intro merged
      exact Meets.pure _ (finish _)
    · apply Meets.pure
      intro state compacting
      apply finish
      obtain ⟨entries, finished, pending, readInput, readFinished, readPending, reduces⟩ :=
        compacting.contents
      refine ⟨compacting.registered, compacting.keeps, entries, finished ++ pending, [], readInput,
        ?_, rfl, by rwa [append_nil]⟩
      simp [read_all_append, readFinished, readPending]

theorem try_full_compaction_meets (targetFileSize fullCompactionFileSize : Int) :
    Meets (fun state => state.store.files = start.files ∧ Registered manifestFile.uuid start state)
      (tryFullCompaction fs manifestFile all targetFileSize fullCompactionFileSize)
      (fun fullCompacted state => match fullCompacted with
        | none => state.store.files = start.files ∧ Registered manifestFile.uuid start state
        | some results => Compacted manifestFile.uuid start history results state)
      (fun state => Registered manifestFile.uuid start state ∧ Unwritable fs manifestFile) := by
  unfold tryFullCompaction
  simp only
  split_ifs with small few
  · exact Meets.pure _ (fun _ start => start)
  · exact Meets.pure _ (fun _ start => start)
  · generalize (fun file : ManifestFileMeta =>
      decide (file.numDeletedFiles = 0 ∧ targetFileSize ≤ file.fileSize)) = inBase at *
    have split : all = List.takeWhile inBase all ++ List.dropWhile inBase all :=
      takeWhile_append_dropWhile.symm
    rw [split] at present
    obtain ⟨baseEntries, deltaEntries, readBase, readDelta, rfl⟩ := read_all_prefix present
    have deltaValid : ValidHistory deltaEntries := valid_sublist valid (sublist_append_right _ _)
    have several : (List.dropWhile inBase all).length ≠ 1 := by omega
    apply Meets.bind _ (merge_and_register_meets deletesWork fresh several readDelta deltaValid)
    intro mergedDelta
    apply Meets.pure
    intro state replaces
    rcases replaces with ⟨⟨content, readMerged, reduces⟩, keeps, registered⟩
    have readResults : readAll state.store.files (List.takeWhile inBase all ++ mergedDelta) =
        some (baseEntries ++ content) := by
      simp [read_all_append, read_all_keeps keeps readBase, readMerged]
    exact ⟨⟨baseEntries ++ content, readResults, (Reduces.refl baseEntries).append reduces⟩,
      keeps, registered⟩

theorem merge_or_compact_meets (targetFileSize mergeMinCount fullCompactionFileSize : Int) :
    Meets (fun state => state.store.files = start.files ∧ Registered manifestFile.uuid start state)
      (mergeOrCompact fs manifestFile all targetFileSize mergeMinCount fullCompactionFileSize)
      (Compacted manifestFile.uuid start history)
      (fun state => Registered manifestFile.uuid start state ∧ Unwritable fs manifestFile) := by
  apply Meets.bind _ (try_full_compaction_meets deletesWork fresh present valid targetFileSize
    fullCompactionFileSize)
  intro fullCompacted
  cases fullCompacted with
  | some results => exact Meets.pure _ (fun _ done => done)
  | none => exact try_minor_compaction_meets deletesWork fresh present valid _ _

end

theorem abort_merge_restores (state : MergeState)
    (registered : Registered manifestFile.uuid start state) :
    (abortMerge fs state).store.files = start.files := by
  have deleted := foldl_delete_quietly_at deletesWork
    (state.newMetasForAbort.map ManifestFileMeta.fileName) state.store ⟨rfl, rfl⟩
  rw [show (abortMerge fs state).store.files = _ from deleted.files]
  funext name
  exact registered.restored fresh name

/-- Manifests that agree with the input, or the directory as it was. -/
theorem merge_meets (present : readAll start.files all = some history)
    (valid : ValidHistory history)
    (targetFileSize mergeMinCount fullCompactionFileSize : Int) : Meets (fun store => store = start)
      (merge fs manifestFile all targetFileSize mergeMinCount fullCompactionFileSize)
      (fun results store => (∃ content, readAll store.files results = some content ∧
          Agree ManifestEntry.kind ManifestEntry.createIdentifier history content) ∧
        Keeps start.files store.files ∧
        ∀ name, name.uuid ≠ manifestFile.uuid → store.files name = start.files name)
      (fun store => store.files = start.files ∧ Unwritable fs manifestFile) := by
  rintro store rfl
  have registered : Registered manifestFile.uuid store ⟨store, []⟩ :=
    ⟨fun _ _ => rfl, by simp, Nat.le_refl _⟩
  have guardedMeets : Meets (fun state : MergeState => state.store.files = store.files ∧
        Registered manifestFile.uuid store state)
      (guarded (mergeOrCompact fs manifestFile all targetFileSize mergeMinCount
        fullCompactionFileSize) (abortMerge fs))
      (Compacted manifestFile.uuid store history)
      (fun state => state.store.files = store.files ∧ Unwritable fs manifestFile) := by
    apply Meets.guarded _ (merge_or_compact_meets deletesWork fresh present valid targetFileSize
      mergeMinCount fullCompactionFileSize)
    intro state failing
    exact ⟨abort_merge_restores deletesWork fresh state failing.1, failing.2⟩
  obtain ⟨returns, fails⟩ := guardedMeets ⟨store, []⟩ ⟨rfl, registered⟩
  rcases outcome : runFrom (guarded (mergeOrCompact fs manifestFile all targetFileSize
    mergeMinCount fullCompactionFileSize) (abortMerge fs)) ⟨store, []⟩ with ⟨result, state⟩
  have run : runFrom (merge fs manifestFile all targetFileSize mergeMinCount
      fullCompactionFileSize) store = (result, state.store) := by
    show merge _ _ _ _ _ _ store = _
    simp only [merge, outcome]
  rw [run]
  refine ⟨fun results store' returned => ?_, fun error store' failed => ?_⟩
  · obtain ⟨rfl, rfl⟩ := returned
    obtain ⟨⟨content, readResults, reduces⟩, keeps, contained⟩ := returns results state outcome
    exact ⟨⟨content, readResults, reduces.agree valid⟩, keeps, fun name others =>
      contained.untouched name fun mem => others (contained.owned name mem).1⟩
  · obtain ⟨rfl, rfl⟩ := failed
    exact fails error state outcome

end

end

/-- Manifest compaction preserves the table. Whatever the sizes and thresholds, a
merge of manifests that hold a valid history either returns manifests that hold a
valid history with the same live files and the same pending deletes, or fails and
leaves the manifest directory as it found it; and it does return when no call to
the file system fails. -/
theorem merge_preserves_table (fs : FileSystem) (manifestFile : ManifestFile)
    (start : ManifestStore) (all : List ManifestFileMeta) (history : List ManifestEntry)
    (targetFileSize mergeMinCount fullCompactionFileSize : Int)
    (deletesWork : ∀ number, fs.deletes number = true)
    (fresh : FreshPaths manifestFile.uuid start)
    (present : readAll start.files all = some history) (valid : ValidHistory history) :
    let outcome :=
      runFrom (merge fs manifestFile all targetFileSize mergeMinCount fullCompactionFileSize) start
    (∀ results store, outcome = (.ok results, store) →
      ∃ history' merged merged', readAll store.files results = some history' ∧
        ValidHistory history' ∧ mergeEntries history = .ok merged ∧
        mergeEntries history' = .ok merged' ∧
        (∀ entry, entry ∈ liveFiles merged' ↔ entry ∈ liveFiles merged) ∧
        (∀ entry, entry ∈ pendingDeletes merged' ↔ entry ∈ pendingDeletes merged)) ∧
    (∀ message store, outcome = (.error message, store) → store.files = start.files) ∧
    (¬Unwritable fs manifestFile → ∃ results store, outcome = (.ok results, store)) := by
  intro outcome
  obtain ⟨returns, fails⟩ := merge_meets deletesWork fresh present valid targetFileSize
    mergeMinCount fullCompactionFileSize start rfl
  refine ⟨fun results store run => ?_, fun message store run => (fails message store run).1,
    fun writable => ?_⟩
  · obtain ⟨⟨history', readResults, agree⟩, _⟩ := returns results store run
    obtain ⟨merged, mergeOk, isNet⟩ := merge_entries_is_net valid
    obtain ⟨merged', mergeOk', isNet'⟩ := merge_entries_is_net agree.valid
    have sameEntries : ∀ entry, entry ∈ merged' ↔ entry ∈ merged := by
      intro entry
      rw [isNet'.mem_iff, isNet.mem_iff, agree.sameNet]
    refine ⟨history', merged, merged', readResults, agree.valid, mergeOk, mergeOk', ?_, ?_⟩ <;>
      intro entry
    · simp only [liveFiles, mem_filter, sameEntries]
    · simp only [pendingDeletes, mem_filter, sameEntries]
  · rcases run : outcome with ⟨message | results, store⟩
    · exact absurd (fails message store run).2 writable
    · exact ⟨results, store, rfl⟩

def reliableFileSystem : FileSystem where
  fails := fun _ => false
  deletes := fun _ => true
  fileSize := fun entries => entries.length
  reachTargetSize := fun _ _ _ => false

def sampleEntry (kind : FileKind) (name : String) : ManifestEntry :=
  { kind, file := { fileName := name } }

/-- The second manifest deletes a file of the first and one that was added before either. -/
def sampleStore : ManifestStore where
  calls := 0
  manifestFileCount := 0
  files := fun name =>
    if name = ⟨1, 0⟩ then some [sampleEntry .add "a", sampleEntry .add "b"]
    else if name = ⟨1, 1⟩ then some [sampleEntry .delete "a", sampleEntry .delete "z"]
    else none

def sampleManifests : List ManifestFileMeta :=
  [⟨⟨1, 0⟩, 2, 2, 0⟩, ⟨⟨1, 1⟩, 2, 0, 2⟩]

theorem merge_preserves_table_at_sample : ∃ results store history' merged',
      runFrom (merge reliableFileSystem ⟨7, 100, "avro"⟩ sampleManifests 100 2 1000) sampleStore =
        (.ok results, store) ∧ readAll store.files results = some history' ∧ ValidHistory history' ∧
      mergeEntries history' = .ok merged' ∧
      (∀ entry, entry ∈ liveFiles merged' ↔ entry ∈ [sampleEntry .add "b"]) ∧
      (∀ entry, entry ∈ pendingDeletes merged' ↔ entry ∈ [sampleEntry .delete "z"]) := by
  have fresh : FreshPaths 7 sampleStore := by
    intro count _
    simp [sampleStore]
  obtain ⟨returns, _, writable⟩ := merge_preserves_table reliableFileSystem ⟨7, 100, "avro"⟩
    sampleStore sampleManifests [sampleEntry .add "a", sampleEntry .add "b",
      sampleEntry .delete "a", sampleEntry .delete "z"] 100 2 1000 (fun _ => rfl) fresh
    (by decide) (by decide)
  obtain ⟨results, store, run⟩ := writable (by simp [Unwritable, Faulty, reliableFileSystem])
  obtain ⟨history', merged, merged', readBack, valid, mergedOk, mergedOk', live, pending⟩ :=
    returns results store run
  have net : merged = [sampleEntry .add "b", sampleEntry .delete "z"] := by
    have computed : mergeEntries [sampleEntry .add "a", sampleEntry .add "b",
        sampleEntry .delete "a", sampleEntry .delete "z"] =
          .ok [sampleEntry .add "b", sampleEntry .delete "z"] := by rfl
    rw [computed, Except.ok.injEq] at mergedOk
    exact mergedOk.symm
  subst net
  exact ⟨results, store, history', merged', run, readBack, valid, mergedOk', live, pending⟩

end PaimonCore.Manifest
