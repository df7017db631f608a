import Mathlib.Data.List.Sublists
import PaimonCore.Manifest.ManifestFileMerger

/-!
# `RollbackToAsLatest`

A rollback commits a former snapshot once more: its base manifests hold the live files of the
latest snapshot, its delta what the target does not share with it. Commits, merges of manifests
and rollbacks together refine a sequence of sets of live files.
-/

namespace PaimonCore.Rollback

open Programs ChangeLog List Manifest ManifestEntry

def missingFrom (entries : List ManifestEntry) (entry : ManifestEntry) : Bool :=
  entry.createIdentifier ∉ entries.map createIdentifier

def deleted (dropStats : Bool) (entry : ManifestEntry) : ManifestEntry :=
  { entry with
    kind := .delete
    file := if dropStats then entry.file.copyWithoutStats else entry.file }

def added (entry : ManifestEntry) : ManifestEntry := { entry with kind := .add }

def rollbackDelta (dropStats : Bool) (latest target : List ManifestEntry) : List ManifestEntry :=
  (latest.filter (missingFrom target)).map (deleted dropStats) ++
    (target.filter (missingFrom latest)).map added

/-- On the entries of the data manifests of a snapshot. -/
def readAddManifestEntries (history : List ManifestEntry) : Except String (List ManifestEntry) := do
  let merged ← mergeEntries history
  return liveFiles merged

/-- The entries of the base and of the delta manifests. -/
def rollbackToAsLatest (dropStats : Bool) (latest target : List ManifestEntry) :
    Except String (List ManifestEntry × List ManifestEntry) := do
  let latestEntries ← readAddManifestEntries latest
  let targetEntries ← readAddManifestEntries target
  return (latestEntries, rollbackDelta dropStats latestEntries targetEntries)

/-- What a log says of one file. -/
def kindsOf (file : Identifier) (log : List ManifestEntry) : List FileKind :=
  (entriesOf createIdentifier file log).map kind

def changed (kind : FileKind) (changes : List ManifestEntry) : Set Identifier :=
  {file | kind ∈ kindsOf file changes}

def liveSet (history : List ManifestEntry) : Set Identifier :=
  {file | ∃ merged, mergeEntries history = .ok merged ∧
    file ∈ (liveFiles merged).map createIdentifier}

/-- A rollback, for the histories of the latest and the target snapshot. -/
structure RollsBack (history goal before changes : List ManifestEntry) : Prop where
  valid : ValidHistory (before ++ changes)
  base : liveSet before = liveSet history
  restored : liveSet (before ++ changes) = liveSet goal
  delta : ∀ change ∈ changes, change.createIdentifier ∈ match change.kind with
    | .add => liveSet goal \ liveSet history
    | .delete => liveSet history \ liveSet goal

/-- The manifests of a snapshot and the files that it is to have. -/
abbrev Version := List ManifestFileMeta × Set Identifier

def Shows (files : Directory) (version : Version) : Prop :=
  ∃ history, readAll files version.1 = some history ∧ ValidHistory history ∧
    liveSet history = version.2

/-- A successful `ManifestFile::Write` of some committer. -/
def Writes (store : ManifestStore) (entries : List ManifestEntry) (metas : List ManifestFileMeta)
    (store' : ManifestStore) : Prop :=
  ∃ fs manifestFile, (∀ number, fs.deletes number = true) ∧ FreshPaths manifestFile.uuid store ∧
    runFrom (ManifestFile.write fs manifestFile entries) store = (.ok metas, store')

/-- The snapshots, the latest in front. Any committer may take the next step; `others` is all that
leaves the manifests there as they are. -/
inductive Timeline : ManifestStore → List Version → Prop
  | start (store : ManifestStore) : Timeline store [([], ∅)]
  | others (timeline : Timeline store versions) (keeps : Keeps store.files store'.files) :
      Timeline store' versions
  | commit {fs : FileSystem} (timeline : Timeline store ((latest, live) :: older))
    (deletesWork : ∀ number, fs.deletes number = true) (fresh : FreshPaths manifestFile.uuid store)
    (merges :
      runFrom (merge fs manifestFile latest targetFileSize mergeMinCount
      fullCompactionFileSize) store =
      (.ok base, middle)) (writes : Writes middle changes delta store')
    (valid : ∀ merged, readAll middle.files base = some merged → ValidHistory (merged ++ changes)) :
    Timeline store' ((base ++ delta, (live ∪ changed .add changes) \ changed .delete changes) ::
      (latest, live) :: older)
  | rollback (timeline : Timeline store ((latest, live) :: older))
      (known : (target, goal) ∈ (latest, live) :: older)
    (present : readAll store.files latest = some history)
    (found : readAll store.files target = some old)
    (rolls : rollbackToAsLatest dropStats history old = .ok (entries, changes))
    (writesBase : Writes store entries base middle) (writes : Writes middle changes delta store') :
    Timeline store' ((base ++ delta, goal) :: (latest, live) :: older)

variable {history merged goal target changes : List ManifestEntry} {file : Identifier}
  {dropStats : Bool}
  {store middle : ManifestStore}

theorem kinds_of_append :
    kindsOf file (history ++ changes) = kindsOf file history ++ kindsOf file changes := by
  simp [kindsOf]

theorem kinds_of_eq_nil : kindsOf file history = [] ↔ file ∉ history.map createIdentifier := by
  simp [kindsOf, entriesOf]

theorem kinds_of_live (file : Identifier) (valid : ValidHistory history)
    (isMerged : IsMerged merged history) :
    kindsOf file (liveFiles merged) = if kindsOf file history = [.add] then [.add] else [] := by
  have swap : entriesOf createIdentifier file (liveFiles merged) =
      (entriesOf createIdentifier file merged).filter (fun entry => entry.kind = .add) := by
    simp only [entriesOf, liveFiles, filter_filter, Bool.and_comm]
  rw [kindsOf, swap, isMerged, kindsOf]
  rcases valid_run_cases (valid file) with none | ⟨entry, one⟩ | ⟨first, second, two,
    isAdd, isDelete⟩
  · simp [none, cancel]
  · by_cases isAdd : entry.kind = .add <;> simp [one, cancel, isAdd]
  · simp [two, cancel, isAdd, isDelete]

theorem mem_live_set (valid : ValidHistory history) :
    file ∈ liveSet history ↔ kindsOf file history = [.add] := by
  obtain ⟨merged, mergedOk, isMerged⟩ := merge_entries_is_net valid
  have among : file ∈ liveSet history ↔ kindsOf file (liveFiles merged) ≠ [] := by
    simp [liveSet, mergedOk, kinds_of_eq_nil]
  rw [among, kinds_of_live file valid isMerged]
  split_ifs with isLive <;> simp [isLive]

theorem live_set_of_agree (agree : Agree kind createIdentifier history changes)
    (valid : ValidHistory history) :
    liveSet changes = liveSet history := by
  obtain ⟨merged, mergedOk, isMerged⟩ := merge_entries_is_net valid
  obtain ⟨merged', mergedOk', isMerged'⟩ := merge_entries_is_net agree.valid
  have same : ∀ entry, entry ∈ liveFiles merged' ↔ entry ∈ liveFiles merged := by
    intro entry
    simp only [liveFiles, mem_filter, isMerged'.mem_iff, isMerged.mem_iff, agree.sameNet]
  simp [liveSet, mergedOk, mergedOk', same]

theorem live_set_append (valid : ValidHistory (history ++ changes)) :
    liveSet (history ++ changes) =
      (liveSet history ∪ changed .add changes) \ changed .delete changes := by
  have historyValid := valid_sublist valid (sublist_append_left history changes)
  ext file
  have run : kindsOf file (history ++ changes) ∈ [[], [.add], [.delete], [.add, .delete]] :=
    mem_sublists.mpr (valid file)
  rw [mem_live_set valid, Set.mem_sdiff, Set.mem_union, mem_live_set historyValid]
  change _ ↔ (_ ∨ Change.add ∈ kindsOf file changes) ∧ Change.delete ∉ kindsOf file changes
  rw [kinds_of_append] at run ⊢
  simp only [mem_cons, append_eq_cons_iff, cons_eq_append_iff, append_eq_nil_iff, nil_eq_append_iff,
    not_mem_nil, or_false] at run
  aesop

theorem kinds_of_missing {change : ManifestEntry → ManifestEntry} {newKind : FileKind}
    (keeps : ∀ entry, (change entry).createIdentifier = entry.createIdentifier)
    (sets : ∀ entry, (change entry).kind = newKind) (entries others : List ManifestEntry) :
    kindsOf file ((entries.filter (missingFrom others)).map change) =
      if kindsOf file others = [] then (kindsOf file entries).map (fun _ => newKind) else [] := by
  have same : ∀ entry, createIdentifier entry = file →
      (missingFrom others entry = true ↔ kindsOf file others = []) := by
    rintro entry rfl
    rw [kinds_of_eq_nil, missingFrom, decide_eq_true_eq]
  simp only [kindsOf, entriesOf, filter_map, map_map, Function.comp_def, keeps, sets, filter_filter]
  split_ifs with none
  · congr 1
    apply filter_congr
    intro entry _
    by_cases identified : entry.createIdentifier = file
    · simp [identified, (same entry identified).mpr none]
    · simp [identified]
  · simp only [map_eq_nil_iff, filter_eq_nil_iff, Bool.and_eq_true, decide_eq_true_eq, not_and]
    intro entry _ identified
    rwa [same entry identified]

theorem rollback_eq (dropStats : Bool) (mergedOk : mergeEntries history = .ok merged)
    (targetOk : mergeEntries goal = .ok target) :
    rollbackToAsLatest dropStats history goal =
      .ok (liveFiles merged, rollbackDelta dropStats (liveFiles merged) (liveFiles target)) := by
  simp only [rollbackToAsLatest, readAddManifestEntries, mergedOk, targetOk]
  rfl

theorem rolls_back (valid : ValidHistory history) (goalValid : ValidHistory goal)
    (rolls : rollbackToAsLatest dropStats history goal = .ok (before, changes)) :
    RollsBack history goal before changes := by
  obtain ⟨merged, mergedOk, isMerged⟩ := merge_entries_is_net valid
  obtain ⟨target, targetOk, isTarget⟩ := merge_entries_is_net goalValid
  cases (rollback_eq dropStats mergedOk targetOk).symm.trans rolls
  have base := fun file => kinds_of_live file valid isMerged
  have keeps : ∀ entry, (deleted dropStats entry).createIdentifier = entry.createIdentifier :=
    fun entry => by
    cases dropStats <;> rfl
  have delta :
      ∀ file, kindsOf file (rollbackDelta dropStats (liveFiles merged) (liveFiles target)) =
      if kindsOf file goal = [.add] then if kindsOf file history = [.add] then [] else [.add]
      else if kindsOf file history = [.add] then [.delete] else [] := by
    intro file
    rw [rollbackDelta, kinds_of_append, kinds_of_missing keeps (fun _ => rfl),
      @kinds_of_missing _ added .add (fun _ => rfl) (fun _ => rfl), base,
        kinds_of_live _ goalValid isTarget]
    split_ifs <;> simp_all
  have wholeValid : ValidHistory (liveFiles merged ++
      rollbackDelta dropStats (liveFiles merged) (liveFiles target)) := by
    intro file
    change (kindsOf file _).Sublist _
    rw [kinds_of_append, base, delta]
    split_ifs <;> simp
  have baseValid := valid_sublist wholeValid (sublist_append_left _ _)
  refine ⟨wholeValid, ?_, ?_, ?_⟩
  · ext file
    rw [mem_live_set baseValid, mem_live_set valid, base]
    split_ifs with isLive <;> simp [isLive]
  · ext file
    rw [mem_live_set wholeValid, mem_live_set goalValid, kinds_of_append, base, delta]
    split_ifs <;> simp_all
  · intro change mem
    have among : change.kind ∈ kindsOf change.createIdentifier _ :=
      mem_map_of_mem (mem_entries_of.mpr ⟨mem, rfl⟩)
    rw [delta] at among
    split <;> rw [Set.mem_sdiff, mem_live_set valid, mem_live_set goalValid] <;>
      split_ifs at among <;> simp_all

/-- A rollback succeeds and brings back the live files of the target, whatever came between, with
no change that is not needed. -/
theorem rollback_restores_target (valid : ValidHistory history) (goalValid : ValidHistory goal) :
    ∃ before changes, rollbackToAsLatest dropStats history goal = .ok (before, changes) ∧
      RollsBack history goal before changes := by
  obtain ⟨merged, mergedOk, _⟩ := merge_entries_is_net valid
  obtain ⟨target, targetOk, _⟩ := merge_entries_is_net goalValid
  have rolls := rollback_eq dropStats mergedOk targetOk
  exact ⟨_, _, rolls, rolls_back valid goalValid rolls⟩

theorem deleted_file_restored :
    let history := [sampleEntry .add "a", sampleEntry .delete "a"]
    ∃ before changes, rollbackToAsLatest true history (history.take 1) = .ok (before, changes) ∧
      RollsBack history (history.take 1) before changes :=
  rollback_restores_target (by decide) (by decide)

theorem Writes.stored (writes : Writes store changes metas store') :
    readAll store'.files metas = some changes ∧ Keeps store.files store'.files := by
  obtain ⟨fs, manifestFile, deletesWork, fresh, run⟩ := writes
  have written := (manifest_write_meets deletesWork fresh _ _ ⟨rfl, rfl⟩).1 _ _ run
  exact ⟨written.readBack, written.keeps fresh⟩

theorem Shows.kept {version : Version} (isShown : Shows store.files version)
    (keeps : Keeps store.files middle.files) : Shows middle.files version := by
  obtain ⟨history, present, rest⟩ := isShown
  exact ⟨history, read_all_keeps keeps present, rest⟩

theorem shown_after {versions : List Version}
    (shown : ∀ version ∈ versions, Shows store.files version)
    (keeps : Keeps store.files middle.files) (readBase : readAll middle.files base = some history)
    (writes : Writes middle changes delta store') (valid : ValidHistory (history ++ changes)) :
    ∀ version ∈ (base ++ delta, liveSet (history ++ changes)) :: versions,
      Shows store'.files version := by
  obtain ⟨readDelta, keepsDelta⟩ := writes.stored
  refine forall_mem_cons.mpr ⟨⟨_, ?_, valid, rfl⟩, fun version mem =>
    (shown version mem).kept (keeps.trans keepsDelta)⟩
  rw [read_all_append, read_all_keeps keepsDelta readBase, readDelta]

/-- Every snapshot keeps its files, whatever is committed, merged and rolled back after it. -/
theorem snapshots_keep_live_files (timeline : Timeline store versions) :
    ∀ version ∈ versions, Shows store.files version := by
  induction timeline with
  | start store =>
    have valid : ValidHistory [] := fun _ => nil_sublist _
    refine forall_mem_singleton.mpr ⟨[], rfl, valid, ?_⟩
    ext file
    rw [mem_live_set valid]
    simp [kindsOf, entriesOf]
  | others _ keeps ih => exact fun version mem => (ih version mem).kept keeps
  | commit _ deletesWork fresh merges writes valid ih =>
    obtain ⟨history, present, historyValid, isLive⟩ := ih _ mem_cons_self
    obtain ⟨⟨content, readBase, agree⟩, keeps, _⟩ :=
      (merge_meets deletesWork fresh present historyValid _ _ _ _ rfl).1 _ _ merges
    have wholeValid := valid content readBase
    have shown := shown_after ih keeps readBase writes wholeValid
    rwa [live_set_append wholeValid, live_set_of_agree agree historyValid, isLive] at shown
  | rollback _ known present found rolls writesBase writes ih =>
    obtain ⟨_, isHistory, valid, _⟩ := ih _ mem_cons_self
    obtain ⟨_, isOld, oldValid, isLive⟩ := ih _ known
    cases present.symm.trans isHistory
    cases found.symm.trans isOld
    have rolled := rolls_back valid oldValid rolls
    have shown := shown_after ih writesBase.stored.2 writesBase.stored.1 writes rolled.valid
    rwa [rolled.restored, isLive] at shown

theorem Writes.files_eq (writes : Writes store changes [manifest] store') :
    store'.files = Function.update store.files manifest.fileName (some changes) := by
  obtain ⟨fs, manifestFile, deletesWork, fresh, run⟩ := writes
  have written := (manifest_write_meets deletesWork fresh _ _ ⟨rfl, rfl⟩).1 _ _ run
  funext name
  by_cases isNew : name = manifest.fileName
  · have content := written.readBack
    subst isNew
    rw [Function.update_self]
    cases stored : store'.files manifest.fileName <;> simp_all [readAll]
  · rw [written.untouched name (by simpa using isNew), Function.update_of_ne isNew]

section
variable (uuid : Nat) (store : ManifestStore)

def written (entries : List ManifestEntry) :
    Except String (List ManifestFileMeta) × ManifestStore :=
  runFrom (ManifestFile.write reliableFileSystem ⟨uuid, 100, "avro"⟩ entries) store

/-- Two small manifests are merged. -/
def compacted (latest : List ManifestFileMeta) :
    Except String (List ManifestFileMeta) × ManifestStore :=
  runFrom (merge reliableFileSystem ⟨uuid, 100, "avro"⟩ latest 100 2 1000) store

end

theorem written_writes (uuid : Nat) (fresh : FreshPaths uuid store)
    (ok : (written uuid store changes).1 = .ok metas) :
    Writes store changes metas (written uuid store changes).2 :=
  ⟨_, _, fun _ => rfl, fresh, Prod.ext ok rfl⟩

theorem Timeline.committed {settledStore : ManifestStore} (uuid : Nat)
    (timeline : Timeline store ((latest, live) :: older))
    (fresh : FreshPaths uuid store) (ok : (compacted uuid store latest).1 = .ok base)
    (writes : Writes (compacted uuid store latest).2 changes delta store')
    (found : readAll (compacted uuid store latest).2.files base = some merged)
    (valid : ValidHistory (merged ++ changes)) (settled : store'.files = settledStore.files) :
    Timeline settledStore
      ((base ++ delta, (live ∪ changed .add changes) \ changed .delete changes) ::
      (latest, live) :: older) := by
  refine .others (.commit timeline (fun _ => rfl) fresh (Prod.ext ok rfl) writes ?_) ?_
  · intro content isRead
    cases found.symm.trans isRead
    exact valid
  · intro name _
    rw [settled]

def emptyStore : ManifestStore := ⟨0, 0, fun _ => none⟩

def firstStore : ManifestStore := emptyStore.put ⟨1, 0⟩ (some [sampleEntry .add "a"])

def secondStore : ManifestStore :=
  firstStore.put ⟨2, 0⟩ (some [sampleEntry .delete "a", sampleEntry .add "b"])

def rolledStore : ManifestStore :=
  (secondStore.put ⟨3, 0⟩ (some [sampleEntry .add "b"])).put ⟨4, 1⟩
    (some [sampleEntry .delete "b", sampleEntry .add "a"])

/-- A file is added, replaced and brought back; the next commit merges the two manifests of the
rollback. -/
theorem rolled_back_shown : ∃ store first second third last,
    Timeline store [last, third, second, first, ([], ∅)] ∧ third.2 = first.2 ∧
      ∀ version ∈ [last, third, second, first, ([], ∅)], Shows store.files version := by
  have firstWrites : Writes emptyStore [sampleEntry .add "a"] [⟨⟨1, 0⟩, 1, 1, 0⟩] _ :=
    written_writes 1 (fun _ _ => rfl) (by decide +kernel)
  have first : Timeline firstStore [([⟨⟨1, 0⟩, 1, 1, 0⟩], _), ([], ∅)] :=
    .committed 1 (.start emptyStore) (fun _ _ => rfl) rfl firstWrites rfl (by decide)
      firstWrites.files_eq
  have secondWrites : Writes firstStore [sampleEntry .delete "a", sampleEntry .add "b"]
      [⟨⟨2, 0⟩, 2, 1, 1⟩] _ := written_writes 2 (fun _ _ => rfl) (by decide +kernel)
  have second : Timeline secondStore (([⟨⟨1, 0⟩, 1, 1, 0⟩, ⟨⟨2, 0⟩, 2, 1, 1⟩], _) :: _) :=
    .committed 2 first (fun _ _ => rfl) rfl secondWrites rfl (by decide) secondWrites.files_eq
  have baseWrites : Writes secondStore [sampleEntry .add "b"] [⟨⟨3, 0⟩, 1, 1, 0⟩] _ :=
    written_writes 3 (fun _ _ => rfl) (by decide +kernel)
  have backWrites : Writes (written 3 secondStore [sampleEntry .add "b"]).2
      [sampleEntry .delete "b", sampleEntry .add "a"] [⟨⟨4, 1⟩, 2, 1, 1⟩] _ :=
    written_writes 4 (fun _ _ => rfl) (by decide +kernel)
  have rolls : rollbackToAsLatest false
      [sampleEntry .add "a", sampleEntry .delete "a", sampleEntry .add "b"] [sampleEntry .add "a"] =
        .ok ([sampleEntry .add "b"], [sampleEntry .delete "b", sampleEntry .add "a"]) := by
    decide +kernel
  have stored : (written 4 (written 3 secondStore [sampleEntry .add "b"]).2
      [sampleEntry .delete "b", sampleEntry .add "a"]).2.files = rolledStore.files := by
    rw [backWrites.files_eq, baseWrites.files_eq]
    rfl
  have third := Timeline.others (.rollback second (mem_cons_of_mem _ mem_cons_self) rfl rfl rolls
    baseWrites backWrites) (fun name _ => congrFun stored.symm name)
  have fresh : FreshPaths 5 rolledStore := fun _ _ => rfl
  have ok : (compacted 5 rolledStore [⟨⟨3, 0⟩, 1, 1, 0⟩, ⟨⟨4, 1⟩, 2, 1, 1⟩]).1 =
      .ok [⟨⟨5, 0⟩, 1, 1, 0⟩] := by decide +kernel
  have others := ((merge_meets (fun _ => rfl) fresh rfl (by decide) _ _ _ _ rfl).1 _ _
    (Prod.ext ok rfl)).2.2
  have lastWrites : Writes (compacted 5 rolledStore [⟨⟨3, 0⟩, 1, 1, 0⟩, ⟨⟨4, 1⟩, 2, 1, 1⟩]).2
      [sampleEntry .add "c"] [⟨⟨6, 1⟩, 1, 1, 0⟩] _ :=
    written_writes 6 (fun _ _ => others _ (show 6 ≠ 5 by decide)) (by decide +kernel)
  have last := third.committed 5 fresh ok lastWrites
    (by decide +kernel : _ = some [sampleEntry .add "a"]) (by decide) rfl
  exact ⟨_, _, _, _, _, last, rfl, snapshots_keep_live_files last⟩

end PaimonCore.Rollback
