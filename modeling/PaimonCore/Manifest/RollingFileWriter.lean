import PaimonCore.Manifest.ManifestFile

/-!
# The rolling writer keeps its promises

The invariant of a write in progress: outside the writer's own files the
directory is as it was at the start, and the closed files followed by the open
one hold the records written so far, in order. A failure at any call leaves a
directory that `Abort` turns back into the one at the start.
-/

namespace PaimonCore.Manifest

open Programs List Option Function RollingFileWriter

abbrev Directory := PathName → Option (List ManifestEntry)

/-- The entries of some manifests, in order; `none` when a file is missing. -/
def readAll (files : Directory) : List ManifestFileMeta → Option (List ManifestEntry)
  | [] => some []
  | file :: rest =>
    match files file.fileName, readAll files rest with
    | some entries, some others => some (entries ++ others)
    | _, _ => none

theorem read_all_append (files : Directory) (left right : List ManifestFileMeta) :
    readAll files (left ++ right) = match readAll files left, readAll files right with
      | some entries, some others => some (entries ++ others)
      | _, _ => none := by
  induction left with
  | nil => cases found : readAll files right <;> simp [readAll, found]
  | cons file rest ih =>
    simp only [cons_append, readAll, ih]
    cases files file.fileName <;> cases readAll files rest <;> cases readAll files right <;>
      simp

theorem read_all_congr {files files' : Directory} {metas : List ManifestFileMeta}
    (same : ∀ file ∈ metas, files' file.fileName = files file.fileName) :
    readAll files' metas = readAll files metas := by
  induction metas with
  | nil => rfl
  | cons file rest ih =>
    have restSame := ih (fun other mem => same other (by simp [mem]))
    simp only [readAll, same file (by simp), restSame]

def RollingFileWriter.names (writer : RollingFileWriter) : List PathName :=
  (writer.currentWriter.map ManifestEntryWriter.path).toList ++ writer.closedWriters

section
variable (uuid : Nat) (start : ManifestStore)

/-- The path factory has not handed out the names it will hand out next. -/
def FreshPaths (store : ManifestStore) : Prop :=
  ∀ count, store.manifestFileCount ≤ count → store.files ⟨uuid, count⟩ = none

structure Contained (files : Directory) (count : Nat) (names : List PathName) : Prop where
  untouched : ∀ name, name ∉ names → files name = start.files name
  owned : ∀ name ∈ names, name.uuid = uuid ∧ start.manifestFileCount ≤ name.count ∧
    name.count < count
  counted : start.manifestFileCount ≤ count

structure Writing (written : List ManifestEntry) (files : Directory) (count : Nat)
    (writer : RollingFileWriter) : Prop where
  contained : Contained uuid start files count writer.names
  distinct : writer.names.Nodup
  recorded : writer.closedWriters = writer.results.map ManifestFileMeta.fileName
  current : ∀ current, writer.currentWriter = some current →
    files current.path = some current.entries
  stored : ∃ closed, readAll files writer.results = some closed ∧
    closed ++ (writer.currentWriter.map ManifestEntryWriter.entries).getD [] = written

end

variable {uuid : Nat} {start : ManifestStore} {files : Directory} {count : Nat}

section
variable {names : List PathName} (contained : Contained uuid start files count names)
include contained

theorem Contained.update {name : PathName} (mem : name ∈ names)
    (content : Option (List ManifestEntry)) :
    Contained uuid start (Function.update files name content) count names where
  untouched := by
    intro other outside
    have ne : other ≠ name := fun same => outside (same ▸ mem)
    rw [update_of_ne ne]
    exact contained.untouched other outside
  owned := contained.owned
  counted := contained.counted

theorem Contained.of_mem_iff {names' : List PathName}
    (same : ∀ name, name ∈ names' ↔ name ∈ names) : Contained uuid start files count names' where
  untouched := fun name outside => contained.untouched name (by rwa [← same])
  owned := fun name mem => contained.owned name ((same name).mp mem)
  counted := contained.counted

theorem Contained.restored (fresh : FreshPaths uuid start) (name : PathName) :
    (if name ∈ names then none else files name) = start.files name := by
  by_cases mem : name ∈ names
  · obtain ⟨sameUuid, later, _⟩ := contained.owned name mem
    have absent := fresh name.count later
    rw [← sameUuid] at absent
    rw [if_pos mem]
    exact absent.symm
  · rw [if_neg mem]
    exact contained.untouched name mem

theorem Contained.next_absent (fresh : FreshPaths uuid start) :
    ⟨uuid, count⟩ ∉ names ∧ files ⟨uuid, count⟩ = none := by
  have outside : (⟨uuid, count⟩ : PathName) ∉ names := by
    intro mem
    have below := (contained.owned _ mem).2.2
    exact Nat.lt_irrefl _ below
  exact ⟨outside, (contained.untouched _ outside).trans (fresh count contained.counted)⟩

theorem Contained.later : Contained uuid start files (count + 1) names where
  untouched := contained.untouched
  owned := by
    intro name mem
    obtain ⟨sameUuid, later, below⟩ := contained.owned name mem
    exact ⟨sameUuid, later, by omega⟩
  counted := by
    have counted := contained.counted
    omega

end

variable {fs : FileSystem} {manifestFile : ManifestFile}

section
variable {written : List ManifestEntry} {writer : RollingFileWriter}

section
variable (writing : Writing uuid start written files count writer)
include writing

theorem Writing.reframe {writer' : RollingFileWriter}
    (sameCurrent : writer'.currentWriter = writer.currentWriter)
    (sameClosed : writer'.closedWriters = writer.closedWriters)
    (sameResults : writer'.results = writer.results) :
    Writing uuid start written files count writer' := by
  have sameNames : writer'.names = writer.names := by
    simp only [names, sameCurrent, sameClosed]
  constructor
  · rw [sameNames]
    exact writing.contained
  · rw [sameNames]
    exact writing.distinct
  · rw [sameClosed, sameResults]
    exact writing.recorded
  · rw [sameCurrent]
    exact writing.current
  · rw [sameCurrent, sameResults]
    exact writing.stored

theorem Writing.result_mem_names {file : ManifestFileMeta} (mem : file ∈ writer.results) :
    file.fileName ∈ writer.closedWriters := by
  rw [writing.recorded]
  exact mem_map_of_mem mem

theorem Writing.opened (fresh : FreshPaths uuid start) (noCurrent : writer.currentWriter = none) :
    Writing uuid start written (Function.update files ⟨uuid, count⟩ (some [])) (count + 1)
      { writer with currentWriter := some ⟨⟨uuid, count⟩, []⟩ } := by
  obtain ⟨outside, _⟩ := writing.contained.next_absent fresh
  have closedNames : writer.names = writer.closedWriters := by
    simp [names, noCurrent]
  rw [closedNames] at outside
  have contained := writing.contained.later
  rw [closedNames] at contained
  constructor
  · constructor
    · intro name notNamed
      simp only [names, map_some, toList_some, singleton_append, mem_cons, not_or] at notNamed
      rw [update_of_ne notNamed.1]
      exact contained.untouched name notNamed.2
    · intro name mem
      simp only [names, map_some, toList_some, singleton_append, mem_cons] at mem
      rcases mem with rfl | mem
      · exact ⟨rfl, writing.contained.counted, Nat.lt_succ_self count⟩
      · exact contained.owned name mem
    · exact contained.counted
  · have nodup := writing.distinct
    rw [closedNames] at nodup
    simpa [names] using ⟨outside, nodup⟩
  · exact writing.recorded
  · intro current isCurrent
    simp only [Option.some.injEq] at isCurrent
    subst isCurrent
    simp
  · obtain ⟨closed, readBack, whole⟩ := writing.stored
    refine ⟨closed, ?_, by simpa [noCurrent] using whole⟩
    rw [← readBack]
    refine read_all_congr (fun file mem => ?_)
    have ne : file.fileName ≠ ⟨uuid, count⟩ :=
      fun same => outside (same ▸ writing.result_mem_names mem)
    exact update_of_ne ne _ _

end

section
variable {current : ManifestEntryWriter} (isCurrent : writer.currentWriter = some current)
include isCurrent

theorem Writing.current_not_closed (writing : Writing uuid start written files count writer)
    : current.path ∉ writer.closedWriters := by
  have nodup := writing.distinct
  simp only [names, isCurrent, map_some, toList_some, singleton_append, nodup_cons] at nodup
  exact nodup.1

theorem RollingFileWriter.current_mem_names : current.path ∈ writer.names := by
  simp [names, isCurrent]

theorem Writing.appended (writing : Writing uuid start written files count writer)
    (entry : ManifestEntry) :
    Writing uuid start (written ++ [entry])
      (Function.update files current.path (some (current.entries ++ [entry]))) count
      { writer with currentWriter := some ⟨current.path, current.entries ++ [entry]⟩ } := by
  have notClosed := writing.current_not_closed isCurrent
  have sameNames : names
      { writer with currentWriter := some ⟨current.path, current.entries ++ [entry]⟩ } =
        writer.names := by
    simp [names, isCurrent]
  constructor
  · rw [sameNames]
    exact writing.contained.update (current_mem_names isCurrent) _
  · rw [sameNames]
    exact writing.distinct
  · exact writing.recorded
  · intro other isOther
    simp only [Option.some.injEq] at isOther
    subst isOther
    simp
  · obtain ⟨closed, readBack, whole⟩ := writing.stored
    refine ⟨closed, ?_, by simp [← whole, isCurrent]⟩
    rw [← readBack]
    refine read_all_congr (fun file mem => ?_)
    have ne : file.fileName ≠ current.path :=
      fun same => notClosed (same ▸ writing.result_mem_names mem)
    exact update_of_ne ne _ _

theorem Writing.closed (writing : Writing uuid start written files count writer)
    {file : ManifestFileMeta}
    (named : file.fileName = current.path) :
    Writing uuid start written files count
      { writer with
        closedWriters := writer.closedWriters ++ [current.path]
        results := writer.results ++ [file]
        currentWriter := none
        currentFileRecordCount := 0 } := by
  have notClosed := writing.current_not_closed isCurrent
  have names : writer.names = current.path :: writer.closedWriters := by
    simp [names, isCurrent]
  constructor
  · refine writing.contained.of_mem_iff (fun name => ?_)
    rw [names]
    simp [RollingFileWriter.names, or_comm]
  · have nodup := writing.distinct
    rw [names, nodup_cons] at nodup
    simp only [RollingFileWriter.names, map_none, toList_none, nil_append]
    exact nodup_append.mpr ⟨nodup.2, by simp, by
      rintro name mem _ single rfl
      rw [mem_singleton] at single
      exact notClosed (single ▸ mem)⟩
  · simp [writing.recorded, named]
  · intro other isOther
    cases isOther
  · obtain ⟨closed, readBack, whole⟩ := writing.stored
    refine ⟨closed ++ current.entries, ?_, by simpa [isCurrent] using whole⟩
    rw [read_all_append, readBack]
    simp [readAll, named, writing.current current isCurrent]

end

structure Holds (files : Directory) (count : Nat) (writer : RollingFileWriter)
    (state : WriteState) : Prop where
  store : At files count state.store
  writer : state.writer = writer

/-- What a failure inside the writer leaves for `Abort`. -/
def Failing (fs : FileSystem) (uuid : Nat) (start : ManifestStore) (state : WriteState) : Prop :=
  Contained uuid start state.store.files state.store.manifestFileCount state.writer.names ∧
    Faulty fs

theorem Failing.of_holds {state : WriteState} (holds : Holds files count writer state)
    (contained : Contained uuid start files count writer.names) (faulty : Faulty fs) :
    Failing fs uuid start state := by
  refine ⟨?_, faulty⟩
  rw [holds.store.files, holds.store.count, holds.writer]
  exact contained

variable {failed : WriteState → Prop}

theorem get_writer_meets : Meets (Holds files count writer) getWriter
      (fun result state => result = writer ∧ Holds files count writer state) failed :=
  Meets.total _ (fun _ holds => ⟨holds.writer, holds⟩)

theorem set_writer_meets {writer' : RollingFileWriter} :
    Meets (Holds files count writer) (setWriter writer') (fun _ =>
      Holds files count writer') failed :=
  Meets.total _ (fun _ holds => ⟨holds.store, rfl⟩)

theorem on_store_meets {Result : Type} {program : Program ManifestStore String Result}
    {after : Result → ManifestStore → Prop} {failed : ManifestStore → Prop}
    (meets : Meets (At files count) program after failed) :
    Meets (Holds files count writer) (onStore program)
      (fun result state => after result state.store ∧ state.writer = writer)
      (fun state => failed state.store ∧ state.writer = writer) :=
  Meets.weaken (Meets.zoom (fun state : WriteState => state.writer = writer) (fun _ _ => rfl)
      (fun _ _ same => same) meets)
    (fun _ holds => ⟨holds.store, holds.writer⟩) (fun _ _ done => done) (fun _ failing => failing)

theorem on_store_call_meets (contained : Contained uuid start files count writer.names) :
    Meets (Holds files count writer) (onStore (call fs)) (fun _ => Holds files count writer)
      (Failing fs uuid start) := by
  apply (on_store_meets call_meets).weaken (fun _ holds => holds) (fun _ state done =>
    ⟨done.1, done.2⟩)
  intro state failing
  rcases failing with ⟨⟨unchanged, faulty⟩, sameWriter⟩
  exact Failing.of_holds ⟨unchanged, sameWriter⟩ contained faulty

theorem open_current_writer_meets (deletesWork : ∀ number, fs.deletes number = true)
    (fresh : FreshPaths manifestFile.uuid start)
    (contained : Contained manifestFile.uuid start files count writer.names) :
    Meets (Holds files count writer) (openCurrentWriter fs manifestFile)
      (fun _ => Holds (Function.update files ⟨manifestFile.uuid, count⟩ (some [])) (count + 1)
        { writer with currentWriter := some ⟨⟨manifestFile.uuid, count⟩, []⟩ })
      (Failing fs manifestFile.uuid start) := by
  have absent := (contained.next_absent fresh).2
  apply Meets.bindValue ⟨manifestFile.uuid, count⟩ (Holds files (count + 1) writer)
  · apply (on_store_meets new_path_meets).weaken (fun _ holds => holds)
      (fun _ _ done => ⟨done.1.1, done.1.2, done.2⟩)
    intro state failing
    exact failing.1.elim
  · apply Meets.bindValue ⟨⟨manifestFile.uuid, count⟩, []⟩
      (Holds (Function.update files ⟨manifestFile.uuid, count⟩ (some [])) (count + 1) writer)
    · apply (on_store_meets (init_writer_meets deletesWork absent)).weaken (fun _ holds => holds)
        (fun _ _ done => ⟨done.1.1, done.1.2, done.2⟩)
      intro state failing
      rcases failing with ⟨⟨unchanged, faulty⟩, sameWriter⟩
      exact Failing.of_holds ⟨unchanged, sameWriter⟩ contained.later faulty
    · apply Meets.bindValue writer _ get_writer_meets
      exact set_writer_meets

def InProgress (uuid : Nat) (start : ManifestStore) (written : List ManifestEntry)
    (state : WriteState) : Prop :=
  Writing uuid start written state.store.files state.store.manifestFileCount state.writer

theorem InProgress.of_holds {state : WriteState} (holds : Holds files count writer state)
    (writing : Writing uuid start written files count writer) :
    InProgress uuid start written state := by
  unfold InProgress
  rw [holds.store.files, holds.store.count, holds.writer]
  exact writing

theorem in_progress_meets {Result : Type} {program : Program WriteState String Result}
    {after : Result → WriteState → Prop}
    (meets : ∀ files count writer, Writing uuid start written files count writer →
      Meets (Holds files count writer) program after failed) :
    Meets (InProgress uuid start written) program after failed :=
  fun state writing => meets _ _ _ writing state ⟨⟨rfl, rfl⟩, rfl⟩

theorem need_rolling_file_meets {current : ManifestEntryWriter}
    (writing : Writing uuid start written files count writer) :
    Meets (Holds files count writer) (needRollingFile fs manifestFile current)
      (fun _ state => InProgress uuid start written state ∧
        state.writer.currentWriter = writer.currentWriter) (Failing fs uuid start) := by
  have stays : ∀ writer', writer'.currentWriter = writer.currentWriter →
      Writing uuid start written files count writer' → ∀ state, Holds files count writer' state →
      InProgress uuid start written state ∧ state.writer.currentWriter = writer.currentWriter := by
    intro writer' sameCurrent writing' state holds
    exact ⟨InProgress.of_holds holds writing', by rw [holds.writer, sameCurrent]⟩
  apply Meets.bindValue writer _ get_writer_meets
  by_cases full : targetFileRowNum ≤ writer.currentFileRecordCount
  · simp only [full, if_true]
    exact Meets.pure _ (stays writer rfl writing)
  · simp only [full, if_false]
    have kept : (suggestCheck writer).2.currentWriter = writer.currentWriter ∧
        Writing uuid start written files count (suggestCheck writer).2 := by
      unfold suggestCheck
      split_ifs
      · exact ⟨rfl, writing.reframe rfl rfl rfl⟩
      · exact ⟨rfl, writing⟩
    apply Meets.bind _ set_writer_meets
    intro _
    apply Meets.bind _ (on_store_call_meets kept.2.contained)
    intro _
    exact Meets.pure _ (stays _ kept.1 kept.2)

section
variable (deletesWork : ∀ number, fs.deletes number = true)
include deletesWork

theorem close_current_writer_meets (writing : Writing uuid start written files count writer) :
    Meets (Holds files count writer) (closeCurrentWriter fs)
      (fun _ state => InProgress uuid start written state ∧ state.writer.currentWriter = none)
      (Failing fs uuid start) := by
  apply Meets.bindValue writer _ get_writer_meets
  cases isCurrent : writer.currentWriter with
  | none =>
    apply Meets.pure
    intro state holds
    exact ⟨InProgress.of_holds holds writing, by rw [holds.writer, isCurrent]⟩
  | some current =>
    have named := current_mem_names isCurrent
    have closing :
        Meets (Holds files count writer)
        (onStore (guarded (call fs) (deleteQuietly fs current.path)))
        (fun _ => Holds files count writer) (Failing fs uuid start) := by
      have guardedCall : Meets (At files count)
          (guarded (call fs) (deleteQuietly fs current.path)) (fun _ => At files count)
          (fun store => At (Function.update files current.path none) count store ∧ Faulty fs) := by
        apply Meets.guarded _ call_meets
        intro store failing
        exact ⟨delete_quietly_at deletesWork current.path store failing.1, failing.2⟩
      apply (on_store_meets guardedCall).weaken (fun _ holds => holds) (fun _ _ done =>
        ⟨done.1, done.2⟩)
      intro state failing
      rcases failing with ⟨⟨deleted, faulty⟩, sameWriter⟩
      exact Failing.of_holds ⟨deleted, sameWriter⟩ (writing.contained.update named none) faulty
    -- the abort executor is registered, the result not yet: the file is named twice
    have namedTwice : Contained uuid start files count (names
        { writer with
          currentWriter := some current
          closedWriters := writer.closedWriters ++ [current.path] }) := by
      apply writing.contained.of_mem_iff
      intro name
      simp only [names, isCurrent, map_some, toList_some, mem_append, mem_singleton]
      grind
    apply Meets.bind _ closing
    intro _
    apply Meets.bind _ set_writer_meets
    intro _
    apply Meets.bind _ (on_store_call_meets namedTwice)
    intro _
    apply set_writer_meets.weaken (fun _ holds => holds) _ (fun _ failing => failing)
    intro _ state holds
    exact ⟨InProgress.of_holds holds (writing.closed isCurrent rfl), by rw [holds.writer]⟩

theorem write_current_meets {current : ManifestEntryWriter} (entry : ManifestEntry)
    (writing : Writing uuid start written files count writer)
    (isCurrent : writer.currentWriter = some current) :
    Meets (Holds files count writer) (writeCurrent fs manifestFile entry)
      (fun _ => InProgress uuid start (written ++ [entry])) (Failing fs uuid start) := by
  have named := current_mem_names isCurrent
  have appended := writing.appended isCurrent entry
  apply Meets.bindValue writer _ get_writer_meets
  rw [isCurrent]
  apply Meets.bindValue ⟨current.path, current.entries ++ [entry]⟩
    (Holds (Function.update files current.path (some (current.entries ++ [entry]))) count writer)
  · apply (on_store_meets (append_record_meets deletesWork current entry)).weaken
      (fun _ holds => holds) (fun _ _ done => ⟨done.1.1, done.1.2, done.2⟩)
    intro state failing
    rcases failing with ⟨⟨deleted, faulty⟩, sameWriter⟩
    exact Failing.of_holds ⟨deleted, sameWriter⟩ (writing.contained.update named none) faulty
  · apply Meets.bind _ set_writer_meets
    intro _
    apply Meets.bind _ (on_store_call_meets appended.contained)
    intro _
    apply Meets.bind _ set_writer_meets
    intro _
    apply Meets.bind (fun _ => InProgress uuid start (written ++ [entry]))
    · apply Meets.weaken (need_rolling_file_meets _) (fun _ holds => holds)
        (fun _ _ done => done.1) (fun _ failing => failing)
      exact appended.reframe rfl rfl rfl
    · intro rolling
      cases rolling with
      | false => exact Meets.pure _ (fun _ done => done)
      | true =>
        apply in_progress_meets
        intro files' count' writer' writing'
        exact (close_current_writer_meets deletesWork writing').weaken (fun _ holds => holds)
          (fun _ _ done => done.1) (fun _ failing => failing)

theorem foldl_delete_quietly_at (names : List PathName) (store : ManifestStore)
    (start : At files count store) :
    At (fun name => if name ∈ names then none else files name) count
      (names.foldl (fun store name => deleteQuietly fs name store) store) := by
  induction names generalizing store files with
  | nil => simpa using start
  | cons name rest ih =>
    have tail := ih _ (delete_quietly_at deletesWork name store start)
    have same :
        (fun other => if other ∈ rest then none else Function.update files name none other) =
        fun other => if other ∈ name :: rest then none else files other := by
      funext other
      by_cases isName : other = name
      · simp [isName]
      · simp [isName, update_of_ne]
    rw [same] at tail
    exact tail

theorem abort_restores
    (fresh : FreshPaths uuid start) (state : WriteState) (failing : Failing fs uuid start state) :
    Failing fs uuid start (RollingFileWriter.abort fs state) ∧
      (RollingFileWriter.abort fs state).store.files = start.files := by
  obtain ⟨contained, faulty⟩ := failing
  have deleted := foldl_delete_quietly_at deletesWork state.writer.names state.store ⟨rfl, rfl⟩
  have restored : (abort fs state).store.files = start.files := by
    rw [show (abort fs state).store.files = _ from deleted.files]
    funext name
    exact contained.restored fresh name
  refine ⟨⟨⟨fun name _ => by rw [restored], ?_, ?_⟩, faulty⟩, restored⟩
  · rw [show (abort fs state).store.manifestFileCount = _ from deleted.count]
    exact contained.owned
  · rw [show (abort fs state).store.manifestFileCount = _ from deleted.count]
    exact contained.counted

theorem rolling_write_meets (fresh : FreshPaths manifestFile.uuid start) (entry : ManifestEntry) :
    Meets (InProgress manifestFile.uuid start written)
      (RollingFileWriter.write fs manifestFile entry)
      (fun _ => InProgress manifestFile.uuid start (written ++ [entry]))
      (Failing fs manifestFile.uuid start) := by
  apply Meets.guarded (Failing fs manifestFile.uuid start)
  · apply in_progress_meets
    intro files count writer writing
    apply Meets.bindValue writer _ get_writer_meets
    unfold openIfNeeded
    cases isCurrent : writer.currentWriter with
    | none =>
      apply Meets.bind _ (open_current_writer_meets deletesWork fresh writing.contained)
      intro _
      exact write_current_meets deletesWork entry (writing.opened fresh isCurrent) rfl
    | some current =>
      apply Meets.bind (fun _ => Holds files count writer)
      · exact Meets.pure () (fun _ holds => holds)
      · intro _
        exact write_current_meets deletesWork entry writing isCurrent
  · intro state failing
    exact (abort_restores deletesWork fresh state failing).1

end

end

/-- The new files hold the entries in order, and nothing that was there before has changed. -/
structure Written (uuid : Nat) (start : ManifestStore) (entries : List ManifestEntry)
    (metas : List ManifestFileMeta) (store : ManifestStore) : Prop where
  readBack : readAll store.files metas = some entries
  owned : ∀ file ∈ metas, file.fileName.uuid = uuid ∧
    start.manifestFileCount ≤ file.fileName.count ∧
      file.fileName.count < store.manifestFileCount
  untouched : ∀ name, name ∉ metas.map ManifestFileMeta.fileName →
    store.files name = start.files name
  counted : start.manifestFileCount ≤ store.manifestFileCount

theorem Writing.written {uuid : Nat} {start : ManifestStore} {entries : List ManifestEntry}
    {state : WriteState} (progress : InProgress uuid start entries state)
    (noCurrent : state.writer.currentWriter = none) :
    Written uuid start entries state.writer.results state.store := by
  have names : state.writer.names = state.writer.results.map ManifestFileMeta.fileName := by
    rw [← progress.recorded]
    simp [names, noCurrent]
  have contained := progress.contained
  rw [names] at contained
  constructor
  · obtain ⟨closed, readBack, whole⟩ := progress.stored
    rw [readBack, ← whole]
    simp [noCurrent]
  · exact fun file mem => contained.owned _ (mem_map_of_mem mem)
  · exact contained.untouched
  · exact contained.counted

theorem write_all_meets (deletesWork : ∀ number, fs.deletes number = true)
    (fresh : FreshPaths manifestFile.uuid start) (entries : List ManifestEntry) :
    Meets (InProgress manifestFile.uuid start []) (writeAll fs manifestFile entries)
      (fun metas state => Written manifestFile.uuid start entries metas state.store)
      (fun state => state.store.files = start.files ∧
        start.manifestFileCount ≤ state.store.manifestFileCount ∧ Faulty fs) := by
  have cleaned : ∀ state, Failing fs manifestFile.uuid start state →
      (abort fs state).store.files = start.files ∧ start.manifestFileCount ≤
        (abort fs state).store.manifestFileCount ∧ Faulty fs := by
    intro state failing
    have restored := abort_restores deletesWork fresh state failing
    exact ⟨restored.2, restored.1.1.counted, restored.1.2⟩
  apply Meets.bind (fun _ => InProgress manifestFile.uuid start entries)
  · apply Meets.forEach (fun handled _ => InProgress manifestFile.uuid start handled)
    intro handled entry later _ _
    exact Meets.guarded _ (rolling_write_meets deletesWork fresh entry) cleaned
  · intro _
    apply Meets.bind (fun _ state => InProgress manifestFile.uuid start entries state ∧
      state.writer.currentWriter = none)
    · exact Meets.guarded _ (in_progress_meets (fun _ _ _ writing =>
        close_current_writer_meets deletesWork writing)) cleaned
    · intro _
      apply Meets.bind (fun writer state => writer = state.writer ∧
        Written manifestFile.uuid start entries state.writer.results state.store)
      · exact Meets.total _ (fun state done => ⟨rfl, Writing.written done.1 done.2⟩)
      · intro writer
        apply Meets.pure
        intro state done
        rw [done.1]
        exact done.2

theorem in_progress_start (store : ManifestStore) (uuid : Nat) :
    InProgress uuid store [] { store, writer := {} } := by
  refine ⟨⟨fun _ _ => rfl, ?_, Nat.le_refl _⟩, ?_, rfl, ?_, [], rfl, rfl⟩
  · simp [names]
  · simp [names]
  · intro current isCurrent
    cases isCurrent

theorem Written.of_at {uuid : Nat} {start' store : ManifestStore} {entries : List ManifestEntry}
    {metas : List ManifestFileMeta} (written : Written uuid start' entries metas store)
    (same : At start.files start.manifestFileCount start') :
    Written uuid start entries metas store := by
  constructor
  · exact written.readBack
  · rw [← same.count]
    exact written.owned
  · rw [← same.files]
    exact written.untouched
  · rw [← same.count]
    exact written.counted

theorem with_writer_meets {Result : Type} {uuid : Nat}
    {program : Program WriteState String Result} {after : Result → ManifestStore → Prop}
    {failed : ManifestStore → Prop} (meets : Meets (InProgress uuid start []) program
      (fun result state => after result state.store) (fun state => failed state.store)) :
    Meets (fun store => store = start) (withWriter program) after failed := by
  rintro store rfl
  obtain ⟨returns, fails⟩ := meets _ (in_progress_start store uuid)
  rcases outcome : runFrom program { store, writer := {} } with ⟨result, state⟩
  have run : runFrom (withWriter program) store = (result, state.store) := by
    show withWriter program store = _
    simp only [withWriter, outcome]
  rw [run]
  refine ⟨fun value store' returned => ?_, fun error store' failed => ?_⟩
  · obtain ⟨rfl, rfl⟩ := returned
    exact returns value state outcome
  · obtain ⟨rfl, rfl⟩ := failed
    exact fails error state outcome

/-- `ManifestFile::Write`: everything or nothing. -/
theorem manifest_write_meets (deletesWork : ∀ number, fs.deletes number = true)
    (fresh : FreshPaths manifestFile.uuid start) (entries : List ManifestEntry) :
    Meets (At start.files start.manifestFileCount) (ManifestFile.write fs manifestFile entries)
      (Written manifestFile.uuid start entries) (fun store => store.files = start.files ∧
        start.manifestFileCount ≤ store.manifestFileCount ∧
        (Faulty fs ∨ manifestFile.fileFormatIdentifier ≠ "avro")) := by
  refine Meets.pointwise (fun store same => ?_)
  have freshNow : FreshPaths manifestFile.uuid store := by
    intro count later
    rw [same.files]
    exact fresh count (by rwa [← same.count])
  unfold ManifestFile.write
  split_ifs with empty readOnly
  · refine Meets.pure _ ?_
    rintro _ rfl
    exact Written.of_at ⟨by simp [readAll, empty], by simp, by simp, Nat.le_refl _⟩ same
  · refine Meets.throw _ ?_
    rintro _ rfl
    exact ⟨same.files, same.count.ge, Or.inr readOnly⟩
  · refine with_writer_meets ((write_all_meets deletesWork freshNow entries).weaken
      (fun _ progress => progress) (fun _ _ done => done.of_at same) ?_)
    rintro state ⟨restored, counted, faulty⟩
    exact ⟨restored.trans same.files, same.count ▸ counted, Or.inl faulty⟩

end PaimonCore.Manifest
