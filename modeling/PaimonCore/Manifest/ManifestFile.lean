import PaimonCore.Library.Programs
import PaimonCore.Manifest.FileEntry

/-!
# Writing and reading manifest files

`ManifestFile::Write` cuts the entries into files with a rolling writer. Every call that leaves
the process may fail; `FileSystem` says which do, how large a file comes out and when a new file
is asked for. A failed write deletes what it has created.
-/

namespace PaimonCore.Manifest

open Programs ChangeLog Function

structure PathName where
  uuid : Nat
  count : Nat
  deriving DecidableEq, Repr

structure ManifestFileMeta where
  fileName : PathName
  fileSize : Int
  numAddedFiles : Int
  numDeletedFiles : Int
  deriving DecidableEq, Repr

/-- The file system and the format, outside the repository; calls are numbered in order. -/
structure FileSystem where
  fails : Nat → Bool
  deletes : Nat → Bool
  fileSize : List ManifestEntry → Int
  reachTargetSize : Bool → Int → List ManifestEntry → Bool

structure ManifestFile where
  uuid : Nat
  targetFileSize : Int
  fileFormatIdentifier : String

structure ManifestStore where
  calls : Nat
  manifestFileCount : Nat
  files : PathName → Option (List ManifestEntry)

/-- `SingleFileWriter`: the file being written and the records it has so far. -/
structure ManifestEntryWriter where
  path : PathName
  entries : List ManifestEntry

structure RollingFileWriter where
  recordCount : Nat := 0
  currentFileRecordCount : Nat := 0
  lastNeedRollingRecordCount : Nat := 0
  closedWriters : List PathName := []
  results : List ManifestFileMeta := []
  currentWriter : Option ManifestEntryWriter := none

structure WriteState where
  store : ManifestStore
  writer : RollingFileWriter

def checkRollingRecordCount : Nat := 1000

def targetFileRowNum : Nat := 2 ^ 63 - 1

section
variable (fs : FileSystem)

def call : Program ManifestStore String Unit := fun store =>
  (if fs.fails store.calls then .error "IOError" else .ok (),
    { store with calls := store.calls + 1 })

def ManifestStore.put (store : ManifestStore) (name : PathName)
    (content : Option (List ManifestEntry)) : ManifestStore :=
  { store with files := Function.update store.files name content }

/-- `DeleteQuietly`, and the deletions of `Abort`: the status is dropped. -/
def deleteQuietly (name : PathName) (store : ManifestStore) : ManifestStore :=
  let deleted := if fs.deletes store.calls then store.put name none else store
  { deleted with calls := store.calls + 1 }

def onStore {Result : Type} (program : Program ManifestStore String Result) :
    Program WriteState String Result :=
  zoom WriteState.store (fun state store => { state with store }) program

def setWriter (writer : RollingFileWriter) : Program WriteState String Unit := fun state =>
  (.ok (), { state with writer })

def getWriter : Program WriteState String RollingFileWriter := fun state =>
  (.ok state.writer, state)

end

section
variable (fs : FileSystem) (manifestFile : ManifestFile)

def newPath : Program ManifestStore String PathName := fun store =>
  (.ok ⟨manifestFile.uuid, store.manifestFileCount⟩,
    { store with manifestFileCount := store.manifestFileCount + 1 })

def createFile (path : PathName) : Program ManifestStore String Unit := fun store =>
  match store.files path with
  | some _ => (.error "file already exists", store)
  | none => (.ok (), store.put path (some []))

/-- `SingleFileWriter::Init`: create the file, then build the format writer. -/
def initWriter (path : PathName) : Program ManifestStore String ManifestEntryWriter :=
  guarded (do
    call fs
    createFile path
    call fs
    pure { path, entries := [] }) (deleteQuietly fs path)

/-- `SingleFileWriter::Write`, with the conversion of the record in the same call. -/
def appendRecord (writer : ManifestEntryWriter) (entry : ManifestEntry) :
    Program ManifestStore String ManifestEntryWriter :=
  guarded (do
    call fs
    (fun store => (.ok { writer with entries := writer.entries ++ [entry] },
      store.put writer.path (some (writer.entries ++ [entry]))))) (deleteQuietly fs writer.path)

/-- `ManifestEntryWriter::GetResult`. -/
def writerResult (writer : ManifestEntryWriter) : ManifestFileMeta where
  fileName := writer.path
  fileSize := fs.fileSize writer.entries
  numAddedFiles := (writer.entries.filter (fun entry => entry.kind = .add)).length
  numDeletedFiles := (writer.entries.filter (fun entry => entry.kind = .delete)).length

def openCurrentWriter : Program WriteState String Unit := do
  let path ← onStore (newPath manifestFile)
  let opened ← onStore (initWriter fs path)
  let writer ← getWriter
  setWriter { writer with currentWriter := some opened }

def suggestCheck (writer : RollingFileWriter) : Bool × RollingFileWriter :=
  if checkRollingRecordCount ≤ writer.recordCount - writer.lastNeedRollingRecordCount then
    (true, { writer with lastNeedRollingRecordCount := writer.recordCount })
  else (false, writer)

def needRollingFile (current : ManifestEntryWriter) : Program WriteState String Bool := do
  let writer ← getWriter
  if targetFileRowNum ≤ writer.currentFileRecordCount then pure true
  else
    let (suggested, checked) := suggestCheck writer
    setWriter checked
    onStore (call fs)
    pure (fs.reachTargetSize suggested manifestFile.targetFileSize current.entries)

def closeCurrentWriter : Program WriteState String Unit := do
  let writer ← getWriter
  match writer.currentWriter with
  | none => pure ()
  | some current =>
    onStore (guarded (call fs) (deleteQuietly fs current.path))
    setWriter { writer with closedWriters := writer.closedWriters ++ [current.path] }
    onStore (call fs)
    setWriter
      { writer with
        closedWriters := writer.closedWriters ++ [current.path]
        results := writer.results ++ [writerResult fs current]
        currentWriter := none
        currentFileRecordCount := 0 }

/-- `RollingFileWriter::Abort`: the open file and every closed one. -/
def RollingFileWriter.abort (state : WriteState) : WriteState :=
  let names := (state.writer.currentWriter.map ManifestEntryWriter.path).toList ++
    state.writer.closedWriters
  { state with store := names.foldl (fun store name => deleteQuietly fs name store) state.store }

def openIfNeeded (writer : RollingFileWriter) : Program WriteState String Unit :=
  match writer.currentWriter with
  | none => openCurrentWriter fs manifestFile
  | some _ => pure ()

def writeCurrent (entry : ManifestEntry) : Program WriteState String Unit := do
  let writer ← getWriter
  match writer.currentWriter with
  | none => throw "no current writer"
  | some current =>
    let written ← onStore (appendRecord fs current entry)
    setWriter { writer with currentWriter := some written }
    onStore (call fs)
    setWriter
      { writer with
        currentWriter := some written
        recordCount := writer.recordCount + 1
        currentFileRecordCount := writer.currentFileRecordCount + 1 }
    let rolling ← needRollingFile fs manifestFile written
    if rolling then closeCurrentWriter fs else pure ()

def RollingFileWriter.write (entry : ManifestEntry) : Program WriteState String Unit :=
  guarded (do
    let writer ← getWriter
    openIfNeeded fs manifestFile writer
    writeCurrent fs manifestFile entry) (RollingFileWriter.abort fs)

def RollingFileWriter.close : Program WriteState String Unit :=
  guarded (closeCurrentWriter fs) (RollingFileWriter.abort fs)

def writeAll (entries : List ManifestEntry) :
    Program WriteState String (List ManifestFileMeta) := do
  entries.foldlM (fun _ entry =>
    guarded (RollingFileWriter.write fs manifestFile entry) (RollingFileWriter.abort fs)) ()
  RollingFileWriter.close fs
  let writer ← getWriter
  pure writer.results

def withWriter {Result : Type} (program : Program WriteState String Result) :
    Program ManifestStore String Result := fun store =>
  let (result, state) := runFrom program { store, writer := {} }
  (result, state.store)

def ManifestFile.write (entries : List ManifestEntry) :
    Program ManifestStore String (List ManifestFileMeta) :=
  if entries = [] then pure []
  else if manifestFile.fileFormatIdentifier ≠ "avro" then
    throw ("manifest.format '" ++ manifestFile.fileFormatIdentifier ++
      "' is read-only; only 'avro' can be used for writing manifests")
  else withWriter (writeAll fs manifestFile entries)

def ManifestFile.read (name : PathName) : Program ManifestStore String (List ManifestEntry) := do
  call fs
  fun store =>
    match store.files name with
    | none => (.error "file not exist", store)
    | some entries => (.ok entries, store)

end

def Faulty (fs : FileSystem) : Prop := ∃ number, fs.fails number = true

/-- The directory and the path counter; how many calls were made does not matter. -/
structure At (files : PathName → Option (List ManifestEntry)) (count : Nat)
    (store : ManifestStore) : Prop where
  files : store.files = files
  count : store.manifestFileCount = count

section
variable {fs : FileSystem} {manifestFile : ManifestFile}
variable {files : PathName → Option (List ManifestEntry)} {count : Nat}

theorem call_meets : Meets (At files count) (call fs) (fun _ => At files count)
      (fun store => At files count store ∧ Faulty fs) := by
  intro store start
  simp only [runFrom, call, Prod.mk.injEq]
  refine ⟨?_, ?_⟩
  · rintro _ store' ⟨_, rfl⟩
    exact ⟨start.files, start.count⟩
  · rintro error store' ⟨outcome, rfl⟩
    refine ⟨⟨start.files, start.count⟩, store.calls, ?_⟩
    by_contra works
    simp [works] at outcome

theorem new_path_meets : Meets (At files count) (newPath manifestFile)
      (fun path store => path = ⟨manifestFile.uuid, count⟩ ∧ At files (count + 1) store)
      (fun _ => False) := by
  apply Meets.total
  intro store start
  exact ⟨by rw [start.count], start.files, by rw [start.count]⟩

theorem delete_quietly_at (deletesWork : ∀ number, fs.deletes number = true) (name : PathName)
    (store : ManifestStore) (start : At files count store) :
    At (Function.update files name none) count (deleteQuietly fs name store) := by
  simp only [deleteQuietly, deletesWork, if_true, ManifestStore.put]
  exact ⟨by rw [start.files], start.count⟩

theorem create_file_meets {path : PathName} (absent : files path = none) :
    Meets (At files count) (createFile path)
      (fun _ => At (Function.update files path (some [])) count) (fun _ => False) := by
  intro store start
  have missing : store.files path = none := by rw [start.files, absent]
  simp only [runFrom, createFile, missing, Prod.mk.injEq, reduceCtorEq, false_and]
  refine ⟨?_, fun _ _ no => no⟩
  rintro _ store' ⟨_, rfl⟩
  exact ⟨by simp [ManifestStore.put, start.files], start.count⟩

theorem init_writer_meets (deletesWork : ∀ number, fs.deletes number = true) {path : PathName}
    (absent : files path = none) : Meets (At files count) (initWriter fs path)
      (fun writer store => writer = ⟨path, []⟩ ∧
        At (Function.update files path (some [])) count store)
      (fun store => At files count store ∧ Faulty fs) := by
  have removed : ∀ content, Function.update (Function.update files path content) path none =
      files := by
    intro content
    rw [update_idem, ← absent, update_eq_self]
  apply Meets.guarded (fun store =>
    (∃ content, At (Function.update files path content) count store) ∧ Faulty fs)
  · apply Meets.bind (fun _ => At files count)
    · apply call_meets.weaken (fun _ start => start) (fun _ _ done => done)
      intro store failing
      exact ⟨⟨none, by rw [← absent, update_eq_self]; exact failing.1⟩, failing.2⟩
    · intro _
      apply Meets.bind (fun _ => At (Function.update files path (some [])) count)
      · exact (create_file_meets absent).weaken (fun _ start => start) (fun _ _ done =>
          done) (fun _ no => no.elim)
      · intro _
        apply Meets.bind (fun _ => At (Function.update files path (some [])) count)
        · exact call_meets.weaken (fun _ start => start) (fun _ _ done => done)
            (fun _ failing => ⟨⟨some [], failing.1⟩, failing.2⟩)
        · intro _
          exact Meets.pure _ (fun _ done => ⟨rfl, done⟩)
  · intro store failing
    rcases failing with ⟨⟨content, created⟩, faulty⟩
    have cleaned := delete_quietly_at deletesWork path store created
    rw [removed] at cleaned
    exact ⟨cleaned, faulty⟩

theorem append_record_meets (deletesWork : ∀ number, fs.deletes number = true)
    (writer : ManifestEntryWriter) (entry : ManifestEntry) :
    Meets (At files count) (appendRecord fs writer entry)
      (fun written store => written = ⟨writer.path, writer.entries ++ [entry]⟩ ∧
        At (Function.update files writer.path (some (writer.entries ++ [entry]))) count store)
      (fun store => At (Function.update files writer.path none) count store ∧ Faulty fs) := by
  apply Meets.guarded (fun store => At files count store ∧ Faulty fs)
  · apply Meets.bind _ call_meets
    intro _
    apply Meets.total
    intro store start
    exact ⟨rfl, by simp [ManifestStore.put, start.files], start.count⟩
  · intro store failing
    exact ⟨delete_quietly_at deletesWork writer.path store failing.1, failing.2⟩

theorem read_meets {name : PathName} {entries : List ManifestEntry}
    (present : files name = some entries) : Meets (At files count) (ManifestFile.read fs name)
      (fun result store => result = entries ∧ At files count store)
      (fun store => At files count store ∧ Faulty fs) := by
  apply Meets.bind _ call_meets
  intro _ store start
  have found : store.files name = some entries := by rw [start.files, present]
  simp only [runFrom, found, Prod.mk.injEq, Except.ok.injEq, reduceCtorEq, false_and]
  refine ⟨?_, fun _ _ no => no.elim⟩
  rintro result store' ⟨rfl, rfl⟩
  exact ⟨rfl, start⟩

end

end PaimonCore.Manifest
