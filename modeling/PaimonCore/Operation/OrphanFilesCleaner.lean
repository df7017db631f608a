import Mathlib.Data.List.Dedup

/-!
# `OrphanFilesCleanerImpl`

`Clean` as its calls to the file system, between which commits, expirations and tag creations of
others take place. Some calls that fail end `Clean`, others count as an empty listing. The call
for each directory and each snapshot runs on an executor, so their order is open.
-/

namespace PaimonCore.Orphans

abbrev Path := List String

def startsWith (name pattern : String) : Bool := pattern.toList.isPrefixOf name.toList

def endsWith (name pattern : String) : Bool := pattern.toList.isSuffixOf name.toList

def containsText (name pattern : String) : Bool :=
  name.toList.tails.any (fun tail => pattern.toList.isPrefixOf tail)

def getName (path : Path) : String := path.getLastD ""

def supportedPatterns : List (String × String) :=
  [("manifest-", ""), ("manifest-list-", ""), ("index-manifest-", ""), ("index-", ""),
    (".", ".tmp")]

def supportedFormats : List String := [".orc", ".parquet", ".avro", ".lance", ".mosaic"]

def supportedExtraFileSuffixes : List String := [".index", ".lookup"]

def supportToClean (fileName : String) : Bool :=
  supportedPatterns.any (fun pattern =>
    startsWith fileName pattern.1 && endsWith fileName pattern.2) ||
  supportedFormats.any (fun format => startsWith fileName "data-" && endsWith fileName format) ||
  supportedExtraFileSuffixes.any (fun suffix =>
    startsWith fileName "data-" && endsWith fileName suffix) ||
  endsWith fileName ".offsets" ||
  (containsText fileName "-global-index-" && endsWith fileName ".index")

structure DataFile where
  fileName : String
  extraFiles : List (Option String)

def DataFile.names (file : DataFile) : List String := file.fileName :: file.extraFiles.reduceOption

/-- What the cleaner reads of a snapshot. -/
structure Snapshot where
  id : Int
  baseManifestList : String
  deltaManifestList : String
  changelogManifestList : Option String := none
  indexManifest : Option String := none
  offsets : Option String := none
  offsetsNamed : ∀ name, offsets = some name → endsWith name ".offsets" = true
  deriving DecidableEq

def offsetsDirectory : Path := ["metadata"]

/-- The contents of files. A file is written once, under a name of its own. -/
structure Contents where
  manifests : String → List String
  entries : String → List DataFile
  indexFiles : String → List String
  modificationTime : String → Int
  directory : String → Path
  offsetsPlaced : ∀ name, endsWith name ".offsets" = true → directory name = offsetsDirectory

namespace Contents

variable (contents : Contents)

def manifestsOf (snapshot : Snapshot) : List String :=
  contents.manifests snapshot.baseManifestList ++ contents.manifests snapshot.deltaManifestList

def dataFiles (manifest : String) : List String :=
  (contents.entries manifest).flatMap DataFile.names

def metadata (snapshot : Snapshot) : List String :=
  [snapshot.baseManifestList, snapshot.deltaManifestList] ++ snapshot.indexManifest.toList ++
    contents.manifestsOf snapshot

/-- All files that a snapshot names, those of deleted entries included. -/
def reachable (snapshot : Snapshot) : List String :=
  contents.metadata snapshot ++ (contents.manifestsOf snapshot).flatMap contents.dataFiles ++
    snapshot.indexManifest.toList.flatMap contents.indexFiles ++ snapshot.offsets.toList

end Contents

structure Options where
  olderThanMs : Int
  partitionKeys : Nat
  realtimeEnabled : Bool
  externalPaths : Except String (List String)
  shouldBeRetained : String → Bool

inductive Read where
  | indexManifest (name : String)
  | manifestList (name : String)
  | manifest (name : String)

def Read.fileName : Read → String
  | indexManifest name => name
  | manifestList name => name
  | manifest name => name

/-- `GetUsedFilesBySnapshot` under way: the names found and the files still to read. -/
structure Reader where
  snapshot : Snapshot
  usedFiles : List String
  pending : List Read

def openReader (options : Options) (snapshot : Snapshot) : Reader where
  snapshot := snapshot
  usedFiles := ["snapshot-" ++ toString snapshot.id, snapshot.baseManifestList,
    snapshot.deltaManifestList] ++ snapshot.indexManifest.toList ++
      if options.realtimeEnabled then snapshot.offsets.toList else []
  pending := snapshot.indexManifest.toList.map .indexManifest ++
    [.manifestList snapshot.baseManifestList, .manifestList snapshot.deltaManifestList]

/-- `ReadIfFileExist`: a file that is not there counts as an empty one. -/
def readIfFileExist {Item : Type} (files : List String) (content : String → List Item)
    (name : String) : List Item :=
  if files.contains name then content name else []

/-- The next file is read. The manifests come after both lists. -/
def Reader.advance (contents : Contents) (files : List String) (reader : Reader) : Reader :=
  match reader.pending with
  | [] => reader
  | .indexManifest name :: rest =>
    { reader with
      usedFiles := reader.usedFiles ++ readIfFileExist files contents.indexFiles name
      pending := rest }
  | .manifestList name :: rest =>
    { reader with
      pending := rest ++ (readIfFileExist files contents.manifests name).map .manifest }
  | .manifest name :: rest =>
    { reader with
      usedFiles := reader.usedFiles ++ name :: readIfFileExist files contents.dataFiles name
      pending := rest }

/-- The levels of `ListFileDirs`. A listing that fails is empty. -/
def listFileDirs (listing : Path → List Path) : Nat → List Path → List Path
  | 0, paths =>
    (paths.flatMap listing).filter (fun dir => startsWith (getName dir) "bucket-")
  | level + 1, paths =>
    listFileDirs listing level ((paths.flatMap listing).filter (fun dir =>
      containsText (getName dir) "="))

def listPaimonFileDirs (options : Options) (answer : Path → Option (List Path)) :
    Except String (List Path) :=
  let paimonFileDirs := [["snapshot"], ["manifest"], ["index"]] ++
    if options.realtimeEnabled then [offsetsDirectory] else []
  let fileDirs := listFileDirs (fun path => (answer path).getD []) options.partitionKeys [[]]
  match options.externalPaths with
  | .error message => .error message
  | .ok [] => .ok (paimonFileDirs ++ fileDirs).dedup
  | .ok _ => .error "OrphanFilesCleaner do not support cleaning table with external paths"

def minValidFileModificationMs : Int := 10 * 1000 * 1000 * 1000

/-- The names to delete, and what `Clean` returns; deletions before an error are made. -/
def selectFiles (contents : Contents) (options : Options) (usedFiles : List String)
    (needToDeletes : List String) : List String → List String × Except String (List String)
  | [] => (needToDeletes, .ok needToDeletes)
  | name :: rest =>
    if !supportToClean name then selectFiles contents options usedFiles needToDeletes rest
    else if contents.modificationTime name < options.olderThanMs && !usedFiles.contains name then
      if options.shouldBeRetained name then
        selectFiles contents options usedFiles needToDeletes rest
      else if contents.modificationTime name ≤ minValidFileModificationMs then
        (needToDeletes, .error ("file '" ++ "/".intercalate (contents.directory name ++ [name]) ++
          "' modification '" ++ toString (contents.modificationTime name) ++
          "' is not in millisecond"))
      else selectFiles contents options usedFiles (needToDeletes ++ [name]) rest
    else selectFiles contents options usedFiles needToDeletes rest

/-- How far `GetUsedFiles` is: before the listing, loading snapshots, reading their files. -/
inductive Usage where
  | unlisted
  | loading (pending loaded : List Snapshot)
  | reading (readers : List Reader)

structure Collection where
  unlisted : List Path
  fileStatuses : List String
  usage : Usage

inductive Cleaner where
  | lookTags
  | lookBranches
  | listDirs
  | collecting (collection : Collection)
  | deleting (pending : List String) (result : Except String (List String))
  | ended (result : Except String (List String))

structure State where
  snapshots : List Snapshot
  tags : List Snapshot
  branches : List Snapshot
  files : List String
  cleaner : Cleaner

inductive Label where
  | lookTags (fails : Bool)
  | lookBranches (fails : Bool)
  | listDirs (answer : Path → Option (List Path))
  | listFiles (dir : Path) (fails : Bool)
  | listSnapshots (failure : Option String)
  | loadSnapshot (failure : Option String)
  | openReaders
  | read (index : Nat) (failure : Option String)
  | select
  | delete (name : String) (fails : Bool)
  | write (name : String)
  | commit (snapshot : Snapshot)
  | expire (snapshot : Snapshot)
  | remove (name : String)
  | createTag (snapshot : Snapshot)

def State.roots (state : State) : List Snapshot := state.snapshots ++ state.tags ++ state.branches

def State.Reachable (contents : Contents) (state : State) (name : String) : Prop :=
  ∃ snapshot ∈ state.roots, name ∈ contents.reachable snapshot

def State.moveTo (state : State) (cleaner : Cleaner) : State := { state with cleaner := cleaner }

def lookTags (state : State) (fails : Bool) : Option State :=
  match state.cleaner with
  | .lookTags =>
    if fails || state.tags.isEmpty then some (state.moveTo .lookBranches)
    else
      some (state.moveTo
        (.ended (.error "OrphanFilesCleaner do not support cleaning table with tag")))
  | _ => none

def lookBranches (state : State) (fails : Bool) : Option State :=
  match state.cleaner with
  | .lookBranches =>
    if fails || state.branches.isEmpty then some (state.moveTo .listDirs)
    else
      some (state.moveTo
        (.ended (.error "OrphanFilesCleaner do not support cleaning table with branch")))
  | _ => none

def listDirs (options : Options) (state : State) (answer : Path → Option (List Path)) :
    Option State :=
  match state.cleaner with
  | .listDirs =>
    match listPaimonFileDirs options answer with
    | .error message => some (state.moveTo (.ended (.error message)))
    | .ok allDirs => some (state.moveTo (.collecting ⟨allDirs, [], .unlisted⟩))
  | _ => none

def listFiles (contents : Contents) (state : State) (dir : Path) (fails : Bool) : Option State :=
  match state.cleaner with
  | .collecting ⟨unlisted, fileStatuses, usage⟩ =>
    if dir ∈ unlisted then
      let found := if fails then []
        else state.files.filter (fun name => decide (contents.directory name = dir))
      some (state.moveTo (.collecting ⟨unlisted.erase dir, fileStatuses ++ found, usage⟩))
    else none
  | _ => none

def listSnapshots (state : State) (failure : Option String) : Option State :=
  match state.cleaner with
  | .collecting ⟨unlisted, fileStatuses, .unlisted⟩ =>
    match failure with
    | some message => some (state.moveTo (.ended (.error message)))
    | none =>
      some (state.moveTo (.collecting ⟨unlisted, fileStatuses, .loading state.snapshots []⟩))
  | _ => none

/-- A snapshot file that is no longer there cannot be read. -/
def loadSnapshot (state : State) (failure : Option String) : Option State :=
  match state.cleaner with
  | .collecting ⟨unlisted, fileStatuses, .loading (snapshot :: pending) loaded⟩ =>
    match failure with
    | some message => some (state.moveTo (.ended (.error message)))
    | none =>
      if snapshot ∈ state.snapshots then
        some (state.moveTo
          (.collecting ⟨unlisted, fileStatuses, .loading pending (loaded ++ [snapshot])⟩))
      else none
  | _ => none

def openReaders (options : Options) (state : State) : Option State :=
  match state.cleaner with
  | .collecting ⟨unlisted, fileStatuses, .loading [] loaded⟩ =>
    if loaded.any (fun snapshot => snapshot.changelogManifestList.isSome) then
      some (state.moveTo (.ended (.error "OrphanFilesCleaner do not support clean changelog")))
    else
      some (state.moveTo
        (.collecting ⟨unlisted, fileStatuses, .reading (loaded.map (openReader options))⟩))
  | _ => none

def read (contents : Contents) (state : State) (index : Nat) (failure : Option String) :
    Option State :=
  match state.cleaner with
  | .collecting ⟨unlisted, fileStatuses, .reading readers⟩ =>
    match readers[index]? with
    | none => none
    | some reader =>
      if reader.pending.isEmpty then none
      else
        match failure with
        | some message => some (state.moveTo (.ended (.error message)))
        | none => some (state.moveTo (.collecting ⟨unlisted, fileStatuses,
            .reading (readers.set index (reader.advance contents state.files))⟩))
  | _ => none

def select (contents : Contents) (options : Options) (state : State) : Option State :=
  match state.cleaner with
  | .collecting ⟨[], fileStatuses, .reading readers⟩ =>
    if readers.all (fun reader => reader.pending.isEmpty) then
      let usedFiles := ["EARLIEST", "LATEST"] ++ readers.flatMap Reader.usedFiles
      let selected := selectFiles contents options usedFiles [] fileStatuses
      some (state.moveTo (.deleting selected.1 selected.2))
    else none
  | _ => none

def delete (state : State) (name : String) (fails : Bool) : Option State :=
  match state.cleaner with
  | .deleting pending result =>
    if name ∈ pending then
      some { state with
        files := if fails then state.files else state.files.filter (fun other => other != name)
        cleaner := .deleting (pending.erase name) result }
    else none
  | _ => none

/-- What a new snapshot names is in use already, or was written not long ago. -/
def commit (contents : Contents) (options : Options) (state : State) (snapshot : Snapshot) :
    Option State :=
  if (contents.reachable snapshot).all (fun name =>
      state.snapshots.any (fun other => (contents.reachable other).contains name) ||
        decide (options.olderThanMs ≤ contents.modificationTime name)) &&
      (contents.metadata snapshot).all state.files.contains then
    some { state with snapshots := state.snapshots ++ [snapshot] }
  else none

def expire (state : State) (snapshot : Snapshot) : Option State :=
  if snapshot ∈ state.snapshots then
    some { state with snapshots := state.snapshots.filter (fun other => other ≠ snapshot) }
  else none

/-- Others remove no metadata that is in use. -/
def remove (contents : Contents) (state : State) (name : String) : Option State :=
  if state.roots.any (fun snapshot => (contents.metadata snapshot).contains name) then none
  else some { state with files := state.files.filter (fun other => other != name) }

def step (contents : Contents) (options : Options) (state : State) : Label → Option State
  | .lookTags fails => lookTags state fails
  | .lookBranches fails => lookBranches state fails
  | .listDirs answer => listDirs options state answer
  | .listFiles dir fails => listFiles contents state dir fails
  | .listSnapshots failure => listSnapshots state failure
  | .loadSnapshot failure => loadSnapshot state failure
  | .openReaders => openReaders options state
  | .read index failure => read contents state index failure
  | .select => select contents options state
  | .delete name fails => delete state name fails
  | .write name =>
    if options.olderThanMs ≤ contents.modificationTime name then
      some { state with files := name :: state.files }
    else none
  | .commit snapshot => commit contents options state snapshot
  | .expire snapshot => expire state snapshot
  | .remove name => remove contents state name
  | .createTag snapshot =>
    if snapshot ∈ state.snapshots then some { state with tags := state.tags ++ [snapshot] }
    else none

end PaimonCore.Orphans
