import PaimonCore.Append.CompactManager
import PaimonCore.Library.Programs
import PaimonCore.Library.Runs
import PaimonCore.Manifest.FileEntry

/-!
# `AppendOnlyWriter`

The writer of a bucket flushes its rows into files, hands them to the compaction manager and
collects what a commit has to change. A compaction task ends or is cancelled between any two
operations, so a run is a sequence of operations in any order. The drained increments are applied
to the table as a commit applies them.
-/

namespace PaimonCore.Append

open ChangeLog Manifest Programs

variable {Row : Type}

structure Increment (Row : Type) where
  newFiles : List (AppendFile Row) := []
  compactBefore : List (AppendFile Row) := []
  compactAfter : List (AppendFile Row) := []
  deletionFile : Option (Option DeletionVectors) := none

structure Writer (Row : Type) where
  options : Options
  buffer : List Row := []
  nextSequence : Int
  nextName : Nat
  toCompact : List (AppendFile Row)
  task : Option (Task Row) := none
  /-- What `dv_maintainer_` holds, and whether it changed since the last index file. -/
  vectors : DeletionVectors
  modified : Bool := false
  pending : Increment Row := {}
  emitted : List (Increment Row) := []

inductive Operation (Row : Type) where
  | write (rows : List Row)
  /-- Closes the open writer, which has split its rows into some files. -/
  | flush (chunks : List (Chunk Row))
  | sync
  | trigger (full : Bool)
  /-- The task ends; a rewrite has split its rows into some files. -/
  | finish (chunks : List (Chunk Row))
  | cancel
  | drain

def splits [DecidableEq Row] (chunks : List (Chunk Row)) (rows : List Row) : Bool :=
  decide (chunks.flatMap Chunk.rows = rows)

/-- The flushed files go to the compaction manager and into the increment. -/
def flush [DecidableEq Row] (writer : Writer Row) (chunks : List (Chunk Row)) :
    Option (Writer Row) :=
  if splits chunks writer.buffer then
    let files := numberFiles writer.nextSequence writer.nextName chunks
    some { writer with
      buffer := []
      nextSequence := writer.nextSequence + writer.buffer.length
      nextName := writer.nextName + chunks.length
      toCompact := files.foldl (fun queue file => pushFile file queue) writer.toCompact
      pending := { writer.pending with newFiles := writer.pending.newFiles ++ files } }
  else none

/-- `MergeOldFile`: a newer file replaces an older one. -/
def mergeDeletionFile (old new : Option (Option DeletionVectors)) :
    Option (Option DeletionVectors) :=
  match new, old with
  | none, old => old
  | some (some vectors), _ => some (some vectors)
  | some none, none => some none
  | some none, some old => some old

/-- The last file of a result waits for the next compaction if it is small. -/
def requeueLast (options : Options) (after toCompact : List (AppendFile Row)) :
    List (AppendFile Row) :=
  match after.getLast? with
  | none => toCompact
  | some last =>
    if last.fileSize < options.compactionFileSize then pushFile last toCompact else toCompact

/-- `TrySyncLatestCompaction`: takes over the result of a task that has ended. -/
def sync (writer : Writer Row) : Writer Row :=
  match writer.task with
  | none => writer
  | some (.running _ _) => writer
  | some .cancelled => { writer with task := none }
  | some (.finished result) =>
    { writer with
      task := none
      toCompact := requeueLast writer.options result.after writer.toCompact
      pending := { writer.pending with
        compactBefore := writer.pending.compactBefore ++ result.before
        compactAfter := writer.pending.compactAfter ++ result.after
        deletionFile := mergeDeletionFile writer.pending.deletionFile result.deletionFile } }

/-- `TriggerFullCompaction`; an error while a task runs. -/
def triggerFull (writer : Writer Row) : Option (Writer Row) :=
  match writer.task with
  | some _ => none
  | none =>
    if !writer.options.forceRewriteAllFiles && (writer.toCompact.isEmpty ||
        (!writer.options.deletionVectors &&
          decide (writer.toCompact.length < fullCompactMinFile))) then some writer
    else some { writer with task := some (.running true writer.toCompact), toCompact := [] }

def triggerBestEffort (writer : Writer Row) : Writer Row :=
  match writer.task with
  | some _ => writer
  | none =>
    match pickCompactBefore writer.options writer.toCompact with
    | (none, toCompact) => { writer with toCompact := toCompact }
    | (some picked, toCompact) =>
      { writer with task := some (.running false picked), toCompact := toCompact }

def removeVectors (files : List (AppendFile Row)) (vectors : DeletionVectors) : DeletionVectors :=
  fun name => if files.any (fun file => file.name == name) then none else vectors name

/-- `Compact`: the result of rewriting the inputs into the files. -/
def compact (writer : Writer Row) (inputs outputs : List (AppendFile Row)) : Writer Row :=
  if writer.options.deletionVectors then
    let modified := writer.modified || inputs.any (fun file => (writer.vectors file.name).isSome)
    let vectors := removeVectors inputs writer.vectors
    if writer.options.materializeDvOnCommit then
      { writer with
        vectors := vectors
        modified := modified
        task := some (.finished { before := inputs, after := outputs }) }
    else
      { writer with
        vectors := vectors
        modified := false
        task := some (.finished
          { before := inputs
            after := outputs
            deletionFile := some (if modified then some vectors else none) }) }
  else
    { writer with task := some (.finished { before := inputs, after := outputs }) }

/-- The rewriter, which numbers the rows from the first input's. -/
def rewrite [DecidableEq Row] (writer : Writer Row) (inputs : List (AppendFile Row))
    (chunks : List (Chunk Row)) : Option (Writer Row) :=
  if splits chunks (inputs.flatMap (visibleRows writer.vectors)) then
    let first := (inputs.head?.map AppendFile.minSequenceNumber).getD 0
    let outputs := numberFiles first writer.nextName chunks
    some (compact { writer with nextName := writer.nextName + chunks.length } inputs outputs)
  else none

def finish [DecidableEq Row] (writer : Writer Row) (chunks : List (Chunk Row)) :
    Option (Writer Row) :=
  match writer.task with
  | some (.running false inputs) => rewrite writer inputs chunks
  | some (.running true inputs) =>
    let left := fullInputs writer.options writer.vectors inputs
    if fullRewrites writer.options left then rewrite writer left chunks
    else if chunks.isEmpty then some { writer with task := some (.finished {}) }
    else none
  | _ => none

def cancel (writer : Writer Row) : Option (Writer Row) :=
  match writer.task with
  | some (.running _ _) => some { writer with task := some .cancelled }
  | _ => none

def drain (writer : Writer Row) : Writer Row :=
  { writer with pending := {}, emitted := writer.emitted ++ [writer.pending] }

def step [DecidableEq Row] (writer : Writer Row) : Operation Row → Option (Writer Row)
  | .write rows => some { writer with buffer := writer.buffer ++ rows }
  | .flush chunks => flush writer chunks
  | .sync => some (sync writer)
  | .trigger true => triggerFull writer
  | .trigger false => some (triggerBestEffort writer)
  | .finish chunks => finish writer chunks
  | .cancel => cancel writer
  | .drain => some (drain writer)

/-- `Flush`, where a task may have to be waited for; `Compact` is a flush that waits. -/
def flushCall (chunks : List (Chunk Row)) (outcome : Option (Operation Row)) (full : Bool) :
    List (Operation Row) :=
  [.flush chunks] ++ outcome.toList ++ [.sync, .trigger full]

def prepareCommit (chunks : List (Chunk Row)) (outcome : Option (Operation Row)) :
    List (Operation Row) :=
  flushCall chunks none false ++ outcome.toList ++ [.sync, .drain]

/-- The live files and the deletion vectors of the bucket in a snapshot. -/
structure Table (Row : Type) where
  live : List (AppendFile Row)
  vectors : DeletionVectors

abbrev FileChange (Row : Type) := Change × AppendFile Row

def mergeChanges (changes : List (FileChange Row)) :
    Except String (LinkedHashMap Nat (FileChange Row)) :=
  mergeEntriesInto Prod.fst (fun change => change.2.name) toString LinkedHashMap.empty changes

/-- The checks of a commit: the changes can be merged, and no file is deleted that is not there. -/
def commitChanges (live : List (AppendFile Row)) (changes : List (FileChange Row)) :
    Except String (List (AppendFile Row)) := do
  let _ ← mergeChanges changes
  let merged ← mergeChanges (live.map (fun file => (.add, file)) ++ changes)
  match merged.values.find? (fun change => decide (change.1 = .delete)) with
  | some change =>
    .error ("Trying to delete file " ++ toString change.2.name ++ " which is not previously added.")
  | none => .ok (merged.values.map Prod.snd)

/-- A commit of an append and one of a compaction; `ManifestEntryChanges::Collect` puts deletions
first. -/
def applyIncrement (table : Table Row) (increment : Increment Row) : Except String (Table Row) := do
  let appended ← commitChanges table.live (increment.newFiles.map (fun file => (.add, file)))
  let compacted ← commitChanges appended (increment.compactBefore.map (fun file =>
    (.delete, file)) ++
      increment.compactAfter.map (fun file => (.add, file)))
  .ok
    { live := compacted
      vectors :=
        match increment.deletionFile with
        | some (some vectors) => vectors
        | _ => table.vectors }

def readOrder (files : List (AppendFile Row)) : List (AppendFile Row) :=
  files.insertionSort (fun left right => left.minSequenceNumber ≤ right.minSequenceNumber)

def Table.rows (table : Table Row) : List Row :=
  (readOrder table.live).flatMap (visibleRows table.vectors)

def Writer.restore (options : Options) (table : Table Row) (nextName : Nat) : Writer Row where
  options := options
  nextSequence := table.live.foldl (fun largest file => max largest file.maxSequenceNumber) (-1) + 1
  nextName := nextName
  toCompact := table.live.foldl (fun queue file => pushFile file queue) []
  vectors := if options.deletionVectors then table.vectors else fun _ => none

end PaimonCore.Append
