import PaimonCore.Append.IncrementCommit

/-!
# The order of a bucket

The files of a bucket, with those not committed yet, form one list in the order of their sequence
numbers: the files that left the queue, the inputs of the task and the queue. So every compaction
takes neighbours.
-/

namespace PaimonCore.Append

open ChangeLog Manifest Programs List

variable {Row : Type}

def Within (vectors restored : DeletionVectors) : Prop :=
  ∀ name, vectors name = none ∨ vectors name = restored name

def AgreeOn (vectors restored : DeletionVectors) (files : List (AppendFile Row)) : Prop :=
  ∀ file ∈ files, vectors file.name = restored file.name

def flushedRows (writer : Writer Row) : List Row :=
  (writer.emitted ++ [writer.pending]).flatMap (fun increment =>
    increment.newFiles.flatMap AppendFile.rows)

/-- The outputs of a task that were not taken over yet. -/
def produced (writer : Writer Row) : List (AppendFile Row) :=
  match writer.task with
  | some (.finished result) => result.after
  | _ => []

/-- A result that can take the place of the task's inputs. -/
structure Finished (start : Table Row) (nextSequence : Int)
    (settled compacting toCompact : List (AppendFile Row)) (result : CompactResult Row) : Prop where
  before : compacting = result.before
  rows : result.after.flatMap AppendFile.rows = compacting.flatMap (visibleRows start.vectors)
  ordered : Ordered (settled ++ (result.after ++ toCompact))
  below : ∀ file ∈ result.after, file.maxSequenceNumber < nextSequence
  unmasked : ∀ file ∈ result.after, start.vectors file.name = none
  vectors : ∀ vectors, result.deletionFile = some (some vectors) →
    Within vectors start.vectors ∧ AgreeOn vectors start.vectors (settled ++ toCompact)

def TaskView (start : Table Row) (writer : Writer Row)
    (settled compacting : List (AppendFile Row)) :
    Prop :=
  match writer.task with
  | none => compacting = []
  | some .cancelled => compacting = []
  | some (.running _ inputs) => compacting = inputs ∧ AgreeOn writer.vectors start.vectors inputs
  | some (.finished result) =>
    Finished start writer.nextSequence settled compacting writer.toCompact result

structure Bucket (start : Table Row) (writer : Writer Row)
    (files settled compacting : List (AppendFile Row)) : Prop where
  split : files = settled ++ (compacting ++ writer.toCompact)
  ordered : Ordered files
  below : ∀ file ∈ files, file.maxSequenceNumber < writer.nextSequence
  distinct : (names (files ++ produced writer)).Nodup
  known : ∀ file ∈ files ++ produced writer, file.name < writer.nextName
  rows : files.flatMap (visibleRows start.vectors) = start.rows ++ flushedRows writer
  fresh : ∀ name, writer.nextName ≤ name → start.vectors name = none
  within : Within writer.vectors start.vectors
  agrees : AgreeOn writer.vectors start.vectors (settled ++ writer.toCompact)
  pendingVectors : ∀ vectors, writer.pending.deletionFile = some (some vectors) →
    Within vectors start.vectors ∧ AgreeOn vectors start.vectors files
  task : TaskView start writer settled compacting

/-- How a table to which the drained increments were applied relates to the bucket. -/
structure Applied (start : Table Row) (writer : Writer Row) (files : List (AppendFile Row))
    (table : Table Row) : Prop where
  balance : (table.live ++ writer.pending.newFiles ++ writer.pending.compactAfter).Perm
    (files ++ writer.pending.compactBefore)
  distinct : (names (table.live ++ writer.pending.newFiles ++ writer.pending.compactAfter ++
    produced writer)).Nodup
  known : ∀ file ∈ table.live ++ writer.pending.newFiles ++ writer.pending.compactAfter ++
    produced writer, file.name < writer.nextName
  within : Within table.vectors start.vectors
  agrees : AgreeOn table.vectors start.vectors
    (table.live ++ writer.pending.newFiles ++ writer.pending.compactAfter)

variable {vectors restored : DeletionVectors} {left right : List (AppendFile Row)}

theorem AgreeOn.append (leftAgrees : AgreeOn vectors restored left)
    (rightAgrees : AgreeOn vectors restored right) : AgreeOn vectors restored (left ++ right) := by
  exact forall_mem_append.mpr ⟨leftAgrees, rightAgrees⟩

variable {files : List (AppendFile Row)}

theorem AgreeOn.mono {part : List (AppendFile Row)} (agrees : AgreeOn vectors restored files)
    (subset : part ⊆ files) : AgreeOn vectors restored part :=
  fun file mem => agrees file (subset mem)

theorem Within.agree_new (within : Within vectors restored)
    (unmasked : ∀ file ∈ files, restored file.name = none) : AgreeOn vectors restored files := by
  intro file mem
  rcases within file.name with none | same
  · rw [none, unmasked file mem]
  · exact same

theorem visible_rows_unmasked (unmasked : ∀ file ∈ files, vectors file.name = none) :
    files.flatMap (visibleRows vectors) = files.flatMap AppendFile.rows := by
  apply flatMap_congr
  intro file mem
  rw [visibleRows, unmasked file mem]

theorem visible_rows_agree (agrees : AgreeOn vectors restored files) :
    files.flatMap (visibleRows vectors) = files.flatMap (visibleRows restored) := by
  apply flatMap_congr
  intro file mem
  rw [visibleRows, visibleRows, agrees file mem]

theorem ordered_append (leftOrdered : Ordered left) (rightOrdered : Ordered right) {bound : Int}
    (below : ∀ file ∈ left, file.maxSequenceNumber < bound)
    (above : ∀ file ∈ right, bound ≤ file.minSequenceNumber) : Ordered (left ++ right) := by
  refine pairwise_append.mpr ⟨leftOrdered, rightOrdered, ?_⟩
  intro first isFirst second isSecond
  have lower := below first isFirst
  have upper := above second isSecond
  omega

theorem number_files_new {sequence : Int} {name : Nat} {chunks : List (Chunk Row)} :
    (names (numberFiles sequence name chunks)).Nodup ∧ ∀ file ∈ numberFiles sequence name chunks,
        name ≤ file.name ∧ file.name < name + chunks.length := by
  rw [names, number_files_names]
  refine ⟨nodup_range', ?_⟩
  intro file mem
  have listed : file.name ∈ (numberFiles sequence name chunks).map AppendFile.name :=
    mem_map_of_mem mem
  rw [number_files_names, mem_range'_1] at listed
  exact listed

theorem names_with_new {old new : List (AppendFile Row)} {bound : Nat}
    (oldDistinct : (names old).Nodup) (newDistinct : (names new).Nodup)
    (known : ∀ file ∈ old, file.name < bound) (fresh : ∀ file ∈ new, bound ≤ file.name) :
    (names (old ++ new)).Nodup := by
  rw [names_append, nodup_append]
  refine ⟨oldDistinct, newDistinct, ?_⟩
  intro name isOld other isNew same
  obtain ⟨oldFile, oldMember, rfl⟩ := mem_names.mp isOld
  obtain ⟨newFile, newMember, rfl⟩ := mem_names.mp isNew
  have lower := known oldFile oldMember
  have upper := fresh newFile newMember
  omega

theorem names_perm (perm : left.Perm right) : (names left).Nodup ↔ (names right).Nodup :=
  (perm.map AppendFile.name).nodup_iff

theorem perm_end (first middle last : List (AppendFile Row)) :
    (first ++ middle ++ last).Perm (first ++ last ++ middle) := by
  rw [append_assoc, append_assoc]
  exact perm_append_comm.append_left first

def applyAll (start : Table Row) (increments : List (Increment Row)) : Except String (Table Row) :=
  increments.foldlM applyIncrement start

def Kept (start : Table Row) (writer : Writer Row) : Prop :=
  ∃ files settled compacting, Bucket start writer files settled compacting ∧
    ∀ table, applyAll start writer.emitted = .ok table → Applied start writer files table

section
variable {start : Table Row} {writer : Writer Row}
  {files settled compacting : List (AppendFile Row)} {table : Table Row}

theorem Bucket.regroup {next : Writer Row} {settled' compacting' : List (AppendFile Row)}
    (bucket : Bucket start writer files settled compacting)
    (sequence : next.nextSequence = writer.nextSequence) (name : next.nextName = writer.nextName)
    (pending : next.pending = writer.pending) (emitted : next.emitted = writer.emitted)
    (noOutputs : produced next = produced writer)
    (split : files = settled' ++ (compacting' ++ next.toCompact))
    (within : Within next.vectors start.vectors)
    (agrees : AgreeOn next.vectors start.vectors (settled' ++ next.toCompact))
    (task : TaskView start next settled' compacting') :
    Bucket start next files settled' compacting' where
  split := split
  ordered := bucket.ordered
  below := by rw [sequence]; exact bucket.below
  distinct := by rw [noOutputs]; exact bucket.distinct
  known := by rw [noOutputs, name]; exact bucket.known
  rows := by rw [flushedRows, emitted, pending]; exact bucket.rows
  fresh := by rw [name]; exact bucket.fresh
  within := within
  agrees := agrees
  pendingVectors := by rw [pending]; exact bucket.pendingVectors
  task := task

theorem Applied.regroup {next : Writer Row} (applied : Applied start writer files table)
    (name : next.nextName = writer.nextName) (pending : next.pending = writer.pending)
    (noOutputs : produced next = produced writer) : Applied start next files table where
  balance := by rw [pending]; exact applied.balance
  distinct := by rw [pending, noOutputs]; exact applied.distinct
  known := by rw [pending, noOutputs, name]; exact applied.known
  within := applied.within
  agrees := by rw [pending]; exact applied.agrees

theorem write_kept (kept : Kept start writer) (rows : List Row) :
    Kept start { writer with buffer := writer.buffer ++ rows } := by
  obtain ⟨files, settled, compacting, bucket, applied⟩ := kept
  exact ⟨files, settled, compacting,
    bucket.regroup rfl rfl rfl rfl rfl bucket.split bucket.within bucket.agrees bucket.task,
    fun table applies => (applied table applies).regroup rfl rfl rfl⟩

/-- Files that were just written: with new names, and numbered from the counter on. -/
structure New (writer : Writer Row) (rows : List Row) (count : Nat) (new : List (AppendFile Row)) :
    Prop where
  distinct : (names new).Nodup
  names : ∀ file ∈ new, writer.nextName ≤ file.name ∧ file.name < writer.nextName + count
  bounds : ∀ file ∈ new, writer.nextSequence ≤ file.minSequenceNumber ∧
    file.maxSequenceNumber < writer.nextSequence + rows.length
  ordered : Ordered new
  rows : new.flatMap AppendFile.rows = rows

theorem Finished.extend {result : CompactResult Row} {toCompact new : List (AppendFile Row)}
    {nextSequence later : Int}
    (finished : Finished start nextSequence settled compacting toCompact result)
    (below : ∀ file ∈ settled ++ toCompact, file.maxSequenceNumber < nextSequence)
    (newOrdered : Ordered new) (above : ∀ file ∈ new, nextSequence ≤ file.minSequenceNumber)
    (unmasked : ∀ file ∈ new, start.vectors file.name = none) (isLater : nextSequence ≤ later) :
    Finished start later settled compacting (toCompact ++ new) result where
  before := finished.before
  rows := finished.rows
  ordered := by
    rw [← append_assoc result.after, ← append_assoc settled]
    apply ordered_append finished.ordered newOrdered _ above
    intro file mem
    simp only [mem_append] at mem below
    rcases mem with isSettled | isAfter | isQueued
    · exact below file (.inl isSettled)
    · exact finished.below file isAfter
    · exact below file (.inr isQueued)
  below := fun file mem => lt_of_lt_of_le (finished.below file mem) isLater
  unmasked := finished.unmasked
  vectors := by
    intro vectors found
    obtain ⟨within, agrees⟩ := finished.vectors vectors found
    rw [← append_assoc]
    exact ⟨within, agrees.append (within.agree_new unmasked)⟩

def Writer.flushed (writer : Writer Row) (count : Nat) (new : List (AppendFile Row)) : Writer Row :=
  { writer with
    buffer := []
    nextSequence := writer.nextSequence + writer.buffer.length
    nextName := writer.nextName + count
    toCompact := writer.toCompact ++ new
    pending := { writer.pending with newFiles := writer.pending.newFiles ++ new } }

section
variable {count : Nat} {new : List (AppendFile Row)}

section
variable (bucket : Bucket start writer files settled compacting)
include bucket
variable (isNew : New writer writer.buffer count new)
include isNew

theorem Bucket.new_unmasked : ∀ file ∈ new, start.vectors file.name = none :=
  fun file mem => bucket.fresh file.name (isNew.names file mem).1

theorem Bucket.ordered_new : Ordered (files ++ new) :=
  ordered_append bucket.ordered isNew.ordered bucket.below (fun file mem =>
    (isNew.bounds file mem).1)

theorem Bucket.queue_ordered : Ordered (writer.toCompact ++ new) := by
  have ordered := bucket.ordered_new isNew
  rw [bucket.split, ← append_assoc, append_assoc] at ordered
  exact (pairwise_append.mp ordered).2.1

theorem Bucket.flushed :
    Bucket start (writer.flushed count new) (files ++ new) settled compacting := by
  have unmasked := bucket.new_unmasked isNew
  have moved := perm_end files new (produced writer)
  constructor
  · rw [bucket.split]
    simp [Writer.flushed]
  · exact bucket.ordered_new isNew
  · intro file mem
    change _ < writer.nextSequence + writer.buffer.length
    rcases mem_append.mp mem with mem | mem
    · have := bucket.below file mem
      omega
    · exact (isNew.bounds file mem).2
  · apply (names_perm moved).mpr
    exact names_with_new bucket.distinct isNew.distinct bucket.known (fun file mem =>
      (isNew.names file mem).1)
  · intro file mem
    change file.name < writer.nextName + count
    rcases mem_append.mp (moved.mem_iff.mp mem) with isOld | mem
    · have := bucket.known file isOld
      omega
    · exact (isNew.names file mem).2
  · rw [flatMap_append, bucket.rows, visible_rows_unmasked unmasked]
    simp [flushedRows, Writer.flushed, isNew.rows]
  · intro name above
    change writer.nextName + count ≤ name at above
    exact bucket.fresh name (by omega)
  · exact bucket.within
  · change AgreeOn writer.vectors start.vectors (settled ++ (writer.toCompact ++ new))
    rw [← append_assoc]
    exact bucket.agrees.append (bucket.within.agree_new unmasked)
  · intro vectors found
    obtain ⟨within, agrees⟩ := bucket.pendingVectors vectors found
    exact ⟨within, agrees.append (within.agree_new unmasked)⟩
  · have view := bucket.task
    rw [TaskView] at view ⊢
    simp only [Writer.flushed]
    split at view
    · exact view
    · exact view
    · exact view
    · apply view.extend _ isNew.ordered (fun file mem => (isNew.bounds file mem).1)
        unmasked (by omega)
      intro file mem
      apply bucket.below file
      rw [bucket.split]
      grind

theorem Applied.flushed (applied : Applied start writer files table) :
    Applied start (writer.flushed count new) (files ++ new) table := by
  have moved : (table.live ++ (writer.pending.newFiles ++ new) ++ writer.pending.compactAfter).Perm
      (table.live ++ writer.pending.newFiles ++ writer.pending.compactAfter ++ new) := by
    rw [← append_assoc table.live]
    exact perm_end _ new _
  have movedAll := (moved.append_right (produced writer)).trans (perm_end _ new _)
  constructor
  · exact (moved.trans (applied.balance.append_right new)).trans (perm_end files _ new)
  · apply (names_perm movedAll).mpr
    exact names_with_new applied.distinct isNew.distinct applied.known (fun file mem =>
      (isNew.names file mem).1)
  · intro file mem
    change file.name < writer.nextName + count
    rcases mem_append.mp (movedAll.mem_iff.mp mem) with isOld | mem
    · have := applied.known file isOld
      omega
    · exact (isNew.names file mem).2
  · exact applied.within
  · have agrees := applied.agrees.append (applied.within.agree_new (bucket.new_unmasked isNew))
    exact agrees.mono moved.subset

end

theorem flush_kept [DecidableEq Row] {chunks : List (Chunk Row)} {next : Writer Row}
    (kept : Kept start writer) (steps : flush writer chunks = some next) : Kept start next := by
  obtain ⟨files, settled, compacting, bucket, applied⟩ := kept
  rw [flush] at steps
  split at steps
  · next isSplit =>
      have rowsSplit : chunks.flatMap Chunk.rows = writer.buffer := of_decide_eq_true isSplit
      have isNew : New writer writer.buffer chunks.length
          (numberFiles writer.nextSequence writer.nextName chunks) :=
        { distinct := number_files_new.1
          names := number_files_new.2
          bounds := rowsSplit ▸ number_files_bounds _ _ chunks
          ordered := number_files_ordered _ _ chunks
          rows := rowsSplit ▸ number_files_rows _ _ chunks }
      have queue := push_all (bucket.queue_ordered isNew)
      cases steps
      rw [queue]
      exact ⟨_, settled, compacting, bucket.flushed isNew,
        fun table applies => (applied table applies).flushed bucket isNew⟩
  · cases steps

end

end

end PaimonCore.Append
