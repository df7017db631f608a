import Mathlib.Data.List.Sort

/-!
# `BucketedAppendCompactManager`

The files of a bucket of an append table that may still be compacted wait in a queue in the
order of their sequence numbers. A best-effort compaction takes a window of neighbours from the
queue, a full compaction takes all of it.
-/

namespace PaimonCore.Append

open List

variable {Row : Type}

/-- The rows that a writer puts into one file, and the size the file gets. -/
structure Chunk (Row : Type) where
  rows : List Row
  fileSize : Int
  nonempty : rows ≠ []

/-- The fields of a data file that matter here. Writers number the rows of a file. -/
structure AppendFile (Row : Type) where
  name : Nat
  fileSize : Int
  minSequenceNumber : Int
  maxSequenceNumber : Int
  rows : List Row
  nonempty : rows ≠ []
  numbered : (rows.length : Int) ≤ maxSequenceNumber - minSequenceNumber + 1

theorem AppendFile.ordered (file : AppendFile Row) :
    file.minSequenceNumber ≤ file.maxSequenceNumber := by
  have rows := length_pos_iff.mpr file.nonempty
  have numbered := file.numbered
  omega

/-- The files of a rolling writer: numbered on from the counter. -/
def numberFiles : Int → Nat → List (Chunk Row) → List (AppendFile Row)
  | _, _, [] => []
  | sequence, name, chunk :: rest =>
    { name := name
      fileSize := chunk.fileSize
      minSequenceNumber := sequence
      maxSequenceNumber := sequence + chunk.rows.length - 1
      rows := chunk.rows
      nonempty := chunk.nonempty
      numbered := by omega } :: numberFiles (sequence + chunk.rows.length) (name + 1) rest

/-- The deleted positions of each file that has a deletion vector. -/
abbrev DeletionVectors := Nat → Option (List Nat)

def visibleRows (vectors : DeletionVectors) (file : AppendFile Row) : List Row :=
  match vectors file.name with
  | none => file.rows
  | some deleted =>
    (file.rows.zipIdx.filter (fun entry => decide (entry.2 ∉ deleted))).map Prod.fst

structure Options where
  minFileNum : Int
  targetFileSize : Int
  compactionFileSize : Int
  forceRewriteAllFiles : Bool
  /-- Deletion vectors are kept, that is `dv_maintainer_` is not null. -/
  deletionVectors : Bool
  materializeDvOnCommit : Bool

/-- The queue is kept in the order in which the files leave it. -/
def pushFile (file : AppendFile Row) (toCompact : List (AppendFile Row)) : List (AppendFile Row) :=
  toCompact.orderedInsert (fun lhs rhs => lhs.minSequenceNumber ≤ rhs.minSequenceNumber) file

/-- The loop of `PickCompactBefore`: what is picked, and the queue that is left. -/
def pickLoop (options : Options) : List (AppendFile Row) → List (AppendFile Row) → Int →
      Option (List (AppendFile Row)) × List (AppendFile Row)
  | [], candidates, _ => (none, candidates.foldl (fun queue file => pushFile file queue) [])
  | file :: toCompact, candidates, totalFileSize =>
    let candidates := candidates ++ [file]
    let totalFileSize := totalFileSize + file.fileSize
    if options.minFileNum ≤ candidates.length then (some candidates, toCompact)
    else if options.targetFileSize * 2 ≤ totalFileSize then
      -- The window moves on, and the oldest file is not looked at again.
      match candidates with
      | [] => pickLoop options toCompact [] totalFileSize
      | removed :: kept => pickLoop options toCompact kept (totalFileSize - removed.fileSize)
    else pickLoop options toCompact candidates totalFileSize

def pickCompactBefore (options : Options) (toCompact : List (AppendFile Row)) :
    Option (List (AppendFile Row)) × List (AppendFile Row) :=
  pickLoop options toCompact [] 0

def fullCompactMinFile : Nat := 3

/-- The files that a full compaction does not look at: large ones at the front. -/
def isLarge (options : Options) (vectors : DeletionVectors) (file : AppendFile Row) : Bool :=
  decide (options.compactionFileSize ≤ file.fileSize) &&
    !(options.deletionVectors && (vectors file.name).isSome)

def fullInputs (options : Options) (vectors : DeletionVectors) (inputs : List (AppendFile Row)) :
    List (AppendFile Row) :=
  if options.forceRewriteAllFiles then inputs else inputs.dropWhile (isLarge options vectors)

/-- Whether `FullCompactTask::DoCompact` rewrites what is left. -/
def fullRewrites (options : Options) (inputs : List (AppendFile Row)) : Bool :=
  let big := inputs.countP (fun file => decide (options.compactionFileSize ≤ file.fileSize))
  let small := inputs.countP (fun file => decide (file.fileSize < options.compactionFileSize))
  options.deletionVectors || options.forceRewriteAllFiles ||
    (decide (big < small) && decide (fullCompactMinFile ≤ inputs.length))

/-- A deletion file that was generated, or `none` because no vector was removed. -/
structure CompactResult (Row : Type) where
  before : List (AppendFile Row) := []
  after : List (AppendFile Row) := []
  deletionFile : Option (Option DeletionVectors) := none

inductive Task (Row : Type) where
  | running (full : Bool) (inputs : List (AppendFile Row))
  | cancelled
  | finished (result : CompactResult Row)

def Ordered (files : List (AppendFile Row)) : Prop :=
  files.Pairwise (fun left right => left.maxSequenceNumber < right.minSequenceNumber)

theorem push_last {file : AppendFile Row} {queue : List (AppendFile Row)}
    (ordered : Ordered (queue ++ [file])) : pushFile file queue = queue ++ [file] := by
  induction queue with
  | nil => rfl
  | cons first rest ih =>
    obtain ⟨firstBefore, restOrdered⟩ := pairwise_cons.mp ordered
    have before := firstBefore file (by simp)
    have firstOrdered := first.ordered
    rw [pushFile, orderedInsert_cons, if_neg (by omega)]
    exact congrArg (List.cons first) (ih restOrdered)

theorem push_first {file : AppendFile Row} {queue : List (AppendFile Row)}
    (ordered : Ordered (file :: queue)) : pushFile file queue = file :: queue := by
  cases queue with
  | nil => rfl
  | cons first rest =>
    have before := (pairwise_cons.mp ordered).1 first (by simp)
    have fileOrdered := file.ordered
    rw [pushFile, orderedInsert_cons, if_pos (by omega)]

theorem push_all {files queue : List (AppendFile Row)} (ordered : Ordered (queue ++ files)) :
    files.foldl (fun queue file => pushFile file queue) queue = queue ++ files := by
  induction files generalizing queue with
  | nil => simp
  | cons file rest ih =>
    have split : queue ++ file :: rest = (queue ++ [file]) ++ rest := by simp
    rw [split] at ordered ⊢
    rw [foldl_cons, push_last (pairwise_append.mp ordered).1]
    exact ih ordered

/-- The window is a stretch of the queue; the files before it leave the queue for good. -/
theorem pick_loop_split (options : Options) {toCompact candidates : List (AppendFile Row)}
    (ordered : Ordered (candidates ++ toCompact)) (totalFileSize : Int) :
    ∃ passed, candidates ++ toCompact = passed ++
      ((pickLoop options toCompact candidates totalFileSize).1.getD [] ++
        (pickLoop options toCompact candidates totalFileSize).2) := by
  induction toCompact generalizing candidates totalFileSize with
  | nil =>
    refine ⟨[], ?_⟩
    rw [pickLoop]
    have again := push_all (show Ordered ([] ++ candidates) by simpa using ordered)
    simp only [Option.getD_none, nil_append, append_nil]
    exact again.symm
  | cons file rest ih =>
    have moved : candidates ++ file :: rest = (candidates ++ [file]) ++ rest := by simp
    rw [moved] at ordered ⊢
    rw [pickLoop]
    split
    · exact ⟨[], by simp⟩
    · split
      · split
        · next no => simp at no
        · next removed kept same =>
            rw [same] at ordered ⊢
            obtain ⟨passed, split⟩ := @ih kept (pairwise_cons.mp ordered).2
              (totalFileSize + file.fileSize - removed.fileSize)
            exact ⟨removed :: passed, by rw [cons_append, split, cons_append]⟩
      · exact ih ordered _

theorem pick_split (options : Options) {toCompact : List (AppendFile Row)}
    (ordered : Ordered toCompact) :
    ∃ passed, toCompact = passed ++ ((pickCompactBefore options toCompact).1.getD [] ++
      (pickCompactBefore options toCompact).2) :=
  pick_loop_split options (show Ordered ([] ++ toCompact) from ordered) 0

theorem full_inputs_split (options : Options) (vectors : DeletionVectors)
    (inputs : List (AppendFile Row)) :
    ∃ passed, inputs = passed ++ fullInputs options vectors inputs := by
  rw [fullInputs]
  split
  · exact ⟨[], rfl⟩
  · exact ⟨inputs.takeWhile (isLarge options vectors), (takeWhile_append_dropWhile).symm⟩

section
variable (sequence : Int) (name : Nat) (chunks : List (Chunk Row))
include sequence name chunks

theorem number_files_rows :
    (numberFiles sequence name chunks).flatMap AppendFile.rows = chunks.flatMap Chunk.rows := by
  induction chunks generalizing sequence name with
  | nil => rfl
  | cons chunk rest ih => simp [numberFiles, ih]

theorem number_files_names :
    (numberFiles sequence name chunks).map AppendFile.name = List.range' name chunks.length := by
  induction chunks generalizing sequence name with
  | nil => rfl
  | cons chunk rest ih =>
    rw [numberFiles, map_cons, ih, length_cons, List.range'_succ]

theorem number_files_bounds :
    ∀ file ∈ numberFiles sequence name chunks, sequence ≤ file.minSequenceNumber ∧
      file.maxSequenceNumber < sequence + (chunks.flatMap Chunk.rows).length := by
  induction chunks generalizing sequence name with
  | nil => simp [numberFiles]
  | cons chunk rest ih =>
    intro file mem
    rw [flatMap_cons, length_append]
    rcases mem_cons.mp mem with rfl | mem
    · dsimp only
      omega
    · have bounds := ih (sequence + chunk.rows.length) (name + 1) file mem
      omega

theorem number_files_ordered : Ordered (numberFiles sequence name chunks) := by
  induction chunks generalizing sequence name with
  | nil => exact .nil
  | cons chunk rest ih =>
    rw [numberFiles]
    refine pairwise_cons.mpr ⟨?_, ih _ _⟩
    intro file mem
    have bounds := number_files_bounds _ _ _ file mem
    dsimp only
    omega

end

theorem visible_rows_length (vectors : DeletionVectors) (file : AppendFile Row) :
    (visibleRows vectors file).length ≤ file.rows.length := by
  rw [visibleRows]
  split
  · exact Nat.le_refl _
  · rw [length_map]
    exact Nat.le_trans (length_filter_le _ _) (by rw [length_zipIdx])

theorem visible_rows_span (vectors : DeletionVectors) {first : AppendFile Row}
    {rest : List (AppendFile Row)} (ordered : Ordered (first :: rest)) :
    first.minSequenceNumber + ((first :: rest).flatMap (visibleRows vectors)).length ≤
      ((first :: rest).getLast (by simp)).maxSequenceNumber + 1 := by
  induction rest generalizing first with
  | nil =>
    have visible := visible_rows_length vectors first
    have numbered := first.numbered
    simp only [flatMap_cons, flatMap_nil, append_nil, getLast_singleton]
    omega
  | cons second rest ih =>
    obtain ⟨before, restOrdered⟩ := pairwise_cons.mp ordered
    have next := before second (by simp)
    have visible := visible_rows_length vectors first
    have numbered := first.numbered
    have span := ih restOrdered
    rw [getLast_cons (by simp), flatMap_cons, length_append]
    omega

end PaimonCore.Append
