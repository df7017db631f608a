import Mathlib.Algebra.Order.Group.Multiset
import Mathlib.Tactic.Abel
import PaimonCore.Append.BucketOrder

/-!
# The steps of a compaction

A compaction takes neighbours from the bucket, and its outputs lie where its inputs lay. A
compaction that is cancelled or finds nothing to do only takes its inputs out of the queue.
-/

namespace PaimonCore.Append

open List

variable {Row : Type} {start : Table Row} {writer : Writer Row}
  {files settled compacting : List (AppendFile Row)} {table : Table Row}

theorem requeue_split (options : Options) {after toCompact : List (AppendFile Row)}
    (ordered : Ordered (after ++ toCompact)) : ∃ kept again, after = kept ++ again ∧
      requeueLast options after toCompact = again ++ toCompact := by
  rw [requeueLast]
  split
  · exact ⟨after, [], by simp⟩
  · next last isLast =>
      obtain ⟨init, rfl⟩ := getLast?_eq_some_iff.mp isLast
      split
      · refine ⟨init, [last], rfl, push_first ?_⟩
        rw [append_assoc] at ordered
        exact (pairwise_append.mp ordered).2.1
      · exact ⟨init ++ [last], [], by simp⟩

theorem replaced_perm (settled compacting queue after : List (AppendFile Row)) :
    (settled ++ (compacting ++ queue) ++ after).Perm (settled ++ (after ++ queue) ++
      compacting) := by
  rw [← Multiset.coe_eq_coe]
  simp only [← Multiset.coe_add]
  abel

variable {vectors : DeletionVectors}

theorem merge_deletion_file {old new : Option (Option DeletionVectors)}
    (merged : mergeDeletionFile old new = some (some vectors)) :
    new = some (some vectors) ∨ old = some (some vectors) := by
  rw [mergeDeletionFile.eq_def] at merged
  split at merged
  · exact .inr merged
  · exact .inl merged
  · cases merged
  · exact .inr merged

def Writer.taken (writer : Writer Row) (result : CompactResult Row)
    (queue : List (AppendFile Row)) : Writer Row :=
  { writer with
    task := none
    toCompact := queue
    pending := { writer.pending with
      compactBefore := writer.pending.compactBefore ++ result.before
      compactAfter := writer.pending.compactAfter ++ result.after
      deletionFile := mergeDeletionFile writer.pending.deletionFile result.deletionFile } }

section
variable {result : CompactResult Row} {kept again : List (AppendFile Row)}
  (finished : Finished start writer.nextSequence settled compacting writer.toCompact result)
include finished

theorem Bucket.taken (bucket : Bucket start writer files settled compacting)
    (isTask : writer.task = some (.finished result)) (afterSplit : result.after = kept ++ again) :
    Bucket start (writer.taken result (again ++ writer.toCompact))
      (settled ++ (result.after ++ writer.toCompact)) (settled ++ kept) [] := by
  have outputs : produced writer = result.after := by rw [produced, isTask]
  have nodup := bucket.distinct
  have known := bucket.known
  have unmasked := finished.unmasked
  rw [outputs, bucket.split] at nodup known
  have moved := replaced_perm settled compacting writer.toCompact result.after
  -- Both old and new files lie among the old ones and the outputs.
  have keeps : ∀ {vectors : DeletionVectors}, Within vectors start.vectors →
      AgreeOn vectors start.vectors (settled ++ writer.toCompact) →
        AgreeOn vectors start.vectors (settled ++ (result.after ++ writer.toCompact)) := by
    intro vectors within agrees
    apply (agrees.append (within.agree_new unmasked)).mono
    intro file mem
    grind
  constructor
  · rw [afterSplit]
    simp [Writer.taken]
  · exact finished.ordered
  · intro file mem
    have below := bucket.below file
    rw [bucket.split] at below
    simp only [mem_append] at mem below
    rcases mem with isSettled | isAfter | isQueued
    · exact below (.inl isSettled)
    · exact finished.below file isAfter
    · exact below (.inr (.inr isQueued))
  · change (names (_ ++ [])).Nodup
    rw [names_perm moved, names_append, nodup_append] at nodup
    rw [append_nil]
    exact nodup.1
  · intro file mem
    change file ∈ _ ++ [] at mem
    rw [append_nil] at mem
    exact known file (moved.mem_iff.mpr (mem_append_left _ mem))
  · have rows := bucket.rows
    rw [bucket.split] at rows
    simp only [flatMap_append] at rows ⊢
    rw [visible_rows_unmasked unmasked, finished.rows, rows]
    simp [flushedRows, Writer.taken]
  · exact bucket.fresh
  · exact bucket.within
  · have all := keeps bucket.within bucket.agrees
    rw [afterSplit] at all
    change AgreeOn writer.vectors start.vectors (settled ++ kept ++ (again ++ writer.toCompact))
    simpa only [append_assoc] using all
  · intro vectors found
    rcases merge_deletion_file found with new | old
    · obtain ⟨within, agrees⟩ := finished.vectors vectors new
      exact ⟨within, keeps within agrees⟩
    · obtain ⟨within, agrees⟩ := bucket.pendingVectors vectors old
      refine ⟨within, keeps within (agrees.mono ?_)⟩
      rw [bucket.split]
      intro file mem
      grind
  · rfl

theorem Applied.taken (bucket : Bucket start writer files settled compacting)
    (applied : Applied start writer files table) (isTask : writer.task = some (.finished result))
    (queue : List (AppendFile Row)) : Applied start (writer.taken result queue)
      (settled ++ (result.after ++ writer.toCompact)) table := by
  have outputs : produced writer = result.after := by rw [produced, isTask]
  have nodup := applied.distinct
  have known := applied.known
  rw [outputs, append_assoc] at nodup known
  constructor
  · change (table.live ++ writer.pending.newFiles ++
      (writer.pending.compactAfter ++ result.after)).Perm (_ ++
        (writer.pending.compactBefore ++ result.before))
    have balance := applied.balance.append_right result.after
    rw [append_assoc] at balance
    refine balance.trans ?_
    rw [bucket.split, ← finished.before, ← Multiset.coe_eq_coe]
    simp only [← Multiset.coe_add]
    abel
  · change (names (_ ++ [])).Nodup
    rw [append_nil]
    exact nodup
  · intro file mem
    change file ∈ _ ++ [] at mem
    rw [append_nil] at mem
    exact known file mem
  · exact applied.within
  · have agrees := applied.agrees.append (applied.within.agree_new finished.unmasked)
    rw [append_assoc] at agrees
    exact agrees

end

theorem sync_kept (isKept : Kept start writer) : Kept start (sync writer) := by
  obtain ⟨files, settled, compacting, bucket, applied⟩ := isKept
  have view := bucket.task
  rw [sync]
  split
  · exact ⟨files, settled, compacting, bucket, applied⟩
  · exact ⟨files, settled, compacting, bucket, applied⟩
  · next isTask =>
      rw [TaskView, isTask] at view
      have noOutputs : produced { writer with task := none } = produced writer := by
        rw [produced, produced, isTask]
      exact ⟨files, settled, compacting,
        bucket.regroup rfl rfl rfl rfl noOutputs bucket.split bucket.within bucket.agrees view,
        fun table applies => (applied table applies).regroup rfl rfl noOutputs⟩
  · next result isTask =>
      rw [TaskView, isTask] at view
      obtain ⟨kept, again, afterSplit, queue⟩ :=
        requeue_split writer.options (pairwise_append.mp view.ordered).2.1
      rw [queue]
      exact ⟨_, settled ++ kept, [], bucket.taken view isTask afterSplit,
        fun table applies => (applied table applies).taken view bucket isTask _⟩

theorem Bucket.idle (bucket : Bucket start writer files settled compacting)
    (idle : writer.task = none) : compacting = [] := by
  have view := bucket.task
  rwa [TaskView, idle] at view

variable {next : Writer Row} {inputs : List (AppendFile Row)}

theorem start_kept (isKept : Kept start writer) (idle : writer.task = none)
    {passed : List (AppendFile Row)}
    (queue : writer.toCompact = passed ++ (inputs ++ next.toCompact))
    (isNext : next = { writer with toCompact := next.toCompact, task := next.task })
    (task : next.task = none ∧ inputs = [] ∨ ∃ full, next.task = some (.running full inputs)) :
    Kept start next := by
  obtain ⟨files, settled, compacting, bucket, applied⟩ := isKept
  have noOutputs : produced next = produced writer := by
    rw [produced, produced, idle]
    rcases task with ⟨none, -⟩ | ⟨full, running⟩
    · rw [none]
    · rw [running]
  have sameVectors : next.vectors = writer.vectors := by rw [isNext]
  have agrees := bucket.agrees
  rw [queue, ← append_assoc] at agrees
  refine ⟨files, settled ++ passed, inputs, ?_, ?_⟩
  · apply bucket.regroup (by rw [isNext]) (by rw [isNext]) (by rw [isNext])
      (by rw [isNext]) noOutputs
    · rw [bucket.split, bucket.idle idle, queue, nil_append, append_assoc]
    · rw [sameVectors]
      exact bucket.within
    · rw [sameVectors]
      apply agrees.mono
      intro file mem
      grind
    · rw [TaskView]
      rcases task with ⟨none, noInputs⟩ | ⟨full, running⟩
      · rw [none]
        exact noInputs
      · rw [running]
        refine ⟨rfl, sameVectors ▸ agrees.mono ?_⟩
        intro file mem
        simp only [mem_append]
        exact .inr (.inl mem)
  · rw [isNext]
    exact fun table applies => (applied table applies).regroup rfl rfl (isNext ▸ noOutputs)

theorem trigger_full_kept (isKept : Kept start writer) (steps : triggerFull writer = some next) :
    Kept start next := by
  rw [triggerFull] at steps
  split at steps
  · cases steps
  · next idle =>
      split at steps
      · cases steps
        exact isKept
      · cases steps
        have queue : writer.toCompact = [] ++ (writer.toCompact ++ []) := by simp
        exact start_kept isKept idle queue rfl (.inr ⟨true, rfl⟩)

theorem trigger_best_effort_kept (isKept : Kept start writer) :
    Kept start (triggerBestEffort writer) := by
  rw [triggerBestEffort]
  split
  · exact isKept
  · next idle =>
      obtain ⟨files, settled, compacting, bucket, -⟩ := id isKept
      have ordered : Ordered writer.toCompact := by
        have ordered := bucket.ordered
        rw [bucket.split, bucket.idle idle] at ordered
        exact (pairwise_append.mp ordered).2.1
      obtain ⟨passed, queue⟩ := pick_split writer.options ordered
      split
      · next toCompact picks =>
          rw [picks] at queue
          exact start_kept isKept idle queue rfl (.inl ⟨idle, rfl⟩)
      · next picked toCompact picks =>
          rw [picks] at queue
          exact start_kept isKept idle queue rfl (.inr ⟨false, rfl⟩)

theorem remove_vectors_within {restored : DeletionVectors} (within : Within vectors restored) :
    Within (removeVectors inputs vectors) restored := by
  intro name
  rw [removeVectors]
  split
  · exact .inl rfl
  · exact within name

theorem remove_vectors_agree {others : List (AppendFile Row)} {restored : DeletionVectors}
    (agrees : AgreeOn vectors restored others) (nodup : (names (inputs ++ others)).Nodup) :
    AgreeOn (removeVectors inputs vectors) restored others := by
  intro file mem
  rw [removeVectors, if_neg, agrees file mem]
  intro removed
  obtain ⟨input, isInput, same⟩ := any_eq_true.mp removed
  rw [names_append, nodup_append] at nodup
  exact nodup.2.2 _ (mem_names_of_mem isInput) _ (mem_names_of_mem mem) (eq_of_beq same)

theorem compact_result (writer : Writer Row) (inputs outputs : List (AppendFile Row)) :
    ∃ vectors modified deletionFile, compact writer inputs outputs =
        { writer with
          vectors := vectors
          modified := modified
          task := some (.finished ⟨inputs, outputs, deletionFile⟩) } ∧
      (vectors = writer.vectors ∨ vectors = removeVectors inputs writer.vectors) ∧
      ∀ stored, deletionFile = some (some stored) →
        stored = removeVectors inputs writer.vectors := by
  rw [compact]
  split
  · split
    · exact ⟨_, _, none, rfl, .inr rfl, nofun⟩
    · refine ⟨_, _, _, rfl, .inr rfl, ?_⟩
      intro stored same
      split at same
      · cases same
        rfl
      · cases same
  · exact ⟨_, _, none, rfl, .inl rfl, nofun⟩

/-- The outputs lie where the inputs lay: there are no more rows than sequence numbers. -/
theorem outputs_between {front queue : List (AppendFile Row)} {chunks : List (Chunk Row)}
    (ordered : Ordered (front ++ (inputs ++ queue)))
    (rows : chunks.flatMap Chunk.rows = inputs.flatMap (visibleRows vectors)) (name : Nat) :
    Ordered (front ++
      (numberFiles ((inputs.head?.map AppendFile.minSequenceNumber).getD 0) name chunks ++ queue)) ∧
    ∀ file ∈ numberFiles ((inputs.head?.map AppendFile.minSequenceNumber).getD 0) name chunks,
      ∃ input ∈ inputs, file.maxSequenceNumber ≤ input.maxSequenceNumber := by
  cases inputs with
  | nil =>
    have noChunks : chunks = [] := by
      rw [eq_nil_iff_forall_not_mem]
      intro chunk mem
      exact chunk.nonempty (flatMap_eq_nil_iff.mp rows chunk mem)
    subst noChunks
    exact ⟨ordered, nofun⟩
  | cons first rest =>
    have bounds := number_files_bounds first.minSequenceNumber name chunks
    have outputsOrdered := number_files_ordered first.minSequenceNumber name chunks
    obtain ⟨frontOrdered, backOrdered, frontBefore⟩ := pairwise_append.mp ordered
    obtain ⟨inputsOrdered, queueOrdered, inputsBefore⟩ := pairwise_append.mp backOrdered
    have span := visible_rows_span vectors inputsOrdered
    rw [rows] at bounds
    have isLast := getLast_mem (cons_ne_nil first rest)
    generalize (first :: rest).getLast _ = last at span isLast
    constructor
    · refine pairwise_append.mpr ⟨frontOrdered,
        pairwise_append.mpr ⟨outputsOrdered, queueOrdered, ?_⟩, ?_⟩
      · intro output isOutput queued isQueued
        have before := inputsBefore last isLast queued isQueued
        have bound := (bounds output isOutput).2
        omega
      · intro earlier isEarlier other isOther
        rcases mem_append.mp isOther with isOutput | isQueued
        · have before := frontBefore earlier isEarlier first (by simp)
          have bound := (bounds other isOutput).1
          omega
        · exact frontBefore earlier isEarlier other (mem_append_right _ isQueued)
    · intro output isOutput
      have bound := (bounds output isOutput).2
      exact ⟨last, isLast, by omega⟩

section
variable {full : Bool} {inputs : List (AppendFile Row)}

section
variable (isTask : writer.task = some (.running full inputs))
include isTask

theorem Bucket.running_split (bucket : Bucket start writer files settled compacting) :
    files = settled ++ (inputs ++ writer.toCompact) := by
  have view := bucket.task
  rw [TaskView, isTask] at view
  rw [bucket.split, view.1]

theorem Bucket.running_agrees (bucket : Bucket start writer files settled compacting) :
    AgreeOn writer.vectors start.vectors files := by
  have view := bucket.task
  rw [TaskView, isTask] at view
  apply (bucket.agrees.append view.2).mono
  rw [bucket.running_split isTask]
  intro file mem
  grind

theorem running_produces_nothing : produced writer = [] := by
  rw [produced, isTask]

theorem dismiss_kept (isKept : Kept start writer)
    {task : Task Row} (isDismissed : task = .cancelled ∨ task = .finished {}) :
    Kept start { writer with task := some task } := by
  obtain ⟨files, settled, compacting, bucket, applied⟩ := isKept
  have split : files = (settled ++ inputs) ++ ([] ++ writer.toCompact) := by
    rw [bucket.running_split isTask, append_assoc, nil_append]
  have agrees := bucket.running_agrees isTask
  have noOutputs : produced { writer with task := some task } = produced writer := by
    rw [running_produces_nothing isTask]
    rcases isDismissed with rfl | rfl
    · rfl
    · rfl
  refine ⟨files, settled ++ inputs, [], ?_, ?_⟩
  · refine bucket.regroup rfl rfl rfl rfl noOutputs split bucket.within ?_ ?_
    · rw [split] at agrees
      exact agrees
    · rcases isDismissed with rfl | rfl
      · rfl
      · exact
          { before := rfl
            rows := rfl
            ordered := split ▸ bucket.ordered
            below := nofun
            unmasked := nofun
            vectors := nofun }
  · exact fun table applies => (applied table applies).regroup rfl rfl noOutputs

end

theorem Applied.produce {next : Writer Row} {outputs : List (AppendFile Row)} {count : Nat}
    (applied : Applied start writer files table) (noOutputs : produced writer = [])
    (pending : next.pending = writer.pending) (isProduced : produced next = outputs)
    (name : next.nextName = writer.nextName + count) (outputsDistinct : (names outputs).Nodup)
    (outputsNamed : ∀ file ∈ outputs, writer.nextName ≤ file.name ∧
      file.name < writer.nextName + count) :
    Applied start next files table := by
  have known := applied.known
  have nodup := applied.distinct
  rw [noOutputs, append_nil] at known nodup
  constructor
  · rw [pending]
    exact applied.balance
  · rw [pending, isProduced]
    exact names_with_new nodup outputsDistinct known (fun file mem => (outputsNamed file mem).1)
  · rw [pending, isProduced, name]
    intro file mem
    rcases mem_append.mp mem with isOld | isOutput
    · have := known file isOld
      omega
    · exact (outputsNamed file isOutput).2
  · exact applied.within
  · rw [pending]
    exact applied.agrees

theorem rewrite_kept [DecidableEq Row] {passed left : List (AppendFile Row)}
    {chunks : List (Chunk Row)} {next : Writer Row} (isKept : Kept start writer)
    (isTask : writer.task = some (.running full inputs)) (inputsSplit : inputs = passed ++ left)
    (steps : rewrite writer left chunks = some next) : Kept start next := by
  obtain ⟨files, settled, compacting, bucket, applied⟩ := isKept
  have agrees := bucket.running_agrees isTask
  have ordered := bucket.ordered
  have noOutputs := running_produces_nothing isTask
  have split : files = (settled ++ passed) ++ (left ++ writer.toCompact) := by
    rw [bucket.running_split isTask, inputsSplit]
    simp
  have isFile : left ⊆ files := by
    intro file mem
    rw [split]
    simp [mem]
  rw [rewrite] at steps
  split at steps
  · next isSplit =>
      have rows : chunks.flatMap Chunk.rows = left.flatMap (visibleRows writer.vectors) :=
        of_decide_eq_true isSplit
      rw [split] at ordered
      obtain ⟨outputsOrdered, outputsBelow⟩ := outputs_between ordered rows writer.nextName
      have outputRows := number_files_rows
        ((left.head?.map AppendFile.minSequenceNumber).getD 0) writer.nextName chunks
      obtain ⟨outputsDistinct, outputsNamed⟩ := @number_files_new Row
        ((left.head?.map AppendFile.minSequenceNumber).getD 0) writer.nextName chunks
      cases steps
      generalize numberFiles _ _ _ = outputs at *
      obtain ⟨vectors, modified, deletionFile, isCompact, isVectors, isStored⟩ :=
        compact_result { writer with nextName := writer.nextName + chunks.length } left outputs
      rw [isCompact]
      have known := bucket.known
      have nodup := bucket.distinct
      rw [noOutputs, append_nil] at known nodup
      -- The vectors that stay are those of all files but the inputs.
      have removedAgrees : AgreeOn (removeVectors left writer.vectors) start.vectors
          (settled ++ passed ++ writer.toCompact) := by
        apply remove_vectors_agree
        · apply agrees.mono
          intro file mem
          grind
        · rw [split] at nodup
          refine (names_perm ?_).mp nodup
          rw [← append_assoc, ← append_assoc]
          exact perm_append_comm.append_right _
      have unmasked : ∀ file ∈ outputs, start.vectors file.name = none :=
        fun file mem => bucket.fresh file.name (outputsNamed file mem).1
      refine ⟨files, settled ++ passed, left, ?_, ?_⟩
      · constructor
        · exact split
        · exact bucket.ordered
        · exact bucket.below
        · exact names_with_new nodup outputsDistinct known (fun file mem =>
            (outputsNamed file mem).1)
        · intro file mem
          change file.name < writer.nextName + chunks.length
          rcases mem_append.mp mem with isOld | isOutput
          · have := known file isOld
            omega
          · exact (outputsNamed file isOutput).2
        · exact bucket.rows
        · intro name above
          change writer.nextName + chunks.length ≤ name at above
          exact bucket.fresh name (by omega)
        · rcases isVectors with rfl | rfl
          · exact bucket.within
          · exact remove_vectors_within bucket.within
        · rcases isVectors with rfl | rfl
          · apply agrees.mono
            intro file mem
            grind
          · exact removedAgrees
        · exact bucket.pendingVectors
        · exact
            { before := rfl
              rows := by rw [outputRows, rows, visible_rows_agree (agrees.mono isFile)]
              ordered := outputsOrdered
              below := by
                intro file mem
                obtain ⟨input, isInput, bound⟩ := outputsBelow file mem
                exact lt_of_le_of_lt bound (bucket.below input (isFile isInput))
              unmasked := unmasked
              vectors := by
                intro stored same
                rw [isStored stored same]
                exact ⟨remove_vectors_within bucket.within, removedAgrees⟩ }
      · exact fun table applies => (applied table applies).produce noOutputs rfl rfl rfl
          outputsDistinct outputsNamed
  · cases steps

end

theorem finish_kept [DecidableEq Row] {chunks : List (Chunk Row)} (isKept : Kept start writer)
    (steps : finish writer chunks = some next) : Kept start next := by
  rw [finish] at steps
  split at steps
  · next inputs isTask => exact rewrite_kept isKept isTask (nil_append inputs).symm steps
  · next inputs isTask =>
      obtain ⟨passed, split⟩ := full_inputs_split writer.options writer.vectors inputs
      dsimp only at steps
      split at steps
      · exact rewrite_kept isKept isTask split steps
      · split at steps
        · cases steps
          exact dismiss_kept isTask isKept (.inr rfl)
        · cases steps
  · cases steps

theorem cancel_kept (isKept : Kept start writer) (steps : cancel writer = some next) :
    Kept start next := by
  rw [cancel] at steps
  split at steps
  · next isTask =>
      cases steps
      exact dismiss_kept isTask isKept (.inl rfl)
  · cases steps

end PaimonCore.Append
