import PaimonCore.Append.CompactionSteps

/-!
# Compaction keeps the append order

In every run of the writer, the drained increments and the one that is being collected can be
applied and leave the rows of the table followed by the flushed ones, as long as no compaction
takes an output as input that was not drained yet.
-/

namespace PaimonCore.Append

open Programs Runs List

variable {Row : Type} {start : Table Row} {writer : Writer Row}
  {files settled compacting : List (AppendFile Row)} {table : Table Row}

def Apart (left right : AppendFile Row) : Prop :=
  left.maxSequenceNumber < right.minSequenceNumber ∨
    right.maxSequenceNumber < left.minSequenceNumber

instance apartSymmetric : Std.Symm (Apart : AppendFile Row → AppendFile Row → Prop) :=
  ⟨fun _ _ => Or.symm⟩

theorem Ordered.apart (ordered : Ordered files) : files.Pairwise Apart :=
  ordered.imp .inl

theorem Ordered.ascending (ordered : Ordered files) :
    files.Pairwise (fun left right => left.minSequenceNumber ≤ right.minSequenceNumber) := by
  apply ordered.imp
  intro left right before
  have leftOrdered := left.ordered
  omega

theorem ordered_unique {left right : List (AppendFile Row)} (leftAscending :
      left.Pairwise (fun first second => first.minSequenceNumber ≤ second.minSequenceNumber))
    (rightOrdered : Ordered right) (perm : left.Perm right) : left = right := by
  refine Perm.eq_of_pairwise ?_ leftAscending rightOrdered.ascending perm
  intro first second isFirst isSecond lower upper
  by_contra differs
  have apart := rightOrdered.apart.forall (perm.mem_iff.mp isFirst) isSecond differs
  have firstOrdered := first.ordered
  have secondOrdered := second.ordered
  rcases apart with before | before <;> omega

theorem ordered_of_ascending (ascending :
      files.Pairwise (fun left right => left.minSequenceNumber ≤ right.minSequenceNumber))
    (apart : files.Pairwise Apart) : Ordered files := by
  apply (ascending.and apart).imp
  rintro left right ⟨lower, before | after⟩
  · exact before
  · have rightOrdered := right.ordered
    omega

theorem read_order_perm (files : List (AppendFile Row)) : (readOrder files).Perm files :=
  perm_insertionSort _ _

theorem read_order_ascending (files : List (AppendFile Row)) : (readOrder files).Pairwise
      (fun left right => left.minSequenceNumber ≤ right.minSequenceNumber) :=
  pairwise_insertionSort _ _

/-- No file of the increment is an input and an output. -/
def NoReuse (increment : Increment Row) : Prop :=
  ∀ input ∈ increment.compactBefore, input.name ∉ names increment.compactAfter

theorem no_reuse_empty : NoReuse ({} : Increment Row) := by
  intro input isInput
  cases isInput

structure Reads (start table : Table Row) (flushed : List Row) : Prop where
  apart : table.live.Pairwise Apart
  rows : table.rows = start.rows ++ flushed

theorem Applied.before_distinct (applied : Applied start writer files table) :
    (names (files ++ writer.pending.compactBefore)).Nodup := by
  have nodup := applied.distinct
  rw [names_append, nodup_append] at nodup
  exact (names_perm applied.balance).mp nodup.1

theorem without_inputs {old before after : List (AppendFile Row)}
    (balance : (old ++ after).Perm (files ++ before))
    (filesApart : ∀ file ∈ files, file.name ∉ names before)
    (beforeApart : ∀ input ∈ before, input.name ∉ names after) :
    (old.filter (fun file => decide (file.name ∉ names before)) ++ after).Perm files := by
  have filtered := balance.filter (fun file => decide (file.name ∉ names before))
  have afterStays : after.filter (fun file => decide (file.name ∉ names before)) = after := by
    rw [filter_eq_self]
    intro file isAfter
    rw [decide_eq_true_iff]
    intro isBefore
    obtain ⟨input, isInput, same⟩ := mem_names.mp isBefore
    exact beforeApart input isInput (same ▸ mem_names_of_mem isAfter)
  have filesStay : files.filter (fun file => decide (file.name ∉ names before)) = files := by
    rw [filter_eq_self]
    intro file isFile
    exact decide_eq_true (filesApart file isFile)
  have inputsGo : before.filter (fun file => decide (file.name ∉ names before)) = [] := by
    rw [filter_eq_nil_iff]
    intro file isInput
    simpa using mem_names_of_mem isInput
  rwa [filter_append, filter_append files, afterStays, filesStay, inputsGo, append_nil] at filtered

theorem apply_pending (applied : Applied start writer files table)
    (bucket : Bucket start writer files settled compacting) (noReuse : NoReuse writer.pending) :
    ∃ after, applyIncrement table writer.pending = .ok after ∧ after.live.Perm files ∧
      Within after.vectors start.vectors ∧ AgreeOn after.vectors start.vectors files := by
  have beforeDistinct := applied.before_distinct
  have nodup := applied.distinct
  rw [names_append, nodup_append] at nodup beforeDistinct
  have appended : (names (table.live ++ writer.pending.newFiles)).Nodup := by
    have all := nodup.1
    rw [names_append, nodup_append] at all
    exact all.1
  have compacts := @commit_compacts Row (table.live ++ writer.pending.newFiles)
    writer.pending.compactBefore writer.pending.compactAfter nodup.1 beforeDistinct.2.1 (by
      intro input isInput
      have isThere := applied.balance.mem_iff.mpr (mem_append_right files isInput)
      rcases mem_append.mp isThere with isOld | isAfter
      · exact mem_names_of_mem isOld
      · exact absurd (mem_names_of_mem isAfter) (noReuse input isInput)) noReuse
  have left := without_inputs applied.balance (fun file isFile isBefore =>
      beforeDistinct.2.2 _ (mem_names_of_mem isFile) _ isBefore rfl) noReuse
  refine ⟨_, Programs.bind_eq_ok.mpr ⟨_, commit_appends appended,
    Programs.bind_eq_ok.mpr ⟨_, compacts, rfl⟩⟩, left, ?_⟩
  split
  · next vectors found => exact bucket.pendingVectors vectors found
  · refine ⟨applied.within, applied.agrees.mono ?_⟩
    intro file isFile
    exact applied.balance.mem_iff.mpr (mem_append_left _ isFile)

theorem apply_reused_fails (applied : Applied start writer files table)
    (reused : ¬NoReuse writer.pending) :
    ∃ error, applyIncrement table writer.pending = .error error := by
  have beforeDistinct := applied.before_distinct
  rw [names_append, nodup_append] at beforeDistinct
  rw [NoReuse] at reused
  push Not at reused
  obtain ⟨input, isInput, isAfter⟩ := reused
  obtain ⟨output, isOutput, same⟩ := mem_names.mp isAfter
  rw [applyIncrement]
  cases commitChanges table.live (writer.pending.newFiles.map (fun file => (.add, file))) with
  | error error => exact ⟨error, rfl⟩
  | ok appended =>
    obtain ⟨error, fails⟩ := @commit_reuse_fails Row appended _ _ input output
      beforeDistinct.2.1 isInput isOutput same.symm
    refine ⟨error, ?_⟩
    change (commitChanges appended (deletes writer.pending.compactBefore ++
      adds writer.pending.compactAfter) >>= _) = _
    rw [fails]
    rfl

theorem apply_all_last {increments : List (Increment Row)} {last : Increment Row}
    {after : Table Row} :
    applyAll start (increments ++ [last]) = .ok after ↔
      ∃ table, applyAll start increments = .ok table ∧ applyIncrement table last = .ok after := by
  rw [applyAll, foldlM_append]
  simp only [foldlM_cons, foldlM_nil, bind_pure]
  exact bind_eq_ok

theorem drain_kept (isKept : Kept start writer) : Kept start (drain writer) := by
  obtain ⟨files, settled, compacting, bucket, applied⟩ := isKept
  refine ⟨files, settled, compacting, ?_, ?_⟩
  · exact
      { split := bucket.split
        ordered := bucket.ordered
        below := bucket.below
        distinct := bucket.distinct
        known := bucket.known
        rows := by
          rw [bucket.rows]
          simp [flushedRows, drain]
        fresh := bucket.fresh
        within := bucket.within
        agrees := bucket.agrees
        pendingVectors := nofun
        task := bucket.task }
  · intro table applies
    obtain ⟨earlier, appliesEarlier, appliesLast⟩ := apply_all_last.mp applies
    have before := applied earlier appliesEarlier
    have noReuse : NoReuse writer.pending := by
      by_contra reused
      obtain ⟨error, fails⟩ := apply_reused_fails before reused
      rw [fails] at appliesLast
      cases appliesLast
    obtain ⟨after, applies, perm, within, agrees⟩ := apply_pending before bucket noReuse
    rw [applies] at appliesLast
    cases appliesLast
    have same :
        ∀ rest : List (AppendFile Row), (table.live ++ [] ++ [] ++ rest).Perm (files ++ rest) := by
      intro rest
      rw [append_nil, append_nil]
      exact perm.append_right rest
    exact
      { balance := by
          have moved := same []
          rw [append_nil] at moved
          exact moved
        distinct := (names_perm (same _)).mpr bucket.distinct
        known := fun file mem => bucket.known file ((same _).mem_iff.mp mem)
        within := within
        agrees := by
          apply agrees.mono
          intro file mem
          exact perm.mem_iff.mp (by simpa [drain] using mem) }

variable {next : Writer Row} {operation : Operation Row}

theorem step_kept [DecidableEq Row] (isKept : Kept start writer)
    (steps : step writer operation = some next) : Kept start next := by
  cases operation with
  | write rows =>
    cases steps
    exact write_kept isKept rows
  | flush chunks => exact flush_kept isKept steps
  | sync =>
    cases steps
    exact sync_kept isKept
  | trigger full =>
    cases full with
    | true => exact trigger_full_kept isKept steps
    | false =>
      cases steps
      exact trigger_best_effort_kept isKept
  | finish chunks => exact finish_kept isKept steps
  | cancel => exact cancel_kept isKept steps
  | drain =>
    cases steps
    exact drain_kept isKept

/-- All increments can be applied, and the table then has its rows followed by those that were
flushed. -/
def Right (start : Table Row) (writer : Writer Row) : Prop :=
  ∃ table, applyAll start (writer.emitted ++ [writer.pending]) = .ok table ∧
    Reads start table (flushedRows writer)

theorem right_iff (isKept : Kept start writer) : Right start writer ↔
      (∃ table, applyAll start writer.emitted = .ok table) ∧ NoReuse writer.pending := by
  obtain ⟨files, settled, compacting, bucket, applied⟩ := isKept
  constructor
  · rintro ⟨after, applies, -⟩
    obtain ⟨table, appliesEarlier, appliesLast⟩ := apply_all_last.mp applies
    refine ⟨⟨table, appliesEarlier⟩, ?_⟩
    by_contra reused
    obtain ⟨error, fails⟩ := apply_reused_fails (applied table appliesEarlier) reused
    rw [fails] at appliesLast
    cases appliesLast
  · rintro ⟨⟨table, applies⟩, noReuse⟩
    obtain ⟨after, appliesLast, perm, -, agrees⟩ :=
      apply_pending (applied table applies) bucket noReuse
    refine ⟨after, apply_all_last.mpr ⟨table, applies, appliesLast⟩, ?_, ?_⟩
    · exact (perm.pairwise_iff Or.symm).mpr bucket.ordered.apart
    · have order := ordered_unique (read_order_ascending after.live) bucket.ordered
        ((read_order_perm after.live).trans perm)
      rw [Table.rows, order, visible_rows_agree agrees, bucket.rows]

/-- A result is taken over none of whose inputs is an output that was not drained yet. -/
def TakesNothingBack (writer : Writer Row) : Prop :=
  ∀ result, writer.task = some (.finished result) →
    ∀ input ∈ result.before, input.name ∉ names writer.pending.compactAfter

instance takesNothingBackDecidable (writer : Writer Row) : Decidable (TakesNothingBack writer) :=
  match isTask : writer.task with
  | some (.finished result) =>
    decidable_of_iff (∀ input ∈ result.before, input.name ∉ names writer.pending.compactAfter)
      (by simp [TakesNothingBack, isTask])
  | some (.running _ _) => isTrue (by simp [TakesNothingBack, isTask])
  | some .cancelled => isTrue (by simp [TakesNothingBack, isTask])
  | none => isTrue (by simp [TakesNothingBack, isTask])

theorem sync_reuse (isKept : Kept start writer)
    (applies : ∃ table, applyAll start writer.emitted = .ok table)
    (noReuse : NoReuse writer.pending) :
    NoReuse (sync writer).pending ↔ TakesNothingBack writer := by
  obtain ⟨files, settled, compacting, bucket, applied⟩ := isKept
  obtain ⟨table, applies⟩ := applies
  have before := applied table applies
  rw [sync, TakesNothingBack]
  split
  · next isTask => simp [noReuse, isTask]
  · next isTask => simp [noReuse, isTask]
  · next isTask => simp [noReuse, isTask]
  · next result isTask =>
      have outputs : produced writer = result.after := by rw [produced, isTask]
      have view := bucket.task
      rw [TaskView, isTask] at view
      have nodup := before.distinct
      rw [outputs, names_append, nodup_append] at nodup
      have fresh : ∀ input ∈ writer.pending.compactBefore ++ result.before,
          input.name ∉ names result.after := by
        intro input isInput isOutput
        have isThere : input ∈ files ++ writer.pending.compactBefore := by
          rcases mem_append.mp isInput with isOld | isNew
          · exact mem_append_right _ isOld
          · rw [← view.before] at isNew
            rw [bucket.split]
            simp [isNew]
        exact nodup.2.2 _ (mem_names_of_mem (before.balance.mem_iff.mpr isThere)) _ isOutput rfl
      constructor
      · intro stillNone other same input isInput known
        rw [isTask] at same
        cases same
        apply stillNone input (mem_append_right _ isInput)
        rw [names_append]
        exact mem_append_left _ known
      · intro nothingBack input isInput known
        rw [names_append] at known
        rcases mem_append.mp known with isOld | isNew
        · rcases mem_append.mp isInput with isBefore | isBefore
          · exact noReuse input isBefore isOld
          · exact nothingBack result isTask input isBefore isOld
        · exact fresh input isInput isNew

variable {chunks : List (Chunk Row)}

theorem flush_fields [DecidableEq Row] (steps : flush writer chunks = some next) :
    next.emitted = writer.emitted ∧ next.pending.compactBefore = writer.pending.compactBefore ∧
      next.pending.compactAfter = writer.pending.compactAfter ∧
      flushedRows next ++ next.buffer = flushedRows writer ++ writer.buffer := by
  rw [flush] at steps
  split at steps
  · next isSplit =>
      have rows := number_files_rows writer.nextSequence writer.nextName chunks
      rw [show chunks.flatMap Chunk.rows = writer.buffer from of_decide_eq_true isSplit] at rows
      cases steps
      exact ⟨rfl, rfl, rfl, by simp [flushedRows, rows]⟩
  · cases steps

/-- A task changes neither what was collected nor what was drained. -/
structure SameIncrements (writer next : Writer Row) : Prop where
  emitted : next.emitted = writer.emitted
  pending : next.pending = writer.pending
  buffer : next.buffer = writer.buffer

theorem trigger_full_same (steps : triggerFull writer = some next) :
    SameIncrements writer next := by
  rw [triggerFull] at steps
  split at steps
  · cases steps
  · split at steps
    · cases steps
      exact ⟨rfl, rfl, rfl⟩
    · cases steps
      exact ⟨rfl, rfl, rfl⟩

theorem trigger_best_effort_same (writer : Writer Row) :
    SameIncrements writer (triggerBestEffort writer) := by
  rw [triggerBestEffort]
  split
  · exact ⟨rfl, rfl, rfl⟩
  · split
    · exact ⟨rfl, rfl, rfl⟩
    · exact ⟨rfl, rfl, rfl⟩

theorem rewrite_same [DecidableEq Row] {inputs : List (AppendFile Row)}
    (steps : rewrite writer inputs chunks = some next) : SameIncrements writer next := by
  rw [rewrite] at steps
  split at steps
  · obtain ⟨_, _, _, isCompact, -⟩ :=
      compact_result { writer with nextName := writer.nextName + chunks.length } inputs
        (numberFiles ((inputs.head?.map AppendFile.minSequenceNumber).getD 0)
          writer.nextName chunks)
    cases steps
    rw [isCompact]
    exact ⟨rfl, rfl, rfl⟩
  · cases steps

theorem finish_same [DecidableEq Row] (steps : finish writer chunks = some next) :
    SameIncrements writer next := by
  rw [finish] at steps
  split at steps
  · exact rewrite_same steps
  · dsimp only at steps
    split at steps
    · exact rewrite_same steps
    · split at steps
      · cases steps
        exact ⟨rfl, rfl, rfl⟩
      · cases steps
  · cases steps

theorem cancel_same (steps : cancel writer = some next) : SameIncrements writer next := by
  rw [cancel] at steps
  split at steps
  · cases steps
    exact ⟨rfl, rfl, rfl⟩
  · cases steps

theorem SameIncrements.right (same : SameIncrements writer next) (right : Right start writer) :
    Right start next := by
  rw [Right, flushedRows, same.emitted, same.pending]
  exact right

/-- The condition of an operation: only taking over a result has one. -/
def Meets (writer : Writer Row) : Operation Row → Prop
  | .sync => TakesNothingBack writer
  | _ => True

instance meetsDecidable (writer : Writer Row) (operation : Operation Row) :
    Decidable (Meets writer operation) :=
  match operation with
  | .sync => inferInstanceAs (Decidable (TakesNothingBack writer))
  | .write _ | .flush _ | .trigger _ | .finish _ | .cancel | .drain => isTrue trivial

theorem right_step [DecidableEq Row] (isKept : Kept start writer) (right : Right start writer)
    (steps : step writer operation = some next) : Right start next ↔ Meets writer operation := by
  have nextKept := step_kept isKept steps
  have before := (right_iff isKept).mp right
  cases operation with
  | write rows =>
    cases steps
    exact iff_of_true ((right_iff nextKept).mpr before) trivial
  | flush chunks =>
    obtain ⟨emitted, compactBefore, compactAfter, -⟩ := flush_fields steps
    refine iff_of_true ((right_iff nextKept).mpr ?_) trivial
    rw [emitted, NoReuse, compactBefore, compactAfter]
    exact before
  | sync =>
    cases steps
    have emitted : (sync writer).emitted = writer.emitted := by
      rw [sync]
      split <;> rfl
    rw [right_iff nextKept, emitted, sync_reuse isKept before.1 before.2]
    exact and_iff_right before.1
  | trigger full =>
    cases full with
    | true => exact iff_of_true ((trigger_full_same steps).right right) trivial
    | false =>
      cases steps
      exact iff_of_true ((trigger_best_effort_same writer).right right) trivial
  | finish chunks => exact iff_of_true ((finish_same steps).right right) trivial
  | cancel => exact iff_of_true ((cancel_same steps).right right) trivial
  | drain =>
    cases steps
    obtain ⟨table, applies, -⟩ := right
    exact iff_of_true ((right_iff nextKept).mpr ⟨⟨table, applies⟩, no_reuse_empty⟩) trivial

/-- The files that a writer is opened on, and names that are not in use. -/
structure Restorable (options : Options) (start : Table Row) (nextName : Nat) : Prop where
  apart : start.live.Pairwise Apart
  distinct : (names start.live).Nodup
  known : ∀ file ∈ start.live, file.name < nextName
  fresh : ∀ name, nextName ≤ name → start.vectors name = none
  unmasked : options.deletionVectors = false → ∀ name, start.vectors name = none

theorem push_perm (files queue : List (AppendFile Row)) :
    (files.foldl (fun queue file => pushFile file queue) queue).Perm (files ++ queue) := by
  induction files generalizing queue with
  | nil => exact .refl _
  | cons file rest ih =>
    refine (ih _).trans ?_
    exact ((perm_orderedInsert _ file queue).append_left rest).trans perm_middle

theorem push_ascending (files queue : List (AppendFile Row)) (ascending :
      queue.Pairwise (fun left right => left.minSequenceNumber ≤ right.minSequenceNumber)) :
    (files.foldl (fun queue file => pushFile file queue) queue).Pairwise
      (fun left right => left.minSequenceNumber ≤ right.minSequenceNumber) := by
  induction files generalizing queue with
  | nil => exact ascending
  | cons file rest ih => exact ih _ (ascending.orderedInsert file queue)

theorem restored_below (files : List (AppendFile Row)) (largest : Int) :
    largest ≤ files.foldl (fun largest file => max largest file.maxSequenceNumber) largest ∧
      ∀ file ∈ files, file.maxSequenceNumber ≤
        files.foldl (fun largest file => max largest file.maxSequenceNumber) largest := by
  induction files generalizing largest with
  | nil => simp
  | cons first rest ih =>
    obtain ⟨lower, upper⟩ := ih (max largest first.maxSequenceNumber)
    rw [foldl_cons]
    exact ⟨by omega, forall_mem_cons.mpr ⟨by omega, upper⟩⟩

theorem restore_kept {options : Options} {nextName : Nat}
    (restorable : Restorable options start nextName) :
    Kept start (Writer.restore options start nextName) := by
  have perm := push_perm start.live []
  rw [append_nil] at perm
  have ascending := push_ascending start.live [] .nil
  have ordered : Ordered (start.live.foldl (fun queue file => pushFile file queue) []) :=
    ordered_of_ascending ascending ((perm.pairwise_iff Or.symm).mpr restorable.apart)
  have readSame := ordered_unique (read_order_ascending start.live) ordered
    ((read_order_perm start.live).trans perm.symm)
  have agrees : ∀ name, (Writer.restore options start nextName).vectors name =
      start.vectors name := by
    intro name
    rw [Writer.restore]
    cases enabled : options.deletionVectors with
    | true => rfl
    | false => exact (restorable.unmasked enabled name).symm
  refine ⟨start.live.foldl (fun queue file => pushFile file queue) [], [], [], ?_, ?_⟩
  · constructor
    · rfl
    · exact ordered
    · intro file mem
      have below := (restored_below start.live (-1)).2 file (perm.mem_iff.mp mem)
      change _ < _ + 1
      omega
    · change (names (_ ++ [])).Nodup
      rw [append_nil]
      exact (names_perm perm).mpr restorable.distinct
    · intro file mem
      change file ∈ _ ++ [] at mem
      rw [append_nil] at mem
      exact restorable.known file (perm.mem_iff.mp mem)
    · rw [Table.rows, readSame]
      simp [flushedRows, Writer.restore]
    · exact restorable.fresh
    · exact fun name => .inr (agrees name)
    · exact fun file _ => agrees file.name
    · intro vectors found
      cases found
    · rfl
  · intro table applies
    cases applies
    constructor
    · change (start.live ++ [] ++ []).Perm (_ ++ [])
      simp only [append_nil]
      exact perm.symm
    · change (names (start.live ++ [] ++ [] ++ [])).Nodup
      simp only [append_nil]
      exact restorable.distinct
    · change ∀ file ∈ start.live ++ [] ++ [] ++ [], _
      simp only [append_nil]
      exact restorable.known
    · exact fun _ => .inr rfl
    · exact fun _ _ => rfl

def writtenRows (trace : List (Writer Row × Operation Row)) : List Row :=
  trace.flatMap (fun transition =>
    match transition.2 with
    | .write rows => rows
    | _ => [])

theorem step_rows [DecidableEq Row] (steps : step writer operation = some next) :
    flushedRows next ++ next.buffer =
      flushedRows writer ++ writer.buffer ++ writtenRows [(writer, operation)] := by
  have unchanged : SameIncrements writer next →
      flushedRows next ++ next.buffer = flushedRows writer ++ writer.buffer ++ [] := by
    intro same
    rw [flushedRows, flushedRows, same.emitted, same.pending, same.buffer, append_nil]
  cases operation with
  | write rows =>
    cases steps
    simp [flushedRows, writtenRows]
  | flush chunks =>
    rw [(flush_fields steps).2.2.2]
    simp [writtenRows]
  | sync =>
    cases steps
    have same : flushedRows (sync writer) ++ (sync writer).buffer =
        flushedRows writer ++ writer.buffer := by
      rw [sync]
      split <;> simp [flushedRows]
    simp [same, writtenRows]
  | trigger full =>
    cases full with
    | true => exact unchanged (trigger_full_same steps)
    | false =>
      cases steps
      exact unchanged (trigger_best_effort_same writer)
  | finish chunks => exact unchanged (finish_same steps)
  | cancel => exact unchanged (cancel_same steps)
  | drain =>
    cases steps
    simp [flushedRows, drain, writtenRows]

theorem run_rows [DecidableEq Row] {first final : Writer Row}
    {trace : List (Writer Row × Operation Row)} (run : Run step first trace final) :
    flushedRows final ++ final.buffer = flushedRows first ++ first.buffer ++ writtenRows trace := by
  induction run with
  | start => simp [writtenRows]
  | step run steps ih =>
    rw [step_rows steps, ih]
    simp [writtenRows]

def sampleOptions : Options where
  minFileNum := 2
  targetFileSize := 100
  compactionFileSize := 50
  forceRewriteAllFiles := false
  deletionVectors := true
  materializeDvOnCommit := false

def restoredFile : AppendFile Nat where
  name := 0
  fileSize := 10
  minSequenceNumber := 0
  maxSequenceNumber := 1
  rows := [7, 8]
  nonempty := List.cons_ne_nil 7 [8]
  numbered := by decide

def sampleTable : Table Nat where
  live := [restoredFile]
  vectors := fun name => if name = 0 then some [0] else none

theorem sample_table_restorable : Restorable sampleOptions sampleTable 1 where
  apart := pairwise_singleton _ _
  distinct := nodup_singleton _
  known := by simp [sampleTable, restoredFile]
  fresh := fun name above => if_neg (by omega)
  unmasked := nofun

def sampleChunk (first : Nat) (rest : List Nat) : Chunk Nat :=
  ⟨first :: rest, 10, List.cons_ne_nil first rest⟩

/-- A file is flushed, and its compaction ends before the next call. -/
def flushOne : List (Operation Nat) :=
  [.write [1]] ++ flushCall [sampleChunk 1 []] none false ++ [.finish [sampleChunk 8 [1]]]

def drainedBetween : List (Operation Nat) :=
  flushOne ++ [.write [2]] ++ prepareCommit [sampleChunk 2 []] none ++
    [.finish [sampleChunk 8 [1, 2]]] ++ prepareCommit [] none

/-- Before the increment is drained, the output is compacted again with a file flushed meanwhile. -/
def recompacted : List (Operation Nat) :=
  flushOne ++ [.write [2]] ++
    prepareCommit [sampleChunk 2 []] (some (.finish [sampleChunk 8 [1, 2]]))

end PaimonCore.Append
