import PaimonCore.Read.BlobFiles
import PaimonCore.Read.ReaderUtils

/-!
# Readers of blob files

The format reader returns the selected rows of a file in batches of any size, but of no
more rows than it is asked for. The reader around it marks the rows that the deletion vector
keeps and passes over batches without one.
-/

namespace PaimonCore.Read

open List ReaderUtils

variable {Value : Type}

structure StoredRow (Value : Type) where
  position : Int
  row : FileRow Value

/-- The reader of a file under `ApplyDeletionVectorBatchReader`. -/
structure FileReader (Value : Type) where
  /-- The selected rows that the format reader has not returned yet. -/
  rows : List (StoredRow Value)
  deletionVector : Option FileDeletionVector
  /-- How many rows the format reader returns at most, by the count of its batches. -/
  batchSizes : Nat → Nat
  batches : Nat := 0

namespace FileReader

/-- Without the payload the rows are there, with null for the blob. -/
def payload (readPayload : Bool) (row : FileRow Value) : FileRow Value :=
  if readPayload then row else { row with blob := .null }

/-- How many rows the next batch of the format reader has, if there are enough. -/
def batchSize (maxRows : Nat) (reader : FileReader Value) : Nat :=
  min maxRows (max 1 (reader.batchSizes reader.batches))

def advance (maxRows : Nat) (reader : FileReader Value) : FileReader Value :=
  { reader with
    rows := reader.rows.drop (reader.batchSize maxRows)
    batches := reader.batches + 1 }

def isDeleted (reader : FileReader Value) (position : Int) : Except String Bool :=
  match reader.deletionVector with
  | none => .ok false
  | some vector => vector.isDeleted position

def filter (reader : FileReader Value) (readPayload : Bool) :
    List (StoredRow Value) → Except String (List (FileRow Value × Bool))
  | [] => .ok []
  | stored :: rest =>
    match reader.isDeleted stored.position, reader.filter readPayload rest with
    | .ok isDeleted, .ok marked => .ok ((payload readPayload stored.row, !isDeleted) :: marked)
    | .error error, _ => .error error
    | _, .error error => .error error

/-- `NextBatchWithBitmap`: batches without a valid row are passed over. -/
def nextBatchFrom (maxRows : Nat) (readPayload : Bool) :
    Nat → FileReader Value → Except String (Option (List (FileRow Value × Bool)) × FileReader Value)
  | 0, reader => .ok (none, reader)
  | fuel + 1, reader =>
    let batch := reader.rows.take (reader.batchSize maxRows)
    let next := reader.advance maxRows
    if batch.isEmpty then .ok (none, next)
    else
      match reader.filter readPayload batch with
      | .error error => .error error
      | .ok marked =>
        if marked.any Prod.snd then .ok (some marked, next)
        else nextBatchFrom maxRows readPayload fuel next

def nextBatch (maxRows : Nat) (readPayload : Bool) (reader : FileReader Value) :
    Except String (Option (List (FileRow Value × Bool)) × FileReader Value) :=
  nextBatchFrom maxRows readPayload (reader.rows.length + 1) reader

def Answers (deletes : Int → Bool) (reader : FileReader Value) : Prop :=
  ∀ stored ∈ reader.rows, reader.isDeleted stored.position = .ok (deletes stored.row.rowId)

def pending (deletes : Int → Bool) (reader : FileReader Value) : List (FileRow Value) :=
  (reader.rows.map StoredRow.row).filter (fun row => !deletes row.rowId)

variable {deletes : Int → Bool} {reader : FileReader Value}

theorem filter_ok {readPayload : Bool} {batch : List (StoredRow Value)} (answers : ∀ stored ∈ batch,
      reader.isDeleted stored.position = .ok (deletes stored.row.rowId)) :
    reader.filter readPayload batch = .ok (batch.map (fun stored =>
        (payload readPayload stored.row, !deletes stored.row.rowId))) := by
  induction batch with
  | nil => rfl
  | cons stored rest ih =>
    have restAnswers := ih (forall_mem_cons.mp answers).2
    rw [filter, answers stored mem_cons_self, restAnswers]
    rfl

structure Emits (deletes : Int → Bool) (maxRows : Nat) (readPayload : Bool)
    (reader : FileReader Value) (batch : Option (List (FileRow Value × Bool)))
    (next : FileReader Value) : Prop where
  answers : next.Answers deletes
  shorter : next.rows.length ≤ reader.rows.length
  ended : batch = none → reader.pending deletes = []
  emitted : ∀ marked ∈ batch, next.rows.length < reader.rows.length ∧ marked.length ≤ maxRows ∧
    validRows marked ≠ [] ∧
    ∃ rows, validRows marked = rows.map (payload readPayload) ∧
      reader.pending deletes = rows ++ next.pending deletes

theorem valid_map (deletes : Int → Bool) (readPayload : Bool) (batch : List (StoredRow Value)) :
    validRows
        (batch.map (fun stored => (payload readPayload stored.row, !deletes stored.row.rowId))) =
      ((batch.map StoredRow.row).filter (fun row => !deletes row.rowId)).map
        (payload readPayload) := by
  induction batch with
  | nil => rfl
  | cons stored rest ih =>
    cases isDeleted : deletes stored.row.rowId <;> simp_all [validRows]

theorem pending_split (deletes : Int → Bool) (maxRows : Nat) (reader : FileReader Value) :
    reader.pending deletes =
      ((reader.rows.take (reader.batchSize maxRows)).map StoredRow.row).filter
          (fun row => !deletes row.rowId) ++ (reader.advance maxRows).pending deletes := by
  rw [pending, pending, advance, ← filter_append, ← map_append, take_append_drop]

theorem next_batch_from_emits {maxRows : Nat} (pos : 0 < maxRows) (readPayload : Bool)
    {fuel : Nat} (enough : reader.rows.length < fuel) (answers : reader.Answers deletes) :
    ∃ batch next, nextBatchFrom maxRows readPayload fuel reader = .ok (batch, next) ∧
      Emits deletes maxRows readPayload reader batch next := by
  induction fuel generalizing reader with
  | zero => omega
  | succ fuel ih =>
    have batchAnswers : ∀ stored ∈ reader.rows.take (reader.batchSize maxRows),
        reader.isDeleted stored.position = .ok (deletes stored.row.rowId) :=
      fun stored mem => answers stored (mem_of_mem_take mem)
    have nextAnswers : (reader.advance maxRows).Answers deletes :=
      fun stored mem => answers stored (mem_of_mem_drop mem)
    have sizePositive : 0 < reader.batchSize maxRows := by
      rw [batchSize]
      omega
    have sizeBound : reader.batchSize maxRows ≤ maxRows := min_le_left _ _
    have split := pending_split deletes maxRows reader
    rw [nextBatchFrom]
    by_cases isEmpty : (reader.rows.take (reader.batchSize maxRows)).isEmpty = true
    · have noRows : reader.rows = [] := by
        have noTaken := isEmpty_iff.mp isEmpty
        rcases take_eq_nil_iff.mp noTaken with noSize | noRows
        · omega
        · exact noRows
      refine ⟨none, reader.advance maxRows, by simp [isEmpty], nextAnswers, ?_, ?_, ?_⟩
      · simp [advance]
      · intro _
        simp [pending, noRows]
      · intro marked no
        cases no
    · have hasRows : reader.rows ≠ [] := by
        intro noRows
        simp [noRows] at isEmpty
      have fewer : (reader.advance maxRows).rows.length < reader.rows.length := by
        have := length_pos_iff.mpr hasRows
        rw [advance, length_drop]
        omega
      simp only [isEmpty, Bool.false_eq_true, if_false, filter_ok batchAnswers]
      by_cases anyValid : (((reader.rows.take (reader.batchSize maxRows)).map (fun stored =>
          (payload readPayload stored.row, !deletes stored.row.rowId))).any Prod.snd) = true
      · rw [if_pos anyValid]
        refine ⟨_, _, rfl, nextAnswers, fewer.le, by simp, ?_⟩
        rintro marked ⟨⟩
        refine ⟨fewer, ?_, ?_, _, valid_map _ _ _, split⟩
        · rw [length_map, length_take]
          omega
        · rw [any_eq_true] at anyValid
          obtain ⟨entry, mem, isValid⟩ := anyValid
          intro noneValid
          have inValid : entry.1 ∈ validRows _ := mem_map_of_mem (mem_filter.mpr ⟨mem, isValid⟩)
          rw [noneValid] at inValid
          cases inValid
      · rw [if_neg anyValid]
        -- The whole batch is deleted, so the next one is asked for.
        have noneValid : ((reader.rows.take (reader.batchSize maxRows)).map StoredRow.row).filter
            (fun row => !deletes row.rowId) = [] := by
          rw [filter_eq_nil_iff]
          intro row mem isValid
          obtain ⟨stored, isStored, rfl⟩ := mem_map.mp mem
          apply anyValid
          rw [any_eq_true]
          exact ⟨_, mem_map_of_mem isStored, isValid⟩
        rw [noneValid] at split
        obtain ⟨batch, next, isNext, emits⟩ := ih (by omega) nextAnswers
        refine ⟨batch, next, isNext, emits.answers, emits.shorter.trans fewer.le, ?_, ?_⟩
        · intro ended
          rw [split]
          exact emits.ended ended
        · intro marked isMarked
          obtain ⟨shorter, rest⟩ := emits.emitted marked isMarked
          rw [split]
          exact ⟨shorter.trans fewer, rest⟩

theorem next_batch_emits {maxRows : Nat} (pos : 0 < maxRows) (readPayload : Bool)
    (answers : reader.Answers deletes) :
    ∃ batch next, reader.nextBatch maxRows readPayload = .ok (batch, next) ∧
      Emits deletes maxRows readPayload reader batch next :=
  next_batch_from_emits pos readPayload (Nat.lt_succ_self _) answers

end FileReader

end PaimonCore.Read
