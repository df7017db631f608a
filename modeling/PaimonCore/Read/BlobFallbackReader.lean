import PaimonCore.Read.BlobWindow

/-!
# `BlobFallbackBatchReader`

All layers step through the same row ids. The newest layer defines the window, every other
one fills the same window, and each row takes the first layer whose entry is not a
placeholder. The columns of a batch are put together from the chunks of the chosen layers.
-/

namespace PaimonCore.Read

open PaimonCore.Ranges List

inductive Field where
  | blob (name : String)
  | rowId
  | sequenceNumber
  deriving DecidableEq, Repr

def Field.isBlob : Field → Bool
  | .blob _ => true
  | _ => false

structure ReadSchema where
  fields : List Field
  distinct : fields.Nodup

inductive Cell (Value : Type) where
  | blob (blob : Blob Value)
  | integer (value : Int)
  deriving DecidableEq, Repr

variable {Value : Type}

def FileRow.cell (row : FileRow Value) : Field → Cell Value
  | .blob _ => .blob row.blob
  | .rowId => .integer row.rowId
  | .sequenceNumber => .integer row.sequenceNumber

structure ChunkCursor (Value : Type) where
  chunks : List (Chunk Value)
  chunkStart : Nat := 0

/-- The rows of a run; a chunk that reaches beyond the run is kept for a later one. -/
def collectRun {Item : Type} (piece : Chunk Value → Nat → Nat → Except String (List Item))
    (runStart runEnd : Nat) :
    List (Chunk Value) → Nat → Except String (List Item × ChunkCursor Value)
  | [], start => .ok ([], ⟨[], start⟩)
  | chunk :: rest, start =>
    if start < runEnd then
      let overlapStart := max runStart start
      let overlapEnd := min runEnd (start + chunk.length)
      let overlap :=
        if overlapStart < overlapEnd then
          piece chunk (overlapStart - start) (overlapEnd - overlapStart)
        else .ok []
      match overlap with
      | .error error => .error error
      | .ok items =>
        if runEnd < start + chunk.length then .ok (items, ⟨chunk :: rest, start⟩)
        else
          match collectRun piece runStart runEnd rest (start + chunk.length) with
          | .error error => .error error
          | .ok (more, cursor) => .ok (items ++ more, cursor)
    else .ok ([], ⟨chunk :: rest, start⟩)

def columnPiece (field : Field) (chunk : Chunk Value) (offset length : Nat) :
    Except String (List (Cell Value)) :=
  match chunk.array with
  | none => .error "Unexpected: a gap or skipped row was chosen as a blob fallback result."
  | some rows => .ok (((rows.drop offset).take length).map (fun row => row.cell field))

/-- `AssembleRowIdRun`: a row that is a placeholder in every layer keeps its row id. -/
def rowIdPiece (chunk : Chunk Value) (offset length : Nat) : Except String (List (Cell Value)) :=
  .ok (((chunk.rowIds.drop offset).take length).map Cell.integer)

def choiceRuns : GroupChoice → List (Option Nat × Nat)
  | [] => []
  | group :: rest =>
    match choiceRuns rest with
    | [] => [(group, 1)]
    | (other, length) :: later =>
      if group = other then (group, length + 1) :: later
      else (group, 1) :: (other, length) :: later

/-- The loop of `AssembleColumn`. -/
def assembleRuns (field : Field) :
    List (Option Nat × Nat) → Nat → (Nat → ChunkCursor Value) → Except String (List (Cell Value))
  | [], _, _ => .ok []
  | (group, length) :: rest, runStart, cursors =>
    let runEnd := runStart + length
    let collect (piece : Chunk Value → Nat → Nat → Except String (List (Cell Value)))
      (layer : Nat) :=
      match collectRun piece runStart runEnd (cursors layer).chunks (cursors layer).chunkStart with
      | .error error => .error error
      | .ok (cells, cursor) =>
        match assembleRuns field rest runEnd (Function.update cursors layer cursor) with
        | .error error => .error error
        | .ok more => .ok (cells ++ more)
    let constant (cell : Cell Value) :=
      match assembleRuns field rest runEnd cursors with
      | .error error => .error error
      | .ok more => .ok (List.replicate length cell ++ more)
    match group, field with
    | some layer, field => collect (columnPiece field) layer
    | none, .rowId => collect rowIdPiece 0
    | none, .sequenceNumber => constant (.integer (-1))
    | none, .blob _ => constant (.blob .null)

def assembleColumn (field : Field) (groupChoice : GroupChoice)
    (groupChunks : List (List (Chunk Value))) : Except String (List (Cell Value)) :=
  assembleRuns field (choiceRuns groupChoice) 0 (fun layer => ⟨groupChunks.getD layer [], 0⟩)

def assembleColumns (groupChoice : GroupChoice) (groupChunks : List (List (Chunk Value))) :
    List Field → Except String (List (List (Cell Value)))
  | [] => .ok []
  | field :: rest =>
    match assembleColumn field groupChoice groupChunks,
        assembleColumns groupChoice groupChunks rest with
    | .ok column, .ok columns => .ok (column :: columns)
    | .error error, _ => .error error
    | _, .error error => .error error

structure BlobFallbackBatchReader (Value : Type) where
  groups : List (GroupCursor Value)
  readSchema : ReadSchema
  readBatchSize : Nat

/-- What was not read counts as a placeholder. -/
def computePlaceholderFlags (chunks : List (Chunk Value)) : List Bool :=
  chunks.flatMap (fun chunk =>
    match chunk.array with
    | none => List.replicate chunk.length true
    | some rows => rows.map (fun row =>
      match row.blob with
      | .placeholder => true
      | _ => false))

def updateChoice (layer : Nat) (groupChoice : GroupChoice) (placeholderFlags : List Bool) :
    GroupChoice :=
  List.zipWith (fun choice flag => if choice.isNone && !flag then some layer else choice)
    groupChoice placeholderFlags

/-- The layers after the newest, each in the window of `rowCount` rows. -/
def fillOlder (rowCount : Nat) : Nat → List (GroupCursor Value) → GroupChoice →
    Except String (List (GroupCursor Value) × List (List (Chunk Value)) × GroupChoice)
  | _, [], groupChoice => .ok ([], [], groupChoice)
  | layer, cursor :: rest, groupChoice =>
    -- At the end of the newest layer the others must have ended too.
    let window := if rowCount = 0 then [some 0] else groupChoice
    match fillWindow false (max rowCount 1) (some window) cursor with
    | .error error => .error error
    | .ok (next, filled) =>
      let got := filled.collected
      if got ≠ rowCount then
        .error (s!"All sequence groups of a blob fallback read should have the same number of " ++
          s!"rows: group {layer} yielded {got} rows in a window of {rowCount}")
      else
        let resolved := updateChoice layer groupChoice (computePlaceholderFlags filled.chunks)
        match fillOlder rowCount (layer + 1) rest resolved with
        | .error error => .error error
        | .ok (cursors, chunks, choice) => .ok (next :: cursors, filled.chunks :: chunks, choice)

def Segment.isEmptyGap : Segment Value → Bool
  | .gap [] => true
  | _ => false

namespace BlobFallbackBatchReader

def checkSegments : List (List (Segment Value)) → Except String Unit
  | [] => .ok ()
  | segments :: rest =>
    if segments.isEmpty then .error "Blob fallback sequence group should not be empty."
    else if segments.any Segment.isEmptyGap then
      .error "Blob fallback gap segment should cover at least one selected row id."
    else checkSegments rest

def create (sequenceGroups : List (List (Segment Value))) (readSchema : ReadSchema)
    (readBatchSize : Int) : Except String (BlobFallbackBatchReader Value) :=
  if sequenceGroups.isEmpty then .error "Blob fallback needs at least one sequence group."
  else if readBatchSize ≤ 0 then
    .error s!"Blob fallback read batch size '{readBatchSize}' should be larger than zero"
  else if 1 < readSchema.fields.countP Field.isBlob then
    .error "Blob fallback read schema should contain exactly one blob field."
  else if readSchema.fields.countP Field.isBlob = 0 then
    .error "Blob fallback read schema should contain a blob field."
  else
    match checkSegments sequenceGroups with
    | .error error => .error error
    | .ok () =>
      .ok ⟨sequenceGroups.map (fun segments => ⟨segments, 0⟩), readSchema, readBatchSize.toNat⟩

/-- `NextBatch`: the columns of the read schema, or `none` at the end. -/
def nextBatch (reader : BlobFallbackBatchReader Value) :
    Except String (Option (List (List (Cell Value))) × BlobFallbackBatchReader Value) :=
  match reader.groups with
  | [] => .ok (none, reader)
  | newest :: older =>
    match fillWindow (reader.readSchema.fields.contains .rowId) reader.readBatchSize
        none newest with
    | .error error => .error error
    | .ok (next, filled) =>
      let rowCount := filled.collected
      let first :=
        updateChoice 0 (List.replicate rowCount none) (computePlaceholderFlags filled.chunks)
      match fillOlder rowCount 1 older first with
      | .error error => .error error
      | .ok (cursors, chunks, groupChoice) =>
        let advanced := { reader with groups := next :: cursors }
        if rowCount = 0 then .ok (none, advanced)
        else
          match assembleColumns groupChoice (filled.chunks :: chunks)
              reader.readSchema.fields with
          | .error error => .error error
          | .ok columns => .ok (some columns, advanced)

def drain : Nat → BlobFallbackBatchReader Value → Except String (List (List (List (Cell Value))))
  | 0, _ => .error "more batches"
  | fuel + 1, reader =>
    match reader.nextBatch with
    | .error error => .error error
    | .ok (none, _) => .ok []
    | .ok (some batch, next) =>
      match drain fuel next with
      | .error error => .error error
      | .ok batches => .ok (batch :: batches)

end BlobFallbackBatchReader

/-- A piece of a chunk is what `items` says, if all its rows are there. -/
def Cuts {Item : Type} (items : Chunk Value → List (Option Item))
    (piece : Chunk Value → Nat → Nat → Except String (List Item)) (chunk : Chunk Value) : Prop :=
  (items chunk).length = chunk.length ∧ ∀ offset length found, 0 < length →
      ((items chunk).drop offset).take length = List.map some found → found.length = length →
        piece chunk offset length = .ok found

/-- The cursor has passed some of the chunks, with all their rows. -/
def ChunkCursor.After (chunks : List (Chunk Value)) (start : Nat) (cursor : ChunkCursor Value) :
    Prop :=
  ∃ passed, chunks = passed ++ cursor.chunks ∧
    cursor.chunkStart = start + (passed.map Chunk.length).sum

variable {chunks : List (Chunk Value)}

theorem ChunkCursor.After.trans {start : Nat} {first second : ChunkCursor Value}
    (firstAfter : first.After chunks start)
    (secondAfter : second.After first.chunks first.chunkStart) : second.After chunks start := by
  obtain ⟨passed, isChunks, isStart⟩ := firstAfter
  obtain ⟨later, isLater, isNext⟩ := secondAfter
  refine ⟨passed ++ later, ?_, ?_⟩
  · rw [isChunks, isLater, append_assoc]
  · rw [isNext, isStart, map_append, sum_append, Nat.add_assoc]

variable {Item : Type} {items : Chunk Value → List (Option Item)}

theorem ChunkCursor.After.rest {cursor : ChunkCursor Value} (after : cursor.After chunks 0)
    (lengths : ∀ chunk ∈ chunks, (items chunk).length = chunk.length) :
    cursor.chunks.flatMap items = (chunks.flatMap items).drop cursor.chunkStart := by
  obtain ⟨passed, isChunks, isStart⟩ := after
  have isLength : (passed.flatMap items).length = cursor.chunkStart := by
    rw [isStart, Nat.zero_add, length_flatMap]
    apply congrArg List.sum
    apply map_congr_left
    intro chunk mem
    exact lengths chunk (by rw [isChunks]; exact mem_append_left _ mem)
  rw [isChunks, flatMap_append, drop_left' isLength]

theorem take_drop_append (items later : List Item) (offset length : Nat)
    (inside : offset + length ≤ items.length) :
    ((items ++ later).drop offset).take length = (items.drop offset).take length := by
  rw [drop_append_of_le_length (by omega), take_append_of_le_length]
  rw [length_drop]
  omega

theorem slice_split {total : List (Option Item)} {found : List Item} {first last : Nat}
    (middle : Nat) (firstLe : first ≤ middle) (middleLe : middle ≤ last)
    (isSlice : (total.drop first).take (last - first) = found.map some) :
    (total.drop first).take (middle - first) = (found.take (middle - first)).map some ∧
      (total.drop middle).take (last - middle) = (found.drop (middle - first)).map some := by
  constructor
  · rw [map_take, ← isSlice, take_take]
    congr 1
    omega
  · rw [map_drop, ← isSlice, drop_take, drop_drop, Nat.add_sub_cancel' firstLe,
      show last - first - (middle - first) = last - middle by omega]

variable {piece : Chunk Value → Nat → Nat → Except String (List Item)}

theorem collect_run_eq {total : List (Option Item)} {runStart runEnd : Nat}
    (runOrdered : runStart ≤ runEnd) (chunks : List (Chunk Value)) (start : Nat)
    (cuts : ∀ chunk ∈ chunks, Cuts items piece chunk)
    (rest : chunks.flatMap items = total.drop start) (found : List Item)
    (isFound : (total.drop (max runStart start)).take (runEnd - max runStart start) =
      found.map some) :
    ∃ cursor, collectRun piece runStart runEnd chunks start = .ok (found, cursor) ∧
      cursor.After chunks start ∧ (start ≤ runEnd → cursor.chunkStart ≤ runEnd) := by
  induction chunks generalizing start found with
  | nil =>
    have allRead : total.length ≤ start := by
      exact drop_eq_nil_iff.mp rest.symm
    have isEmpty : found = [] := by
      rw [drop_eq_nil_of_le (by omega), take_nil] at isFound
      exact map_eq_nil_iff.mp isFound.symm
    subst isEmpty
    exact ⟨⟨[], start⟩, rfl, ⟨[], rfl, rfl⟩, id⟩
  | cons chunk chunks ih =>
    obtain ⟨isLength, isPiece⟩ := cuts chunk (mem_cons_self ..)
    by_cases before : start < runEnd
    case neg =>
      have isEmpty : found = [] := by
        rw [show runEnd - max runStart start = 0 by omega] at isFound
        exact map_eq_nil_iff.mp isFound.symm
      subst isEmpty
      refine ⟨⟨chunk :: chunks, start⟩, ?_, ⟨[], rfl, rfl⟩, id⟩
      rw [collectRun, if_neg before]
    case pos =>
      rw [flatMap_cons] at rest
      have restLater : chunks.flatMap items = total.drop (start + chunk.length) := by
        rw [← drop_drop, ← rest, ← isLength, drop_left]
      -- The chunk gives the rows up to `middle`, the later chunks the others.
      let overlapStart := max runStart start
      let overlapEnd := min runEnd (start + chunk.length)
      let middle := max overlapStart overlapEnd
      have middleLe : middle ≤ runEnd := by simp only [middle, overlapStart, overlapEnd]; omega
      obtain ⟨isOverlap, isLater⟩ := slice_split middle (le_max_left _ _) middleLe isFound
      have isRead : (if overlapStart < overlapEnd then
          piece chunk (overlapStart - start) (overlapEnd - overlapStart) else .ok []) =
            .ok (found.take (middle - overlapStart)) := by
        by_cases overlaps : overlapStart < overlapEnd
        · have isMiddle : middle = overlapEnd := max_eq_right overlaps.le
          have inside : overlapStart - start + (overlapEnd - overlapStart) ≤
              (items chunk).length := by
            omega
          have startLe : start ≤ overlapStart := le_max_right _ _
          rw [if_pos overlaps, isMiddle]
          rw [isMiddle] at isOverlap
          have isSlice :
              ((items chunk).drop (overlapStart - start)).take (overlapEnd - overlapStart) =
                (found.take (overlapEnd - overlapStart)).map some := by
            rw [← isOverlap, ← take_drop_append (items chunk) (chunks.flatMap items) _ _ inside,
              rest, drop_drop, Nat.add_sub_cancel' startLe]
          apply isPiece _ _ _ (by omega) isSlice
          have sliceLength := congrArg List.length isSlice
          rw [length_map, length_take, length_drop] at sliceLength
          omega
        · have nothing : middle - overlapStart = 0 := by
            simp only [middle]
            omega
          rw [if_neg overlaps, nothing, take_zero]
      rw [collectRun, if_pos before]
      dsimp only
      rw [isRead]
      dsimp only
      by_cases beyond : runEnd < start + chunk.length
      · have isMiddle : middle = runEnd := by
          omega
        have noneLater : found.drop (middle - overlapStart) = [] := by
          rw [isMiddle, Nat.sub_self] at isLater
          rw [isMiddle]
          exact map_eq_nil_iff.mp isLater.symm
        have allHere : found.take (middle - overlapStart) = found :=
          take_of_length_le (drop_eq_nil_iff.mp noneLater)
        rw [if_pos beyond, allHere]
        exact ⟨⟨chunk :: chunks, start⟩, rfl, ⟨[], rfl, rfl⟩, id⟩
      · have isMiddle : middle = max runStart (start + chunk.length) := by
          omega
        rw [isMiddle] at isLater
        obtain ⟨cursor, isCollected, ⟨passed, isChunks, isStart⟩, inRun⟩ :=
          ih (start + chunk.length) (forall_mem_cons.mp cuts).2
            restLater _ isLater
        rw [if_neg beyond, isCollected]
        refine ⟨cursor, ?_, ⟨chunk :: passed, ?_, ?_⟩, fun _ => inRun (by omega)⟩
        · dsimp only
          rw [← isMiddle, take_append_drop]
        · rw [isChunks, cons_append]
        · rw [isStart, map_cons, sum_cons, Nat.add_assoc]

def columnItems (field : Field) (chunk : Chunk Value) : List (Option (Cell Value)) :=
  chunk.cells.map (Option.map (fun row => row.cell field))

def rowIdItems (chunk : Chunk Value) : List (Option (Cell Value)) :=
  chunk.rowIds.map (fun id => some (.integer id))

theorem column_cuts (field : Field) {chunk : Chunk Value}
    (isLength : chunk.cells.length = chunk.length) :
    Cuts (columnItems field) (columnPiece field) chunk := by
  refine ⟨by rw [columnItems, length_map, isLength], ?_⟩
  intro offset length found pos isSlice isFound
  obtain ⟨array, rows, gapRowIds⟩ := chunk
  cases array with
  | some array =>
    simp only [columnItems, Chunk.cells, ← map_drop, ← map_take, map_map] at isSlice
    apply congrArg Except.ok
    apply map_injective_iff.mpr (Option.some_injective _)
    rw [← isSlice, map_map]
    rfl
  | none =>
    -- Rows that are not there are no slice of rows that are.
    cases found with
    | nil => simp at isFound; omega
    | cons cell rest =>
      simp only [columnItems, Chunk.cells, map_replicate, drop_replicate,
        take_replicate, map_cons, Option.map_none] at isSlice
      have absent := eq_of_mem_replicate (isSlice ▸ mem_cons_self ..)
      cases absent

theorem row_id_cuts {chunk : Chunk Value} (isLength : chunk.rowIds.length = chunk.length) :
    Cuts rowIdItems rowIdPiece chunk := by
  refine ⟨by rw [rowIdItems, length_map, isLength], ?_⟩
  intro offset length found _ isSlice _
  simp only [rowIdItems, ← map_drop, ← map_take] at isSlice
  apply congrArg Except.ok
  apply map_injective_iff.mpr (Option.some_injective _)
  rw [← isSlice, map_map]
  rfl

def expandRuns (runs : List (Option Nat × Nat)) : GroupChoice :=
  runs.flatMap (fun run => List.replicate run.2 run.1)

theorem expand_choice_runs (groupChoice : GroupChoice) :
    expandRuns (choiceRuns groupChoice) = groupChoice := by
  induction groupChoice with
  | nil => rfl
  | cons group rest ih =>
    rw [choiceRuns]
    cases runs : choiceRuns rest with
    | nil =>
      rw [runs] at ih
      rw [← ih]
      rfl
    | cons run later =>
      obtain ⟨other, length⟩ := run
      rw [runs] at ih
      by_cases same : group = other
      · subst same
        rw [← ih]
        simp [expandRuns, replicate_succ]
      · rw [← ih]
        simp [expandRuns, same]

theorem collect_rows {cursor : ChunkCursor Value} {value : Nat → Item} {runStart length : Nat}
    (cuts : ∀ chunk ∈ chunks, Cuts items piece chunk) (after : cursor.After chunks 0)
    (reached : cursor.chunkStart ≤ runStart) (present : ∀ row < length,
      (chunks.flatMap items)[runStart + row]? = some (some (value (runStart + row)))) :
    ∃ next, collectRun piece runStart (runStart + length) cursor.chunks cursor.chunkStart =
        .ok ((List.range' runStart length).map value, next) ∧
      next.After chunks 0 ∧ next.chunkStart ≤ runStart + length := by
  have rest := after.rest (fun chunk mem => (cuts chunk mem).1)
  have isSlice : ((chunks.flatMap items).drop (max runStart cursor.chunkStart)).take
      (runStart + length - max runStart cursor.chunkStart) =
        ((List.range' runStart length).map value).map some := by
    rw [max_eq_left reached, Nat.add_sub_cancel_left]
    apply ext_getElem?
    intro row
    rw [getElem?_take, getElem?_drop, map_map, getElem?_map]
    by_cases inside : row < length
    · rw [if_pos inside, present row inside, getElem?_range' inside]
      simp
    · rw [if_neg inside, getElem?_eq_none (by simpa using inside)]
      rfl
  obtain ⟨passed, isChunks, _⟩ := id after
  have laterCuts : ∀ chunk ∈ cursor.chunks, Cuts items piece chunk := by
    intro chunk mem
    exact cuts chunk (by rw [isChunks]; exact mem_append_right _ mem)
  obtain ⟨next, isCollected, nextAfter, inRun⟩ :=
    collect_run_eq (Nat.le_add_right _ _) cursor.chunks cursor.chunkStart laterCuts rest _ isSlice
  exact ⟨next, isCollected, after.trans nextAfter, inRun (by omega)⟩

section
variable (field : Field) (groupChunks : Nat → List (Chunk Value)) (value : Nat → Cell Value)

/-- The cell that a row has if its layer is `group`. -/
def Supplies (group : Option Nat) (row : Nat) : Prop :=
  match group, field with
  | some layer, field =>
    ((groupChunks layer).flatMap (columnItems field))[row]? = some (some (value row))
  | none, .rowId => ((groupChunks 0).flatMap rowIdItems)[row]? = some (some (value row))
  | none, .sequenceNumber => value row = .integer (-1)
  | none, .blob _ => value row = .blob .null

variable {field groupChunks value}

theorem constant_rows {cell : Cell Value} {runStart length : Nat}
    (same : ∀ row < length, value (runStart + row) = cell) :
    List.replicate length cell = (List.range' runStart length).map value := by
  apply ext_getElem
  · simp
  · intro row left right
    rw [length_replicate] at left
    simp [same row left]

theorem assemble_runs (lengths : ∀ layer, ∀ chunk ∈ groupChunks layer,
    chunk.cells.length = chunk.length)
    (rowIdLengths : field = .rowId → ∀ chunk ∈ groupChunks 0, chunk.rowIds.length = chunk.length)
    (runs : List (Option Nat × Nat)) (runStart : Nat) (cursors : Nat → ChunkCursor Value)
    (reached : ∀ layer, (cursors layer).After (groupChunks layer) 0 ∧
      (cursors layer).chunkStart ≤ runStart)
    (supplied : ∀ row group, (expandRuns runs)[row]? = some group →
      Supplies field groupChunks value group (runStart + row)) :
    assembleRuns field runs runStart cursors =
      .ok ((List.range' runStart (expandRuns runs).length).map value) := by
  induction runs generalizing runStart cursors with
  | nil => rfl
  | cons run runs ih =>
    obtain ⟨group, length⟩ := run
    have isExpanded : expandRuns ((group, length) :: runs) = List.replicate length group ++
        expandRuns runs := by
      rw [expandRuns, flatMap_cons, expandRuns]
    have here : ∀ row < length, Supplies field groupChunks value group (runStart + row) := by
      intro row inside
      apply supplied
      rw [isExpanded, getElem?_append_left (by simpa using inside), getElem?_replicate_of_lt inside]
    have later : ∀ row other, (expandRuns runs)[row]? = some other →
        Supplies field groupChunks value other (runStart + length + row) := by
      intro row other isOther
      rw [Nat.add_assoc]
      apply supplied
      rw [isExpanded, getElem?_append_right (by simp), length_replicate, Nat.add_sub_cancel_left]
      exact isOther
    have isRange : (List.range' runStart (expandRuns ((group, length) :: runs)).length).map value =
        (List.range' runStart length).map value ++
          (List.range' (runStart + length) (expandRuns runs).length).map value := by
      rw [isExpanded, length_append, length_replicate, ← map_append, List.range'_append_1]
    have reachedLater : ∀ layer, (cursors layer).After (groupChunks layer) 0 ∧
        (cursors layer).chunkStart ≤ runStart + length :=
      fun layer => ⟨(reached layer).1, (reached layer).2.trans (Nat.le_add_right _ _)⟩
    have afterUpdate : ∀ {target : Nat} {next : ChunkCursor Value},
        next.After (groupChunks target) 0 ∧ next.chunkStart ≤ runStart + length →
          assembleRuns field runs (runStart + length) (Function.update cursors target next) =
            .ok ((List.range' (runStart + length) (expandRuns runs).length).map value) := by
      intro target next nextReached
      apply ih _ _ _ later
      rw [Function.forall_update_iff cursors (fun layer cursor =>
        cursor.After (groupChunks layer) 0 ∧ cursor.chunkStart ≤ runStart + length)]
      exact ⟨nextReached, fun layer _ => reachedLater layer⟩
    rw [isRange]
    cases group with
    | some layer =>
      obtain ⟨next, isCollected, nextReached⟩ := collect_rows
        (fun chunk mem => column_cuts field (lengths layer chunk mem)) (reached layer).1
        (reached layer).2 here
      simp only [assembleRuns, isCollected, afterUpdate nextReached]
    | none =>
      cases field with
      | rowId =>
        obtain ⟨next, isCollected, nextReached⟩ := collect_rows
          (fun chunk mem => row_id_cuts (rowIdLengths rfl chunk mem)) (reached 0).1
          (reached 0).2 here
        simp only [assembleRuns, isCollected, afterUpdate nextReached]
      | sequenceNumber =>
        simp only [assembleRuns, ih _ _ reachedLater later, constant_rows here]
      | blob name =>
        simp only [assembleRuns, ih _ _ reachedLater later, constant_rows here]

end

/-- What was not read, and a placeholder, leaves the row to the layers below. -/
def hidden : Option (FileRow Value) → Bool
  | none => true
  | some row =>
    match row.blob with
    | .placeholder => true
    | _ => false

def Slot.realRow (slot : Slot Value) : Option (FileRow Value) :=
  if hidden slot.row then none else slot.row

theorem placeholder_flags_eq (chunks : List (Chunk Value)) :
    computePlaceholderFlags chunks = (chunks.flatMap Chunk.cells).map hidden := by
  rw [map_flatMap]
  apply flatMap_congr
  intro chunk _
  obtain ⟨array, length, gapRowIds⟩ := chunk
  cases array with
  | none => simp [Chunk.cells, hidden]
  | some rows =>
    simp only [Chunk.cells, map_map]
    rfl

variable {groupChoice : GroupChoice}

theorem update_choice_get (layer : Nat) {flags : List Bool} {row : Nat} {choice : Option Nat}
    {flag : Bool} (isChoice : groupChoice[row]? = some choice) (isFlag : flags[row]? = some flag) :
    (updateChoice layer groupChoice flags)[row]? =
      some (if choice.isNone && !flag then some layer else choice) := by
  simp [updateChoice, getElem?_zipWith, isChoice, isFlag]

theorem update_choice_length (layer : Nat) {slots : List (Slot Value)}
    (same : slots.length = groupChoice.length) :
    (updateChoice layer groupChoice (slots.map (fun slot => hidden slot.row))).length =
      groupChoice.length := by
  rw [updateChoice, length_zipWith, length_map, same, Nat.min_self]

theorem update_choice_cells (layer : Nat) {slots : List (Slot Value)}
    (isCells : chunks.flatMap Chunk.cells =
      List.zipWith shown (groupChoice.map Option.isNone) slots) :
    updateChoice layer groupChoice (computePlaceholderFlags chunks) =
      updateChoice layer groupChoice (slots.map (fun slot => hidden slot.row)) := by
  rw [placeholder_flags_eq, isCells]
  clear isCells
  induction groupChoice generalizing slots with
  | nil => rfl
  | cons choice rest ih =>
    cases slots with
    | nil => rfl
    | cons slot slots =>
      have same := @ih slots
      rw [updateChoice, updateChoice] at same
      simp only [updateChoice, map_cons, zipWith_cons_cons]
      rw [same]
      cases choice <;> simp [shown]

def resolve : Nat → GroupChoice → List (List (Slot Value)) → GroupChoice
  | _, groupChoice, [] => groupChoice
  | layer, groupChoice, slots :: rest =>
    resolve (layer + 1)
      (updateChoice layer groupChoice (slots.map (fun slot => hidden slot.row))) rest

/-- The chunks hold the rows of the layers that no newer layer has resolved. -/
def Reads : Nat → GroupChoice → List (List (Slot Value)) → List (List (Chunk Value)) → Prop
  | _, _, [], [] => True
  | layer, groupChoice, slots :: rest, chunks :: more =>
    (∀ chunk ∈ chunks, chunk.cells.length = chunk.length) ∧ chunks.flatMap Chunk.cells =
        List.zipWith shown (groupChoice.map Option.isNone) slots ∧
      Reads (layer + 1)
        (updateChoice layer groupChoice (slots.map (fun slot => hidden slot.row))) rest more
  | _, _, _, _ => False

variable {groupChunks : List (List (Chunk Value))}

theorem Reads.lengths {layer : Nat} {slots : List (List (Slot Value))}
    (reads : Reads layer groupChoice slots groupChunks) :
    ∀ chunks ∈ groupChunks, ∀ chunk ∈ chunks, chunk.cells.length = chunk.length := by
  induction groupChunks generalizing layer groupChoice slots with
  | nil => simp
  | cons chunks more ih =>
    cases slots with
    | nil => exact reads.elim
    | cons first rest =>
      obtain ⟨here, _, later⟩ := reads
      exact forall_mem_cons.mpr ⟨here, ih later⟩

def slotsAt (layers : List (List (Slot Value))) (row : Nat) : List (Slot Value) :=
  layers.filterMap (fun slots => slots[row]?)

variable {layers : List (List (Slot Value))}

theorem resolve_resolved {layer row group : Nat} (inside : ∀ slots ∈ layers, row < slots.length)
    (isChoice : groupChoice[row]? = some (some group)) :
    (resolve layer groupChoice layers)[row]? = some (some group) := by
  induction layers generalizing layer groupChoice with
  | nil => exact isChoice
  | cons slots rest ih =>
    have isSlot := getElem?_eq_getElem (inside slots (mem_cons_self ..))
    apply ih (forall_mem_cons.mp inside).2
    rw [update_choice_get layer isChoice (by rw [getElem?_map, isSlot]; rfl)]
    rfl

/-- A row takes the first layer that has a row of its own there, and that row was read. -/
theorem resolve_get {layer row : Nat} (reads : Reads layer groupChoice layers groupChunks)
    (inside : ∀ slots ∈ layers, row < slots.length) (unresolved : groupChoice[row]? = some none) :
    (∃ group found, (slotsAt layers row).findSome? Slot.realRow = some found ∧
      (resolve layer groupChoice layers)[row]? = some (some (layer + group)) ∧
      ((groupChunks.getD group []).flatMap Chunk.cells)[row]? = some (some found)) ∨
    ((slotsAt layers row).findSome? Slot.realRow = none ∧
      (resolve layer groupChoice layers)[row]? = some none) := by
  induction layers generalizing layer groupChoice groupChunks with
  | nil => exact .inr ⟨rfl, unresolved⟩
  | cons slots rest ih =>
    cases groupChunks with
    | nil => exact reads.elim
    | cons chunks more =>
      obtain ⟨_, isCells, later⟩ := reads
      have insideHere := inside slots (mem_cons_self ..)
      have insideLater : ∀ other ∈ rest, row < other.length :=
        fun other mem => inside other (mem_cons_of_mem _ mem)
      have isSlot := getElem?_eq_getElem insideHere
      have isAt : slotsAt (slots :: rest) row = slots[row] :: slotsAt rest row := by
        rw [slotsAt, filterMap_cons, isSlot]
        rfl
      have isFlag : (slots.map (fun slot => hidden slot.row))[row]? =
          some (hidden (slots[row]).row) := by
        rw [getElem?_map, isSlot]
        rfl
      have isUpdated := update_choice_get layer unresolved isFlag
      cases isHidden : hidden (slots[row]).row with
      | false =>
        -- The layer decides the row, and its chunks hold it.
        obtain ⟨found, isFound⟩ : ∃ found, (slots[row]).row = some found := by
          cases isRow : (slots[row]).row with
          | none => rw [isRow] at isHidden; cases isHidden
          | some found => exact ⟨found, rfl⟩
        rw [isHidden] at isUpdated
        refine .inl ⟨0, found, ?_, ?_, ?_⟩
        · rw [isAt, findSome?_cons, Slot.realRow, isHidden, isFound]
          rfl
        · rw [resolve]
          exact resolve_resolved insideLater isUpdated
        · rw [getD_cons_zero, isCells, getElem?_zipWith, getElem?_map, unresolved, isSlot]
          simp [shown, isFound]
      | true =>
        rw [isHidden] at isUpdated
        have skips : (slotsAt (slots :: rest) row).findSome? Slot.realRow =
            (slotsAt rest row).findSome? Slot.realRow := by
          rw [isAt, findSome?_cons, Slot.realRow, isHidden]
          rfl
        rw [skips]
        rcases ih later insideLater isUpdated with ⟨group, found, isFound, isGroup,
          isRead⟩ | noLayer
        · refine .inl ⟨group + 1, found, isFound, ?_, isRead⟩
          rw [resolve, isGroup, Nat.add_assoc, Nat.add_comm 1 group]
        · exact .inr noLayer

def mergeSlots (slots : List (Slot Value)) : FileRow Value :=
  match slots.findSome? Slot.realRow with
  | some row => row
  | none => ⟨.null, (slots.head?.map Slot.rowId).getD 0, -1⟩

theorem resolve_length (layer : Nat) (groupChoice : GroupChoice) (layers : List (List (Slot Value)))
    (same : ∀ slots ∈ layers, slots.length = groupChoice.length) :
    (resolve layer groupChoice layers).length = groupChoice.length := by
  induction layers generalizing layer groupChoice with
  | nil => rfl
  | cons slots rest ih =>
    rw [forall_mem_cons] at same
    rw [resolve, ih, update_choice_length layer same.1]
    rw [update_choice_length layer same.1]
    exact same.2

theorem assemble_column_eq {rowCount : Nat} {newest : List (Slot Value)}
    {older : List (List (Slot Value))}
    (reads : Reads 0 (List.replicate rowCount none) (newest :: older) groupChunks)
    (same : ∀ slots ∈ newest :: older, slots.length = rowCount) (field : Field)
    (rowIds :
      field = .rowId → (groupChunks.getD 0 []).flatMap Chunk.rowIds = newest.map Slot.rowId ∧
        ∀ chunk ∈ groupChunks.getD 0 [], chunk.rowIds.length = chunk.length) :
    assembleColumn field (resolve 0 (List.replicate rowCount none) (newest :: older)) groupChunks =
      .ok ((List.range rowCount).map (fun row =>
        (mergeSlots (slotsAt (newest :: older) row)).cell field)) := by
  have isLength : (resolve 0 (List.replicate rowCount none) (newest :: older)).length =
      rowCount := by
    rw [resolve_length, length_replicate]
    intro slots mem
    rw [length_replicate, same slots mem]
  have lengths : ∀ layer, ∀ chunk ∈ groupChunks.getD layer [], chunk.cells.length =
      chunk.length := by
    intro layer
    rw [getD_eq_getElem?_getD]
    cases isChunks : groupChunks[layer]? with
    | none => simp
    | some chunks => exact reads.lengths chunks (mem_of_getElem? isChunks)
  rw [assembleColumn, assemble_runs lengths (fun isRowId => (rowIds isRowId).2) _ 0 _
    (fun layer => ⟨⟨[], rfl, rfl⟩, le_refl 0⟩), expand_choice_runs, isLength,
    range_eq_range']
  intro row group isGroup
  rw [expand_choice_runs] at isGroup
  rw [Nat.zero_add]
  have inRows : row < rowCount := by
    rw [← isLength]
    exact (List.getElem?_eq_some_iff.mp isGroup).1
  have inside : ∀ slots ∈ newest :: older, row < slots.length := by
    intro slots mem
    rw [same slots mem]
    exact inRows
  rcases resolve_get reads inside (getElem?_replicate_of_lt inRows) with
    ⟨layer, found, isFound, isLayer, isRead⟩ | ⟨noneFound, noLayer⟩
  · rw [isGroup, Nat.zero_add] at isLayer
    cases isLayer
    simp only [Supplies, mergeSlots, isFound]
    unfold columnItems
    rw [← map_flatMap, getElem?_map, isRead]
    rfl
  · rw [isGroup] at noLayer
    cases noLayer
    have isHead : (slotsAt (newest :: older) row).head? = newest[row]? := by
      rw [slotsAt, filterMap_cons, getElem?_eq_getElem (inside newest (mem_cons_self ..))]
      rfl
    cases field with
    | rowId =>
      simp only [Supplies, mergeSlots, noneFound, FileRow.cell]
      unfold rowIdItems
      rw [← map_flatMap, (rowIds rfl).1, isHead, getElem?_map, getElem?_map,
        getElem?_eq_getElem (inside newest (mem_cons_self ..))]
      rfl
    | sequenceNumber => simp only [Supplies, mergeSlots, noneFound, FileRow.cell]
    | blob name => simp only [Supplies, mergeSlots, noneFound, FileRow.cell]

section
variable {deletes : Int → Bool}

theorem fill_older_reads {rowCount left : Nat} (ends : rowCount = 0 → left = 0)
    (enough : rowCount ≤ left) (older : List (GroupCursor Value))
    (sound : ∀ cursor ∈ older, cursor.Sound deletes)
    (same : ∀ slots ∈ older.map (GroupCursor.pending deletes), slots.length = left)
    (layer : Nat) (groupChoice : GroupChoice) (fits : groupChoice.length = rowCount) :
    ∃ cursors chunks, fillOlder rowCount layer older groupChoice =
      .ok (cursors, chunks, resolve layer groupChoice
        ((older.map (GroupCursor.pending deletes)).map (List.take rowCount))) ∧
      (∀ cursor ∈ cursors, cursor.Sound deletes) ∧ cursors.map (GroupCursor.pending deletes) =
        (older.map (GroupCursor.pending deletes)).map (List.drop rowCount) ∧
      Reads layer groupChoice ((older.map (GroupCursor.pending deletes)).map (List.take rowCount))
        chunks := by
  induction older generalizing layer groupChoice with
  | nil => exact ⟨[], [], rfl, by simp, rfl, trivial⟩
  | cons cursor rest ih =>
    obtain ⟨isLeft, restLeft⟩ := forall_mem_cons.mp same
    obtain ⟨cursorSound, restSound⟩ := forall_mem_cons.mp sound
    let window := if rowCount = 0 then [some 0] else groupChoice
    have windowFits : ∀ choice ∈ some window, choice.length = max rowCount 1 := by
      rintro choice ⟨rfl⟩
      by_cases atEnd : rowCount = 0
      · simp [window, atEnd]
      · simp only [window, if_neg atEnd, fits]
        omega
    obtain ⟨next, filled, isFilled, collects, isCollected⟩ :=
      fill_window_fills false windowFits cursorSound
    have isCount : filled.collected = rowCount := by
      omega
    have isCells : filled.chunks.flatMap Chunk.cells =
        List.zipWith shown (groupChoice.map Option.isNone)
          ((cursor.pending deletes).take rowCount) := by
      rw [collects.cells, isCount, wantedFlags]
      by_cases atEnd : rowCount = 0
      · simp [atEnd]
      · simp only [window, if_neg atEnd]
        rw [take_of_length_le (by rw [length_map, fits])]
    have takenFits : ((cursor.pending deletes).take rowCount).length = groupChoice.length := by
      rw [length_take, isLeft, fits, min_eq_left enough]
    obtain ⟨cursors, chunks, isOlder, cursorsSound, isDropped, reads⟩ :=
      ih restSound restLeft (layer + 1) _ ((update_choice_length layer takenFits).trans fits)
    refine ⟨next :: cursors, filled.chunks :: chunks, ?_, ?_, ?_, ?_⟩
    · simp only [fillOlder]
      rw [isFilled]
      dsimp only
      rw [if_neg (not_not.mpr isCount), update_choice_cells layer isCells, isOlder]
      rfl
    · exact forall_mem_cons.mpr ⟨collects.sound, cursorsSound⟩
    · rw [map_cons, isDropped, collects.pending, isCount]
      rfl
    · exact ⟨collects.lengths, isCells, reads⟩

theorem assemble_columns_eq {column : Field → List (Cell Value)} (fields : List Field)
    (each : ∀ field ∈ fields, assembleColumn field groupChoice groupChunks = .ok (column field)) :
    assembleColumns groupChoice groupChunks fields = .ok (fields.map column) := by
  induction fields with
  | nil => rfl
  | cons field rest ih =>
    rw [assembleColumns, each field (mem_cons_self ..), ih (forall_mem_cons.mp each).2]
    rfl

namespace BlobFallbackBatchReader

def pendings (deletes : Int → Bool) (reader : BlobFallbackBatchReader Value) :
    List (List (Slot Value)) :=
  reader.groups.map (GroupCursor.pending deletes)

/-- All layers have `left` rows to go. -/
structure Lockstep (deletes : Int → Bool) (reader : BlobFallbackBatchReader Value)
    (left : Nat) : Prop where
  some_group : reader.groups ≠ []
  sound : ∀ cursor ∈ reader.groups, cursor.Sound deletes
  same : ∀ slots ∈ reader.pendings deletes, slots.length = left
  batchSize : 0 < reader.readBatchSize

def mergedColumn (layers : List (List (Slot Value))) (count : Nat) (field : Field) :
    List (Cell Value) :=
  (List.range count).map (fun row => (mergeSlots (slotsAt layers row)).cell field)

theorem slots_at_take {count row : Nat} (inside : row < count) :
    slotsAt (layers.map (List.take count)) row = slotsAt layers row := by
  rw [slotsAt, filterMap_map]
  apply filterMap_congr
  intro slots _
  simp [inside]

theorem slots_at_drop (layers : List (List (Slot Value))) (count row : Nat) :
    slotsAt (layers.map (List.drop count)) row = slotsAt layers (count + row) := by
  rw [slotsAt, filterMap_map]
  apply filterMap_congr
  intro slots _
  simp [getElem?_drop]

theorem merged_column_add (layers : List (List (Slot Value))) (count more : Nat) (field : Field) :
    mergedColumn layers (count + more) field = mergedColumn layers count field ++
        mergedColumn (layers.map (List.drop count)) more field := by
  rw [mergedColumn, range_add, map_append, map_map]
  congr 1
  apply map_congr_left
  intro row _
  rw [slots_at_drop]
  rfl

theorem next_batch_emits {reader : BlobFallbackBatchReader Value} {left : Nat}
    (lockstep : reader.Lockstep deletes left) :
    ∃ next, reader.nextBatch = .ok (if left = 0 then none else some (reader.readSchema.fields.map
        (mergedColumn (reader.pendings deletes) (min reader.readBatchSize left))), next) ∧
      next.Lockstep deletes (left - min reader.readBatchSize left) ∧
      next.pendings deletes =
        (reader.pendings deletes).map (List.drop (min reader.readBatchSize left)) ∧
      next.readSchema = reader.readSchema ∧ next.readBatchSize = reader.readBatchSize := by
  obtain ⟨groups, schema, batchSize⟩ := reader
  obtain ⟨someGroup, sound, same, pos⟩ := lockstep
  dsimp only at someGroup sound pos
  cases groups with
  | nil => exact absurd rfl someGroup
  | cons newest older =>
    obtain ⟨isLeft, olderLeft⟩ := forall_mem_cons.mp same
    obtain ⟨newestSound, olderSound⟩ := forall_mem_cons.mp sound
    obtain ⟨next, filled, isFilled, collects, isCollected⟩ :=
      fill_window_fills (schema.fields.contains .rowId)
        (show ∀ choice ∈ (none : Option GroupChoice), choice.length = batchSize by simp) newestSound
    rw [isLeft] at isCollected
    let layers := (newest :: older).map (GroupCursor.pending deletes)
    let count := min batchSize left
    have isCount : filled.collected = count := isCollected
    have isCells : filled.chunks.flatMap Chunk.cells =
        List.zipWith shown ((List.replicate count (none : Option Nat)).map Option.isNone)
          ((newest.pending deletes).take count) := by
      rw [collects.cells, isCollected, wantedFlags, take_replicate]
      simp [count]
    have sameCount : ∀ slots ∈ layers.map (List.take count), slots.length = count := by
      intro slots mem
      obtain ⟨before, inBefore, rfl⟩ := mem_map.mp mem
      rw [length_take, same before inBefore, min_eq_left (min_le_right _ _)]
    have firstFits : (updateChoice 0 (List.replicate count none)
        (((newest.pending deletes).take count).map (fun slot => hidden slot.row))).length =
          count := by
      rw [update_choice_length, length_replicate]
      rw [length_replicate]
      exact sameCount _ mem_cons_self
    have ends : count = 0 → left = 0 := by
      omega
    obtain ⟨cursors, chunks, isOlder, cursorsSound, isDropped, reads⟩ :=
      fill_older_reads ends (min_le_right _ _) older olderSound olderLeft 1 _ firstFits
    have allRead : Reads 0 (List.replicate count none) (layers.map (List.take count))
        (filled.chunks :: chunks) := ⟨collects.lengths, isCells, reads⟩
    have columns : ∀ field ∈ schema.fields,
        assembleColumn field (resolve 0 (List.replicate count none) (layers.map (List.take count)))
          (filled.chunks :: chunks) = .ok (mergedColumn layers count field) := by
      intro field mem
      refine (assemble_column_eq allRead sameCount field ?_).trans
        (congrArg Except.ok (map_congr_left ?_))
      · intro isRowId
        have keeps : schema.fields.contains .rowId = true := by
          rw [contains_iff_mem, ← isRowId]
          exact mem
        have everyRow : ∀ flag ∈ wantedFlags batchSize none, flag = true :=
          fun flag isFlag => (mem_replicate.mp isFlag).2
        refine ⟨?_, collects.rowIdLengths keeps everyRow⟩
        rw [getD_cons_zero, collects.rowIds keeps everyRow, isCollected]
      · intro row inside
        exact congrArg (fun slots => (mergeSlots slots).cell field)
          (@slots_at_take Value layers count row (mem_range.mp inside))
    have isPendings : (next :: cursors).map (GroupCursor.pending deletes) =
        layers.map (List.drop count) := by
      rw [map_cons, isDropped, collects.pending, isCount]
      rfl
    refine ⟨⟨next :: cursors, schema, batchSize⟩, ?_, ?_, isPendings, rfl, rfl⟩
    · simp only [nextBatch]
      rw [isFilled]
      dsimp only
      rw [isCount, update_choice_cells 0 isCells, isOlder]
      dsimp only
      by_cases atEnd : left = 0
      · rw [if_pos (by simp only [count]; omega), if_pos atEnd]
      · rw [if_neg (fun isZero => atEnd (ends isZero)), if_neg atEnd]
        erw [assemble_columns_eq _ columns]
        rfl
    · refine ⟨cons_ne_nil _ _, forall_mem_cons.mpr ⟨collects.sound, cursorsSound⟩, ?_, pos⟩
      intro slots mem
      rw [pendings, isPendings] at mem
      obtain ⟨before, inBefore, rfl⟩ := mem_map.mp mem
      rw [length_drop, same before inBefore]

def columnOf (batches : List (List (List (Cell Value)))) (index : Nat) : List (Cell Value) :=
  batches.flatMap (fun columns => columns.getD index [])

theorem drain_emits (fuel : Nat) {reader : BlobFallbackBatchReader Value} {left : Nat}
    (lockstep : reader.Lockstep deletes left) (enough : left < fuel) :
    ∃ batches, drain fuel reader = .ok batches ∧
      ∀ index field, reader.readSchema.fields[index]? = some field →
        columnOf batches index = mergedColumn (reader.pendings deletes) left field := by
  induction fuel generalizing reader left with
  | zero => omega
  | succ fuel ih =>
    obtain ⟨next, isBatch, nextLockstep, isDropped, sameSchema, _⟩ := next_batch_emits lockstep
    have pos := lockstep.batchSize
    rw [drain, isBatch]
    by_cases atEnd : left = 0
    · rw [if_pos atEnd]
      refine ⟨[], rfl, ?_⟩
      intro index field _
      rw [atEnd]
      rfl
    · -- A batch before the end has a row, so fewer rows are left.
      obtain ⟨batches, isDrained, columns⟩ := ih nextLockstep (by omega)
      rw [if_neg atEnd]
      dsimp only
      rw [isDrained]
      refine ⟨_, rfl, ?_⟩
      intro index field isField
      have later := columns index field (by rw [sameSchema]; exact isField)
      have isSplit :
          left = min reader.readBatchSize left + (left - min reader.readBatchSize left) := by omega
      rw [isDropped] at later
      rw [columnOf] at later ⊢
      rw [flatMap_cons, later, getD_eq_getElem?_getD, getElem?_map, isField]
      conv_rhs => rw [isSplit, merged_column_add]
      rfl

end BlobFallbackBatchReader

end

end PaimonCore.Read
