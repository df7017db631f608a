import PaimonCore.Read.BlobFileReader

/-!
# Windows of a layer

The blob files of one field form layers, one for each sequence number. A layer is a list of
segments, readers of files and gaps between them. `FillWindow` collects the next rows of a
layer; it reads the rows that no newer layer has resolved and skips the others, in runs.
-/

namespace PaimonCore.Read

open PaimonCore.Ranges List Function ReaderUtils

variable {Value : Type}

inductive Segment (Value : Type) where
  | file (reader : FileReader Value)
  /-- The selected row ids of a gap, all placeholders. -/
  | gap (selectedRanges : List Range)

/-- Rows fetched from one layer; without an array they are placeholders or resolved already. -/
structure Chunk (Value : Type) where
  array : Option (List (FileRow Value))
  length : Nat
  gapRowIds : List Int := []

/-- The segments that are left, and how many rows of the first range of a gap are read. -/
structure GroupCursor (Value : Type) where
  segments : List (Segment Value)
  gapRangePos : Nat := 0

structure Window (Value : Type) where
  collected : Nat := 0
  runEnd : Nat := 0
  materialize : Bool := true
  chunks : List (Chunk Value) := []

/-- The first layer that has a value for the row, or `none` for the `-1` of the source. -/
abbrev GroupChoice := List (Option Nat)

/-- Starts a run of rows that are all read or all skipped. -/
def Window.nextRun (want : Nat) (groupChoice : Option GroupChoice) (window : Window Value) :
    Window Value :=
  match groupChoice with
  | none => { window with materialize := true, runEnd := want }
  | some choice =>
    let materialize := (choice.getD window.collected none).isNone
    let same := ((choice.take want).drop (window.collected + 1)).takeWhile
      (fun group => group.isNone == materialize)
    { window with materialize := materialize, runEnd := window.collected + 1 + same.length }

def Window.addGap (window : Window Value) (chunk : Chunk Value) : Window Value :=
  { window with
    collected := window.collected + chunk.length
    chunks := window.chunks ++ [chunk] }

def Window.addArrays (window : Window Value) (arrays : List (List (FileRow Value))) :
    Window Value :=
  { window with
    collected := window.collected + (arrays.map List.length).sum
    chunks := window.chunks ++ arrays.map (fun rows =>
      ⟨if window.materialize then some rows else none, rows.length, []⟩) }

/-- The loop of `FillWindow`; row ids of gaps are kept for the newest layer. -/
def fillWindowFrom (keepRowIds : Bool) (want : Nat) (groupChoice : Option GroupChoice) :
    Nat → GroupCursor Value → Window Value → Except String (GroupCursor Value × Window Value)
  | 0, cursor, window => .ok (cursor, window)
  | fuel + 1, cursor, window =>
    if window.collected < want then
      let window :=
        if window.collected = window.runEnd then window.nextRun want groupChoice else window
      match cursor.segments with
      | [] => .ok (cursor, window)
      | .gap [] :: rest => fillWindowFrom keepRowIds want groupChoice fuel ⟨rest, 0⟩ window
      | .gap (range :: ranges) :: rest =>
        let taken := min (range.count - cursor.gapRangePos) (window.runEnd - window.collected)
        let rowIds := (List.range taken).map (fun k : Nat => range.first + cursor.gapRangePos + k)
        let chunk : Chunk Value := ⟨none, taken, if keepRowIds then rowIds else []⟩
        if cursor.gapRangePos + taken = range.count then
          fillWindowFrom keepRowIds want groupChoice fuel ⟨.gap ranges :: rest, 0⟩
            (window.addGap chunk)
        else
          fillWindowFrom keepRowIds want groupChoice fuel
            ⟨.gap (range :: ranges) :: rest, cursor.gapRangePos + taken⟩ (window.addGap chunk)
      | .file reader :: rest =>
        let remaining := window.runEnd - window.collected
        match reader.nextBatch remaining window.materialize with
        | .error error => .error error
        | .ok (none, _) => fillWindowFrom keepRowIds want groupChoice fuel ⟨rest, 0⟩ window
        | .ok (some marked, next) =>
          let length := marked.length
          if remaining < length then
            .error
              s!"Blob fallback reader returned {length} rows exceeding requested limit {remaining}"
          else
            match generateFilteredArrayVector marked with
            | .error error => .error error
            | .ok arrays =>
              fillWindowFrom keepRowIds want groupChoice fuel ⟨.file next :: rest, 0⟩
                (window.addArrays arrays)
    else .ok (cursor, window)

/-- More turns than the loop can take. -/
def Segment.size : Segment Value → Nat
  | .file reader => reader.rows.length + 1
  | .gap ranges => (idsOf ranges).length + 1

def GroupCursor.size (cursor : GroupCursor Value) : Nat := (cursor.segments.map Segment.size).sum

def fillWindow (keepRowIds : Bool) (want : Nat) (groupChoice : Option GroupChoice)
    (cursor : GroupCursor Value) : Except String (GroupCursor Value × Window Value) :=
  fillWindowFrom keepRowIds want groupChoice (cursor.size + 1) cursor {}

/-- A row of a file or, in a gap, only its id. -/
structure Slot (Value : Type) where
  rowId : Int
  row : Option (FileRow Value)

def Slot.ofRow (row : FileRow Value) : Slot Value := ⟨row.rowId, some row⟩

def Slot.ofGap (id : Int) : Slot Value := ⟨id, none⟩

section
variable (deletes : Int → Bool)

def Segment.pending : Segment Value → List (Slot Value)
  | .file reader => (reader.pending deletes).map Slot.ofRow
  | .gap ranges => (idsOf ranges).map Slot.ofGap

def GroupCursor.pending (cursor : GroupCursor Value) : List (Slot Value) :=
  (cursor.segments.flatMap (Segment.pending deletes)).drop cursor.gapRangePos

/-- The readers can be read, and a position in a range is inside it. -/
structure GroupCursor.Sound (cursor : GroupCursor Value) : Prop where
  answers : ∀ reader, .file reader ∈ cursor.segments → reader.Answers deletes
  position : cursor.gapRangePos = 0 ∨ ∃ range ranges rest,
    cursor.segments = .gap (range :: ranges) :: rest ∧ cursor.gapRangePos < range.count

end

def Chunk.cells (chunk : Chunk Value) : List (Option (FileRow Value)) :=
  match chunk.array with
  | some rows => rows.map some
  | none => List.replicate chunk.length none

def shown (materialize : Bool) (slot : Slot Value) : Option (FileRow Value) :=
  if materialize then slot.row else none

def Chunk.rowIds (chunk : Chunk Value) : List Int :=
  match chunk.array with
  | some rows => rows.map FileRow.rowId
  | none => chunk.gapRowIds

/-- `count` rows are collected into the chunks `added`; `flags` tells which are read. -/
structure Collects (deletes : Int → Bool) (keepRowIds : Bool) (flags : List Bool)
    (cursor : GroupCursor Value) (added : List (Chunk Value)) (count : Nat)
    (next : GroupCursor Value) : Prop where
  sound : next.Sound deletes
  pending : next.pending deletes = (cursor.pending deletes).drop count
  wanted : count ≤ flags.length
  present : count ≤ (cursor.pending deletes).length
  cells : added.flatMap Chunk.cells =
    List.zipWith shown (flags.take count) ((cursor.pending deletes).take count)
  lengths : ∀ chunk ∈ added, chunk.cells.length = chunk.length
  rowIds : keepRowIds = true → (∀ flag ∈ flags, flag = true) →
    added.flatMap Chunk.rowIds = ((cursor.pending deletes).take count).map Slot.rowId
  rowIdLengths : keepRowIds = true → (∀ flag ∈ flags, flag = true) →
    ∀ chunk ∈ added, chunk.rowIds.length = chunk.length

section
variable {deletes : Int → Bool} {keepRowIds : Bool} {flags : List Bool}
  {cursor middle next : GroupCursor Value} {added later : List (Chunk Value)} {count more : Nat}

theorem Collects.nothing (sound : next.Sound deletes)
    (samePending : next.pending deletes = cursor.pending deletes) :
    Collects deletes keepRowIds flags cursor [] 0 next := by
  constructor <;> simp [sound, samePending]

theorem Collects.trans (first : Collects deletes keepRowIds flags cursor added count middle)
    (second : Collects deletes keepRowIds (flags.drop count) middle later more next) :
    Collects deletes keepRowIds flags cursor (added ++ later) (count + more) next := by
  have secondWanted := second.wanted
  have secondPresent := second.present
  have firstWanted := first.wanted
  have firstPresent := first.present
  rw [length_drop] at secondWanted
  rw [first.pending, length_drop] at secondPresent
  constructor
  case sound => exact second.sound
  case pending => rw [second.pending, first.pending, drop_drop]
  case wanted => omega
  case present => omega
  case cells =>
    rw [flatMap_append, first.cells, second.cells, first.pending, ← take_zipWith,
      ← take_zipWith, ← take_zipWith, take_add, drop_zipWith]
  case lengths =>
    exact forall_mem_append.mpr ⟨first.lengths, second.lengths⟩
  case rowIds =>
    intro keeps allRead
    rw [flatMap_append, first.rowIds keeps allRead,
      second.rowIds keeps (fun flag mem => allRead flag (mem_of_mem_drop mem)),
      first.pending, take_add, map_append]
  case rowIdLengths =>
    intro keeps allRead chunk mem
    rcases mem_append.mp mem with isFirst | isSecond
    · exact first.rowIdLengths keeps allRead chunk isFirst
    · exact second.rowIdLengths keeps (fun flag mem => allRead flag (mem_of_mem_drop mem))
        chunk isSecond

theorem zip_with_replicate {First Second Third : Type} (combine : First → Second → Third)
    (value : First) {right : List Second} {count : Nat} (isLength : right.length = count) :
    List.zipWith combine (List.replicate count value) right = right.map (combine value) := by
  rw [← isLength, ← map_const', zipWith_map_left, zipWith_self]

variable {range : Range} {ranges : List Range} {rest : List (Segment Value)}

theorem drop_file (reader : FileReader Value) :
    GroupCursor.pending deletes ⟨.file reader :: rest, 0⟩ =
      (reader.pending deletes).map Slot.ofRow ++ GroupCursor.pending deletes ⟨rest, 0⟩ := by
  simp [GroupCursor.pending, Segment.pending]

theorem length_ids (range : Range) : range.ids.length = range.count := by
  rw [Range.ids, length_map, length_range]

variable {position taken : Nat}

theorem ids_part (range : Range) (inside : position + taken ≤ range.count) :
    (range.ids.drop position).take taken =
      (List.range taken).map (fun k : Nat => range.first + position + k) := by
  apply ext_getElem
  · rw [length_take, length_drop, length_ids, length_map, length_range]
    omega
  · intro index left right
    simp only [getElem_take, getElem_drop, Range.ids, getElem_map, getElem_range]
    omega

theorem Collects.gap_part {materialize : Bool} (inside : position + taken ≤ range.count)
    (sound : next.Sound deletes)
    (isNext : next.pending deletes = (GroupCursor.pending deletes
      ⟨.gap (range :: ranges) :: rest, position⟩).drop taken)
    (sameFlags : flags.take taken = List.replicate taken materialize) :
    Collects deletes keepRowIds flags ⟨.gap (range :: ranges) :: rest, position⟩
      [⟨none, taken, if keepRowIds then
        (List.range taken).map (fun k : Nat => range.first + position + k) else []⟩]
          taken next := by
  have isPending : (GroupCursor.pending deletes
      (⟨.gap (range :: ranges) :: rest, position⟩ : GroupCursor Value)).take taken =
      ((List.range taken).map (fun k : Nat => range.first + position + k)).map Slot.ofGap := by
    rw [← ids_part range inside, GroupCursor.pending, flatMap_cons, Segment.pending, idsOf,
      flatMap_cons, map_append, append_assoc, drop_append_of_le_length,
      take_append_of_le_length, map_take, map_drop]
    · rw [length_drop, length_map, length_ids]
      dsimp only
      omega
    · rw [length_map, length_ids]
      dsimp only
      omega
  have flagCount : taken ≤ flags.length := by
    have lengths := congrArg List.length sameFlags
    rw [length_take, length_replicate] at lengths
    omega
  constructor
  case sound => exact sound
  case pending => exact isNext
  case wanted => exact flagCount
  case present =>
    have lengths := congrArg List.length isPending
    simp only [length_take, length_map, length_range] at lengths
    omega
  case cells =>
    rw [isPending, sameFlags]
    simp only [flatMap_cons, flatMap_nil, append_nil, Chunk.cells, map_map]
    apply ext_getElem
    · simp
    · intro index left right
      simp [shown, Slot.ofGap]
  case lengths =>
    intro chunk mem
    rw [mem_singleton.mp mem]
    simp [Chunk.cells]
  case rowIds =>
    intro keeps _
    rw [isPending]
    simp [Chunk.rowIds, keeps, Slot.ofGap, comp_def]
  case rowIdLengths =>
    intro keeps _ chunk mem
    rw [mem_singleton.mp mem]
    simp [Chunk.rowIds, keeps]

theorem arrays_cells (materialize : Bool) (arrays : List (List (FileRow Value))) :
    (arrays.map (fun rows => (⟨if materialize then some rows else none, rows.length, []⟩ :
        Chunk Value))).flatMap Chunk.cells =
      arrays.flatten.map (fun row => if materialize then some row else none) := by
  induction arrays with
  | nil => rfl
  | cons rows rest ih =>
    rw [map_cons, flatMap_cons, ih, flatten_cons, map_append]
    cases materialize with
    | true => rfl
    | false => simp [Chunk.cells]

theorem Collects.file_part {reader nextReader : FileReader Value}
    {rows : List (FileRow Value)} {arrays : List (List (FileRow Value))} {materialize : Bool}
    (sound : GroupCursor.Sound deletes ⟨.file nextReader :: rest, 0⟩)
    (isPending : reader.pending deletes = rows ++ nextReader.pending deletes)
    (isArrays : arrays.flatten = rows.map (FileReader.payload materialize))
    (sameFlags : flags.take rows.length = List.replicate rows.length materialize) :
    Collects deletes keepRowIds flags ⟨.file reader :: rest, 0⟩
      (arrays.map (fun array => ⟨if materialize then some array else none, array.length, []⟩))
      rows.length ⟨.file nextReader :: rest, 0⟩ := by
  have split : GroupCursor.pending deletes ⟨.file reader :: rest, 0⟩ =
      rows.map Slot.ofRow ++ GroupCursor.pending deletes ⟨.file nextReader :: rest, 0⟩ := by
    rw [drop_file, drop_file, isPending, map_append, append_assoc]
  have taken : (GroupCursor.pending deletes ⟨.file reader :: rest, 0⟩).take rows.length =
      rows.map Slot.ofRow := by
    rw [split, take_left' (length_map _)]
  have flagCount : rows.length ≤ flags.length := by
    have lengths := congrArg List.length sameFlags
    rw [length_take, length_replicate] at lengths
    omega
  -- If every row of the window is read, no row is skipped here.
  have skipsNothing : (∀ flag ∈ flags, flag = true) → materialize = false → rows = [] := by
    intro allRead skips
    rw [← length_eq_zero_iff]
    by_contra pos
    have skipped : false ∈ flags.take rows.length := by
      rw [sameFlags, skips]
      exact mem_replicate.mpr ⟨pos, rfl⟩
    cases allRead false (mem_of_mem_take skipped)
  constructor
  case sound => exact sound
  case pending => rw [split, drop_left' (length_map _)]
  case wanted => exact flagCount
  case present =>
    rw [split, length_append, length_map]
    omega
  case cells =>
    rw [taken, sameFlags, zip_with_replicate _ _ (by simp), arrays_cells, isArrays, map_map]
    cases materialize <;> simp [shown, Slot.ofRow, FileReader.payload, comp_def]
  case lengths =>
    intro chunk mem
    obtain ⟨array, _, rfl⟩ := mem_map.mp mem
    cases materialize <;> simp [Chunk.cells]
  case rowIds =>
    intro keeps allRead
    rw [taken]
    cases materialize with
    | true =>
      have isRowIds : arrays.flatten.map FileRow.rowId = rows.map FileRow.rowId := by
        rw [isArrays]
        simp [FileReader.payload]
      simpa [flatMap_map, map_flatten, flatMap_def, Chunk.rowIds, Slot.ofRow, comp_def]
        using isRowIds
    | false => simp [skipsNothing allRead rfl, Chunk.rowIds]
  case rowIdLengths =>
    intro keeps allRead chunk mem
    obtain ⟨array, inArrays, rfl⟩ := mem_map.mp mem
    cases materialize with
    | true => simp [Chunk.rowIds]
    | false =>
      have noArray : array = [] := by
        rw [skipsNothing allRead rfl, map_nil, flatten_eq_nil_iff] at isArrays
        exact isArrays array inArrays
      simp [noArray, Chunk.rowIds]

def wantedFlags (want : Nat) (groupChoice : Option GroupChoice) : List Bool :=
  match groupChoice with
  | none => List.replicate want true
  | some choice => choice.map Option.isNone

/-- The rest of the current run is read, or skipped, as a whole. -/
structure Window.Running (flags : List Bool) (window : Window Value) : Prop where
  started : window.collected ≤ window.runEnd
  inside : window.runEnd ≤ flags.length
  same : (flags.drop window.collected).take (window.runEnd - window.collected) =
    List.replicate (window.runEnd - window.collected) window.materialize

variable {window : Window Value} {want : Nat} {groupChoice : Option GroupChoice}

theorem next_run_running (fits : ∀ choice ∈ groupChoice, choice.length = want)
    (less : window.collected < want) :
    (window.nextRun want groupChoice).Running (wantedFlags want groupChoice) ∧
      window.collected < (window.nextRun want groupChoice).runEnd ∧
      (window.nextRun want groupChoice).collected = window.collected ∧
      (window.nextRun want groupChoice).chunks = window.chunks := by
  cases groupChoice with
  | none =>
    refine ⟨⟨less.le, ?_, ?_⟩, less, rfl, rfl⟩
    · simp [wantedFlags, Window.nextRun]
    · simp [wantedFlags, Window.nextRun]
  | some choice =>
    have isLength := fits choice rfl
    have inChoice : window.collected < choice.length := by omega
    have wholeChoice : choice.take want = choice := by rw [← isLength, take_length]
    have isHead : choice.getD window.collected none = choice[window.collected] := by
      simp [getD_eq_getElem?_getD, inChoice]
    have split : choice.drop window.collected =
        choice[window.collected] :: choice.drop (window.collected + 1) :=
      drop_eq_getElem_cons inChoice
    simp only [Window.nextRun, wholeChoice, isHead]
    generalize isRun : (choice.drop (window.collected + 1)).takeWhile
      (fun group => group.isNone == choice[window.collected].isNone) = run
    have isPrefix : (choice.drop (window.collected + 1)).take run.length = run := by
      have parts :=
        takeWhile_append_dropWhile (p := fun group =>
        group.isNone == choice[window.collected].isNone)
        (l := choice.drop (window.collected + 1))
      rw [isRun] at parts
      rw [← parts, take_left]
    have sameInRun : ∀ group ∈ run, group.isNone = choice[window.collected].isNone := by
      intro group mem
      rw [← isRun] at mem
      exact beq_iff_eq.mp (all_eq_true.mp all_takeWhile group mem)
    have runLength : run.length ≤ choice.length - (window.collected + 1) := by
      rw [← length_drop, ← isPrefix]
      exact length_take_le' _ _
    refine ⟨⟨?_, ?_, ?_⟩, ?_, trivial, trivial⟩
    · dsimp only
      omega
    · simp only [wantedFlags, length_map]
      omega
    · have width : window.collected + 1 + run.length - window.collected = run.length + 1 := by
        omega
      simp only [wantedFlags, width]
      rw [← map_drop, split, map_cons, take_succ_cons, ← map_take, isPrefix]
      congr 1
      rw [eq_replicate_iff]
      refine ⟨length_map _, ?_⟩
      intro flag mem
      obtain ⟨group, inRun, rfl⟩ := mem_map.mp mem
      exact sameInRun group inRun
    · omega

theorem Window.Running.part (running : window.Running flags)
    (inRun : taken ≤ window.runEnd - window.collected) :
    (flags.drop window.collected).take taken = List.replicate taken window.materialize := by
  have part := congrArg (List.take taken) running.same
  rwa [take_take, take_replicate, min_eq_left inRun] at part

theorem Window.Running.advance {filled : Window Value} (running : window.Running flags)
    (inRun : taken ≤ window.runEnd - window.collected)
    (isCollected : filled.collected = window.collected + taken)
    (sameEnd : filled.runEnd = window.runEnd) (sameMode : filled.materialize = window.materialize) :
    filled.Running flags := by
  have started := running.started
  constructor
  · omega
  · rw [sameEnd]
    exact running.inside
  · have part := congrArg (List.drop taken) running.same
    rw [drop_take, drop_drop, drop_replicate] at part
    rw [isCollected, sameEnd, sameMode, ← Nat.sub_sub]
    exact part

theorem current_run (fits : ∀ choice ∈ groupChoice, choice.length = want)
    (running : window.Running (wantedFlags want groupChoice)) (less : window.collected < want) :
    ∃ current : Window Value,
      (if window.collected = window.runEnd then window.nextRun want groupChoice else window) =
        current ∧
      current.Running (wantedFlags want groupChoice) ∧ current.collected < current.runEnd ∧
      current.collected = window.collected ∧ current.chunks = window.chunks := by
  by_cases ended : window.collected = window.runEnd
  · obtain ⟨nextRunning, hasRows, sameCollected, sameChunks⟩ := next_run_running fits less
    refine ⟨_, if_pos ended, nextRunning, ?_, sameCollected, sameChunks⟩
    rw [sameCollected]
    exact hasRows
  · have started := running.started
    exact ⟨window, if_neg ended, running, by omega, rfl, rfl⟩

def Fills (deletes : Int → Bool) (keepRowIds : Bool) (flags : List Bool)
    (cursor : GroupCursor Value) (window : Window Value) (next : GroupCursor Value)
    (filled : Window Value) : Prop :=
  ∃ added count, Collects deletes keepRowIds (flags.drop window.collected) cursor added count next ∧
    filled.chunks = window.chunks ++ added ∧ filled.collected = window.collected + count ∧
    (filled.collected = flags.length ∨ next.pending deletes = [])

theorem Collects.fills {current : Window Value}
    {outcome : Except String (GroupCursor Value × Window Value)}
    (collects : Collects deletes keepRowIds (flags.drop window.collected) cursor added count middle)
    (isCollected : current.collected = window.collected + count)
    (isChunks : current.chunks = window.chunks ++ added)
    (others : ∃ next filled, outcome = .ok (next, filled) ∧
      Fills deletes keepRowIds flags middle current next filled) :
    ∃ next filled, outcome = .ok (next, filled) ∧
      Fills deletes keepRowIds flags cursor window next filled := by
  obtain ⟨next, filled, isFilled, later, more, collectsLater, chunksLater, collectedLater, full⟩ :=
    others
  rw [isCollected, ← drop_drop] at collectsLater
  refine ⟨next, filled, isFilled, added ++ later, count + more,
    collects.trans collectsLater, ?_, ?_, full⟩
  · rw [chunksLater, isChunks, append_assoc]
  · rw [collectedLater, isCollected, Nat.add_assoc]

theorem wanted_flags_length (fits : ∀ choice ∈ groupChoice, choice.length = want) :
    (wantedFlags want groupChoice).length = want := by
  cases groupChoice with
  | none => simp [wantedFlags]
  | some choice => simpa [wantedFlags] using fits choice rfl

variable {segment : Segment Value}

theorem GroupCursor.Sound.tail (sound : GroupCursor.Sound deletes ⟨segment :: rest, position⟩) :
    GroupCursor.Sound deletes ⟨rest, 0⟩ :=
  ⟨fun reader mem => sound.answers reader (mem_cons_of_mem _ mem), .inl rfl⟩

theorem GroupCursor.Sound.replace {other : Segment Value}
    (sound : GroupCursor.Sound deletes ⟨segment :: rest, position⟩)
    (answers : ∀ reader, .file reader = other → reader.Answers deletes) :
    GroupCursor.Sound deletes ⟨other :: rest, 0⟩ := by
  refine ⟨?_, .inl rfl⟩
  intro reader mem
  rcases mem_cons.mp mem with isReader | later
  · exact answers reader isReader
  · exact sound.answers reader (mem_cons_of_mem _ later)

theorem GroupCursor.Sound.position_le (sound : cursor.Sound deletes) :
    cursor.gapRangePos ≤ cursor.size := by
  rcases sound.position with isZero | ⟨range, ranges, rest, isGap, inside⟩
  · omega
  · rw [GroupCursor.size, isGap, map_cons, sum_cons, Segment.size, idsOf, flatMap_cons,
      length_append, length_ids]
    omega

theorem count_pos (range : Range) : 0 < range.count := by
  have := range.ordered
  rw [Range.count]
  omega

theorem GroupCursor.Sound.in_range
    (sound : GroupCursor.Sound deletes ⟨.gap (range :: ranges) :: rest, position⟩) :
    position < range.count := by
  rcases sound.position with isZero | ⟨other, others, later, isGap, inside⟩
  · have pos := count_pos range
    simp only at isZero
    omega
  · cases isGap
    exact inside

theorem GroupCursor.Sound.at_start (sound : GroupCursor.Sound deletes ⟨segment :: rest, position⟩)
    (noRange : ∀ range ranges, segment ≠ .gap (range :: ranges)) : position = 0 := by
  rcases sound.position with isZero | ⟨range, ranges, later, isGap, _⟩
  · exact isZero
  · cases isGap
    exact absurd rfl (noRange range ranges)

theorem gap_pending_drop :
    (GroupCursor.pending deletes ⟨.gap (range :: ranges) :: rest, position⟩).drop taken =
      GroupCursor.pending deletes
        (⟨.gap (range :: ranges) :: rest, position + taken⟩ : GroupCursor Value) := by
  rw [GroupCursor.pending, GroupCursor.pending, drop_drop]

theorem gap_pending_complete :
    GroupCursor.pending deletes ⟨.gap (range :: ranges) :: rest, range.count⟩ =
      GroupCursor.pending deletes (⟨.gap ranges :: rest, 0⟩ : GroupCursor Value) := by
  rw [GroupCursor.pending, flatMap_cons, Segment.pending, idsOf, flatMap_cons,
    map_append, append_assoc]
  exact drop_left' (by rw [length_map, length_ids])

theorem gap_size (range : Range) (ranges : List Range) (rest : List (Segment Value))
    (position other : Nat) : (⟨.gap (range :: ranges) :: rest, position⟩ : GroupCursor Value).size =
      range.count + (⟨.gap ranges :: rest, other⟩ : GroupCursor Value).size := by
  simp only [GroupCursor.size, map_cons, sum_cons, Segment.size, idsOf, flatMap_cons,
    length_append, length_ids]
  omega

theorem enough_after_segment {fuel : Nat}
    (enough : (⟨segment :: rest, 0⟩ : GroupCursor Value).size < fuel + 1 + 0) :
    (⟨rest, 0⟩ : GroupCursor Value).size < fuel + 0 := by
  cases segment <;>
    simp only [GroupCursor.size, map_cons, sum_cons, Segment.size] at enough ⊢ <;> omega

variable (keepRowIds)

/-- What is to be shown of the loop with `fuel` turns left. -/
def FillsWithin (Value : Type) (deletes : Int → Bool) (want : Nat)
    (groupChoice : Option GroupChoice) (fuel : Nat) : Prop :=
  ∀ {cursor : GroupCursor Value} {window : Window Value}, cursor.size < fuel + cursor.gapRangePos →
    cursor.Sound deletes → window.Running (wantedFlags want groupChoice) → ∃ next filled,
      fillWindowFrom keepRowIds want groupChoice fuel cursor window = .ok (next, filled) ∧
        Fills deletes keepRowIds (wantedFlags want groupChoice) cursor window next filled

section
variable {keepRowIds} {fuel : Nat}
  (within : FillsWithin keepRowIds Value deletes want groupChoice fuel)
  (running : window.Running (wantedFlags want groupChoice))
include within running

/-- Rows of a gap, to the end of its range or of the run, whichever comes first. -/
theorem FillsWithin.gap
    (sound : GroupCursor.Sound deletes ⟨.gap (range :: ranges) :: rest, position⟩)
    (enough : (⟨.gap (range :: ranges) :: rest, position⟩ : GroupCursor Value).size <
      fuel + 1 + position) (hasRows : window.collected < window.runEnd)
    (isTaken : min (range.count - position) (window.runEnd - window.collected) = taken)
    {chunk : Chunk Value} (isChunk : chunk = ⟨none, taken, if keepRowIds then
      (List.range taken).map (fun k : Nat => range.first + position + k) else []⟩) :
    ∃ next filled, (if position + taken = range.count then
          fillWindowFrom keepRowIds want groupChoice fuel ⟨.gap ranges :: rest, 0⟩
            (window.addGap chunk)
        else fillWindowFrom keepRowIds want groupChoice fuel
          ⟨.gap (range :: ranges) :: rest, position + taken⟩ (window.addGap chunk)) =
        .ok (next, filled) ∧
      Fills deletes keepRowIds (wantedFlags want groupChoice)
        ⟨.gap (range :: ranges) :: rest, position⟩ window next filled := by
  have inRange := sound.in_range
  have smaller := gap_size range ranges rest position 0
  have takenBound : position + taken ≤ range.count := by omega
  have inRun : taken ≤ window.runEnd - window.collected := by omega
  have filledRunning : (window.addGap chunk).Running (wantedFlags want groupChoice) := by
    subst isChunk
    exact running.advance inRun rfl rfl rfl
  split_ifs with complete
  · have nextSound : GroupCursor.Sound deletes
        (⟨.gap ranges :: rest, 0⟩ : GroupCursor Value) := sound.replace (by simp)
    have others := within (by simp only; omega) nextSound filledRunning
    subst isChunk
    have isNext : GroupCursor.pending deletes (⟨.gap ranges :: rest, 0⟩ : GroupCursor Value) = _ :=
      (gap_pending_drop.trans (by rw [complete, gap_pending_complete])).symm
    exact (Collects.gap_part takenBound nextSound isNext
      (running.part inRun)).fills rfl rfl others
  · have nextSound : GroupCursor.Sound deletes
        (⟨.gap (range :: ranges) :: rest, position + taken⟩ : GroupCursor Value) :=
      ⟨sound.answers, .inr ⟨range, ranges, rest, rfl, by simp only; omega⟩⟩
    have nextSmaller := gap_size range ranges rest (position + taken) 0
    have others := within (by simp only; omega) nextSound filledRunning
    subst isChunk
    exact (Collects.gap_part takenBound nextSound gap_pending_drop.symm
      (running.part inRun)).fills rfl rfl others

/-- A batch of a file, which is no longer than the run. -/
theorem FillsWithin.batch {reader nextReader : FileReader Value}
    {marked : List (FileRow Value × Bool)}
    (sound : GroupCursor.Sound deletes ⟨.file reader :: rest, 0⟩)
    (enough : (⟨.file reader :: rest, 0⟩ : GroupCursor Value).size < fuel + 1 + 0)
    (emits : reader.Emits deletes (window.runEnd - window.collected) window.materialize
      (some marked) nextReader) :
    ∃ next filled, fillWindowFrom keepRowIds want groupChoice fuel ⟨.file nextReader :: rest, 0⟩
          (window.addArrays (validStretches marked [])) = .ok (next, filled) ∧
      Fills deletes keepRowIds (wantedFlags want groupChoice) ⟨.file reader :: rest, 0⟩ window
        next filled := by
  obtain ⟨fewer, limited, hasValid, rows, isValid, isPending⟩ := emits.emitted marked rfl
  have flattened : (validStretches marked []).flatten =
      rows.map (FileReader.payload window.materialize) := by
    rw [valid_stretches_flatten, nil_append, isValid]
  have collected : ((validStretches marked []).map List.length).sum = rows.length := by
    rw [← length_flatten, flattened, length_map]
  have inRun : rows.length ≤ window.runEnd - window.collected := by
    have counted := congrArg List.length isValid
    rw [length_map] at counted
    have filtered := valid_rows_length_le marked
    omega
  have nextSound : GroupCursor.Sound deletes (⟨.file nextReader :: rest, 0⟩ : GroupCursor Value) :=
    sound.replace (fun _ isReader => by cases isReader; exact emits.answers)
  have nextEnough : (⟨.file nextReader :: rest, 0⟩ : GroupCursor Value).size < fuel + 0 := by
    simp only [GroupCursor.size, map_cons, sum_cons, Segment.size] at enough ⊢
    omega
  have isCollected : (window.addArrays (validStretches marked [])).collected =
      window.collected + rows.length := by
    rw [Window.addArrays, collected]
  exact (Collects.file_part nextSound isPending flattened
    (running.part inRun)).fills isCollected rfl
    (within nextEnough nextSound (running.advance inRun isCollected rfl rfl))

end

theorem fill_window_from_fills (fits : ∀ choice ∈ groupChoice, choice.length = want) (fuel : Nat) :
    FillsWithin keepRowIds Value deletes want groupChoice fuel := by
  induction fuel with
  | zero =>
    intro cursor window enough sound _
    have := sound.position_le
    omega
  | succ fuel ih =>
    intro cursor window enough sound running
    have isLength := wanted_flags_length fits
    rw [fillWindowFrom]
    by_cases less : window.collected < want
    · obtain ⟨current, isCurrent, currentRunning, hasRows, sameCollected, sameChunks⟩ :=
        current_run fits running less
      rw [if_pos less, isCurrent]
      -- The run is settled; what follows does not depend on how it was found.
      suffices fromCurrent : ∃ next filled, _ = Except.ok (next, filled) ∧
          Fills deletes keepRowIds (wantedFlags want groupChoice) cursor current next filled by
        obtain ⟨next, filled, isFilled, fills⟩ := fromCurrent
        refine ⟨next, filled, isFilled, ?_⟩
        rwa [Fills, sameCollected, sameChunks] at fills
      obtain ⟨segments, position⟩ := cursor
      cases segments with
      | nil =>
        refine ⟨_, current, rfl, [], 0, Collects.nothing sound rfl, by simp, rfl, .inr ?_⟩
        simp [GroupCursor.pending]
      | cons segment rest =>
        cases segment with
        | gap ranges =>
          cases ranges with
          | nil =>
            cases sound.at_start (by simp)
            refine Collects.fills (Collects.nothing sound.tail ?_) rfl (by simp)
              (ih (enough_after_segment enough) sound.tail currentRunning)
            simp [GroupCursor.pending, Segment.pending, idsOf]
          | cons range ranges => exact ih.gap currentRunning sound enough hasRows rfl rfl
        | file reader =>
          cases sound.at_start (by simp)
          have remaining : 0 < current.runEnd - current.collected := by omega
          obtain ⟨batch, nextReader, isBatch, emits⟩ := FileReader.next_batch_emits remaining
            current.materialize (sound.answers reader mem_cons_self)
          simp only [isBatch]
          cases batch with
          | none =>
            refine Collects.fills (Collects.nothing sound.tail ?_) rfl (by simp)
              (ih (enough_after_segment enough) sound.tail currentRunning)
            rw [drop_file, emits.ended rfl]
            rfl
          | some marked =>
            obtain ⟨_, limited, hasValid, _⟩ := emits.emitted marked rfl
            simp only [Nat.not_lt.mpr limited, if_false, generate_valid (has_valid_row hasValid)]
            exact ih.batch currentRunning sound enough emits
    · have started := running.started
      have inside := running.inside
      rw [if_neg less]
      exact ⟨cursor, window, rfl, [], 0, Collects.nothing sound rfl, by simp, rfl, .inl (by omega)⟩

theorem fill_window_fills (fits : ∀ choice ∈ groupChoice, choice.length = want)
    (sound : cursor.Sound deletes) :
    ∃ next filled, fillWindow keepRowIds want groupChoice cursor = .ok (next, filled) ∧
      Collects deletes keepRowIds (wantedFlags want groupChoice) cursor filled.chunks
        filled.collected next ∧ filled.collected = min want (cursor.pending deletes).length := by
  have isLength := wanted_flags_length fits
  have running : ({} : Window Value).Running (wantedFlags want groupChoice) :=
    ⟨le_refl _, Nat.zero_le _, rfl⟩
  obtain ⟨next, filled, isFilled, added, count, collects, isChunks, isCollected, full⟩ :=
    fill_window_from_fills keepRowIds fits (cursor.size + 1)
      (show cursor.size < cursor.size + 1 + cursor.gapRangePos by omega) sound running
  rw [drop_zero] at collects
  rw [Nat.zero_add] at isCollected
  subst isChunks isCollected
  refine ⟨next, filled, isFilled, collects, ?_⟩
  have wanted := collects.wanted
  have present := collects.present
  rcases full with isFull | nothingLeft
  · omega
  · rw [collects.pending, drop_eq_nil_iff] at nothingLeft
    omega

end

end PaimonCore.Read
