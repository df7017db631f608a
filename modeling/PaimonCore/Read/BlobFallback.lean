import Mathlib.Data.List.Dedup
import PaimonCore.Read.BlobFallbackReader

/-!
# `DataEvolutionSplitRead::CreateBlobFallbackReader`

The blob files of one field are grouped by their sequence number, newest first. Each group is
padded with gaps, so that all step over the same row ids. The reader emits, for each id, the
newest value that is not a placeholder.
-/

namespace PaimonCore.Read

open PaimonCore.Ranges List BlobFallbackBatchReader BlobFile

variable {Value : Type}

def selectedRangesInRange (range : Range) (rowRanges : Option (List Range)) : List Range :=
  match rowRanges with
  | none => [range]
  | some rowRanges =>
    (sortAndMergeOverlap rowRanges true).filterMap (fun other => range.intersection other)

/-- The selected positions of the file, or `none` if all are. -/
def BlobFile.toFileSelection (file : BlobFile Value) (rowRanges : Option (List Range)) :
    Option (List Nat) :=
  match rowRanges with
  | none => none
  | some rowRanges =>
    let selected := rowRanges.filterMap (fun other => file.rowIdRange.intersection other)
    let selection := (List.range file.rowCount).filter
      (fun position : Nat =>
        selected.any (fun range => range.contains (file.firstRowId + position)))
    if selection.length = file.rowCount then none else some selection

/-- The row at a position, completed with the row-tracking fields. -/
def BlobFile.storedRow (file : BlobFile Value) (position : Nat) : Option (StoredRow Value) :=
  file.blobs[position]?.map (fun blob =>
    ⟨position, ⟨blob, file.firstRowId + position, file.maxSequenceNumber⟩⟩)

/-- `CreateRawFileReadersWithMeta`; a file without a selected row is skipped. -/
def createFileReader (file : BlobFile Value)
    (groupDvFactory : BlobFile Value → Option FileDeletionVector)
    (batchSizes : BlobFile Value → Nat → Nat) (rowRanges : Option (List Range)) :
    Option (FileReader Value) :=
  match file.toFileSelection rowRanges with
  | some [] => none
  | some selection =>
    some ⟨selection.filterMap file.storedRow, groupDvFactory file, batchSizes file, 0⟩
  | none =>
    some ⟨(List.range file.rowCount).filterMap file.storedRow, groupDvFactory file,
      batchSizes file, 0⟩

section
variable (logicalRange : Range) (rowRanges : Option (List Range))
  (groupDvFactory : BlobFile Value → Option FileDeletionVector)
  (groupDv : Option GroupDeletionVector) (batchSizes : BlobFile Value → Nat → Nat)

def gapSelectedRanges (gap : Range) : List Range :=
  let selected := selectedRangesInRange gap rowRanges
  match groupDv with
  | some groupDv => if selected.isEmpty then selected else excludeDeletedRowIds selected groupDv
  | none => selected

def gapSegments (gap : Range) : List (Segment Value) :=
  if (gapSelectedRanges rowRanges groupDv gap).isEmpty then []
  else [.gap (gapSelectedRanges rowRanges groupDv gap)]

def fileSegments (file : BlobFile Value) : Except String (List (Segment Value)) :=
  let fileRanges := selectedRangesInRange logicalRange rowRanges
  if (selectedRangesInRange file.rowIdRange (some fileRanges)).isEmpty then .ok []
  else
    match createFileReader file groupDvFactory batchSizes (some fileRanges) with
    | none => .error "Unexpected: blob fallback file reader was skipped."
    | some reader => .ok [.file reader]

/-- The segments of a layer from `nextRowId` on. -/
def layerSegments : List (BlobFile Value) → Int → Except String (List (Segment Value))
  | [], nextRowId =>
    .ok ((rangeBetween nextRowId logicalRange.last).flatMap (gapSegments rowRanges groupDv))
  | file :: rest, nextRowId =>
    -- There is a gap if the file starts after `nextRowId`, which is in the logical range.
    let gap := (rangeBetween nextRowId (min (file.firstRowId - 1) logicalRange.last)).flatMap
      (gapSegments rowRanges groupDv)
    match fileSegments logicalRange rowRanges groupDvFactory batchSizes file,
      layerSegments rest (max nextRowId (file.firstRowId + file.rowCount)) with
    | .ok here, .ok later => .ok (gap ++ here ++ later)
    | .error error, _ => .error error
    | _, .error error => .error error

def checkOverlap (maxSequenceNumber : Int) : Option Int → List (BlobFile Value) → Except String Unit
  | _, [] => .ok ()
  | previousFileEnd, file :: rest =>
    match previousFileEnd.filter (fun fileEnd => file.firstRowId < fileEnd) with
    | some fileEnd =>
      let (fileName, firstRowId) := (file.fileName, file.firstRowId)
      .error (s!"Blob files with the same max sequence number should not have overlapping " ++
        s!"row id ranges: file {fileName} (max sequence number {maxSequenceNumber}) starts at " ++
        s!"row id {firstRowId} before the previous file's end {fileEnd}")
    | none => checkOverlap maxSequenceNumber (some (file.firstRowId + file.rowCount)) rest

/-- The layers, newest first; `none` if one of them has nothing to read. -/
def createLayers :
    List (Int × List (BlobFile Value)) → Except String (Option (List (List (Segment Value))))
  | [] => .ok (some [])
  | (maxSequenceNumber, groupFiles) :: rest =>
    let sorted := groupFiles.insertionSort (fun left right => left.firstRowId ≤ right.firstRowId)
    match checkOverlap maxSequenceNumber none sorted with
    | .error error => .error error
    | .ok () =>
      match layerSegments logicalRange rowRanges groupDvFactory groupDv batchSizes sorted
        logicalRange.first with
      | .error error => .error error
      | .ok segments =>
        if segments.isEmpty then .ok none
        else
          match createLayers rest with
          | .error error => .error error
          | .ok none => .ok none
          | .ok (some layers) => .ok (some (segments :: layers))

def checkRange (file : BlobFile Value) : Except String Unit :=
  if rowRanges.isNone ∧ (file.rowIdRange.first < logicalRange.first ∨
      logicalRange.last < file.rowIdRange.last) then
    .error "Blob file range should be within logical range."
  else if rowRanges.isSome ∧ file.rowIdRange.hasIntersection logicalRange = false then
    .error "Blob file range should intersect logical range."
  else .ok ()

def checkRanges : List (BlobFile Value) → Except String Unit
  | [] => .ok ()
  | file :: rest =>
    match checkRange logicalRange rowRanges file with
    | .error error => .error error
    | .ok () => checkRanges rest

end

/-- The map from sequence numbers to files, greatest number first. -/
def sequenceGroups (files : List (BlobFile Value)) : List (Int × List (BlobFile Value)) :=
  ((files.map BlobFile.maxSequenceNumber).dedup.insertionSort (fun left right => right ≤ left)).map
    (fun number => (number, files.filter (fun file => file.maxSequenceNumber = number)))

/-- `none` is the reader that has no rows. -/
def createBlobFallbackReader (files : List (BlobFile Value)) (logicalRange : Range)
    (readSchema : ReadSchema) (rowRanges : Option (List Range))
    (groupDvFactory : BlobFile Value → Option FileDeletionVector)
    (groupDv : Option GroupDeletionVector) (batchSizes : BlobFile Value → Nat → Nat)
    (readBatchSize : Int) : Except String (Option (BlobFallbackBatchReader Value)) :=
  if files.isEmpty then .error "Blob bunch should not be empty."
  else
    match checkRanges logicalRange rowRanges files with
    | .error error => .error error
    | .ok () =>
      match createLayers logicalRange rowRanges groupDvFactory groupDv batchSizes
          (sequenceGroups files) with
      | .error error => .error error
      | .ok none => .ok none
      | .ok (some layers) =>
        match BlobFallbackBatchReader.create layers readSchema readBatchSize with
        | .error error => .error error
        | .ok reader => .ok (some reader)

theorem clipped_covers {range : Range} {ranges : List Range} {id : Int} :
    Covers (ranges.filterMap (fun other => range.intersection other)) id ↔
      id ∈ range ∧ Covers ranges id := by
  constructor
  · rintro ⟨part, mem, inPart⟩
    obtain ⟨other, isOther, isPart⟩ := mem_filterMap.mp mem
    obtain ⟨inRange, inOther⟩ := Range.mem_intersection.mp ⟨part, isPart, inPart⟩
    exact ⟨inRange, other, isOther, inOther⟩
  · rintro ⟨inRange, other, isOther, inOther⟩
    obtain ⟨part, isPart, inPart⟩ := Range.mem_intersection.mpr ⟨inRange, inOther⟩
    exact ⟨part, mem_filterMap.mpr ⟨other, isOther, isPart⟩, inPart⟩

theorem selected_in_range_ascending (range : Range) (rowRanges : Option (List Range)) :
    Ascending (selectedRangesInRange range rowRanges) := by
  cases rowRanges with
  | none => exact pairwise_singleton _ _
  | some rowRanges =>
    apply Pairwise.filterMap _ _ (sort_and_merge_ascending rowRanges true)
    intro first second less firstPart isFirst secondPart isSecond
    have firstBounds := intersection_bounds isFirst
    have secondBounds := intersection_bounds isSecond
    omega

theorem selected_in_range_covers (range : Range) (rowRanges : Option (List Range)) (id : Int) :
    Covers (selectedRangesInRange range rowRanges) id ↔
      id ∈ range ∧ ∀ selected ∈ rowRanges, Covers selected id := by
  cases rowRanges with
  | none => simp [selectedRangesInRange, covers_cons, covers_nil]
  | some rowRanges =>
    have isCovered := sort_and_merge_covers rowRanges true id
    simp only [selectedRangesInRange, Option.mem_def, Option.some.injEq, forall_eq']
    rw [clipped_covers, isCovered]

def BlobFile.blobAt (file : BlobFile Value) (id : Int) : Option (Blob Value) :=
  if file.rowIdRange.contains id then file.blobs[(id - file.firstRowId).toNat]? else none

def BlobFile.rowAt (file : BlobFile Value) (id : Int) : Option (FileRow Value) :=
  (file.blobAt id).map (fun blob => ⟨blob, id, file.maxSequenceNumber⟩)

def layerSlot (files : List (BlobFile Value)) (id : Int) : Slot Value :=
  ⟨id, files.findSome? (fun file => file.rowAt id)⟩

def wantsRow (rowRanges : Option (List Range)) (deletes : Int → Bool) (id : Int) : Bool :=
  rowRanges.all (fun selected => decide (Covers selected id)) && !deletes id

variable {id : Int}

theorem wants_row_iff {rowRanges : Option (List Range)} {deletes : Int → Bool} :
    wantsRow rowRanges deletes id = true ↔
      (∀ selected ∈ rowRanges, Covers selected id) ∧ deletes id = false := by
  cases rowRanges <;> simp [wantsRow]

def idsBetween (first last : Int) : List Int := idsOf (rangeBetween first last)

theorem mem_ids_between {first last : Int} :
    id ∈ idsBetween first last ↔ first ≤ id ∧ id ≤ last := by
  rw [idsBetween, mem_ids_of, range_between_covers]

theorem ids_between_ascending (first last : Int) : (idsBetween first last).Pairwise (· < ·) :=
  ids_of_ascending (range_between_ascending first last)

theorem ids_between_split {first last : Int} (middle : Int) (lower : first ≤ middle + 1)
    (upper : middle ≤ last) :
    idsBetween first last = idsBetween first middle ++ idsBetween (middle + 1) last := by
  apply ascending_ids_eq (ids_between_ascending first last)
  · rw [pairwise_append]
    refine ⟨ids_between_ascending _ _, ids_between_ascending _ _, ?_⟩
    intro left inLeft right inRight
    rw [mem_ids_between] at inLeft inRight
    omega
  · intro id
    rw [mem_append, mem_ids_between, mem_ids_between, mem_ids_between]
    omega

theorem ids_between_range (range : Range) {first : Int} (isFirst : first = range.first) :
    idsBetween first range.last = range.ids := by
  subst isFirst
  rw [idsBetween, rangeBetween, dif_pos range.ordered, idsOf, flatMap_singleton]

def groupDeletes (groupDv : Option GroupDeletionVector) (id : Int) : Bool :=
  groupDv.any (fun groupDv => groupDv.deletes id)

variable {logicalRange : Range} {rowRanges : Option (List Range)}
  {groupDv : Option GroupDeletionVector} {batchSizes : BlobFile Value → Nat → Nat}
  {groupDvFactory : BlobFile Value → Option FileDeletionVector}

theorem ids_of_wanted {ranges : List Range} {gap : Range} (ascending : Ascending ranges)
    (covers : ∀ id, Covers ranges id ↔
      id ∈ gap ∧ wantsRow rowRanges (groupDeletes groupDv) id = true) :
    idsOf ranges = gap.ids.filter (wantsRow rowRanges (groupDeletes groupDv)) := by
  apply ascending_ids_eq (ids_of_ascending ascending) (gap.ids_ascending.filter _)
  intro id
  rw [mem_ids_of, covers, mem_filter, Range.mem_ids]

theorem gap_segments_pending (gap : Range)
    (anchored : ∀ dv ∈ groupDv, ∀ id ∈ gap, id ∈ dv.anchorRange) :
    (@gapSegments Value rowRanges groupDv gap).flatMap (Segment.pending (groupDeletes groupDv)) =
      (gap.ids.filter (wantsRow rowRanges (groupDeletes groupDv))).map Slot.ofGap := by
  have ascending := selected_in_range_ascending gap rowRanges
  have covers := selected_in_range_covers gap rowRanges
  have emitted :
      ∀ ranges : List Range, (if ranges.isEmpty then [] else [Segment.gap ranges]).flatMap
          (@Segment.pending Value (groupDeletes groupDv)) =
        (idsOf ranges).map Slot.ofGap := by
    intro ranges
    cases ranges <;> simp [Segment.pending, idsOf]
  rw [gapSegments, emitted]
  apply congrArg (List.map Slot.ofGap)
  unfold gapSelectedRanges
  cases groupDv with
  | none =>
    apply ids_of_wanted ascending
    intro id
    rw [covers, wants_row_iff]
    simp [groupDeletes]
  | some dv =>
    have isExcluded : (if (selectedRangesInRange gap rowRanges).isEmpty then
        selectedRangesInRange gap rowRanges
      else excludeDeletedRowIds (selectedRangesInRange gap rowRanges) dv) =
        excludeDeletedRowIds (selectedRangesInRange gap rowRanges) dv := by
      cases isSelected : selectedRangesInRange gap rowRanges <;> rfl
    dsimp only
    rw [isExcluded]
    apply ids_of_wanted (exclude_deleted_ascending ascending dv)
    intro id
    have inAnchor : ∀ other, Covers (selectedRangesInRange gap rowRanges) other →
        other ∈ dv.anchorRange :=
      fun other isCovered => anchored dv rfl other ((covers other).mp isCovered).1
    rw [exclude_deleted_covers ascending inAnchor, covers, wants_row_iff, and_assoc]
    rfl

def AnswersFor (deletes : Int → Bool) (file : BlobFile Value) (vector : Option FileDeletionVector) :
    Prop :=
  ∀ reader : FileReader Value, reader.deletionVector = vector → ∀ position : Nat,
    position < file.rowCount →
      reader.isDeleted position = .ok (deletes (file.firstRowId + position))

theorem position_mem (file : BlobFile Value) {position : Nat} (inside : position < file.rowCount) :
    file.firstRowId + (position : Int) ∈ file.rowIdRange := by
  rw [mem_row_id_range]
  omega

theorem stored_row_eq (file : BlobFile Value) {position : Nat} (inside : position < file.rowCount) :
    ∃ row, file.storedRow position = some ⟨position, row⟩ ∧
      row.rowId = file.firstRowId + position ∧ file.rowAt (file.firstRowId + position) =
        some row := by
  have isBlob := getElem?_eq_getElem (l := file.blobs) inside
  refine ⟨_, by rw [storedRow, isBlob]; rfl, rfl, ?_⟩
  have inFile : file.rowIdRange.contains (file.firstRowId + position) = true :=
    position_mem file inside
  rw [rowAt, blobAt, if_pos inFile, add_sub_cancel_left, Int.toNat_natCast, isBlob]
  rfl

theorem stored_rows_pending (deletes : Int → Bool) (file : BlobFile Value) (positions : List Nat)
    (inside : ∀ position ∈ positions, position < file.rowCount) :
    (((positions.filterMap file.storedRow).map StoredRow.row).filter
        (fun row => !deletes row.rowId)).map Slot.ofRow =
      ((positions.map (fun position : Nat => file.firstRowId + position)).filter
        (fun id => !deletes id)).map (fun id => ⟨id, file.rowAt id⟩) := by
  induction positions with
  | nil => rfl
  | cons position rest ih =>
    have later := ih (forall_mem_cons.mp inside).2
    obtain ⟨row, isStored, isId, isRow⟩ := stored_row_eq file (inside position (mem_cons_self ..))
    rw [filterMap_cons_some isStored, map_cons, map_cons, filter_cons, filter_cons, isId]
    cases isDeleted : deletes (file.firstRowId + position) with
    | true => simpa using later
    | false =>
      simp only [Bool.not_false, if_true, map_cons, later, List.cons.injEq, and_true]
      rw [Slot.ofRow, isId, isRow]

def selectedPositions (rowRanges : Option (List Range)) (file : BlobFile Value) : List Nat :=
  (List.range file.rowCount).filter (fun position : Nat =>
    rowRanges.all (fun selected => decide (Covers selected (file.firstRowId + position))))

theorem file_selection_eq {file : BlobFile Value}
    (inside : ∀ id ∈ file.rowIdRange, id ∈ logicalRange) :
    (file.toFileSelection (some (selectedRangesInRange logicalRange rowRanges))).getD
        (List.range file.rowCount) = selectedPositions rowRanges file ∧
      (file.toFileSelection (some (selectedRangesInRange logicalRange rowRanges)) = some [] →
        selectedPositions rowRanges file = []) := by
  let fileRanges := selectedRangesInRange logicalRange rowRanges
  let selection := (List.range file.rowCount).filter (fun position : Nat =>
    (fileRanges.filterMap (fun other => file.rowIdRange.intersection other)).any
      (fun range => range.contains (file.firstRowId + position)))
  have isSelection : selection = selectedPositions rowRanges file := by
    apply filter_congr
    intro position inRows
    have inFile := position_mem file (mem_range.mp inRows)
    rw [Bool.eq_iff_iff, any_eq_true]
    apply clipped_covers.trans
    rw [selected_in_range_covers]
    cases rowRanges <;> simp [inFile, inside _ inFile]
  have isFile : file.toFileSelection (some fileRanges) =
      if selection.length = file.rowCount then none else some selection := rfl
  rw [isFile]
  split_ifs with allSelected
  · refine ⟨?_, by simp⟩
    rw [← isSelection]
    have isWhole : selection = List.range file.rowCount :=
      filter_eq_self.mpr (length_filter_eq_length_iff.mp (by rw [length_range]; exact allSelected))
    exact isWhole.symm
  · refine ⟨isSelection, ?_⟩
    intro isEmpty
    rw [← isSelection]
    exact Option.some.inj isEmpty

variable {file : BlobFile Value}

theorem mem_selected_positions {position : Nat} :
    position ∈ selectedPositions rowRanges file ↔ position < file.rowCount ∧
      ∀ selected ∈ rowRanges, Covers selected (file.firstRowId + position) := by
  rw [selectedPositions, mem_filter]
  cases rowRanges <;> simp

theorem selected_is_empty_iff (inside : ∀ id ∈ file.rowIdRange, id ∈ logicalRange) :
    (selectedRangesInRange file.rowIdRange
      (some (selectedRangesInRange logicalRange rowRanges))).isEmpty = true ↔
      selectedPositions rowRanges file = [] := by
  have covers : ∀ id, Covers (selectedRangesInRange file.rowIdRange
      (some (selectedRangesInRange logicalRange rowRanges))) id ↔
        id ∈ file.rowIdRange ∧ ∀ selected ∈ rowRanges, Covers selected id := by
    intro id
    have isLogical := selected_in_range_covers logicalRange rowRanges id
    rw [selected_in_range_covers]
    simp only [Option.mem_def, Option.some.injEq, forall_eq', isLogical]
    exact ⟨fun both => ⟨both.1, both.2.2⟩, fun both => ⟨both.1, inside id both.1, both.2⟩⟩
  rw [List.isEmpty_iff, List.eq_nil_iff_forall_not_mem, List.eq_nil_iff_forall_not_mem]
  constructor
  · intro noRange position mem
    obtain ⟨inRows, selected⟩ := mem_selected_positions.mp mem
    obtain ⟨range, isRange, _⟩ := (covers _).mpr ⟨position_mem file inRows, selected⟩
    exact noRange range isRange
  · intro noPosition range isRange
    obtain ⟨inFile, selected⟩ := (covers range.first).mp
      ⟨range, isRange, Range.mem_iff.mpr ⟨le_refl _, range.ordered⟩⟩
    rw [mem_row_id_range] at inFile
    apply noPosition (range.first - file.firstRowId).toNat
    rw [mem_selected_positions]
    refine ⟨by omega, ?_⟩
    rw [show file.firstRowId + ((range.first - file.firstRowId).toNat : Int) = range.first by omega]
    exact selected

theorem wanted_ids_eq (deletes : Int → Bool) (file : BlobFile Value) :
    file.rowIdRange.ids.filter (wantsRow rowRanges deletes) =
      ((selectedPositions rowRanges file).map (fun position : Nat =>
        file.firstRowId + position)).filter
        (fun id => !deletes id) := by
  have isCount : file.rowIdRange.count = file.rowCount := by
    rw [Range.count]
    simp only [rowIdRange]
    omega
  rw [Range.ids, isCount, selectedPositions, filter_map, filter_map, filter_filter]
  apply congrArg (List.map _)
  apply filter_congr
  intro position _
  simp only [Function.comp_apply, wantsRow, rowIdRange]
  rw [Bool.and_comm]

theorem file_segments_pending {deletes : Int → Bool} {file : BlobFile Value}
    (inside : ∀ id ∈ file.rowIdRange, id ∈ logicalRange)
    (answers : AnswersFor deletes file (groupDvFactory file)) :
    ∃ segments, fileSegments logicalRange rowRanges groupDvFactory batchSizes file = .ok segments ∧
      (∀ reader, .file reader ∈ segments → reader.Answers deletes) ∧
      (∀ ranges, .gap ranges ∉ segments) ∧ segments.flatMap (Segment.pending deletes) =
        (file.rowIdRange.ids.filter (wantsRow rowRanges deletes)).map (fun id =>
          ⟨id, file.rowAt id⟩) := by
  rw [wanted_ids_eq]
  by_cases isEmpty : selectedPositions rowRanges file = []
  · refine ⟨[], ?_, by simp, by simp, by simp [isEmpty]⟩
    rw [fileSegments, if_pos ((selected_is_empty_iff inside).mpr isEmpty)]
  · obtain ⟨isPositions, skipped⟩ := @file_selection_eq Value logicalRange rowRanges file inside
    let reader : FileReader Value :=
      ⟨(selectedPositions rowRanges file).filterMap file.storedRow, groupDvFactory file,
        batchSizes file, 0⟩
    have isReader : createFileReader file groupDvFactory batchSizes
        (some (selectedRangesInRange logicalRange rowRanges)) = some reader := by
      rw [createFileReader]
      cases isSelection :
          file.toFileSelection (some (selectedRangesInRange logicalRange rowRanges)) with
      | none =>
        rw [isSelection, Option.getD_none] at isPositions
        simp only [reader, isPositions]
      | some selection =>
        cases selection with
        | nil => exact absurd (skipped isSelection) isEmpty
        | cons position rest =>
          rw [isSelection, Option.getD_some] at isPositions
          simp only [reader, isPositions]
    have readerAnswers : reader.Answers deletes := by
      intro stored mem
      obtain ⟨position, inPositions, isStored⟩ := mem_filterMap.mp mem
      have inRows := (mem_selected_positions.mp inPositions).1
      obtain ⟨row, isRow, isId, _⟩ := stored_row_eq file inRows
      rw [isRow] at isStored
      cases isStored
      rw [isId]
      exact answers reader rfl position inRows
    refine ⟨[.file reader], ?_, ?_, by simp, ?_⟩
    · rw [fileSegments, if_neg (fun noRange => isEmpty ((selected_is_empty_iff inside).mp noRange)),
        isReader]
    · intro other mem
      cases mem_singleton.mp mem
      exact readerAnswers
    · rw [flatMap_singleton, Segment.pending]
      exact stored_rows_pending deletes file _ (fun position mem =>
        (mem_selected_positions.mp mem).1)

theorem row_at_none (outside : id ∉ file.rowIdRange) : file.rowAt id = none := by
  have notContained : ¬file.rowIdRange.contains id = true := outside
  rw [rowAt, blobAt, if_neg notContained]
  rfl

theorem row_at_some (inFile : id ∈ file.rowIdRange) : ∃ row, file.rowAt id = some row := by
  have bounds := mem_row_id_range.mp inFile
  obtain ⟨row, _, _, isRow⟩ := @stored_row_eq Value file (id - file.firstRowId).toNat (by omega)
  rw [show file.firstRowId + ((id - file.firstRowId).toNat : Int) = id by omega] at isRow
  exact ⟨row, isRow⟩

theorem layer_slot_gap {files : List (BlobFile Value)}
    (outside : ∀ file ∈ files, id ∉ file.rowIdRange) : layerSlot files id = Slot.ofGap id := by
  rw [layerSlot, findSome?_eq_none_iff.mpr (fun file mem => row_at_none (outside file mem))]
  rfl

theorem gaps_pending {first last : Int}
    (anchored : ∀ dv ∈ groupDv, ∀ id, first ≤ id → id ≤ last → id ∈ dv.anchorRange) :
    ((rangeBetween first last).flatMap (@gapSegments Value rowRanges groupDv)).flatMap
        (Segment.pending (groupDeletes groupDv)) =
      ((idsBetween first last).filter (wantsRow rowRanges (groupDeletes groupDv))).map
        Slot.ofGap := by
  rw [idsBetween, rangeBetween]
  split_ifs with ordered
  · rw [flatMap_singleton, idsOf, flatMap_singleton, gap_segments_pending]
    intro dv isDv id inGap
    have bounds := Range.mem_iff.mp inGap
    exact anchored dv isDv id bounds.1 bounds.2
  · rfl

theorem gap_segments_kinds {gap : Range} {segment : Segment Value}
    (mem : segment ∈ gapSegments rowRanges groupDv gap) :
    ∃ ranges, ranges ≠ [] ∧ segment = .gap ranges := by
  rw [gapSegments] at mem
  split_ifs at mem with isEmpty
  · cases mem
  · exact ⟨_, fun isNil => isEmpty (isEmpty_iff.mpr isNil), mem_singleton.mp mem⟩

structure Readable (deletes : Int → Bool) (segments : List (Segment Value)) : Prop where
  answers : ∀ reader, .file reader ∈ segments → reader.Answers deletes
  gaps : .gap [] ∉ segments

theorem Readable.append {deletes : Int → Bool} {first second : List (Segment Value)}
    (firstReadable : Readable deletes first) (secondReadable : Readable deletes second) :
    Readable deletes (first ++ second) := by
  constructor
  · intro reader mem
    exact (mem_append.mp mem).elim (firstReadable.answers reader) (secondReadable.answers reader)
  · intro mem
    exact (mem_append.mp mem).elim firstReadable.gaps secondReadable.gaps

theorem gaps_readable (deletes : Int → Bool) (ranges : List Range) :
    Readable deletes (ranges.flatMap (@gapSegments Value rowRanges groupDv)) := by
  constructor
  · intro reader mem
    obtain ⟨gap, _, inGap⟩ := mem_flatMap.mp mem
    obtain ⟨_, _, no⟩ := gap_segments_kinds inGap
    cases no
  · intro mem
    obtain ⟨gap, _, inGap⟩ := mem_flatMap.mp mem
    obtain ⟨_, nonempty, isGap⟩ := gap_segments_kinds inGap
    cases isGap
    exact nonempty rfl

theorem layer_segments_pending (files : List (BlobFile Value)) (nextRowId : Int)
    (lower : logicalRange.first ≤ nextRowId) (upper : nextRowId ≤ logicalRange.last + 1)
    (sorted : files.Pairwise (fun left right => left.rowIdRange.last < right.rowIdRange.first))
    (inside : ∀ file ∈ files, nextRowId ≤ file.rowIdRange.first ∧
      file.rowIdRange.last ≤ logicalRange.last)
    (answers : ∀ file ∈ files, AnswersFor (groupDeletes groupDv) file (groupDvFactory file))
    (anchored : ∀ dv ∈ groupDv, ∀ id ∈ logicalRange, id ∈ dv.anchorRange) : ∃ segments,
      layerSegments logicalRange rowRanges groupDvFactory groupDv batchSizes files nextRowId =
        .ok segments ∧ Readable (groupDeletes groupDv) segments ∧
      segments.flatMap (Segment.pending (groupDeletes groupDv)) =
        ((idsBetween nextRowId logicalRange.last).filter
          (wantsRow rowRanges (groupDeletes groupDv))).map (layerSlot files) := by
  induction files generalizing nextRowId with
  | nil =>
    refine ⟨_, rfl, gaps_readable _ _, gaps_pending ?_⟩
    intro dv isDv id first last
    exact anchored dv isDv id (Range.mem_iff.mpr ⟨by omega, last⟩)
  | cons file rest ih =>
    obtain ⟨above, restSorted⟩ := pairwise_cons.mp sorted
    obtain ⟨fileLower, fileUpper⟩ := inside file (mem_cons_self ..)
    have isLast : file.firstRowId + file.rowCount = file.rowIdRange.last + 1 := by
      simp only [rowIdRange]
      omega
    have isFirst : file.rowIdRange.first = file.firstRowId := rfl
    have inLogical : ∀ id ∈ file.rowIdRange, id ∈ logicalRange := by
      intro id inFile
      rw [Range.mem_iff] at inFile ⊢
      omega
    have isNext : max nextRowId (file.firstRowId + file.rowCount) = file.rowIdRange.last + 1 := by
      omega
    have isGapEnd : min (file.firstRowId - 1) logicalRange.last = file.firstRowId - 1 := by omega
    obtain ⟨here, isHere, hereAnswers, noGap, herePending⟩ :=
      @file_segments_pending Value logicalRange rowRanges batchSizes groupDvFactory
        (groupDeletes groupDv) file inLogical (answers file (mem_cons_self ..))
    obtain ⟨later, isLater, laterReadable, laterPending⟩ := ih (file.rowIdRange.last + 1)
      (by omega) (by omega) restSorted
      (fun other mem => ⟨above other mem, (inside other (mem_cons_of_mem _ mem)).2⟩)
      (forall_mem_cons.mp answers).2
    have gapPending : ((rangeBetween nextRowId (file.firstRowId - 1)).flatMap
        (@gapSegments Value rowRanges groupDv)).flatMap (Segment.pending (groupDeletes groupDv)) =
          ((idsBetween nextRowId (file.firstRowId - 1)).filter
            (wantsRow rowRanges (groupDeletes groupDv))).map Slot.ofGap := by
      apply gaps_pending
      intro dv isDv id first last
      exact anchored dv isDv id (Range.mem_iff.mpr ⟨by omega, by omega⟩)
    refine ⟨_, by rw [layerSegments, isHere, isNext, isLater], ?_, ?_⟩
    · exact ((gaps_readable _ _).append ⟨hereAnswers, noGap []⟩).append laterReadable
    · have isSplit : idsBetween nextRowId logicalRange.last =
          idsBetween nextRowId (file.firstRowId - 1) ++ file.rowIdRange.ids ++
            idsBetween (file.rowIdRange.last + 1) logicalRange.last := by
        rw [ids_between_split file.rowIdRange.last (by omega) fileUpper,
          ids_between_split (file.firstRowId - 1) (by omega) (by omega), Int.sub_add_cancel,
          ids_between_range file.rowIdRange isFirst.symm]
      rw [isGapEnd, flatMap_append, flatMap_append, gapPending, herePending,
        laterPending, isSplit, filter_append, filter_append, map_append,
        map_append]
      congr 1
      · congr 1
        · -- No file of the layer starts before the end of the gap.
          apply map_congr_left
          intro id mem
          have bounds := mem_ids_between.mp (mem_of_mem_filter mem)
          refine (layer_slot_gap ?_).symm
          intro other isOther inOther
          rw [Range.mem_iff] at inOther
          rcases mem_cons.mp isOther with rfl | inRest
          · omega
          · have := above other inRest
            omega
        · apply map_congr_left
          intro id mem
          obtain ⟨row, isRow⟩ := row_at_some (Range.mem_ids.mp (mem_of_mem_filter mem))
          rw [layerSlot, findSome?_cons, isRow]
      · apply map_congr_left
        intro id mem
        have bounds := mem_ids_between.mp (mem_of_mem_filter mem)
        have outside : id ∉ file.rowIdRange := by
          intro inFile
          rw [Range.mem_iff] at inFile
          omega
        rw [layerSlot, layerSlot, findSome?_cons, row_at_none outside]

def LayersDisjoint (files : List (BlobFile Value)) : Prop :=
  files.Pairwise (fun left right => left.maxSequenceNumber = right.maxSequenceNumber →
    left.rowIdRange.hasIntersection right.rowIdRange = false)

theorem no_intersection_iff {left right : Range} : left.hasIntersection right = false ↔
    left.last < right.first ∨ right.last < left.first := by
  have leftOrdered := left.ordered
  have rightOrdered := right.ordered
  rw [Range.hasIntersection, decide_eq_false_iff_not]
  omega

def sortedFiles (files : List (BlobFile Value)) : List (BlobFile Value) :=
  files.insertionSort (fun left right => left.firstRowId ≤ right.firstRowId)

theorem sorted_files_perm (files : List (BlobFile Value)) : (sortedFiles files).Perm files :=
  perm_insertionSort _ files

variable {files : List (BlobFile Value)}

theorem sorted_files_apart (disjoint : files.Pairwise (fun left right =>
      left.rowIdRange.hasIntersection right.rowIdRange = false)) :
    (sortedFiles files).Pairwise (fun left right =>
      left.rowIdRange.last < right.rowIdRange.first) := by
  have sorted : (sortedFiles files).Pairwise
      (fun left right => left.firstRowId ≤ right.firstRowId) := pairwise_insertionSort _ files
  have symmetric :
      ∀ {left right : BlobFile Value}, left.rowIdRange.hasIntersection right.rowIdRange = false →
        right.rowIdRange.hasIntersection left.rowIdRange = false := by
    intro left right apart
    rw [no_intersection_iff] at apart ⊢
    exact apart.symm
  have apart := (sorted_files_perm files).symm.pairwise disjoint symmetric
  apply (sorted.and apart).imp
  rintro left right ⟨firstLe, noIntersection⟩
  have isLeft : left.rowIdRange.first = left.firstRowId := rfl
  have isRight : right.rowIdRange.first = right.firstRowId := rfl
  have rightOrdered := right.rowIdRange.ordered
  rw [no_intersection_iff] at noIntersection
  omega

theorem check_overlap_ok (maxSequenceNumber : Int) (files : List (BlobFile Value))
    (previousFileEnd : Option Int)
    (apart : files.Pairwise (fun left right => left.rowIdRange.last < right.rowIdRange.first))
    (after : ∀ fileEnd ∈ previousFileEnd, ∀ file ∈ files, fileEnd ≤ file.firstRowId) :
    checkOverlap maxSequenceNumber previousFileEnd files = .ok () := by
  induction files generalizing previousFileEnd with
  | nil => rfl
  | cons file rest ih =>
    obtain ⟨above, restApart⟩ := pairwise_cons.mp apart
    have noEnd : previousFileEnd.filter (fun fileEnd => file.firstRowId < fileEnd) = none := by
      rw [Option.filter_eq_none_iff]
      intro fileEnd isEnd
      have := after fileEnd isEnd file (mem_cons_self ..)
      simpa using this
    rw [checkOverlap, noEnd]
    apply ih _ restApart
    rintro fileEnd ⟨rfl⟩ other mem
    have later := above other mem
    simp only [rowIdRange] at later
    omega

def wantedIds (logicalRange : Range) (rowRanges : Option (List Range))
    (groupDv : Option GroupDeletionVector) : List Int :=
  logicalRange.ids.filter (wantsRow rowRanges (groupDeletes groupDv))

structure LayerFits (logicalRange : Range) (groupDv : Option GroupDeletionVector)
    (groupDvFactory : BlobFile Value → Option FileDeletionVector) (files : List (BlobFile Value)) :
    Prop where
  inside : ∀ file ∈ files, logicalRange.first ≤ file.rowIdRange.first ∧
    file.rowIdRange.last ≤ logicalRange.last
  disjoint : files.Pairwise (fun left right =>
    left.rowIdRange.hasIntersection right.rowIdRange = false)
  answers : ∀ file ∈ files, AnswersFor (groupDeletes groupDv) file (groupDvFactory file)

theorem create_layers_pending (groups : List (Int × List (BlobFile Value)))
    (fits : ∀ group ∈ groups, LayerFits logicalRange groupDv groupDvFactory group.2)
    (anchored : ∀ dv ∈ groupDv, ∀ id ∈ logicalRange, id ∈ dv.anchorRange) :
    ∃ created, createLayers logicalRange rowRanges groupDvFactory groupDv batchSizes groups =
        .ok created ∧ (created = none → wantedIds logicalRange rowRanges groupDv = []) ∧
      ∀ layers ∈ created,
        (∀ segments ∈ layers, segments ≠ [] ∧ Readable (groupDeletes groupDv) segments) ∧
        layers.map (fun segments => segments.flatMap (Segment.pending (groupDeletes groupDv))) =
          groups.map (fun group => (wantedIds logicalRange rowRanges groupDv).map
            (layerSlot (sortedFiles group.2))) := by
  induction groups with
  | nil =>
    refine ⟨some [], rfl, by simp, ?_⟩
    rintro layers ⟨rfl⟩
    exact ⟨by simp, rfl⟩
  | cons group rest ih =>
    obtain ⟨maxSequenceNumber, groupFiles⟩ := group
    obtain ⟨inside, disjoint, answers⟩ := fits _ (mem_cons_self ..)
    have perm := sorted_files_perm groupFiles
    have apart := sorted_files_apart disjoint
    have ordered := logicalRange.ordered
    obtain ⟨segments, isSegments, readable, isPending⟩ :=
      @layer_segments_pending Value logicalRange rowRanges groupDv batchSizes groupDvFactory
        (sortedFiles groupFiles) logicalRange.first (le_refl _) (by omega) apart
        (fun file mem => inside file (perm.mem_iff.mp mem))
        (fun file mem => answers file (perm.mem_iff.mp mem)) anchored
    rw [ids_between_range logicalRange rfl] at isPending
    obtain ⟨created, isCreated, noRows, isLayers⟩ := ih (forall_mem_cons.mp fits).2
    have isSorted : groupFiles.insertionSort
        (fun left right => left.firstRowId ≤ right.firstRowId) = sortedFiles groupFiles := rfl
    rw [createLayers, isSorted, check_overlap_ok maxSequenceNumber _ none apart
      (by simp), isSegments]
    cases segments with
    | nil =>
      refine ⟨none, rfl, fun _ => ?_, by simp⟩
      exact map_eq_nil_iff.mp isPending.symm
    | cons segment more =>
      rw [isCreated]
      cases created with
      | none => exact ⟨none, rfl, noRows, by simp⟩
      | some layers =>
        obtain ⟨layersReadable, layersPending⟩ := isLayers layers rfl
        refine ⟨some ((segment :: more) :: layers), rfl, by simp, ?_⟩
        rintro all ⟨rfl⟩
        refine ⟨?_, ?_⟩
        · exact forall_mem_cons.mpr ⟨⟨cons_ne_nil _ _, readable⟩, layersReadable⟩
        · rw [map_cons, layersPending, isPending]
          rfl

/-- The newest entry that is more than a placeholder, or null. -/
def IsNewest (files : List (BlobFile Value)) (id : Int) (blob : Blob Value) : Prop :=
  (∃ file ∈ files, file.blobAt id = some blob ∧ blob ≠ .placeholder ∧
    ∀ other ∈ files, ∀ entry, other.blobAt id = some entry → entry ≠ .placeholder →
      other.maxSequenceNumber ≤ file.maxSequenceNumber) ∨
  (blob = .null ∧ ∀ other ∈ files, ∀ entry, other.blobAt id = some entry → entry = .placeholder)

theorem row_at_blob {row : FileRow Value} (isRow : file.rowAt id = some row) :
    file.blobAt id = some row.blob ∧ row.rowId = id ∧
      row.sequenceNumber = file.maxSequenceNumber := by
  rw [rowAt, Option.map_eq_some_iff] at isRow
  obtain ⟨blob, isBlob, rfl⟩ := isRow
  exact ⟨isBlob, rfl, rfl⟩

theorem blob_at_inside {blob : Blob Value} (isBlob : file.blobAt id = some blob) :
    id ∈ file.rowIdRange := by
  by_contra outside
  have notContained : ¬file.rowIdRange.contains id = true := outside
  rw [blobAt, if_neg notContained] at isBlob
  cases isBlob

theorem hidden_iff {row : FileRow Value} : hidden (some row) = true ↔ row.blob = .placeholder := by
  cases isBlob : row.blob <;> simp [hidden, isBlob]

theorem layer_slot_eq (apart : files.Pairwise (fun left right =>
    left.rowIdRange.last < right.rowIdRange.first))
    (isFile : file ∈ files) (inFile : id ∈ file.rowIdRange) :
    layerSlot files id = ⟨id, file.rowAt id⟩ := by
  induction files with
  | nil => cases isFile
  | cons first rest ih =>
    obtain ⟨above, restApart⟩ := pairwise_cons.mp apart
    rcases mem_cons.mp isFile with rfl | inRest
    · obtain ⟨row, isRow⟩ := row_at_some inFile
      rw [layerSlot, findSome?_cons, isRow]
    · have outside : id ∉ first.rowIdRange := by
        intro inFirst
        have later := above file inRest
        rw [Range.mem_iff] at inFirst inFile
        omega
      have isLater := ih restApart inRest
      rw [layerSlot] at isLater ⊢
      rw [findSome?_cons, row_at_none outside]
      exact isLater

theorem layer_real_row {row : FileRow Value} (isReal : (layerSlot files id).realRow = some row) :
    ∃ file ∈ files, file.rowAt id = some row ∧ row.blob ≠ .placeholder := by
  rw [Slot.realRow] at isReal
  split_ifs at isReal with isHidden
  obtain ⟨file, isFile, isRow⟩ := exists_of_findSome?_eq_some isReal
  refine ⟨file, isFile, isRow, fun isPlaceholder => isHidden ?_⟩
  rw [isReal]
  exact hidden_iff.mpr isPlaceholder

theorem mem_sequence_groups {group : Int × List (BlobFile Value)}
    (isGroup : group ∈ sequenceGroups files) :
    group.2 = files.filter (fun file => file.maxSequenceNumber = group.1) := by
  obtain ⟨number, _, rfl⟩ := mem_map.mp isGroup
  rfl

theorem sequence_groups_descending (files : List (BlobFile Value)) :
    (sequenceGroups files).Pairwise (fun newer older => older.1 < newer.1) := by
  let numbers := (files.map maxSequenceNumber).dedup
  have sorted := pairwise_insertionSort (fun left right : Int => right ≤ left) numbers
  have nodup : (numbers.insertionSort (fun left right : Int => right ≤ left)).Nodup :=
    (perm_insertionSort _ numbers).nodup_iff.mpr (nodup_dedup _)
  rw [sequenceGroups, pairwise_map]
  apply (sorted.and nodup).imp
  rintro newer older ⟨atMost, ne⟩
  exact lt_of_le_of_ne atMost (Ne.symm ne)

theorem group_of_file (isFile : file ∈ files) :
    ∃ group ∈ sequenceGroups files, group.1 = file.maxSequenceNumber ∧ file ∈ group.2 := by
  refine ⟨(file.maxSequenceNumber,
    files.filter (fun other => other.maxSequenceNumber = file.maxSequenceNumber)), ?_, rfl, ?_⟩
  · rw [sequenceGroups, mem_map]
    refine ⟨file.maxSequenceNumber, ?_, rfl⟩
    rw [mem_insertionSort, mem_dedup]
    exact mem_map_of_mem isFile
  · simp [isFile]

theorem group_disjoint (disjoint : LayersDisjoint files) {group : Int × List (BlobFile Value)}
    (isGroup : group ∈ sequenceGroups files) : group.2.Pairwise (fun left right =>
      left.rowIdRange.hasIntersection right.rowIdRange = false) := by
  rw [mem_sequence_groups isGroup]
  have filtered : (files.filter (fun file => file.maxSequenceNumber = group.1)).Pairwise
      (fun left right => left.maxSequenceNumber = right.maxSequenceNumber →
        left.rowIdRange.hasIntersection right.rowIdRange = false) := Pairwise.filter _ disjoint
  apply filtered.imp_of_mem
  intro left right isLeft isRight apart
  apply apart
  have leftNumber := (mem_filter.mp isLeft).2
  have rightNumber := (mem_filter.mp isRight).2
  simp only [decide_eq_true_eq] at leftNumber rightNumber
  rw [leftNumber, rightNumber]

def newestRow (files : List (BlobFile Value)) (id : Int) : FileRow Value :=
  mergeSlots ((sequenceGroups files).map (fun group => layerSlot (sortedFiles group.2) id))

theorem newest_row_spec (someFile : files ≠ []) (disjoint : LayersDisjoint files) (id : Int) :
    (newestRow files id).rowId = id ∧ IsNewest files id (newestRow files id).blob := by
  -- A file with more than a placeholder makes its layer answer.
  have answered : ∀ other ∈ files, ∀ entry, other.blobAt id = some entry → entry ≠ .placeholder →
      ∃ group ∈ sequenceGroups files, group.1 = other.maxSequenceNumber ∧
        (layerSlot (sortedFiles group.2) id).realRow ≠ none := by
    intro other isOther entry isEntry real
    obtain ⟨group, isGroup, isNumber, inGroup⟩ := group_of_file isOther
    refine ⟨group, isGroup, isNumber, ?_⟩
    have isSlot := layer_slot_eq (sorted_files_apart (group_disjoint disjoint isGroup))
      ((sorted_files_perm group.2).mem_iff.mpr inGroup) (blob_at_inside isEntry)
    have isRow : other.rowAt id = some ⟨entry, id, other.maxSequenceNumber⟩ := by
      rw [rowAt, isEntry]
      rfl
    have notHidden : ¬hidden (some (⟨entry, id, other.maxSequenceNumber⟩ : FileRow Value)) = true :=
      fun isHidden => real (hidden_iff.mp isHidden)
    rw [isSlot, Slot.realRow, isRow, if_neg notHidden]
    simp
  rw [newestRow, mergeSlots]
  cases isFound : ((sequenceGroups files).map
      (fun group => layerSlot (sortedFiles group.2) id)).findSome? Slot.realRow with
  | none =>
    have noneReal :
        ∀ group ∈ sequenceGroups files, (layerSlot (sortedFiles group.2) id).realRow = none :=
      fun group isGroup => findSome?_eq_none_iff.mp isFound _ (mem_map_of_mem isGroup)
    constructor
    · obtain ⟨file, isFile⟩ := exists_mem_of_ne_nil files someFile
      obtain ⟨group, isGroup, _⟩ := group_of_file isFile
      cases isGroups : sequenceGroups files with
      | nil => rw [isGroups] at isGroup; cases isGroup
      | cons first rest => rfl
    · refine .inr ⟨rfl, ?_⟩
      intro other isOther entry isEntry
      by_contra real
      obtain ⟨group, isGroup, _, isReal⟩ := answered other isOther entry isEntry real
      exact isReal (noneReal group isGroup)
  | some row =>
    rw [findSome?_map, findSome?_eq_some_iff] at isFound
    obtain ⟨newer, group, older, isSplit, isReal, noneNewer⟩ := isFound
    have isGroup : group ∈ sequenceGroups files := by
      rw [isSplit]
      simp
    obtain ⟨file, inSorted, isRow, real⟩ := layer_real_row isReal
    have inGroup := (sorted_files_perm group.2).mem_iff.mp inSorted
    rw [mem_sequence_groups isGroup, mem_filter, decide_eq_true_eq] at inGroup
    obtain ⟨isBlob, isId, _⟩ := row_at_blob isRow
    refine ⟨isId, .inl ⟨file, inGroup.1, isBlob, real, ?_⟩⟩
    intro other isOther entry isEntry otherReal
    obtain ⟨otherGroup, isOtherGroup, isNumber, isAnswered⟩ :=
      answered other isOther entry isEntry otherReal
    have descending := sequence_groups_descending files
    rw [isSplit, pairwise_append, pairwise_cons] at descending
    rw [isSplit, mem_append, mem_cons] at isOtherGroup
    rw [← isNumber, inGroup.2]
    rcases isOtherGroup with inNewer | rfl | inOlder
    · exact absurd (noneNewer otherGroup inNewer) isAnswered
    · exact le_refl _
    · exact (descending.2.1.1 otherGroup inOlder).le

def drainReader (fuel : Nat) : Option (BlobFallbackBatchReader Value) →
    Except String (List (List (List (Cell Value))))
  | none => .ok []
  | some reader => reader.drain fuel

section
variable {files : List (BlobFile Value)} {logicalRange : Range} {rowRanges : Option (List Range)}
  {groupDv : Option GroupDeletionVector}

theorem check_ranges_ok (inside : ∀ file ∈ files,
      logicalRange.first ≤ file.rowIdRange.first ∧ file.rowIdRange.last ≤ logicalRange.last) :
    checkRanges logicalRange rowRanges files = .ok () := by
  induction files with
  | nil => rfl
  | cons file rest ih =>
    obtain ⟨lower, upper⟩ := inside file (mem_cons_self ..)
    have ordered := file.rowIdRange.ordered
    have within : ¬(file.rowIdRange.first < logicalRange.first ∨
        logicalRange.last < file.rowIdRange.last) := by omega
    have meets : ¬file.rowIdRange.hasIntersection logicalRange = false := by
      rw [no_intersection_iff]
      omega
    rw [checkRanges, checkRange, if_neg (fun both => within both.2),
      if_neg (fun both => meets both.2)]
    exact ih (forall_mem_cons.mp inside).2

theorem factory_answers (inside : ∀ file ∈ files, ∀ dv ∈ groupDv,
      dv.anchorRange.first ≤ file.rowIdRange.first ∧ file.rowIdRange.last ≤ dv.anchorRange.last) :
    ∃ groupDvFactory, createGroupDvFactory files groupDv rowRanges = .ok groupDvFactory ∧
      ∀ file, AnswersFor (groupDeletes groupDv) file (groupDvFactory file) := by
  cases groupDv with
  | none =>
    refine ⟨_, rfl, ?_⟩
    intro file reader isVector position _
    rw [FileReader.isDeleted, isVector]
    rfl
  | some dv =>
    refine ⟨fun file => some (fileDeletionVector dv file), ?_, ?_⟩
    · rw [createGroupDvFactory, check_anchors_ok (fun file mem => inside file mem dv rfl)]
    · intro file reader isVector position inRows
      rw [FileReader.isDeleted, isVector]
      exact file_deletion_vector_eq dv file inRows

theorem check_segments_ok {layers : List (List (Segment Value))}
    (filled : ∀ segments ∈ layers, segments ≠ [] ∧ .gap [] ∉ segments) :
    BlobFallbackBatchReader.checkSegments layers = .ok () := by
  induction layers with
  | nil => rfl
  | cons segments rest ih =>
    obtain ⟨nonempty, noGap⟩ := filled segments (mem_cons_self ..)
    have isFilled : ¬segments.isEmpty = true := by
      rw [List.isEmpty_iff]
      exact nonempty
    have noneEmpty : ¬segments.any Segment.isEmptyGap = true := by
      rw [any_eq_true]
      rintro ⟨segment, mem, isGap⟩
      rw [Segment.isEmptyGap.eq_def] at isGap
      split at isGap
      · exact noGap mem
      · cases isGap
    rw [checkSegments, if_neg isFilled, if_neg noneEmpty]
    exact ih (forall_mem_cons.mp filled).2

theorem create_ok {layers : List (List (Segment Value))} {readSchema : ReadSchema}
    {readBatchSize : Int} (someLayer : layers ≠ [])
    (filled : ∀ segments ∈ layers, segments ≠ [] ∧ .gap [] ∉ segments)
    (pos : 0 < readBatchSize) (oneBlob : readSchema.fields.countP Field.isBlob = 1) :
    BlobFallbackBatchReader.create layers readSchema readBatchSize =
      .ok ⟨layers.map (fun segments => ⟨segments, 0⟩), readSchema, readBatchSize.toNat⟩ := by
  have isFilled : ¬layers.isEmpty = true := by
    rw [List.isEmpty_iff]
    exact someLayer
  rw [create, if_neg isFilled, if_neg (by omega), if_neg (by omega), if_neg (by omega),
    check_segments_ok filled]

theorem merged_column_ids (groups : List (Int × List (BlobFile Value))) (ids : List Int)
    (field : Field) : BlobFallbackBatchReader.mergedColumn
        (groups.map (fun group => ids.map (layerSlot (sortedFiles group.2)))) ids.length field =
      ids.map (fun id => (mergeSlots (groups.map
        (fun group => layerSlot (sortedFiles group.2) id))).cell field) := by
  apply ext_getElem
  · simp [mergedColumn]
  · intro row left right
    rw [length_map] at right
    have isAt : slotsAt (groups.map (fun group => ids.map (layerSlot (sortedFiles group.2)))) row =
        groups.map (fun group => layerSlot (sortedFiles group.2) ids[row]) := by
      rw [slotsAt, filterMap_map, ← filterMap_eq_map]
      apply filterMap_congr
      intro group _
      simp [right]
    simp only [mergedColumn, getElem_map, getElem_range, isAt]

theorem mem_wanted_ids_iff {id : Int} : id ∈ wantedIds logicalRange rowRanges groupDv ↔
    id ∈ logicalRange ∧ (∀ selected ∈ rowRanges, Covers selected id) ∧
      ∀ dv ∈ groupDv, dv.deletes id = false := by
  simp only [wantedIds, mem_filter, Range.mem_ids, wants_row_iff]
  cases groupDv <;> simp [groupDeletes]

theorem wanted_ids_length :
    (wantedIds logicalRange rowRanges groupDv).length < logicalRange.count + 1 := by
  have atMost := length_filter_le (wantsRow rowRanges (groupDeletes groupDv)) logicalRange.ids
  rw [length_ids] at atMost
  exact Nat.lt_succ_of_le atMost

theorem newest_rows_ids (someFile : files ≠ []) (disjoint : LayersDisjoint files) (ids : List Int) :
    (ids.map (newestRow files)).map FileRow.rowId = ids := by
  rw [map_map]
  exact map_id'' (fun id => (newest_row_spec someFile disjoint id).1) ids

theorem newest_rows_newest (someFile : files ≠ []) (disjoint : LayersDisjoint files)
    (ids : List Int) : ∀ row ∈ ids.map (newestRow files), IsNewest files row.rowId row.blob := by
  intro row member
  obtain ⟨id, _, rfl⟩ := mem_map.mp member
  obtain ⟨isId, isNewest⟩ := newest_row_spec someFile disjoint id
  rw [isId]
  exact isNewest

theorem groups_fit {groupDvFactory : BlobFile Value → Option FileDeletionVector}
    (inside : ∀ file ∈ files,
      logicalRange.first ≤ file.rowIdRange.first ∧ file.rowIdRange.last ≤ logicalRange.last)
    (disjoint : LayersDisjoint files)
    (answers : ∀ file, AnswersFor (groupDeletes groupDv) file (groupDvFactory file)) :
    ∀ group ∈ sequenceGroups files, LayerFits logicalRange groupDv groupDvFactory group.2 := by
  intro group isGroup
  refine ⟨?_, group_disjoint disjoint isGroup, fun file _ => answers file⟩
  intro file member
  rw [mem_sequence_groups isGroup] at member
  exact inside file (mem_of_mem_filter member)

/-- The reader over the layers returns, column by column, the newest rows of the wanted ids. -/
theorem layers_drain {readSchema : ReadSchema} {readBatchSize : Int}
    {layers : List (List (Segment Value))} (someFile : files ≠ [])
    (readable : ∀ segments ∈ layers, segments ≠ [] ∧ Readable (groupDeletes groupDv) segments)
    (isPending :
      layers.map (fun segments => segments.flatMap (Segment.pending (groupDeletes groupDv))) =
      (sequenceGroups files).map (fun group => (wantedIds logicalRange rowRanges groupDv).map
        (layerSlot (sortedFiles group.2))))
    (positive : 0 < readBatchSize) (oneBlob : readSchema.fields.countP Field.isBlob = 1) :
    ∃ reader batches, create layers readSchema readBatchSize = .ok reader ∧
      reader.drain (logicalRange.count + 1) = .ok batches ∧
      ∀ index field, readSchema.fields[index]? = some field → columnOf batches index =
        ((wantedIds logicalRange rowRanges groupDv).map (newestRow files)).map
          (fun row => row.cell field) := by
  have someLayer : layers ≠ [] := by
    rintro rfl
    obtain ⟨file, isFile⟩ := exists_mem_of_ne_nil files someFile
    obtain ⟨group, isGroup, _⟩ := group_of_file isFile
    rw [map_eq_nil_iff.mp isPending.symm] at isGroup
    cases isGroup
  let reader : BlobFallbackBatchReader Value :=
    ⟨layers.map (fun segments => ⟨segments, 0⟩), readSchema, readBatchSize.toNat⟩
  have isReader : create layers readSchema readBatchSize = .ok reader :=
    create_ok someLayer
      (fun segments member => ⟨(readable segments member).1, (readable segments member).2.gaps⟩)
      positive oneBlob
  have isPendings : reader.pendings (groupDeletes groupDv) =
      (sequenceGroups files).map (fun group => (wantedIds logicalRange rowRanges groupDv).map
        (layerSlot (sortedFiles group.2))) := by
    rw [← isPending, pendings, map_map]
    rfl
  have lockstep : reader.Lockstep (groupDeletes groupDv)
      (wantedIds logicalRange rowRanges groupDv).length := by
    refine ⟨by simpa [reader] using someLayer, ?_, ?_, by simp only [reader]; omega⟩
    · intro cursor member
      obtain ⟨segments, isSegments, rfl⟩ := mem_map.mp member
      exact ⟨(readable segments isSegments).2.answers, .inl rfl⟩
    · intro slots member
      rw [isPendings] at member
      obtain ⟨group, _, rfl⟩ := mem_map.mp member
      rw [length_map]
  obtain ⟨batches, isDrained, columns⟩ := drain_emits _ lockstep wanted_ids_length
  refine ⟨reader, batches, isReader, isDrained, ?_⟩
  intro index field isField
  rw [columns index field isField, isPendings, merged_column_ids, map_map]
  rfl

theorem blob_fallback_reads_newest (readSchema : ReadSchema)
    (batchSizes : BlobFile Value → Nat → Nat) (readBatchSize : Int) (someFile : files ≠ [])
    (inside : ∀ file ∈ files,
      logicalRange.first ≤ file.rowIdRange.first ∧ file.rowIdRange.last ≤ logicalRange.last)
    (disjoint : LayersDisjoint files) (anchored : ∀ dv ∈ groupDv,
      dv.anchorRange.first ≤ logicalRange.first ∧ logicalRange.last ≤ dv.anchorRange.last)
    (positive : 0 < readBatchSize) (oneBlob : readSchema.fields.countP Field.isBlob = 1) :
    ∃ groupDvFactory reader batches, ∃ rows : List (FileRow Value),
      createGroupDvFactory files groupDv rowRanges = .ok groupDvFactory ∧
      createBlobFallbackReader files logicalRange readSchema rowRanges groupDvFactory groupDv
        batchSizes readBatchSize = .ok reader ∧
      drainReader (logicalRange.count + 1) reader = .ok batches ∧
      (∀ index field, readSchema.fields[index]? = some field →
        BlobFallbackBatchReader.columnOf batches index = rows.map (fun row => row.cell field)) ∧
      (rows.map FileRow.rowId).Pairwise (· < ·) ∧
      (∀ id, id ∈ rows.map FileRow.rowId ↔ id ∈ logicalRange ∧
        (∀ selected ∈ rowRanges, Covers selected id) ∧ ∀ dv ∈ groupDv, dv.deletes id = false) ∧
      ∀ row ∈ rows, IsNewest files row.rowId row.blob := by
  obtain ⟨groupDvFactory, isFactory, answers⟩ := @factory_answers Value files rowRanges groupDv
    (fun file member dv isDv => by
      have fileInside := inside file member
      have dvInside := anchored dv isDv
      omega)
  have inAnchor : ∀ dv ∈ groupDv, ∀ id ∈ logicalRange, id ∈ dv.anchorRange := by
    intro dv isDv id inRange
    have dvInside := anchored dv isDv
    rw [Range.mem_iff] at inRange ⊢
    omega
  obtain ⟨created, isCreated, noRows, isLayers⟩ := @create_layers_pending Value logicalRange
    rowRanges groupDv batchSizes groupDvFactory (sequenceGroups files)
    (groups_fit inside disjoint answers) inAnchor
  have isIds := newest_rows_ids someFile disjoint (wantedIds logicalRange rowRanges groupDv)
  have newest := newest_rows_newest someFile disjoint (wantedIds logicalRange rowRanges groupDv)
  have ascending : (wantedIds logicalRange rowRanges groupDv).Pairwise (· < ·) :=
    logicalRange.ids_ascending.filter _
  have notEmpty : ¬files.isEmpty = true := by
    rw [List.isEmpty_iff]
    exact someFile
  cases created with
  | none =>
    refine ⟨groupDvFactory, none, [], _, isFactory, ?_, rfl, ?_, isIds.symm ▸ ascending,
      fun id => isIds.symm ▸ mem_wanted_ids_iff, newest⟩
    · rw [createBlobFallbackReader, if_neg notEmpty, check_ranges_ok inside, isCreated]
    · intro index field _
      rw [noRows rfl]
      rfl
  | some layers =>
    obtain ⟨readable, isPending⟩ := isLayers layers rfl
    obtain ⟨reader, batches, isReader, isDrained, columns⟩ :=
      layers_drain someFile readable isPending positive oneBlob
    refine ⟨groupDvFactory, some reader, batches, _, isFactory, ?_, isDrained, columns,
      isIds.symm ▸ ascending, fun id => isIds.symm ▸ mem_wanted_ids_iff, newest⟩
    rw [createBlobFallbackReader, if_neg notEmpty, check_ranges_ok inside, isCreated]
    dsimp only
    rw [isReader]

end

/-- The newer file has a placeholder for row 5 and a value for row 6. -/
def rewrittenFiles : List (BlobFile Nat) :=
  [⟨"blob-1", 1, 4, [.value 1, .value 2, .value 3], List.cons_ne_nil _ _⟩,
    ⟨"blob-2", 2, 5, [.placeholder, .value 7], List.cons_ne_nil _ _⟩]

theorem picture_fields_distinct : [Field.blob "picture", .rowId].Nodup := by decide

def rewrittenRange : Range := ⟨4, 7, Int.le_of_lt (by decide)⟩

def rewrittenDv : GroupDeletionVector := ⟨⟨[0], List.pairwise_singleton _ _⟩, rewrittenRange⟩

theorem rewritten_blobs_read : ∃ groupDvFactory reader batches, ∃ rows : List (FileRow Nat),
    createGroupDvFactory rewrittenFiles (some rewrittenDv) (some [rewrittenRange]) =
      .ok groupDvFactory ∧
      createBlobFallbackReader rewrittenFiles rewrittenRange ⟨_, picture_fields_distinct⟩
        (some [rewrittenRange]) groupDvFactory (some rewrittenDv) (fun _ _ => 2) 2 = .ok reader ∧
      drainReader 5 reader = .ok batches ∧
      BlobFallbackBatchReader.columnOf batches 0 = rows.map (fun row => .blob row.blob) ∧
      6 ∈ rows.map FileRow.rowId ∧ 4 ∉ rows.map FileRow.rowId := by
  obtain ⟨groupDvFactory, reader, batches, rows, isFactory, isReader, isDrained, columns, _,
    isExact, _⟩ :=
    @blob_fallback_reads_newest Nat rewrittenFiles rewrittenRange (some [rewrittenRange])
      (some rewrittenDv) ⟨_, picture_fields_distinct⟩ (fun _ _ => 2) 2 (cons_ne_nil _ _)
      (by decide) (by unfold LayersDisjoint; decide) (by rintro dv ⟨rfl⟩; decide) (by decide)
      (by decide)
  refine ⟨groupDvFactory, reader, batches, rows, isFactory, isReader, isDrained,
    columns 0 (.blob "picture") rfl, (isExact 6).mpr ⟨Range.mem_iff.mpr (by decide), ?_, ?_⟩, ?_⟩
  · rintro selected ⟨rfl⟩
    decide
  · rintro dv ⟨rfl⟩
    decide
  · intro isRow
    have notDeleted := ((isExact 4).mp isRow).2.2 rewrittenDv rfl
    revert notDeleted
    decide

end PaimonCore.Read
