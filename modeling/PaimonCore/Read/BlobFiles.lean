import PaimonCore.Common.Range

/-!
# Blob files and their readers

A blob file holds one entry of a blob field for each of its row ids; a partial update
records the rows it does not touch as placeholders. A reader emits the selected rows of a
file in batches of any size and marks those that the deletion vector of the row range group
deletes.
-/

namespace PaimonCore.Read

open PaimonCore.Ranges List

inductive Blob (Value : Type) where
  | placeholder
  | null
  | value (value : Value)
  deriving DecidableEq, Repr

/-- The fields of a blob file's meta that the fallback reads, and its entries. -/
structure BlobFile (Value : Type) where
  fileName : String
  maxSequenceNumber : Int
  firstRowId : Int
  blobs : List (Blob Value)
  nonempty : blobs ≠ []

namespace BlobFile

variable {Value : Type} (file : BlobFile Value)

def rowCount : Nat := file.blobs.length

theorem row_count_pos : 0 < file.rowCount := length_pos_iff.mpr file.nonempty

/-- `NonNullRowIdRange`. -/
def rowIdRange : Range where
  first := file.firstRowId
  last := file.firstRowId + file.rowCount - 1
  ordered := by
    have := file.row_count_pos
    omega

theorem mem_row_id_range {file : BlobFile Value} {id : Int} :
    id ∈ file.rowIdRange ↔ file.firstRowId ≤ id ∧ id < file.firstRowId + file.rowCount := by
  rw [Range.mem_iff]
  simp only [rowIdRange]
  omega

end BlobFile

/-- The rows that readers emit: the row-tracking fields are completed for each file. -/
structure FileRow (Value : Type) where
  blob : Blob Value
  rowId : Int
  sequenceNumber : Int
  deriving DecidableEq, Repr

structure DeletionVector where
  /-- The deleted positions, in the order of `ForEachDeletedPosition`. -/
  positions : List Int
  ascending : positions.Pairwise (· < ·)

namespace DeletionVector

def isDeleted (vector : DeletionVector) (position : Int) : Bool := position ∈ vector.positions

def cardinality (vector : DeletionVector) : Nat := vector.positions.length

end DeletionVector

/-- Positions count from the start of the anchor. -/
structure GroupDeletionVector where
  deletionVector : DeletionVector
  anchorRange : Range

def GroupDeletionVector.deletes (groupDv : GroupDeletionVector) (id : Int) : Bool :=
  groupDv.deletionVector.isDeleted (id - groupDv.anchorRange.first)

/-- What the factory hands to the reader of a file. -/
inductive FileDeletionVector where
  | whole (inner : DeletionVector)
  /-- `PositionShiftedDeletionVector`. -/
  | shifted (inner : DeletionVector) (offset length : Int)

def FileDeletionVector.isDeleted : FileDeletionVector → Int → Except String Bool
  | .whole inner, position => .ok (inner.isDeleted position)
  | .shifted inner offset length, position =>
    if position < 0 ∨ length ≤ position then
      .error s!"PositionShiftedDeletionVector position {position} out of window [0, {length})"
    else .ok (inner.isDeleted (position + offset))

section
variable {Value : Type}

def checkAnchor (anchor : Range) (file : BlobFile Value) (rowRanges : Option (List Range)) :
    Except String Unit :=
  let selected :=
    match rowRanges with
    | some rowRanges => and [file.rowIdRange] (sortAndMergeOverlap rowRanges true)
    | none => [file.rowIdRange]
  match selected.find? (fun range => range.first < anchor.first ∨ anchor.last < range.last) with
  | none => .ok ()
  | some range =>
    let (anchorFrom, anchorTo, rangeFrom, rangeTo, fileName) :=
      (anchor.first, anchor.last, range.first, range.last, file.fileName)
    .error (s!"Deletion vector range [{anchorFrom}, {anchorTo}] should contain selected row id " ++
      s!"range [{rangeFrom}, {rangeTo}] of file {fileName}.")

def checkAnchors (anchor : Range) (rowRanges : Option (List Range)) :
    List (BlobFile Value) → Except String Unit
  | [] => .ok ()
  | file :: rest =>
    match checkAnchor anchor file rowRanges with
    | .error error => .error error
    | .ok () => checkAnchors anchor rowRanges rest

def fileDeletionVector (groupDv : GroupDeletionVector) (file : BlobFile Value) :
    FileDeletionVector :=
  let offset := file.firstRowId - groupDv.anchorRange.first
  if offset = 0 ∧ file.rowIdRange.last = groupDv.anchorRange.last then
    .whole groupDv.deletionVector
  else .shifted groupDv.deletionVector offset file.rowCount

/-- The map of the factory, keyed by the file name, is a function of the file. -/
def createGroupDvFactory (files : List (BlobFile Value)) (groupDv : Option GroupDeletionVector)
    (rowRanges : Option (List Range)) :
    Except String (BlobFile Value → Option FileDeletionVector) :=
  match groupDv with
  | none => .ok (fun _ => none)
  | some groupDv =>
    match checkAnchors groupDv.anchorRange rowRanges files with
    | .error error => .error error
    | .ok () => .ok (fun file => some (fileDeletionVector groupDv file))

theorem file_deletion_vector_eq (groupDv : GroupDeletionVector) (file : BlobFile Value)
    {position : Nat} (inside : position < file.rowCount) :
    (fileDeletionVector groupDv file).isDeleted position =
      .ok (groupDv.deletes (file.firstRowId + position)) := by
  rw [fileDeletionVector, GroupDeletionVector.deletes]
  have shift : file.firstRowId + position - groupDv.anchorRange.first =
      position + (file.firstRowId - groupDv.anchorRange.first) := by omega
  split_ifs with whole
  · rw [FileDeletionVector.isDeleted, shift, whole.1, Int.add_zero]
  · have inWindow : ¬((position : Int) < 0 ∨ (file.rowCount : Int) ≤ position) := by omega
    rw [FileDeletionVector.isDeleted, if_neg inWindow, shift]

theorem check_anchor_ok {anchor : Range} {file : BlobFile Value}
    (inside : anchor.first ≤ file.rowIdRange.first ∧ file.rowIdRange.last ≤ anchor.last)
    (rowRanges : Option (List Range)) : checkAnchor anchor file rowRanges = .ok () := by
  have found : ∀ selected : List Range, (∀ range ∈ selected,
        file.rowIdRange.first ≤ range.first ∧ range.last ≤ file.rowIdRange.last) →
      selected.find? (fun range => range.first < anchor.first ∨ anchor.last < range.last) =
        none := by
    intro selected bounded
    rw [find?_eq_none]
    intro range mem
    have bounds := bounded range mem
    simp only [decide_eq_true_eq, not_or, not_lt]
    omega
  unfold checkAnchor
  cases rowRanges with
  | none =>
    simp only
    rw [found]
    intro range mem
    rw [mem_singleton.mp mem]
    exact ⟨le_refl _, le_refl _⟩
  | some rowRanges =>
    simp only
    rw [found]
    intro range mem
    have covered : ∀ id ∈ range, id ∈ file.rowIdRange := by
      intro id inRange
      have both := (and_covers (pairwise_singleton _ _)
        (sort_and_merge_ascending rowRanges true) id).mp ⟨range, mem, inRange⟩
      simpa [covers_cons, covers_nil] using both.1
    have ordered := range.ordered
    have first := covered range.first (Range.mem_iff.mpr ⟨le_refl _, ordered⟩)
    have last := covered range.last (Range.mem_iff.mpr ⟨ordered, le_refl _⟩)
    exact ⟨(Range.mem_iff.mp first).1, (Range.mem_iff.mp last).2⟩

theorem check_anchors_ok {anchor : Range} {files : List (BlobFile Value)} (inside : ∀ file ∈ files,
      anchor.first ≤ file.rowIdRange.first ∧ file.rowIdRange.last ≤ anchor.last)
    (rowRanges : Option (List Range)) : checkAnchors anchor rowRanges files = .ok () := by
  induction files with
  | nil => rfl
  | cons file rest ih =>
    rw [checkAnchors, check_anchor_ok (inside file mem_cons_self)]
    exact ih (forall_mem_cons.mp inside).2

end

/-- The lists are ascending, so the first range that does not end before the id decides. -/
def selects (ranges : List Range) (id : Int) : Bool :=
  match ranges.find? (fun range => id ≤ range.last) with
  | none => false
  | some range => range.first ≤ id

/-- Appends a deleted row id to the runs of deleted ones. -/
def addDeleted (deleted : List Range) (id : Int) : List Range :=
  match deleted.getLast? with
  | none => [⟨id, id, le_refl id⟩]
  | some back =>
    if adjacent : back.last < id ∧ id - back.last = 1 then
      deleted.dropLast ++ [⟨back.first, id, by have := back.ordered; omega⟩]
    else deleted ++ [⟨id, id, le_refl id⟩]

/-- The consumer of `ForEachDeletedPosition`. -/
def collectDeleted (ranges : List Range) (anchor : Range) : List Int → List Range → List Range
  | [], deleted => deleted
  | position :: rest, deleted =>
    if position < 0 ∨ anchor.last - anchor.first < position then
      collectDeleted ranges anchor rest deleted
    else if selects ranges (anchor.first + position) then
      collectDeleted ranges anchor rest (addDeleted deleted (anchor.first + position))
    else collectDeleted ranges anchor rest deleted

def outnumbers (cardinality : Nat) : List Range → Nat → Bool
  | [], _ => false
  | range :: rest, selectedCount =>
    if (range.count : Int) > cardinality - selectedCount then true
    else outnumbers cardinality rest (selectedCount + range.count)

def endRun (run : Option Int) (last : Int) : List Range :=
  match run with
  | none => []
  | some runStart => rangeBetween runStart last

/-- The rows left of a range from `id` on; a run of them may have started before. -/
def remainingFrom (deletes : Int → Bool) (last : Int) : Nat → Int → Option Int → List Range
  | 0, _, run => endRun run last
  | count + 1, id, run =>
    if deletes id then endRun run (id - 1) ++ remainingFrom deletes last count (id + 1) none
    else remainingFrom deletes last count (id + 1) (run.or (some id))

/-- Visits the deleted positions, which are fewer than the selected rows. -/
def excludeVisited (ranges : List Range) (front back : Range) (groupDv : GroupDeletionVector) :
    List Range :=
  let deleted := collectDeleted ranges groupDv.anchorRange groupDv.deletionVector.positions []
  if deleted.isEmpty then ranges
  else and ranges ((rangeBetween front.first back.last).flatMap (fun span => span.exclude deleted))

def excludeProbed (ranges : List Range) (groupDv : GroupDeletionVector) : List Range :=
  ranges.flatMap (fun range => remainingFrom groupDv.deletes range.last range.count
    range.first none)

def excludeDeletedRowIds (ranges : List Range) (groupDv : GroupDeletionVector) : List Range :=
  match ranges.head?, ranges.getLast? with
  | some front, some back =>
    if outnumbers groupDv.deletionVector.cardinality ranges 0 then
      excludeVisited ranges front back groupDv
    else excludeProbed ranges groupDv
  | _, _ => []

variable {ranges : List Range} {deletes : Int → Bool} {last : Int} {count : Nat} {id : Int}
  {run : Option Int}

theorem selects_iff (ascending : Ascending ranges) (id : Int) :
    selects ranges id = true ↔ Covers ranges id := by
  induction ranges with
  | nil => simp [selects, covers_nil]
  | cons range rest ih =>
    obtain ⟨above, restAscending⟩ := pairwise_cons.mp ascending
    rw [selects, covers_cons, Range.mem_iff, find?_cons]
    by_cases upper : id ≤ range.last
    · simp [upper, not_covers_of_le above upper]
    · simp only [upper, decide_false, and_false, false_or]
      exact ih restAscending

theorem add_deleted_covers (deleted : List Range) (id other : Int) :
    Covers (addDeleted deleted id) other ↔ Covers deleted other ∨ other = id := by
  have single : Covers [⟨id, id, le_refl id⟩] other ↔ other = id := by
    simp only [covers_cons, covers_nil, Range.mem_iff, or_false]
    omega
  rw [addDeleted]
  cases isLast : deleted.getLast? with
  | none =>
    rw [getLast?_eq_none_iff.mp isLast]
    simp only [single, covers_nil, false_or]
  | some back =>
    simp only
    split_ifs with adjacent
    · have split : deleted = deleted.dropLast ++ [back] :=
        (dropLast_append_getLast? back isLast).symm
      have ordered := back.ordered
      rw [covers_append]
      nth_rewrite 2 [split]
      rw [covers_append, or_assoc]
      apply or_congr_right
      simp only [covers_cons, covers_nil, Range.mem_iff, or_false]
      omega
    · rw [covers_append, single]

theorem collect_deleted_covers {anchor : Range} (ascending : Ascending ranges)
    {positions : List Int} {deleted : List Range} (id : Int) :
    Covers (collectDeleted ranges anchor positions deleted) id ↔ Covers deleted id ∨
        (id - anchor.first ∈ positions ∧ id ∈ anchor ∧ Covers ranges id) := by
  induction positions generalizing deleted with
  | nil => simp [collectDeleted]
  | cons position rest ih =>
    rw [collectDeleted]
    have here : id - anchor.first = position ↔ id = anchor.first + position := by omega
    split_ifs with outside selected
    · rw [ih, Range.mem_iff]
      grind
    · rw [selects_iff ascending] at selected
      rw [ih, add_deleted_covers, Range.mem_iff]
      by_cases same : id = anchor.first + position
      · grind
      · grind
    · rw [selects_iff ascending] at selected
      rw [ih, mem_cons, Range.mem_iff, here]
      by_cases same : id = anchor.first + position
      · rw [← same] at selected
        simp [selected]
      · simp [same]

theorem end_run_covers (run : Option Int) (last other : Int) :
    Covers (endRun run last) other ↔ ∃ runStart ∈ run, runStart ≤ other ∧ other ≤ last := by
  cases run with
  | none => simp [endRun, covers_nil]
  | some runStart => simp [endRun, range_between_covers]

theorem end_run_ascending (run : Option Int) (last : Int) : Ascending (endRun run last) := by
  cases run with
  | none => exact Pairwise.nil
  | some runStart => exact range_between_ascending _ _

theorem mem_end_run {range : Range} (mem : range ∈ endRun run last) :
    range.first ∈ run ∧ range.last = last := by
  cases run with
  | none => cases mem
  | some runStart =>
    obtain ⟨isFirst, isLast⟩ := mem_range_between mem
    exact ⟨congrArg some isFirst.symm, isLast⟩

theorem run_started (started : ∀ runStart ∈ run, runStart < id) :
    ∀ runStart ∈ run.or (some id), runStart < id + 1 := by
  intro runStart isStart
  cases run with
  | none =>
    cases isStart
    omega
  | some earlier =>
    have before := started earlier rfl
    cases isStart
    omega

theorem remaining_from_covers (toLast : id + count = last + 1)
    (started : ∀ runStart ∈ run, runStart < id)
    (other : Int) : Covers (remainingFrom deletes last count id run) other ↔
      (∃ runStart ∈ run, runStart ≤ other ∧ other < id) ∨
        (id ≤ other ∧ other ≤ last ∧ deletes other = false) := by
  induction count generalizing id run with
  | zero =>
    rw [remainingFrom, end_run_covers]
    have notLater : ¬(id ≤ other ∧ other ≤ last ∧ deletes other = false) := by omega
    have sameEnd : other ≤ last ↔ other < id := by omega
    rw [or_iff_left notLater, sameEnd]
  | succ count ih =>
    have restToLast : id + 1 + count = last + 1 := by omega
    rw [remainingFrom]
    by_cases same : other = id
    · -- The next id belongs to the run, ends it or starts one.
      subst same
      have inside : other ≤ last := by omega
      cases isDeleted : deletes other with
      | true =>
        rw [if_pos rfl, covers_append, end_run_covers, ih restToLast (by simp)]
        simp [isDeleted]
      | false =>
        rw [if_neg Bool.false_ne_true, ih restToLast (run_started started)]
        have starts : ∃ runStart ∈ run.or (some other), runStart ≤ other ∧ other < other + 1 := by
          cases run with
          | none => exact ⟨other, rfl, by omega⟩
          | some runStart =>
            have before := started runStart rfl
            exact ⟨runStart, rfl, by omega⟩
        exact iff_of_true (.inl starts) (.inr ⟨le_refl _, inside, rfl⟩)
    · have later : id + 1 ≤ other ↔ id ≤ other := by omega
      have before : other ≤ id - 1 ↔ other < id := by omega
      have sameRun : other < id + 1 ↔ other < id := by omega
      split_ifs with isDeleted
      · rw [covers_append, end_run_covers, ih restToLast (by simp)]
        simp [later, before]
      · rw [ih restToLast (run_started started)]
        cases run with
        | none =>
          have notBefore : ¬(id ≤ other ∧ other < id) := by omega
          simp [later, sameRun, notBefore]
        | some runStart => simp [later, sameRun]

theorem remaining_from_ascending (started : ∀ runStart ∈ run, runStart < id) :
    Ascending (remainingFrom deletes last count id run) ∧
      Within (run.getD id) (remainingFrom deletes last count id run) := by
  induction count generalizing id run with
  | zero =>
    refine ⟨end_run_ascending run last, ?_⟩
    intro range mem
    rw [(mem_end_run mem).1, Option.getD_some]
  | succ count ih =>
    rw [remainingFrom]
    split_ifs with isDeleted
    · obtain ⟨ascending, within⟩ := @ih (id + 1) none (by simp)
      constructor
      · apply ascending_append (end_run_ascending _ _) _ ascending within
        intro one isOne
        rw [(mem_end_run isOne).2]
        omega
      · intro range mem
        rcases mem_append.mp mem with isOne | isNext
        · rw [(mem_end_run isOne).1, Option.getD_some]
        · have nextFirst : id + 1 ≤ range.first := within range isNext
          cases run with
          | none =>
            rw [Option.getD_none]
            omega
          | some runStart =>
            have before := started runStart rfl
            rw [Option.getD_some]
            omega
    · obtain ⟨ascending, within⟩ := ih (run_started started)
      refine ⟨ascending, ?_⟩
      intro range mem
      have first := within range mem
      cases run <;> exact first

theorem count_to_last (range : Range) : range.first + range.count = range.last + 1 := by
  have := range.ordered
  rw [Range.count]
  omega

theorem probed_covers {groupDv : GroupDeletionVector} {range : Range} (id : Int) :
    Covers (remainingFrom groupDv.deletes range.last range.count range.first none) id ↔
      id ∈ range ∧ groupDv.deletes id = false := by
  rw [remaining_from_covers (count_to_last range) (by simp), Range.mem_iff]
  simp [and_assoc]

theorem probed_within {groupDv : GroupDeletionVector} {range left : Range}
    (mem : left ∈ remainingFrom groupDv.deletes range.last range.count range.first none) :
    range.first ≤ left.first ∧ left.last ≤ range.last := by
  have covered :=
    (probed_covers left.last).mp ⟨left, mem, Range.mem_iff.mpr ⟨left.ordered, le_refl _⟩⟩
  exact ⟨(remaining_from_ascending (by simp)).2 left mem, (Range.mem_iff.mp covered.1).2⟩

theorem exclude_probed_ascending (ascending : Ascending ranges)
    (groupDv : GroupDeletionVector) : Ascending (excludeProbed ranges groupDv) := by
  rw [Ascending, excludeProbed, pairwise_flatMap]
  refine ⟨fun range _ => (remaining_from_ascending (by simp)).1, ?_⟩
  apply ascending.imp
  intro first second apart left isLeft right isRight
  have leftBound := (probed_within isLeft).2
  have rightBound := (probed_within isRight).1
  omega

theorem exclude_probed_covers (ranges : List Range) (groupDv : GroupDeletionVector) (id : Int) :
    Covers (excludeProbed ranges groupDv) id ↔ Covers ranges id ∧ groupDv.deletes id = false := by
  induction ranges with
  | nil => simp [excludeProbed, covers_nil]
  | cons range rest ih =>
    have unfolded : excludeProbed (range :: rest) groupDv =
        remainingFrom groupDv.deletes range.last range.count range.first none ++
          excludeProbed rest groupDv := rfl
    rw [unfolded, covers_append, ih, probed_covers, covers_cons, or_and_right]

theorem span_ascending (first last : Int) (deleted : List Range) :
    Ascending ((rangeBetween first last).flatMap (fun span => span.exclude deleted)) := by
  rw [rangeBetween]
  split_ifs
  · simpa using exclude_ascending _ _
  · exact Pairwise.nil

theorem span_covers (first last : Int) (deleted : List Range) (id : Int) :
    Covers ((rangeBetween first last).flatMap (fun span => span.exclude deleted)) id ↔
      (first ≤ id ∧ id ≤ last) ∧ ¬Covers deleted id := by
  rw [rangeBetween]
  split_ifs with ordered
  · simp only [flatMap_cons, flatMap_nil, append_nil, exclude_covers, Range.mem_iff]
  · have empty : ¬(first ≤ id ∧ id ≤ last) := by omega
    simp [covers_nil, empty]

theorem exclude_visited_ascending (ascending : Ascending ranges)
    (front back : Range) (groupDv : GroupDeletionVector) :
    Ascending (excludeVisited ranges front back groupDv) := by
  rw [excludeVisited]
  split_ifs
  · exact ascending
  · exact (and_starts ascending (span_ascending _ _ _)).1

theorem ascending_span {front back : Range} {id : Int}
    (ascending : Ascending ranges) (isFront : ranges.head? = some front)
    (isBack : ranges.getLast? = some back) (covered : Covers ranges id) :
    front.first ≤ id ∧ id ≤ back.last := by
  obtain ⟨range, mem, inRange⟩ := covered
  rw [Range.mem_iff] at inRange
  constructor
  · obtain ⟨rest, rfl⟩ := head?_eq_some_iff.mp isFront
    rcases mem_cons.mp mem with rfl | later
    · exact inRange.1
    · have apart := (pairwise_cons.mp ascending).1 range later
      have ordered := front.ordered
      omega
  · obtain ⟨initial, rfl⟩ := getLast?_eq_some_iff.mp isBack
    rcases mem_append.mp mem with earlier | isLast
    · have apart := (pairwise_append.mp ascending).2.2 range earlier back (mem_singleton_self back)
      have ordered := back.ordered
      omega
    · rw [← mem_singleton.mp isLast]
      exact inRange.2

theorem exclude_visited_covers {front back : Range}
    {groupDv : GroupDeletionVector} (ascending : Ascending ranges)
    (inAnchor : ∀ id, Covers ranges id → id ∈ groupDv.anchorRange)
    (isFront : ranges.head? = some front) (isBack : ranges.getLast? = some back) (id : Int) :
    Covers (excludeVisited ranges front back groupDv) id ↔
      Covers ranges id ∧ groupDv.deletes id = false := by
  have collected := @collect_deleted_covers ranges groupDv.anchorRange ascending
    groupDv.deletionVector.positions [] id
  have deletes : groupDv.deletes id = true ↔
      id - groupDv.anchorRange.first ∈ groupDv.deletionVector.positions := by
    simp [GroupDeletionVector.deletes, DeletionVector.isDeleted]
  rw [excludeVisited]
  split_ifs with noneDeleted
  · have none := covers_nil id
    grind
  · rw [and_covers ascending (span_ascending _ _ _), span_covers]
    have inSpan := @ascending_span ranges front back id ascending isFront isBack
    have none := covers_nil id
    grind

theorem exclude_deleted_ascending (ascending : Ascending ranges)
    (groupDv : GroupDeletionVector) : Ascending (excludeDeletedRowIds ranges groupDv) := by
  rw [excludeDeletedRowIds]
  split
  · split_ifs
    · exact exclude_visited_ascending ascending _ _ groupDv
    · exact exclude_probed_ascending ascending groupDv
  · exact Pairwise.nil

theorem exclude_deleted_covers (ascending : Ascending ranges)
    {groupDv : GroupDeletionVector} (inAnchor : ∀ id, Covers ranges id → id ∈ groupDv.anchorRange)
    (id : Int) : Covers (excludeDeletedRowIds ranges groupDv) id ↔
      Covers ranges id ∧ groupDv.deletes id = false := by
  rw [excludeDeletedRowIds]
  split
  · rename_i front back isFront isBack
    split_ifs
    · exact exclude_visited_covers ascending inAnchor isFront isBack id
    · exact exclude_probed_covers ranges groupDv id
  · rename_i noEnds
    cases ranges with
    | nil => simp [covers_nil]
    | cons front rest => exact absurd rfl (noEnds front _ rfl)

end PaimonCore.Read
