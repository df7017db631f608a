import Mathlib.Data.List.TakeWhile
import PaimonCore.Common.Range

/-!
# `PageFilteredRowGroupReader`

Every leaf column of a row group reads only the pages in which rows are selected. The selected
rows are numbered anew in the concatenation of the pages that were chosen, and skip and read
commands pick them out there.
-/

namespace PaimonCore.Parquet

open PaimonCore.Ranges List

namespace RowRanges

/-- The binary search stops at the first range that does not end before `first`. -/
def isOverlapping (ranges : List Range) (first last : Int) : Bool :=
  match ranges.find? (fun range => first ≤ range.last) with
  | none => false
  | some range => range.first ≤ last

theorem first_le_max (left right : Range) : left.first ≤ max left.last right.last :=
  le_max_of_le_left left.ordered

def unionRanges (left right : Range) : Option Range :=
  if left.first ≤ right.first then
    if left.last + 1 ≥ right.first then
      some ⟨left.first, max left.last right.last, first_le_max left right⟩
    else none
  else if right.last + 1 ≥ left.first then
    some ⟨right.first, max right.last left.last, first_le_max right left⟩
  else none

/-- Either loop of `Add`, away from the insertion point until a range stays apart. -/
def mergeInto (merged : Range) : List Range → Range × List Range
  | [] => (merged, [])
  | next :: rest =>
    match unionRanges next merged with
    | none => (merged, next :: rest)
    | some union => mergeInto union rest

def add (ranges : List Range) (range : Range) : List Range :=
  let back := mergeInto range (ranges.takeWhile (·.first < range.first)).reverse
  let forth := mergeInto back.1 (ranges.dropWhile (·.first < range.first))
  back.2.reverse ++ forth.1 :: forth.2

end RowRanges

structure PageLocation where
  offset : Int
  compressedPageSize : Int
  firstRowIndex : Int

structure ColumnChunk where
  dataPageOffset : Int
  dictionaryPageOffset : Option Int
  totalCompressedSize : Int

structure DataPageLayout where
  columnChunkOffset : Int
  firstDataPageOffset : Int

def getColumnChunkOffset (chunk : ColumnChunk) : Int :=
  match chunk.dictionaryPageOffset with
  | none => chunk.dataPageOffset
  | some dictionary =>
    if dictionary > 0 ∧ dictionary < chunk.dataPageOffset then dictionary else chunk.dataPageOffset

def int64Max : Int := 9223372036854775807

/-- The loop of `GetDataPageLayout`. -/
def validPages (chunkEnd rowCount : Int) (previousPageEnd previousFirstRow : Int) :
    List PageLocation → Bool
  | [] => true
  | page :: rest =>
    if page.offset < previousPageEnd ∨ page.compressedPageSize ≤ 0 ∨
        page.offset > int64Max - page.compressedPageSize ∨
        page.offset + page.compressedPageSize > chunkEnd ∨
        page.firstRowIndex ≤ previousFirstRow ∨ page.firstRowIndex < 0 ∨
        page.firstRowIndex ≥ rowCount then false
    else validPages chunkEnd rowCount (page.offset + page.compressedPageSize)
      page.firstRowIndex rest

def getDataPageLayout (chunk : ColumnChunk) (pages : List PageLocation) (rowCount : Int) :
    Option DataPageLayout :=
  match pages with
  | [] => none
  | front :: _ =>
    let chunkOffset := getColumnChunkOffset chunk
    let chunkSize := chunk.totalCompressedSize
    if rowCount ≤ 0 ∨ front.firstRowIndex ≠ 0 then none
    else if chunkOffset < 0 ∨ chunkSize ≤ 0 ∨ chunkOffset > int64Max - chunkSize ∨
        front.offset < chunkOffset then none
    else if validPages (chunkOffset + chunkSize) rowCount front.offset (-1) pages then
      some ⟨chunkOffset, front.offset⟩
    else none

section
variable (ranges : List Range) (pages : List PageLocation) (rowCount : Int)

/-- The first row of a page; after the last page, the number of rows. -/
def firstRow (page : Nat) : Int :=
  (pages[page]?.map PageLocation.firstRowIndex).getD rowCount

def getPageRowRange (page : Nat) : Int × Int :=
  (firstRow pages rowCount page, firstRow pages rowCount (page + 1) - 1)

def isPageOverlapping (page : Nat) : Bool :=
  RowRanges.isOverlapping ranges (getPageRowRange pages rowCount page).1
    (getPageRowRange pages rowCount page).2

structure DataPageReadPlanEntry where
  pageOrdinal : Nat
  offset : Int
  compressedPageSize : Int

structure DataPageReadPlan where
  firstDataPageOffset : Int
  dataPages : List DataPageReadPlanEntry

/-- The entries for the pages before the page `count`. -/
def planEntries (chunkOffset : Int) (count : Nat) : List DataPageReadPlanEntry :=
  (List.range count).flatMap fun page =>
    if isPageOverlapping ranges pages rowCount page then
      pages[page]?.toList.map fun location =>
        ⟨page, location.offset - chunkOffset, location.compressedPageSize⟩
    else []

def makeDataPageReadPlan (chunk : ColumnChunk) : Option DataPageReadPlan :=
  (getDataPageLayout chunk pages rowCount).map fun layout =>
    ⟨layout.firstDataPageOffset - layout.columnChunkOffset,
      planEntries ranges pages rowCount layout.columnChunkOffset pages.length⟩

/-- The inner loop of `ComputeCompressedRowRanges`: what one page adds. -/
def pageOverlaps (offset pageFrom pageTo : Int) : List Range → List Range
  | [] => []
  | range :: rest =>
    if range.last < pageFrom then pageOverlaps offset pageFrom pageTo rest
    else if range.first > pageTo then []
    else
      rangeBetween (offset + (max range.first pageFrom - pageFrom))
        (offset + (min range.last pageTo - pageFrom)) ++ pageOverlaps offset pageFrom pageTo rest

def compressPage (state : List Range × Int) (page : Nat) : List Range × Int :=
  let rows := getPageRowRange pages rowCount page
  if RowRanges.isOverlapping ranges rows.1 rows.2 then
    ((pageOverlaps state.2 rows.1 rows.2 ranges).foldl RowRanges.add state.1,
      state.2 + (rows.2 - rows.1 + 1))
  else state

def computeCompressedRowRanges : List Range × Int :=
  (List.range pages.length).foldl (compressPage ranges pages rowCount) ([], 0)

structure Leaf where
  column : Nat
  chunk : ColumnChunk
  offsetIndex : Option (List PageLocation)

/-- Offset and length of each range of bytes to be read. -/
def leafPageRanges (leaf : Leaf) : List (Int × Int) :=
  let whole := [(getColumnChunkOffset leaf.chunk, leaf.chunk.totalCompressedSize)]
  match leaf.offsetIndex with
  | none => whole
  | some pages =>
    match getDataPageLayout leaf.chunk pages rowCount with
    | none => whole
    | some layout =>
      (if layout.firstDataPageOffset > layout.columnChunkOffset then
        [(layout.columnChunkOffset, layout.firstDataPageOffset - layout.columnChunkOffset)]
      else []) ++
      (List.range pages.length).flatMap fun page =>
        if isPageOverlapping ranges pages rowCount page then
          pages[page]?.toList.map fun location => (location.offset, location.compressedPageSize)
        else []

def computePageRanges (leaves : List Leaf) : List (Int × Int) :=
  if ranges.isEmpty then [] else leaves.flatMap (leafPageRanges ranges rowCount)

/-- `SkipRecords` and `ReadRecords` drop and append the next of the remaining records. -/
def executeSkipReadPattern (column : Nat) : List Range → Int → List Int → Except String (List Int)
  | [], _, _ => .ok []
  | range :: rest, current, records =>
    let skip := (range.first - current).toNat
    let skipped := min skip records.length
    if skipped ≠ skip then
      .error (s!"PageFilteredRowGroupReader: leaf {column} expected to skip {skip} records " ++
        s!"but skipped {skipped}")
    else
      let toRead := range.count
      let values := (records.drop skip).take toRead
      let read := values.length
      if read ≠ toRead then
        .error (s!"PageFilteredRowGroupReader: leaf {column} expected to read {toRead} records " ++
          s!"but read {read}")
      else
        (executeSkipReadPattern column rest (range.last + 1) ((records.drop skip).drop toRead)).map
          (values ++ ·)

def rowsBetween (first last : Int) : List Int :=
  (List.range (last - first + 1).toNat).map fun k : Nat => first + k

/-- The rows of the pages a plan has chosen. -/
def plannedRows (entries : List DataPageReadPlanEntry) : List Int :=
  entries.flatMap fun entry =>
    rowsBetween (getPageRowRange pages rowCount entry.pageOrdinal).1
      (getPageRowRange pages rowCount entry.pageOrdinal).2

def leafPlan (leaf : Leaf) : Option (List PageLocation × DataPageReadPlan) :=
  leaf.offsetIndex.bind fun pages =>
    (makeDataPageReadPlan ranges pages rowCount leaf.chunk).map (Prod.mk pages)

/-- With no row selected no row group is opened; without a plan every page is read. -/
def readLeaf (leaf : Leaf) : Except String (List Int) :=
  if ranges.isEmpty then executeSkipReadPattern leaf.column ranges 0 []
  else
    match leafPlan ranges rowCount leaf with
    | none => executeSkipReadPattern leaf.column ranges 0 (rowsBetween 0 (rowCount - 1))
    | some (pages, plan) =>
      executeSkipReadPattern leaf.column (computeCompressedRowRanges ranges pages rowCount).1 0
        (plannedRows pages rowCount plan.dataPages)

def readFilteredField (leaves : List Leaf) : Except String (List (List Int)) :=
  leaves.mapM (readLeaf ranges rowCount)

end

variable {ranges left right : List Range} {first last : Int}

theorem ids_of_append : idsOf (left ++ right) = idsOf left ++ idsOf right :=
  flatMap_append

theorem ascending_iff_ids : Ascending ranges ↔ (idsOf ranges).Pairwise (· < ·) := by
  refine ⟨ids_of_ascending, fun increasing => ?_⟩
  rw [idsOf, pairwise_flatMap] at increasing
  apply increasing.2.imp
  intro range next less
  exact less _ (Range.mem_ids.mpr (Range.mem_iff.mpr ⟨range.ordered, le_rfl⟩)) _
    (Range.mem_ids.mpr (Range.mem_iff.mpr ⟨le_rfl, next.ordered⟩))

theorem overlapping_of_mem {id : Int} (ascending : Ascending ranges) (isId : id ∈ idsOf ranges)
    (inPage : first ≤ id ∧ id ≤ last) : RowRanges.isOverlapping ranges first last = true := by
  induction ranges with
  | nil => cases isId
  | cons range rest ih =>
    obtain ⟨after, restAscending⟩ := pairwise_cons.mp ascending
    rw [mem_ids_of, covers_cons, Range.mem_iff] at isId
    have ordered := range.ordered
    rw [RowRanges.isOverlapping, find?_cons]
    by_cases reaches : first ≤ range.last
    · rw [decide_eq_true reaches]
      apply decide_eq_true
      by_contra later
      exact not_covers_of_le after (by omega) (isId.resolve_left (by omega))
    · rw [decide_eq_false reaches]
      exact ih restAscending (mem_ids_of.mpr (isId.resolve_left (by omega)))

theorem ids_of_union {below above union : Range} (apart : below.last < above.first)
    (isUnion : RowRanges.unionRanges below above = some union) :
    idsOf [union] = idsOf [below, above] := by
  have belowOrdered := below.ordered
  rw [RowRanges.unionRanges, if_pos (by omega)] at isUnion
  split_ifs at isUnion
  obtain rfl := Option.some.inj isUnion
  apply ascending_ids_eq (ids_of_ascending (pairwise_singleton _ _))
    (ids_of_ascending (pairwise_pair.mpr apart))
  intro id
  simp only [mem_ids_of, covers_cons, covers_nil, or_false, Range.mem_iff]
  omega

theorem merge_into_ids {merged : Range} (ascending : Ascending (merged :: ranges).reverse) :
    idsOf ((RowRanges.mergeInto merged ranges).1 ::
      (RowRanges.mergeInto merged ranges).2).reverse = idsOf (merged :: ranges).reverse := by
  induction ranges generalizing merged with
  | nil => rfl
  | cons next rest ih =>
    have apart := (pairwise_cons.mp (pairwise_reverse.mp ascending)).1 next
      mem_cons_self
    rw [RowRanges.mergeInto]
    cases isUnion : RowRanges.unionRanges next merged with
    | none => rfl
    | some union =>
      have glued : idsOf (union :: rest).reverse = idsOf (merged :: next :: rest).reverse := by
        rw [reverse_cons, ids_of_append, ids_of_union apart isUnion, ← ids_of_append]
        simp
      rw [ascending_iff_ids, ← glued, ← ascending_iff_ids] at ascending
      exact (ih ascending).trans glued

theorem add_ids {range : Range} (ascending : Ascending (ranges ++ [range])) :
    idsOf (RowRanges.add ranges range) = idsOf (ranges ++ [range]) := by
  have startsBelow : ∀ one ∈ ranges, decide (one.first < range.first) = true := by
    intro one isOne
    have below := (pairwise_append.mp ascending).2.2 one isOne range (mem_singleton_self _)
    exact decide_eq_true (one.ordered.trans_lt below)
  have merged := @merge_into_ids ranges.reverse range (by simpa using ascending)
  rw [reverse_cons, reverse_cons, reverse_reverse] at merged
  rw [RowRanges.add, takeWhile_eq_self_iff.mpr startsBelow, dropWhile_eq_nil_iff.mpr startsBelow]
  exact merged

theorem add_all_ids {added : List Range} (ascending : Ascending (ranges ++ added)) :
    idsOf (added.foldl RowRanges.add ranges) = idsOf (ranges ++ added) := by
  induction added generalizing ranges with
  | nil => rw [foldl_nil, append_nil]
  | cons range rest ih =>
    rw [append_cons] at ascending
    have here := add_ids (pairwise_append.mp ascending).1
    rw [ascending_iff_ids, ids_of_append, ← here, ← ids_of_append, ← ascending_iff_ids] at ascending
    rw [foldl_cons, ih ascending, ids_of_append, here, ← ids_of_append, ← append_cons]

theorem page_overlaps_ids (offset : Int) (ascending : Ascending ranges) :
    idsOf (pageOverlaps offset first last ranges) =
      ((idsOf ranges).filter fun row => first ≤ row ∧ row ≤ last).map fun row =>
        offset + (row - first) := by
  induction ranges with
  | nil => rfl
  | cons range rest ih =>
    obtain ⟨after, restAscending⟩ := pairwise_cons.mp ascending
    have ordered := range.ordered
    have cons : idsOf (range :: rest) = range.ids ++ idsOf rest := rfl
    rw [pageOverlaps, cons, filter_append, map_append, ← ih restAscending]
    split_ifs with before beyond
    · rw [filter_eq_nil_iff.mpr]
      · rfl
      · intro row isRow
        rw [Range.mem_ids, Range.mem_iff] at isRow
        simp only [decide_eq_true_eq]
        omega
    · rw [ih restAscending, ← map_append, ← filter_append, filter_eq_nil_iff.mpr]
      · rfl
      · intro row isRow
        rw [← cons, mem_ids_of, covers_cons, Range.mem_iff] at isRow
        simp only [decide_eq_true_eq]
        intro inPage
        exact not_covers_of_le after (by omega) (isRow.resolve_left (by omega))
    · rw [ids_of_append]
      apply congrArg (· ++ _)
      apply ascending_ids_eq (ids_of_ascending (range_between_ascending _ _))
      · exact (range.ids_ascending.filter _).map _ (fun _ _ less => by omega)
      · intro id
        simp only [mem_ids_of, range_between_covers, mem_map, mem_filter, Range.mem_ids,
          Range.mem_iff, decide_eq_true_eq]
        constructor
        · intro bounds
          exact ⟨id - offset + first, by omega⟩
        · rintro ⟨row, isRow, rfl⟩
          omega

theorem take_drop_eq (records : List Int) (skip count : Nat) :
    (records.drop skip).take count = (List.range count).filterMap fun k => records[skip + k]? := by
  induction count with
  | zero => rfl
  | succ count ih =>
    rw [take_add_one, ih, range_succ]
    cases next : records[skip + count]? <;> simp [next]

/-- The records at the positions the ranges cover are read, in order. -/
theorem execute_reads (column : Nat) {current : Int} {records : List Int}
    (ascending : Ascending ranges) (within : Within current ranges)
    (ends : ∀ range ∈ ranges, range.last < current + records.length) :
    executeSkipReadPattern column ranges current records =
      .ok ((idsOf ranges).filterMap fun id => records[(id - current).toNat]?) := by
  induction ranges generalizing current records with
  | nil => rfl
  | cons range rest ih =>
    obtain ⟨after, restAscending⟩ := pairwise_cons.mp ascending
    have starts := within range mem_cons_self
    have last := ends range mem_cons_self
    have ordered := range.ordered
    have count : range.count = (range.last - range.first + 1).toNat := rfl
    have restRead := @ih (range.last + 1)
      ((records.drop (range.first - current).toNat).drop range.count) restAscending
      (fun next isNext => after next isNext)
      (by
        intro next isNext
        have nextEnds := ends next (mem_cons_of_mem _ isNext)
        rw [length_drop, length_drop]
        omega)
    rw [executeSkipReadPattern, if_neg (by omega), if_neg, restRead, take_drop_eq]
    · change Except.ok _ = Except.ok ((range.ids ++ idsOf rest).filterMap _)
      rw [filterMap_append, Range.ids, filterMap_map]
      apply congrArg Except.ok
      apply congrArg₂ (· ++ ·)
      · apply filterMap_congr
        intro k _
        apply congrArg (records[·]?)
        change (range.first - current).toNat + k = (range.first + k - current).toNat
        omega
      · apply filterMap_congr
        intro id isId
        obtain ⟨next, isNext, inNext⟩ := mem_ids_of.mp isId
        have nextAfter := after next isNext
        rw [Range.mem_iff] at inNext
        rw [drop_drop, getElem?_drop]
        apply congrArg (records[·]?)
        omega
    · rw [length_take, length_drop]
      omega

theorem rows_between_get {row : Int} (inRange : first ≤ row ∧ row ≤ last) :
    (rowsBetween first last)[(row - first).toNat]? = some row := by
  rw [rowsBetween, getElem?_map, getElem?_range (by omega)]
  apply congrArg some
  change first + ((row - first).toNat : Int) = row
  omega

/-- Before the row `bound`; `rows` are those of the pages chosen so far. -/
structure Compressed (ranges : List Range) (rows : List Int) (bound : Int)
    (state : List Range × Int) : Prop where
  ascending : Ascending state.1
  total : state.2 = rows.length
  inside : ∀ id ∈ idsOf state.1, 0 ≤ id ∧ id < rows.length
  reads : (idsOf state.1).filterMap (fun id => rows[id.toNat]?) =
    (idsOf ranges).filter fun row => row < bound

variable {rows : List Int} {state : List Range × Int}

theorem Compressed.execute (compressed : Compressed ranges rows last state) (column : Nat)
    (below : ∀ range ∈ ranges, range.last < last) :
    executeSkipReadPattern column state.1 0 rows = .ok (idsOf ranges) := by
  have inside : ∀ range ∈ state.1, ∀ id ∈ range, 0 ≤ id ∧ id < rows.length :=
    fun range isRange id inRange => compressed.inside id (mem_ids_of.mpr ⟨range, isRange, inRange⟩)
  rw [execute_reads column compressed.ascending]
  · simp only [Int.sub_zero, compressed.reads]
    apply congrArg Except.ok
    apply filter_eq_self.mpr
    intro row isRow
    obtain ⟨range, isRange, inRange⟩ := mem_ids_of.mp isRow
    exact decide_eq_true ((Range.mem_iff.mp inRange).2.trans_lt (below range isRange))
  · intro range isRange
    exact (inside range isRange _ (Range.mem_iff.mpr ⟨le_rfl, range.ordered⟩)).1
  · intro range isRange
    rw [Int.zero_add]
    exact (inside range isRange _ (Range.mem_iff.mpr ⟨range.ordered, le_rfl⟩)).2

theorem Compressed.choose (compressed : Compressed ranges rows first state) (ordered : first ≤ last)
    (ascending : Ascending ranges) : Compressed ranges (rows ++ rowsBetween first last) (last + 1)
      ((pageOverlaps state.2 first last ranges).foldl RowRanges.add state.1,
        state.2 + (last - first + 1)) := by
  obtain ⟨stateAscending, total, inside, reads⟩ := compressed
  have added : ∀ id ∈ idsOf (pageOverlaps state.2 first last ranges),
      state.2 ≤ id ∧ id ≤ state.2 + (last - first) := by
    intro id isId
    rw [page_overlaps_ids _ ascending] at isId
    obtain ⟨row, isRow, rfl⟩ := mem_map.mp isId
    have inPage := of_decide_eq_true (mem_filter.mp isRow).2
    omega
  have longer : ((rows ++ rowsBetween first last).length : Int) = state.2 + (last - first + 1) := by
    rw [length_append, rowsBetween, length_map, length_range]
    omega
  have allAscending : Ascending (state.1 ++ pageOverlaps state.2 first last ranges) := by
    rw [ascending_iff_ids, ids_of_append, pairwise_append]
    refine ⟨ids_of_ascending stateAscending, ?_, ?_⟩
    · rw [page_overlaps_ids _ ascending]
      exact ((ids_of_ascending ascending).filter _).map _ fun _ _ less => by omega
    · intro id isId other isOther
      have early := inside id isId
      have late := added other isOther
      omega
  have ids := add_all_ids allAscending
  refine ⟨?_, longer.symm, ?_, ?_⟩
  · rwa [ascending_iff_ids, ids, ← ascending_iff_ids]
  · intro id isId
    rw [ids, ids_of_append, mem_append] at isId
    rcases isId with early | late
    · have bounds := inside id early
      omega
    · have bounds := added id late
      omega
  · rw [ids, ids_of_append, filterMap_append, page_overlaps_ids _ ascending, filterMap_map]
    have early : (idsOf state.1).filterMap (fun id => (rows ++ rowsBetween first last)[id.toNat]?) =
        (idsOf ranges).filter fun row => row < first := by
      rw [← reads]
      apply filterMap_congr
      intro id isId
      exact getElem?_append_left (by have bounds := inside id isId; omega)
    have late : ∀ row ∈ (idsOf ranges).filter fun row => first ≤ row ∧ row ≤ last,
        ((fun id : Int => (rows ++ rowsBetween first last)[id.toNat]?) ∘
          fun row => state.2 + (row - first)) row = some row := by
      intro row isRow
      have inPage := of_decide_eq_true (mem_filter.mp isRow).2
      rw [Function.comp_apply, getElem?_append_right (by omega),
        show (state.2 + (row - first)).toNat - rows.length = (row - first).toNat by omega]
      exact rows_between_get inPage
    rw [early, filterMap_congr late, filterMap_some]
    apply ascending_ids_eq _ ((ids_of_ascending ascending).filter _)
    · intro row
      simp only [mem_append, mem_filter, decide_eq_true_eq, ← and_or_left]
      apply and_congr_right
      intro _
      omega
    · rw [pairwise_append]
      refine ⟨(ids_of_ascending ascending).filter _, (ids_of_ascending ascending).filter _, ?_⟩
      intro row isRow next isNext
      have before := of_decide_eq_true (mem_filter.mp isRow).2
      have inPage := of_decide_eq_true (mem_filter.mp isNext).2
      omega

theorem Compressed.skip (compressed : Compressed ranges rows first state) (ordered : first ≤ last)
    (ascending : Ascending ranges) (apart : ¬RowRanges.isOverlapping ranges first last = true) :
    Compressed ranges rows (last + 1) state := by
  obtain ⟨stateAscending, total, inside, reads⟩ := compressed
  refine ⟨stateAscending, total, inside, reads.trans ?_⟩
  apply filter_congr
  intro row isRow
  apply decide_eq_decide.mpr
  have outside := mt (overlapping_of_mem ascending isRow) apart
  omega

variable {pages : List PageLocation} {rowCount : Int}

theorem valid_pages_increasing {chunkEnd previousPageEnd previousFirstRow : Int}
    (below : previousFirstRow < rowCount)
    (valid : validPages chunkEnd rowCount previousPageEnd previousFirstRow pages = true) :
    previousFirstRow < firstRow pages rowCount 0 ∧ ∀ page < pages.length,
      firstRow pages rowCount page < firstRow pages rowCount (page + 1) := by
  induction pages generalizing previousPageEnd previousFirstRow with
  | nil => exact ⟨below, fun _ no => absurd no (Nat.not_lt_zero _)⟩
  | cons page rest ih =>
    rw [validPages] at valid
    split_ifs at valid with wrong
    simp only [not_or, not_lt, not_le, ge_iff_le] at wrong
    obtain ⟨_, _, _, _, above, _, inside⟩ := wrong
    obtain ⟨next, later⟩ := ih inside valid
    refine ⟨above, fun index isIndex => ?_⟩
    cases index with
    | zero =>
      exact next
    | succ index =>
      exact later index (Nat.lt_of_succ_lt_succ isIndex)

/-- The pages start at row zero, and each one holds a row or more. -/
structure Paged (pages : List PageLocation) (rowCount : Int) : Prop where
  starts : firstRow pages rowCount 0 = 0
  increasing : ∀ page < pages.length, firstRow pages rowCount page <
    firstRow pages rowCount (page + 1)

theorem layout_paged {chunk : ColumnChunk} {layout : DataPageLayout}
    (found : getDataPageLayout chunk pages rowCount = some layout) :
    Paged pages rowCount ∧ layout.columnChunkOffset = getColumnChunkOffset chunk := by
  cases pages with
  | nil => cases found
  | cons front rest =>
    simp only [getDataPageLayout] at found
    split_ifs at found with unusable misplaced valid
    obtain rfl := Option.some.inj found
    rw [not_or, not_not] at unusable
    exact ⟨⟨unusable.2, (valid_pages_increasing (by omega) valid).2⟩, rfl⟩

theorem compressed_pages (paged : Paged pages rowCount) (ascending : Ascending ranges)
    (pos : ∀ range ∈ ranges, 0 ≤ range.first) (chunkOffset : Int) {count : Nat}
    (upTo : count ≤ pages.length) : Compressed ranges
      (plannedRows pages rowCount (planEntries ranges pages rowCount chunkOffset count))
      (firstRow pages rowCount count)
      ((List.range count).foldl (compressPage ranges pages rowCount) ([], 0)) := by
  induction count with
  | zero =>
    rw [paged.starts]
    refine ⟨Pairwise.nil, rfl, fun _ no => (not_mem_nil no).elim, ?_⟩
    symm
    apply filter_eq_nil_iff.mpr
    intro row isRow
    obtain ⟨range, isRange, inRange⟩ := mem_ids_of.mp isRow
    have first := pos range isRange
    rw [Range.mem_iff] at inRange
    simp only [decide_eq_true_eq]
    omega
  | succ count ih =>
    have increases := paged.increasing count upTo
    have before := ih (Nat.le_of_succ_le upTo)
    have bound : firstRow pages rowCount (count + 1) =
        firstRow pages rowCount (count + 1) - 1 + 1 := by omega
    rw [planEntries, range_succ, flatMap_append, plannedRows, flatMap_append,
      foldl_append, flatMap_singleton, getElem?_eq_getElem upTo, bound]
    change Compressed _ _ _ (compressPage ranges pages rowCount _ count)
    rw [compressPage, isPageOverlapping, getPageRowRange]
    split_ifs with overlapping
    · have chosen := before.choose (Int.le_sub_one_of_lt increases) ascending
      rwa [Option.toList_some, map_singleton, flatMap_singleton]
    · have skipped := before.skip (by omega) ascending overlapping
      rwa [flatMap_nil, append_nil]

section
variable (ascending : Ascending ranges) (inside : ∀ range ∈ ranges, 0 ≤ range.first ∧
  range.last < rowCount)
include ascending inside

theorem compressed_whole : Compressed ranges (rowsBetween 0 (rowCount - 1)) rowCount
    (ranges, (rowsBetween 0 (rowCount - 1)).length) := by
  have bounds : ∀ row ∈ idsOf ranges, 0 ≤ row ∧ row ≤ rowCount - 1 := by
    intro row isRow
    obtain ⟨range, isRange, inRange⟩ := mem_ids_of.mp isRow
    have inGroup := inside range isRange
    rw [Range.mem_iff] at inRange
    omega
  refine ⟨ascending, rfl, ?_, ?_⟩
  · intro row isRow
    have inGroup := bounds row isRow
    rw [rowsBetween, length_map, length_range]
    omega
  · have atPosition : ∀ row ∈ idsOf ranges, (rowsBetween 0 (rowCount - 1))[row.toNat]? =
        some row := by
      intro row isRow
      have found := rows_between_get (bounds row isRow)
      rwa [Int.sub_zero] at found
    rw [filterMap_congr atPosition, filterMap_some, filter_eq_self.mpr]
    intro row isRow
    exact decide_eq_true (Int.lt_of_le_sub_one (bounds row isRow).2)

/-- Every leaf reads the selected rows, whichever pages it has. -/
theorem read_leaf_eq (leaf : Leaf) : readLeaf ranges rowCount leaf = .ok (idsOf ranges) := by
  have ends := fun range isRange => (inside range isRange).2
  have unplanned := (compressed_whole ascending inside).execute leaf.column ends
  rw [readLeaf, leafPlan]
  split_ifs with isEmpty
  · rw [isEmpty_iff.mp isEmpty]
    rfl
  · cases leaf.offsetIndex with
    | none => exact unplanned
    | some pages =>
      rw [Option.bind_some, makeDataPageReadPlan]
      cases found : getDataPageLayout leaf.chunk pages rowCount with
      | none => exact unplanned
      | some layout =>
        have compressed := compressed_pages (layout_paged found).1 ascending
          (fun range isRange => (inside range isRange).1) layout.columnChunkOffset le_rfl
        rw [firstRow, getElem?_eq_none le_rfl] at compressed
        exact compressed.execute leaf.column ends

/-- Whatever the pages of its leaves, a row group yields the selected rows in order for each
leaf, and the pages that a leaf reads are among the byte ranges to be fetched. -/
theorem page_filtered_read_exact (leaves : List Leaf) :
    readFilteredField ranges rowCount leaves = .ok (leaves.map fun _ => idsOf ranges) ∧
      ∀ leaf ∈ leaves, ∀ planned ∈ leafPlan ranges rowCount leaf, ∀ entry ∈ planned.2.dataPages,
          (getColumnChunkOffset leaf.chunk + entry.offset, entry.compressedPageSize) ∈
            computePageRanges ranges rowCount leaves := by
  constructor
  · rw [readFilteredField]
    induction leaves with
    | nil => rfl
    | cons leaf rest ih =>
      rw [mapM_cons, read_leaf_eq ascending inside leaf, ih]
      rfl
  · intro leaf isLeaf planned isPlanned entry isEntry
    obtain ⟨pages, isIndex, isPlan⟩ := Option.bind_eq_some_iff.mp isPlanned
    obtain ⟨plan, isLayout, rfl⟩ := Option.map_eq_some_iff.mp isPlan
    obtain ⟨layout, found, rfl⟩ := Option.map_eq_some_iff.mp isLayout
    obtain ⟨page, isPage, isEntry⟩ := mem_flatMap.mp isEntry
    split_ifs at isEntry with overlapping
    · obtain ⟨location, isLocation, rfl⟩ := mem_map.mp isEntry
      have selected : ¬ranges.isEmpty = true := by
        rintro isEmpty
        rw [isEmpty_iff.mp isEmpty] at overlapping
        cases overlapping
      rw [computePageRanges, if_neg selected, mem_flatMap]
      refine ⟨leaf, isLeaf, ?_⟩
      simp only [leafPageRanges, isIndex, found]
      apply mem_append_right
      refine mem_flatMap.mpr ⟨page, isPage, ?_⟩
      rw [if_pos overlapping, ← (layout_paged found).2, add_sub_cancel]
      exact mem_map_of_mem isLocation
    · cases isEntry

end

def sampleRanges : List Range := [⟨1, 2, by decide⟩, ⟨5, 5, by decide⟩]

/-- A leaf whose pages start at the given rows, each page with ten bytes. -/
def sampleLeaf (column : Nat) (starts : List Int) : Leaf where
  column := column
  chunk := ⟨100, none, 1000⟩
  offsetIndex := some (starts.map fun start => ⟨100 + 10 * start, 10, start⟩)

/-- The pages of the leaves start at different rows. -/
theorem uneven_pages_read : ((leafPlan sampleRanges 6 (sampleLeaf 0 [0, 2, 3])).map fun planned =>
      planned.2.dataPages.map DataPageReadPlanEntry.pageOrdinal) = some [0, 1, 2] ∧
    ((leafPlan sampleRanges 6 (sampleLeaf 1 [0, 3, 4])).map fun planned =>
      planned.2.dataPages.map DataPageReadPlanEntry.pageOrdinal) = some [0, 2] ∧
    readFilteredField sampleRanges 6 [sampleLeaf 0 [0, 2, 3], sampleLeaf 1 [0, 3, 4]] =
      .ok [[1, 2, 5], [1, 2, 5]] :=
  ⟨by decide, by decide, (page_filtered_read_exact (by unfold Ascending; decide) (by decide) _).1⟩

end PaimonCore.Parquet
