import PaimonCore.Common.Range
import PaimonCore.Library.TopK

/-!
# Full-text search over shards

Each shard of a full-text index covers a range of row ids, and the ranges may overlap. A row is
ranked by the first covering range in `(from, to)` order. Every shard is asked for its best
`limit` rows among those it ranks that are live and included, and the answers are merged.
-/

namespace PaimonCore.FullText

open PaimonCore.Ranges TopK List

/-- The field name and the query are left out; a bitmap of row ids is its membership test. -/
structure FullTextSearch where
  limit : Int
  includeRowIds : Option (Int → Bool)

namespace FullTextSearch

def includes (search : FullTextSearch) (row : Int) : Bool :=
  search.includeRowIds.all (fun ids => ids row)

/-- The row ids are clipped to the range and shifted to those of the shard. -/
def offsetRange (search : FullTextSearch) (range : Range) : FullTextSearch :=
  { search with includeRowIds := search.includeRowIds.map (fun ids row =>
      range.contains (row + range.first) && ids (row + range.first)) }

end FullTextSearch

variable {Score : Type} [LinearOrder Score]

abbrev Rows (Score : Type) := List (Int × Score)

def addOffset (offset : Int) (result : Rows Score) : Rows Score :=
  result.map (fun hit => (hit.1 + offset, hit.2))

/-- A reader without support for the search answers with `none`. -/
abbrev Reader (Score : Type) := FullTextSearch → Except String (Option (Rows Score))

/-- A shard finds the best of the hits it is told to include, and counts rows from its start. -/
def Ranks (range : Range) (hits : Rows Score) (reader : Reader Score) : Prop :=
  ∀ search, 0 < search.limit → ∃ result, reader search = .ok (some result) ∧
    IsTopK Prod.snd search.limit.toNat
      (hits.filter (fun hit => search.includes (hit.1 - range.first)))
        (addOffset range.first result)

/-- `hits` are the rows of the shard that match the query. Row ids are not negative. -/
structure Shard (Score : Type) [LinearOrder Score] where
  range : Range
  nonnegative : 0 ≤ range.first
  reader : Reader Score
  hits : Rows Score
  distinct : (hits.map Prod.fst).Nodup
  inside : ∀ hit ∈ hits, range.contains hit.1 = true
  ranks : Ranks range hits reader

/-- A reader is only created over at least one shard. -/
structure RangeToMetas (Score : Type) [LinearOrder Score] where
  shards : List (Shard Score)
  nonempty : shards ≠ []
  ordered : shards.Pairwise (fun left right => left.range.first < right.range.first ∨
    left.range.first = right.range.first ∧ left.range.last < right.range.last)

theorem clipped_ordered {first last coveredTo : Int} (ordered : first ≤ last)
    (uncovered : coveredTo < last) : max first (coveredTo + 1) ≤ last :=
  max_le ordered uncovered

def searchRange (coveredTo : Int) (range : Range) : Option Range :=
  if uncovered : coveredTo < range.last then
    some ⟨max range.first (coveredTo + 1), range.last, clipped_ordered range.ordered uncovered⟩
  else none

/-- The loop of `CreateReaders`, with the search range of each shard. -/
def createReaders (coveredTo : Int) : List (Shard Score) → List (Shard Score × Option Range)
  | [] => []
  | shard :: rest =>
    (shard, searchRange coveredTo shard.range) ::
      createReaders (max coveredTo shard.range.last) rest

def RangeToMetas.readers (metas : RangeToMetas Score) : List (Shard Score × Option Range) :=
  createReaders (-9223372036854775808) metas.shards

def mayRankRowsOf (search : FullTextSearch) (range : Range) : Bool :=
  search.includeRowIds.all (fun ids => range.ids.any ids)

def fullTextSearchForReader (range : Range) (searchRange : Option Range) (search : FullTextSearch) :
    Option FullTextSearch :=
  match searchRange with
  | none => none
  | some ranked =>
    if mayRankRowsOf search ranked then
      if ranked = range then some search
      else some { search with
        includeRowIds := some (fun row => ranked.contains row && search.includes row) }
    else none

/-- What `LiveRowGlobalIndexReader` passes on. -/
def liveRowSearch (range : Range) (liveRows : Option (Int → Bool)) (search : FullTextSearch) :
    FullTextSearch :=
  match liveRows with
  | none => search
  | some live =>
    let includeRowIds := fun row => range.contains row && live row && search.includes row
    if mayRankRowsOf search range = false then search
    else if (range.ids.filter includeRowIds).length = range.count then
      { search with includeRowIds := none }
    else { search with includeRowIds := some includeRowIds }

/-- The search that reaches the reader of a shard. -/
def shardSearch (liveRows : Option (Int → Bool)) (search : FullTextSearch)
    (shard : Shard Score × Option Range) : Option FullTextSearch :=
  (fullTextSearchForReader shard.1.range shard.2 search).map (fun narrowed =>
    (liveRowSearch shard.1.range liveRows narrowed).offsetRange shard.1.range)

def visitShard (liveRows : Option (Int → Bool)) (search : FullTextSearch)
    (shard : Shard Score × Option Range) : Except String (Option (Rows Score)) :=
  match shardSearch liveRows search shard with
  | none => .ok (some [])
  | some reached => do
    let result ← shard.1.reader reached
    pure (result.map (addOffset shard.1.range.first))

def ranksBefore (left right : Int × Score) : Bool :=
  if left.2 ≠ right.2 then right.2 < left.2 else left.1 < right.1

/-- The loop with `merged_row_ids`. -/
def firstOfEachRow : Rows Score → Rows Score
  | [] => []
  | row :: rest => row :: (firstOfEachRow rest).filter (fun next => next.1 ≠ row.1)

def mergeTopK (results : List (Rows Score)) (limit : Int) : Except String (Rows Score) :=
  if limit ≤ 0 then .error "merging scored results requires a positive limit"
  else
    let ranked := (firstOfEachRow results.flatten).insertionSort (fun left right =>
      ranksBefore right left = false)
    .ok ((ranked.take limit.toNat).insertionSort (fun left right => left.1 ≤ right.1))

def visitFullTextSearch (metas : RangeToMetas Score) (liveRows : Option (Int → Bool))
    (search : FullTextSearch) : Except String (Option (Rows Score)) :=
  if search.limit ≤ 0 then .error "full-text search requires a positive limit"
  else do
    let results ← metas.readers.mapM (visitShard liveRows search)
    let scoredResults := results.filterMap id
    if scoredResults.isEmpty then pure none else some <$> mergeTopK scoredResults search.limit

section
variable {coveredTo row : Int} {shards : List (Shard Score)}

def Holds (row : Int) (shard : Shard Score × Option Range) : Bool :=
  shard.1.range.contains row && shard.2.any (fun ranked => ranked.contains row)

theorem holds_iff {shard : Shard Score} :
    Holds row (shard, searchRange coveredTo shard.range) = true ↔
      coveredTo < row ∧ row ∈ shard.range := by
  rw [Range.mem_iff, Holds, searchRange]
  split_ifs with uncovered
  · simp only [Option.any_some, Range.contains, Bool.and_eq_true, decide_eq_true_eq]
    omega
  · simp only [Option.any_none, Bool.and_false, Bool.false_eq_true, false_iff]
    omega

theorem held_after {shard : Shard Score × Option Range}
    (mem : shard ∈ createReaders coveredTo shards) (held : Holds row shard = true) :
    coveredTo < row := by
  induction shards generalizing coveredTo with
  | nil => cases mem
  | cons head rest induction =>
    rcases mem_cons.mp mem with rfl | later
    · exact (holds_iff.mp held).1
    · exact (max_lt_iff.mp (induction later)).1

theorem not_held (covered : row ≤ coveredTo) :
    (createReaders coveredTo shards).filter (Holds row) = [] := by
  rw [filter_eq_nil_iff]
  intro shard mem held
  exact not_lt.mpr covered (held_after mem held)

theorem held_by_first (ordered : shards.Pairwise (fun left right =>
    left.range.first ≤ right.range.first))
    (uncovered : coveredTo < row) :
    ((createReaders coveredTo shards).filter (Holds row)).map Prod.fst =
      (shards.find? (fun shard => shard.range.contains row)).toList := by
  induction shards generalizing coveredTo with
  | nil => rfl
  | cons head rest induction =>
    obtain ⟨before, ordered⟩ := pairwise_cons.mp ordered
    rw [createReaders, find?_cons]
    cases covers : head.range.contains row with
    | true =>
      have done := (Range.mem_iff.mp covers).2
      rw [filter_cons_of_pos (holds_iff.mpr ⟨uncovered, covers⟩),
        not_held (le_max_of_le_right done)]
      rfl
    | false =>
      have missed : ¬row ∈ head.range := Bool.eq_false_iff.mp covers
      rw [filter_cons_of_neg (fun held => missed (holds_iff.mp held).2)]
      by_cases past : head.range.last < row
      · exact induction ordered (max_lt uncovered past)
      · -- the ranges are in order of `from`, so no later one starts early enough
        have none : rest.find? (fun shard => shard.range.contains row) = none := by
          rw [find?_eq_none]
          intro shard mem contained
          have starts := before shard mem
          have lower := (Range.mem_iff.mp contained).1
          rw [Range.mem_iff] at missed
          omega
        rw [not_held (le_max_of_le_right (not_lt.mp past)), none]
        rfl

theorem held_apart : (createReaders coveredTo shards).Pairwise (fun left right =>
    ∀ row, Holds row left = true → Holds row right = false) := by
  induction shards generalizing coveredTo with
  | nil => exact .nil
  | cons head rest induction =>
    refine pairwise_cons.mpr ⟨?_, induction⟩
    intro shard mem row held
    rw [Bool.eq_false_iff]
    intro later
    have upper := (Range.mem_iff.mp (holds_iff.mp held).2).2
    have after := (max_lt_iff.mp (held_after mem later)).2
    omega

end

section
variable (liveRows : Option (Int → Bool)) (search : FullTextSearch) {range : Range} {row : Int}
  (inside : range.contains row = true)
include inside

theorem may_rank_of_includes {search : FullTextSearch} (included : search.includes row = true) :
    mayRankRowsOf search range = true := by
  unfold mayRankRowsOf
  unfold FullTextSearch.includes at included
  cases isIds : search.includeRowIds with
  | none => rfl
  | some ids =>
    rw [isIds] at included
    exact any_eq_true.mpr ⟨row, Range.mem_ids.mpr inside, included⟩

theorem live_row_search_includes : (liveRowSearch range liveRows search).includes row =
    (liveRows.all (fun live => live row) && search.includes row) := by
  unfold liveRowSearch
  cases liveRows with
  | none => simp
  | some live =>
    dsimp only [Option.all_some]
    split_ifs with unranked full
    · have missed : search.includes row = false := by
        rw [Bool.eq_false_iff]
        intro included
        rw [may_rank_of_includes inside included] at unranked
        cases unranked
      rw [missed, Bool.and_false]
    · -- as many as the range has: every row of it is live and included
      have counted : range.ids.length = range.count := by simp [Range.ids]
      rw [← counted, length_filter_eq_length_iff] at full
      have all := full row (Range.mem_ids.mpr inside)
      rw [inside, Bool.true_and] at all
      rw [all]
      rfl
    · simp [FullTextSearch.includes, inside]

theorem search_for_reader_includes (searchRange : Option Range) :
    (fullTextSearchForReader range searchRange search).any (fun narrowed => narrowed.includes row) =
      (searchRange.any (fun ranked => ranked.contains row) && search.includes row) := by
  cases searchRange with
  | none => rfl
  | some ranked =>
    dsimp only [fullTextSearchForReader, Option.any_some]
    split_ifs with ranks whole
    · rw [whole, inside, Bool.true_and, Option.any_some]
    · rfl
    · rw [Option.any_none, Eq.comm, Bool.and_eq_false_iff, or_iff_not_imp_left, Bool.not_eq_false]
      intro contained
      rw [Bool.eq_false_iff]
      intro included
      exact ranks (may_rank_of_includes contained included)

theorem offset_range_includes :
    (search.offsetRange range).includes (row - range.first) = search.includes row := by
  unfold FullTextSearch.includes FullTextSearch.offsetRange
  cases search.includeRowIds with
  | none => rfl
  | some ids => simp [inside]

end

variable (liveRows : Option (Int → Bool)) (search : FullTextSearch)

/-- The search that reaches the reader of the shard includes its row `row`. -/
def ranksRow (row : Int) (shard : Shard Score × Option Range) : Bool :=
  shard.1.range.contains row && (shardSearch liveRows search shard).any (fun reached =>
    reached.includes (row - shard.1.range.first))

theorem ranks_row_eq (row : Int) (shard : Shard Score × Option Range) :
    ranksRow liveRows search row shard =
      (Holds row shard && (liveRows.all (fun live => live row) && search.includes row)) := by
  unfold ranksRow Holds
  cases contained : shard.1.range.contains row with
  | false => rfl
  | true =>
    have narrowed := search_for_reader_includes search contained shard.2
    rw [Bool.true_and, Bool.true_and, Bool.and_left_comm, ← narrowed, shardSearch, Option.any_map]
    cases fullTextSearchForReader shard.1.range shard.2 search with
    | none => simp
    | some narrowed =>
      dsimp only [Option.any_some]
      rw [offset_range_includes _ contained, live_row_search_includes liveRows narrowed contained]

theorem shard_search_limit {shard : Shard Score × Option Range} {reached : FullTextSearch}
    (found : shardSearch liveRows search shard = some reached) : reached.limit = search.limit := by
  simp only [shardSearch, fullTextSearchForReader, liveRowSearch,
    FullTextSearch.offsetRange] at found
  grind

def eligibleRows (shard : Shard Score × Option Range) : Rows Score :=
  shard.1.hits.filter (fun hit => ranksRow liveRows search hit.1 shard)

theorem visit_shard_ranks (pos : 0 < search.limit) (shard : Shard Score × Option Range) :
    ∃ result, visitShard liveRows search shard = .ok (some result) ∧
      IsTopK Prod.snd search.limit.toNat (eligibleRows liveRows search shard) result := by
  have told : eligibleRows liveRows search shard = shard.1.hits.filter (fun hit =>
      (shardSearch liveRows search shard).any (fun reached =>
        reached.includes (hit.1 - shard.1.range.first))) := by
    apply filter_congr
    intro hit mem
    rw [ranksRow, shard.1.inside hit mem, Bool.true_and]
  rw [told, visitShard]
  cases found : shardSearch liveRows search shard with
  | none =>
    simp only [Option.any_none, filter_false]
    exact ⟨[], rfl, is_top_k_self .nil (Nat.zero_le _)⟩
  | some reached =>
    have same := shard_search_limit liveRows search found
    obtain ⟨result, answered, top⟩ := shard.1.ranks reached (same ▸ pos)
    simp only [answered, Option.any_some]
    exact ⟨_, rfl, same ▸ top⟩

theorem visit_shards_ranks (pos : 0 < search.limit) (shards : List (Shard Score × Option Range)) :
    ∃ parts : List (Rows Score × Rows Score), parts.map Prod.fst =
      shards.map (eligibleRows liveRows search) ∧
      shards.mapM (visitShard liveRows search) = .ok (parts.map (fun part => some part.2)) ∧
      ∀ part ∈ parts, IsTopK Prod.snd search.limit.toNat part.1 part.2 := by
  induction shards with
  | nil => exact ⟨[], rfl, rfl, nofun⟩
  | cons shard rest induction =>
    obtain ⟨result, answered, top⟩ := visit_shard_ranks liveRows search pos shard
    obtain ⟨parts, sources, visited, tops⟩ := induction
    refine ⟨(eligibleRows liveRows search shard, result) :: parts, ?_, ?_, ?_⟩
    · rw [map_cons, map_cons, sources]
    · rw [mapM_cons, answered, visited]
      rfl
    · exact forall_mem_cons.mpr ⟨top, tops⟩

theorem first_of_each_row_eq {Value : Type} {rows : Rows Value}
    (nodup : (rows.map Prod.fst).Nodup) :
    firstOfEachRow rows = rows := by
  induction rows with
  | nil => rfl
  | cons row rest induction =>
    obtain ⟨missing, nodup⟩ := nodup_cons.mp nodup
    rw [firstOfEachRow, induction nodup, filter_eq_self.mpr]
    intro next mem
    rw [decide_eq_true_eq]
    intro same
    exact missing (same ▸ mem_map_of_mem mem)

theorem merge_top_k_ranks {results : List (Rows Score)} {limit : Int} (pos : 0 < limit)
    (nodup : (results.flatten.map Prod.fst).Nodup) :
    ∃ result, mergeTopK results limit = .ok result ∧
      IsTopK Prod.snd limit.toNat results.flatten result := by
  let ranked : Int × Score → Int × Score → Prop := fun left right => ranksBefore right left = false
  have total : Std.Total ranked := ⟨by grind [ranksBefore]⟩
  have transitive : IsTrans (Int × Score) ranked := ⟨by grind [ranksBefore]⟩
  have perm := perm_insertionSort ranked results.flatten
  have sorted :
      (results.flatten.insertionSort ranked).Pairwise (fun left right => right.2 ≤ left.2) := by
    apply (pairwise_insertionSort ranked results.flatten).imp
    grind [ranksBefore]
  have top : IsTopK Prod.snd limit.toNat _ _ := is_top_k_take (perm.symm.nodup nodup.of_map) sorted
  rw [mergeTopK, if_neg (not_le.mpr pos), first_of_each_row_eq nodup]
  exact ⟨_, rfl, top.perm perm (perm_insertionSort _ _).symm⟩

section
variable (metas : RangeToMetas Score)

theorem held_by_first_shard (row : Int) : (metas.readers.filter (Holds row)).map Prod.fst =
    (metas.shards.find? (fun shard => shard.range.contains row)).toList := by
  by_cases uncovered : -9223372036854775808 < row
  · apply held_by_first _ uncovered
    apply metas.ordered.imp
    intro left right before
    omega
  · have none : metas.shards.find? (fun shard => shard.range.contains row) = none := by
      rw [find?_eq_none]
      intro shard _ contained
      have lower := (Range.mem_iff.mp contained).1
      have start := shard.nonnegative
      omega
    rw [RangeToMetas.readers, not_held (not_lt.mp uncovered), none]
    rfl

theorem eligible_rows_distinct :
    ((metas.readers.flatMap (eligibleRows liveRows search)).map Prod.fst).Nodup := by
  rw [map_flatMap, nodup_flatMap]
  constructor
  · intro shard _
    exact shard.1.distinct.sublist (filter_sublist.map Prod.fst)
  · apply held_apart.imp
    intro left right apart row inLeft inRight
    simp only [eligibleRows, ranks_row_eq, mem_map, mem_filter, Bool.and_eq_true] at inLeft inRight
    obtain ⟨hit, ⟨_, held, _⟩, rfl⟩ := inLeft
    obtain ⟨other, ⟨_, heldToo, _⟩, same⟩ := inRight
    rw [same, apart hit.1 held] at heldToo
    cases heldToo

theorem mem_eligible_rows (hit : Int × Score) :
    hit ∈ metas.readers.flatMap (eligibleRows liveRows search) ↔
      liveRows.all (fun live => live hit.1) = true ∧ search.includes hit.1 = true ∧
      ∃ shard ∈ metas.shards.find? (fun shard => shard.range.contains hit.1), hit ∈ shard.hits := by
  have first : ∀ shard, shard ∈ metas.shards.find? (fun shard => shard.range.contains hit.1) ↔
      ∃ ranked ∈ metas.readers, Holds hit.1 ranked = true ∧ ranked.1 = shard := by
    intro shard
    rw [Option.mem_def, ← Option.mem_toList, ← held_by_first_shard, mem_map]
    simp only [mem_filter, and_assoc]
  simp only [first, eligibleRows, ranks_row_eq, mem_flatMap, mem_filter, Bool.and_eq_true]
  grind

end

/-- A row that is live and included is ranked by the first shard that covers it, and the answer
holds the best of all these rows. -/
theorem sharded_search_top_k (metas : RangeToMetas Score) (liveRows : Option (Int → Bool))
    (search : FullTextSearch) :
    (∀ row, liveRows.all (fun live => live row) = true → search.includes row = true →
      (metas.readers.filter (ranksRow liveRows search row)).map Prod.fst =
        (metas.shards.find? (fun shard => shard.range.contains row)).toList) ∧
    (search.limit ≤ 0 → visitFullTextSearch metas liveRows search =
      .error "full-text search requires a positive limit") ∧
    (0 < search.limit → ∃ eligible result, visitFullTextSearch metas liveRows search =
      .ok (some result) ∧
      (eligible.map Prod.fst).Nodup ∧
      (∀ hit, hit ∈ eligible ↔
        liveRows.all (fun live => live hit.1) = true ∧ search.includes hit.1 = true ∧
        ∃ shard ∈ metas.shards.find? (fun shard => shard.range.contains hit.1), hit ∈ shard.hits) ∧
      IsTopK Prod.snd search.limit.toNat eligible result) := by
  refine ⟨?_, ?_, ?_⟩
  · intro row isLive included
    have same : (ranksRow liveRows search row : Shard Score × Option Range → Bool) = Holds row := by
      funext shard
      rw [ranks_row_eq, isLive, included, Bool.and_true, Bool.and_true]
    rw [same, held_by_first_shard]
  · intro none
    rw [visitFullTextSearch, if_pos none]
  · intro positive
    obtain ⟨parts, sources, visited, tops⟩ :=
      visit_shards_ranks liveRows search positive metas.readers
    have answered : (parts.map (fun part => some part.2)).filterMap id = parts.map Prod.snd := by
      rw [filterMap_map]
      exact congrFun filterMap_eq_map parts
    have some : (parts.map Prod.snd).isEmpty = false := by
      have shards := metas.nonempty
      rw [isEmpty_eq_false_iff]
      intro none
      rw [map_eq_nil_iff.mp none, RangeToMetas.readers] at sources
      cases isShards : metas.shards <;> simp [isShards, createReaders] at shards sources
    have eligible :
        parts.flatMap Prod.fst = metas.readers.flatMap (eligibleRows liveRows search) := by
      rw [flatMap_def, sources, flatMap_def]
    have rows := eligible_rows_distinct liveRows search metas
    rw [← eligible] at rows
    have distinct : ((parts.map Prod.snd).flatten.map Prod.fst).Nodup := by
      obtain ⟨kept, perm, sublist⟩ := subperm_parts tops
      exact (perm.map Prod.fst).nodup (rows.sublist (sublist.map Prod.fst))
    obtain ⟨result, merged, top⟩ := merge_top_k_ranks positive distinct
    refine ⟨parts.flatMap Prod.fst, result, ?_, rows, ?_, .of_parts tops top⟩
    · rw [visitFullTextSearch, if_neg (not_le.mpr positive), visited]
      dsimp only [Bind.bind, Except.bind]
      rw [answered, some, if_neg Bool.false_ne_true, merged]
      rfl
    · rw [eligible]
      exact mem_eligible_rows liveRows search metas

def readOne (range : Range) (score : Nat) : Reader Nat := fun search =>
  .ok (some ([(range.last - range.first, score)].filter (fun hit => search.includes hit.1)))

theorem read_one_ranks (range : Range) (score : Nat) :
    Ranks range [(range.last, score)] (readOne range score) := by
  intro search pos
  refine ⟨_, rfl, ?_⟩
  cases included : search.includes (range.last - range.first)
  · simpa [addOffset, included] using is_top_k_self .nil (Nat.zero_le _)
  · simpa [addOffset, included] using is_top_k_self (nodup_singleton _) (by simp; omega)

theorem last_inside (range : Range) (score : Nat) :
    ∀ hit ∈ [(range.last, score)], range.contains hit.1 = true := by
  simp [Range.contains, range.ordered]

def oneHit (range : Range) (nonnegative : 0 ≤ range.first) (score : Nat) : Shard Nat :=
  ⟨range, nonnegative, readOne range score, [(range.last, score)], List.nodup_singleton _,
    last_inside range score, read_one_ranks range score⟩

def sharedRow : RangeToMetas Nat where
  shards := [oneHit ⟨0, 4, by decide⟩ (by decide) 5, oneHit ⟨3, 4, by decide⟩ (by decide) 5]
  nonempty := List.cons_ne_nil _ _
  ordered := by simp [oneHit]

theorem shared_row_found : ∃ eligible result,
    visitFullTextSearch sharedRow (some (fun row => row ≠ 3)) ⟨1, none⟩ = .ok (some result) ∧
      (4, 5) ∈ eligible ∧ IsTopK Prod.snd 1 eligible result := by
  obtain ⟨eligible, result, visits, _, isEligible, top⟩ :=
    (sharded_search_top_k sharedRow (some (fun row => row ≠ 3)) ⟨1, none⟩).2.2 (by decide)
  refine ⟨eligible, result, visits, (isEligible _).mpr ?_, top⟩
  exact ⟨rfl, rfl, _, rfl, mem_singleton.mpr rfl⟩

end PaimonCore.FullText
