import PaimonCore.Common.Range

/-!
# `RowRangeIndex`

Sorted disjoint ranges that are searched by their ends. A query finds the ranges that meet it,
the first and the last of them clipped.
-/

namespace PaimonCore.Ranges

open List

structure RowRangeIndex where
  ranges : List Range
  ascending : Ascending ranges

namespace RowRangeIndex

def create (ranges : List Range) (mergeAdjacent : Bool) : RowRangeIndex :=
  ⟨sortAndMergeOverlap ranges mergeAdjacent, sort_and_merge_ascending ranges mergeAdjacent⟩

/-- The loop of `LowerBound`. -/
def lowerBoundLoop (ranges : List Range) (target : Int) : Nat → Nat → Nat → Nat
  | 0, left, _ => left
  | fuel + 1, left, right =>
    if left < right then
      let mid := left + (right - left) / 2
      match ranges[mid]? with
      | none => left
      | some range =>
        if range.last < target then lowerBoundLoop ranges target fuel (mid + 1) right
        else lowerBoundLoop ranges target fuel left mid
    else left

def lowerBound (index : RowRangeIndex) (target : Int) : Nat :=
  lowerBoundLoop index.ranges target index.ranges.length 0 index.ranges.length

def intersects (index : RowRangeIndex) (query : Range) : Bool :=
  match index.ranges[index.lowerBound query.first]? with
  | none => false
  | some candidate => candidate.first ≤ query.last

def contains (index : RowRangeIndex) (range : Range) : Bool :=
  match index.ranges[index.lowerBound range.first]? with
  | none => false
  | some candidate => candidate.first ≤ range.first ∧ range.last ≤ candidate.last

def clippedLast (index : RowRangeIndex) (query : Range) (left right : Nat) : List Range :=
  if right = left then []
  else
    match index.ranges[right]? with
    | none => []
    | some lastRange =>
      if lastRange.first ≤ query.last then (query.intersection lastRange).toList else []

def intersectedRanges (index : RowRangeIndex) (query : Range) : List Range :=
  let left := index.lowerBound query.first
  let right := min (index.lowerBound query.last) (index.ranges.length - 1)
  match index.ranges[left]? with
  | none => []
  | some firstRange =>
    if query.last < firstRange.first then []
    else
      (query.intersection firstRange).toList ++
        (index.ranges.drop (left + 1)).take (right - (left + 1)) ++
          index.clippedLast query left right

variable {ranges : List Range}

theorem ascending_at (ascending : Ascending ranges) {i j : Nat} {first second : Range}
    (atFirst : ranges[i]? = some first) (atSecond : ranges[j]? = some second) (before : i < j) :
    first.last < second.first := by
  obtain ⟨firstInside, rfl⟩ := List.getElem?_eq_some_iff.mp atFirst
  obtain ⟨secondInside, rfl⟩ := List.getElem?_eq_some_iff.mp atSecond
  exact pairwise_iff_getElem.mp ascending i j firstInside secondInside before

def Splits (ranges : List Range) (target : Int) (left right : Nat) : Prop :=
  ∀ (i : Nat) (range : Range), ranges[i]? = some range →
    (i < left → range.last < target) ∧ (right ≤ i → target ≤ range.last)

theorem lower_bound_loop_splits (ascending : Ascending ranges) (target : Int)
    {fuel left right : Nat} (splits : Splits ranges target left right) (ordered : left ≤ right)
    (inside : right ≤ ranges.length) (enough : right - left ≤ fuel) :
    Splits ranges target (lowerBoundLoop ranges target fuel left right)
      (lowerBoundLoop ranges target fuel left right) := by
  induction fuel generalizing left right with
  | zero =>
    have same : right = left := by omega
    rwa [same] at splits
  | succ fuel ih =>
    rw [lowerBoundLoop]
    split
    · next open_ =>
        dsimp only
        split
        · next missing =>
            rw [getElem?_eq_none_iff] at missing
            omega
        · next middle atMiddle =>
            split
            · next below =>
                apply ih _ (by omega) inside (by omega)
                intro i range atRange
                refine ⟨?_, (splits i range atRange).2⟩
                intro before
                rcases Nat.lt_or_ge i (left + (right - left) / 2) with earlier | later
                · have follows := ascending_at ascending atRange atMiddle earlier
                  have ordered := middle.ordered
                  omega
                · have same : i = left + (right - left) / 2 := by omega
                  rw [same, atMiddle, Option.some.injEq] at atRange
                  subst atRange
                  omega
            · next notBelow =>
                apply ih _ (by omega) (by omega) (by omega)
                intro i range atRange
                refine ⟨(splits i range atRange).1, ?_⟩
                intro after
                rcases Nat.lt_or_ge (left + (right - left) / 2) i with later | earlier
                · have follows := ascending_at ascending atMiddle atRange later
                  have ordered := range.ordered
                  omega
                · have same : i = left + (right - left) / 2 := by omega
                  rw [same, atMiddle, Option.some.injEq] at atRange
                  subst atRange
                  omega
    · have same : right = left := by omega
      rwa [same] at splits

theorem lower_bound_splits (index : RowRangeIndex) (target : Int) :
    Splits index.ranges target (index.lowerBound target) (index.lowerBound target) := by
  apply lower_bound_loop_splits index.ascending target _ (Nat.zero_le _) le_rfl (by omega)
  intro i range atRange
  refine ⟨by omega, ?_⟩
  intro after
  have inside := (List.getElem?_eq_some_iff.mp atRange).1
  omega

theorem covers_iff_at {id : Int} :
    Covers ranges id ↔ ∃ (i : Nat) (range : Range), ranges[i]? = some range ∧ id ∈ range := by
  constructor
  · rintro ⟨range, mem, inside⟩
    obtain ⟨i, atRange⟩ := mem_iff_getElem?.mp mem
    exact ⟨i, range, atRange, inside⟩
  · rintro ⟨i, range, atRange, inside⟩
    exact ⟨range, mem_of_getElem? atRange, inside⟩

section
variable {index : RowRangeIndex} {target id : Int}

theorem reaches_target {candidate : Range}
    (atCandidate : index.ranges[index.lowerBound target]? = some candidate) :
    target ≤ candidate.last :=
  (index.lower_bound_splits target _ candidate atCandidate).2 le_rfl

theorem covers_from (covered : Covers index.ranges id) (reached : target ≤ id) :
    ∃ candidate, index.ranges[index.lowerBound target]? = some candidate ∧ candidate.first ≤ id ∧
      (id ∈ candidate ∨
        ∃ i range, index.lowerBound target < i ∧ index.ranges[i]? = some range ∧ id ∈ range) := by
  obtain ⟨i, range, atRange, inside⟩ := covers_iff_at.mp covered
  have notBefore : index.lowerBound target ≤ i := by
    by_contra before
    have ends := (index.lower_bound_splits target i range atRange).1 (by omega)
    rw [Range.mem_iff] at inside
    omega
  rcases Nat.lt_or_eq_of_le notBefore with behind | same
  · have bound := (List.getElem?_eq_some_iff.mp atRange).1
    have atCandidate := getElem?_eq_getElem (behind.trans bound)
    have follows := ascending_at index.ascending atCandidate atRange behind
    have ordered := (index.ranges[index.lowerBound target]).ordered
    refine ⟨_, atCandidate, ?_, .inr ⟨i, range, behind, atRange, inside⟩⟩
    rw [Range.mem_iff] at inside
    omega
  · rw [← same] at atRange
    exact ⟨range, atRange, (Range.mem_iff.mp inside).1, .inl inside⟩

end

variable {index : RowRangeIndex}

theorem intersects_iff {query : Range} :
    index.intersects query = true ↔ ∃ id ∈ query, Covers index.ranges id := by
  rw [intersects]
  constructor
  · intro meets
    split at meets
    · cases meets
    · next candidate atCandidate =>
        have starts := of_decide_eq_true meets
        have reaches := reaches_target atCandidate
        have candidateOrdered := candidate.ordered
        have queryOrdered := query.ordered
        exact ⟨max query.first candidate.first, Range.mem_iff.mpr (by omega),
          covers_iff_at.mpr ⟨_, candidate, atCandidate, Range.mem_iff.mpr (by omega)⟩⟩
  · rintro ⟨id, inQuery, covered⟩
    rw [Range.mem_iff] at inQuery
    obtain ⟨candidate, atCandidate, starts, _⟩ := covers_from covered inQuery.1
    rw [atCandidate]
    exact decide_eq_true (starts.trans inQuery.2)

/-- A range is found iff all its ids are covered, where no two ranges touch. -/
theorem contains_iff {range : Range} (apart : Separated 1 index.ranges) :
    index.contains range = true ↔ ∀ id ∈ range, Covers index.ranges id := by
  have ordered := range.ordered
  rw [contains]
  constructor
  · intro found id inside
    split at found
    · cases found
    · next candidate atCandidate =>
        obtain ⟨starts, ends⟩ := of_decide_eq_true found
        rw [Range.mem_iff] at inside
        exact covers_iff_at.mpr ⟨_, candidate, atCandidate, Range.mem_iff.mpr (by omega)⟩
  · intro covered
    obtain ⟨candidate, atCandidate, starts, _⟩ :=
      covers_from (covered range.first (Range.mem_iff.mpr (by omega))) le_rfl
    have reaches := reaches_target atCandidate
    rw [atCandidate]
    apply decide_eq_true
    refine ⟨starts, ?_⟩
    by_contra short
    -- The id just behind the candidate would have to be covered as well.
    obtain ⟨other, atOther, _, inOther | ⟨i, next, behind, atNext, inNext⟩⟩ :=
      covers_from (covered (candidate.last + 1) (Range.mem_iff.mpr (by omega)))
        (by omega : range.first ≤ candidate.last + 1)
    · rw [atCandidate, Option.some.injEq] at atOther
      rw [← atOther, Range.mem_iff] at inOther
      omega
    · obtain ⟨candidateInside, rfl⟩ := List.getElem?_eq_some_iff.mp atCandidate
      obtain ⟨nextInside, rfl⟩ := List.getElem?_eq_some_iff.mp atNext
      have follows := pairwise_iff_getElem.mp apart _ _ candidateInside nextInside behind
      rw [Range.mem_iff] at inNext
      omega

theorem covers_clip {left right : Range} {id : Int} :
    Covers (left.intersection right).toList id ↔ id ∈ left ∧ id ∈ right := by
  rw [← Range.mem_intersection]
  simp [Covers]

theorem mem_middle {left right : Nat} {range : Range} :
    range ∈ (ranges.drop (left + 1)).take (right - (left + 1)) ↔
      ∃ i : Nat, left < i ∧ i < right ∧ ranges[i]? = some range := by
  rw [mem_iff_getElem?]
  constructor
  · rintro ⟨k, atRange⟩
    rw [getElem?_take] at atRange
    split at atRange
    · next inside =>
        rw [getElem?_drop] at atRange
        exact ⟨left + 1 + k, by omega, by omega, atRange⟩
    · cases atRange
  · rintro ⟨i, after, before, atRange⟩
    refine ⟨i - (left + 1), ?_⟩
    rw [getElem?_take, if_pos (by omega), getElem?_drop,
      show left + 1 + (i - (left + 1)) = i by omega]
    exact atRange

theorem clipped_last_covers {query : Range} {left right : Nat} {id : Int} :
    Covers (index.clippedLast query left right) id ↔
      right ≠ left ∧ id ∈ query ∧ ∃ range, index.ranges[right]? = some range ∧ id ∈ range := by
  rw [clippedLast]
  split
  · next same => simp [same, covers_nil]
  · next differs =>
      split
      · next missing => simp [missing, covers_nil]
      · next lastRange atLast =>
          rw [atLast]
          simp only [Option.some.injEq, exists_eq_left']
          split
          · simp [covers_clip, differs]
          · next outside =>
              simp only [covers_nil, false_iff, not_and]
              intro _ inQuery inside
              rw [Range.mem_iff] at inQuery inside
              omega

theorem intersected_covers (index : RowRangeIndex) (query : Range) (id : Int) :
    Covers (index.intersectedRanges query) id ↔ id ∈ query ∧ Covers index.ranges id := by
  have rightSplits := index.lower_bound_splits query.last
  rw [intersectedRanges]
  constructor
  · intro found
    split at found
    · exact absurd found (covers_nil id)
    · next firstRange atFirst =>
        have reaches := reaches_target atFirst
        split at found
        · exact absurd found (covers_nil id)
        · rw [covers_append, covers_append, covers_clip, clipped_last_covers] at found
          rcases found with (⟨inQuery, inFirst⟩ | ⟨range, middle, inside⟩) |
            ⟨_, inQuery, range, atLast, inside⟩
          · exact ⟨inQuery, covers_iff_at.mpr ⟨_, firstRange, atFirst, inFirst⟩⟩
          · obtain ⟨i, after, before, atRange⟩ := mem_middle.mp middle
            have follows := ascending_at index.ascending atFirst atRange after
            have ends := (rightSplits i range atRange).1 (by omega)
            refine ⟨?_, covers_iff_at.mpr ⟨i, range, atRange, inside⟩⟩
            rw [Range.mem_iff] at inside ⊢
            omega
          · exact ⟨inQuery, covers_iff_at.mpr ⟨_, range, atLast, inside⟩⟩
  · rintro ⟨inQuery, covered⟩
    have bounds := Range.mem_iff.mp inQuery
    obtain ⟨firstRange, atFirst, starts, place⟩ := covers_from covered bounds.1
    simp only [atFirst]
    rw [if_neg (by omega), covers_append, covers_append, covers_clip, clipped_last_covers]
    rcases place with inFirst | ⟨i, range, later, atRange, inside⟩
    · exact .inl (.inl ⟨inQuery, inFirst⟩)
    · have bounded := (List.getElem?_eq_some_iff.mp atRange).1
      -- A range behind the last one starts after the query.
      have notBehind : i ≤ min (index.lowerBound query.last) (index.ranges.length - 1) := by
        by_contra behind
        have boundInside : index.lowerBound query.last < index.ranges.length := by omega
        have atBound := getElem?_eq_getElem boundInside
        have lastReaches := reaches_target atBound
        have follows := ascending_at index.ascending atBound atRange (by omega)
        rw [Range.mem_iff] at inside
        omega
      rcases Nat.lt_or_eq_of_le notBehind with before | same
      · exact .inl (.inr ⟨range, mem_middle.mpr ⟨i, later, before, atRange⟩, inside⟩)
      · rw [same] at atRange later
        exact .inr ⟨by omega, inQuery, range, atRange, inside⟩

/-- The operations compute with sets of ids: an index has the ids of the ranges it is made of,
its queries see these ids, and the lists of ranges have differences and intersections. -/
theorem interval_set_algebra (ranges : List Range) (mergeAdjacent : Bool) (query : Range) :
    (∀ id, Covers (create ranges mergeAdjacent).ranges id ↔ Covers ranges id) ∧
      Ascending (create ranges mergeAdjacent).ranges ∧
      (mergeAdjacent = true → Separated 1 (create ranges mergeAdjacent).ranges) ∧
      ((create ranges mergeAdjacent).intersects query = true ↔ ∃ id ∈ query, Covers ranges id) ∧
      (mergeAdjacent = true →
        ((create ranges mergeAdjacent).contains query = true ↔ ∀ id ∈ query, Covers ranges id)) ∧
      (∀ id, Covers ((create ranges mergeAdjacent).intersectedRanges query) id ↔
        id ∈ query ∧ Covers ranges id) ∧
      (∀ id, Covers (query.exclude ranges) id ↔ id ∈ query ∧ ¬Covers ranges id) ∧
      ∀ left right, Ascending left → Ascending right →
        ∀ id, Covers (and left right) id ↔ Covers left id ∧ Covers right id := by
  have covers := sort_and_merge_covers ranges mergeAdjacent
  have apart : mergeAdjacent = true → Separated 1 (create ranges mergeAdjacent).ranges := by
    rintro rfl
    exact sort_and_merge_separated ranges true
  refine ⟨covers, sort_and_merge_ascending ranges mergeAdjacent, apart, ?_, ?_, ?_,
    exclude_covers query ranges, fun left right => and_covers⟩
  · rw [intersects_iff]
    simp only [create, covers]
  · intro merges
    rw [contains_iff (apart merges)]
    simp only [create, covers]
  · intro id
    rw [intersected_covers]
    simp only [create, covers]

/-- Ranges that touch hold a query across both of them, whatever order they were given in. -/
theorem touching_ranges_algebra :
    (create [⟨3, 5, by decide⟩, ⟨0, 2, by decide⟩] true).contains ⟨1, 4, by decide⟩ = true ∧
      ∀ id, Covers (and [⟨0, 3, by decide⟩] [⟨2, 6, by decide⟩]) id ↔
        Covers [⟨0, 3, by decide⟩] id ∧ Covers [⟨2, 6, by decide⟩] id := by
  obtain ⟨_, _, _, _, contains, _, _, meets⟩ :=
    interval_set_algebra [⟨3, 5, by decide⟩, ⟨0, 2, by decide⟩] true ⟨1, 4, by decide⟩
  refine ⟨(contains rfl).mpr ?_, meets _ _ (pairwise_singleton _ _) (pairwise_singleton _ _)⟩
  intro id inside
  simp only [covers_cons, Range.mem_iff] at inside ⊢
  omega

end RowRangeIndex

end PaimonCore.Ranges
