import Mathlib.Data.List.Sort
import Mathlib.Tactic.Linarith

/-!
# `Range`

Closed ranges of row ids, and lists of them. Every operation on lists is described by the
ids its result contains; ascending lists of ranges hold each id once.
-/

namespace PaimonCore.Ranges

open List

/-- `from` and `to`, both inclusive. -/
structure Range where
  first : Int
  last : Int
  ordered : first ≤ last
  deriving DecidableEq, Repr

variable {id : Int}

namespace Range

def count (range : Range) : Nat := (range.last - range.first + 1).toNat

def contains (range : Range) (id : Int) : Bool := range.first ≤ id ∧ id ≤ range.last

instance membership : Membership Int Range := ⟨fun range id => range.contains id = true⟩

theorem mem_iff {range : Range} : id ∈ range ↔ range.first ≤ id ∧ id ≤ range.last := by
  change range.contains id = true ↔ _
  simp [contains]

def intersection (left right : Range) : Option Range :=
  if ordered : max left.first right.first ≤ min left.last right.last then
    some ⟨max left.first right.first, min left.last right.last, ordered⟩
  else none

def hasIntersection (left right : Range) : Bool :=
  max left.first right.first ≤ min left.last right.last

def ids (range : Range) : List Int := (List.range range.count).map (fun k : Nat => range.first + k)

theorem mem_ids {range : Range} : id ∈ range.ids ↔ id ∈ range := by
  rw [mem_iff, ids, mem_map]
  constructor
  · rintro ⟨k, inside, rfl⟩
    rw [mem_range, count] at inside
    omega
  · rintro ⟨lower, upper⟩
    refine ⟨(id - range.first).toNat, ?_, ?_⟩
    · rw [mem_range, count]
      omega
    · omega

theorem ids_ascending (range : Range) : range.ids.Pairwise (· < ·) := by
  rw [ids, pairwise_map]
  apply pairwise_lt_range.imp
  intro first second less
  omega

theorem mem_intersection {left right : Range} :
    (∃ range ∈ left.intersection right, id ∈ range) ↔ id ∈ left ∧ id ∈ right := by
  simp only [intersection, mem_iff]
  split_ifs with ordered
  · simp only [Option.mem_def, Option.some.injEq, exists_eq_left']
    omega
  · simp only [Option.mem_def, reduceCtorEq, false_and, exists_false, false_iff]
    omega

end Range

def Covers (ranges : List Range) (id : Int) : Prop := ∃ range ∈ ranges, id ∈ range

def Ascending (ranges : List Range) : Prop :=
  ranges.Pairwise (fun first second => first.last < second.first)

theorem covers_nil (id : Int) : ¬Covers [] id := by
  rintro ⟨range, no, _⟩
  cases no

variable {range : Range} {ranges : List Range}

theorem covers_cons : Covers (range :: ranges) id ↔ id ∈ range ∨ Covers ranges id := by
  simp [Covers]

variable {left right : List Range}

theorem covers_append : Covers (left ++ right) id ↔ Covers left id ∨ Covers right id := by
  simp only [Covers, mem_append, or_and_right, exists_or]

theorem not_covers_of_le {bound : Int} (above : ∀ next ∈ ranges, bound < next.first)
    (upper : id ≤ bound) : ¬Covers ranges id := by
  rintro ⟨next, mem, inNext⟩
  have after := above next mem
  rw [Range.mem_iff] at inNext
  omega

instance Covers.decidable (ranges : List Range) (id : Int) : Decidable (Covers ranges id) :=
  inferInstanceAs (Decidable (∃ range ∈ ranges, range.contains id = true))

def idsOf (ranges : List Range) : List Int := ranges.flatMap Range.ids

theorem mem_ids_of : id ∈ idsOf ranges ↔ Covers ranges id := by
  simp [idsOf, Covers, Range.mem_ids]

theorem ids_of_ascending (ascending : Ascending ranges) : (idsOf ranges).Pairwise (· < ·) := by
  rw [idsOf, pairwise_flatMap]
  refine ⟨fun range _ => range.ids_ascending, ?_⟩
  apply ascending.imp
  intro first second less id inFirst other inSecond
  rw [Range.mem_ids, Range.mem_iff] at inFirst inSecond
  omega

theorem ascending_ids_eq {left right : List Int} (leftAscending : left.Pairwise (· < ·))
    (rightAscending : right.Pairwise (· < ·)) (same : ∀ id, id ∈ left ↔ id ∈ right) :
    left = right := by
  have perm : left.Perm right :=
    (perm_ext_iff_of_nodup (leftAscending.imp ne_of_lt) (rightAscending.imp ne_of_lt)).mpr same
  exact perm.eq_of_pairwise (fun _ _ _ _ less greater => absurd (less.trans greater) (lt_irrefl _))
    leftAscending rightAscending

/-- The loop of `SortAndMergeOverlap`. -/
def mergeFrom (adjacent : Bool) (current : Range) : List Range → List Range
  | [] => [current]
  | next :: rest =>
    if next.first ≤ current.last + (if adjacent then 1 else 0) then
      mergeFrom adjacent ⟨current.first, max current.last next.last,
        le_max_of_le_left current.ordered⟩ rest
    else current :: mergeFrom adjacent next rest

def sortAndMergeOverlap (ranges : List Range) (adjacent : Bool) : List Range :=
  match ranges.insertionSort (fun left right => left.first ≤ right.first) with
  | [] => []
  | first :: rest => mergeFrom adjacent first rest

theorem merge_from_covers (adjacent : Bool) {current : Range} {rest : List Range} (id : Int)
    (sorted : ∀ next ∈ rest, current.first ≤ next.first)
    (restSorted : rest.Pairwise (fun left right => left.first ≤ right.first)) :
    Covers (mergeFrom adjacent current rest) id ↔ Covers (current :: rest) id := by
  induction rest generalizing current with
  | nil => rfl
  | cons next rest ih =>
    obtain ⟨nextFirst, laterSorted⟩ := pairwise_cons.mp restSorted
    have notBefore := sorted next mem_cons_self
    rw [mergeFrom]
    by_cases overlaps : next.first ≤ current.last + (if adjacent then 1 else 0)
    · have merged :=
        @ih ⟨current.first, max current.last next.last, le_max_of_le_left current.ordered⟩
        (forall_mem_cons.mp sorted).2 laterSorted
      rw [if_pos overlaps, merged, covers_cons, covers_cons, covers_cons, ← or_assoc]
      apply or_congr_left
      simp only [Range.mem_iff]
      cases adjacent <;> simp at overlaps <;> omega
    · rw [if_neg overlaps, covers_cons, ih nextFirst laterSorted, covers_cons,
        covers_cons, covers_cons]

def Separated (gap : Int) (ranges : List Range) : Prop :=
  ranges.Pairwise (fun first second => first.last + gap < second.first)

theorem merge_from_separated {current : Range} {rest : List Range}
    (sorted : ∀ next ∈ rest, current.first ≤ next.first)
    (restSorted : rest.Pairwise (fun left right => left.first ≤ right.first))
    (adjacent : Bool) :
    Separated (if adjacent then 1 else 0) (mergeFrom adjacent current rest) ∧
      ∀ range ∈ mergeFrom adjacent current rest, current.first ≤ range.first := by
  induction rest generalizing current with
  | nil =>
    refine ⟨pairwise_singleton _ _, ?_⟩
    intro range mem
    rw [mem_singleton.mp mem]
  | cons next rest ih =>
    obtain ⟨nextFirst, laterSorted⟩ := pairwise_cons.mp restSorted
    have notBefore := sorted next mem_cons_self
    rw [mergeFrom]
    by_cases overlaps : next.first ≤ current.last + (if adjacent then 1 else 0)
    · rw [if_pos overlaps]
      exact ih (forall_mem_cons.mp sorted).2 laterSorted
    · rw [if_neg overlaps]
      obtain ⟨separated, above⟩ := ih nextFirst laterSorted
      constructor
      · apply pairwise_cons.mpr
        refine ⟨?_, separated⟩
        intro range mem
        exact (not_le.mp overlaps).trans_le (above range mem)
      · exact forall_mem_cons.mpr ⟨le_refl _, fun range later =>
          notBefore.trans (above range later)⟩

theorem sorted_by_first (ranges : List Range) :
    (ranges.insertionSort (fun left right => left.first ≤ right.first)).Pairwise
      (fun left right => left.first ≤ right.first) := by
  exact pairwise_insertionSort _ ranges

theorem covers_perm (perm : left.Perm right) (id : Int) : Covers left id ↔ Covers right id := by
  simp only [Covers, perm.mem_iff]

theorem sort_and_merge_covers (ranges : List Range) (adjacent : Bool) (id : Int) :
    Covers (sortAndMergeOverlap ranges adjacent) id ↔ Covers ranges id := by
  have sorted := sorted_by_first ranges
  rw [← covers_perm (perm_insertionSort (fun left right => left.first ≤ right.first) ranges),
    sortAndMergeOverlap]
  cases isSorted : ranges.insertionSort (fun left right => left.first ≤ right.first) with
  | nil => rfl
  | cons first rest =>
    rw [isSorted, pairwise_cons] at sorted
    exact merge_from_covers adjacent id sorted.1 sorted.2

theorem sort_and_merge_separated (ranges : List Range) (adjacent : Bool) :
    Separated (if adjacent then 1 else 0) (sortAndMergeOverlap ranges adjacent) := by
  have sorted := sorted_by_first ranges
  rw [sortAndMergeOverlap]
  cases isSorted : ranges.insertionSort (fun left right => left.first ≤ right.first) with
  | nil => exact Pairwise.nil
  | cons first rest =>
    rw [isSorted, pairwise_cons] at sorted
    exact (merge_from_separated sorted.1 sorted.2 adjacent).1

theorem sort_and_merge_ascending (ranges : List Range) (adjacent : Bool) :
    Ascending (sortAndMergeOverlap ranges adjacent) := by
  apply (sort_and_merge_separated ranges adjacent).imp
  intro first second apart
  split_ifs at apart <;> omega

/-- The part of `And` in which one range of the left list meets those of the right one. -/
def andWith (range : Range) (later : List Range → List Range) : List Range → List Range
  | [] => []
  | other :: rest =>
    (range.intersection other).toList ++
      if range.last ≤ other.last then later (other :: rest) else andWith range later rest

def and : List Range → List Range → List Range
  | [], _ => []
  | range :: rest, right => andWith range (and rest) right

theorem and_with_covers {later : List Range → List Range}
    (rightAscending : Ascending right) (above : ∀ next ∈ left, range.last < next.first)
    (isLater : ∀ others, Ascending others →
      (Covers (later others) id ↔ Covers left id ∧ Covers others id)) :
    Covers (andWith range later right) id ↔ Covers (range :: left) id ∧ Covers right id := by
  induction right with
  | nil => simp [andWith, covers_nil]
  | cons other rest ih =>
    obtain ⟨otherFirst, restAscending⟩ := pairwise_cons.mp rightAscending
    have meets : Covers (range.intersection other).toList id ↔ id ∈ range ∧ id ∈ other := by
      rw [← Range.mem_intersection]
      simp [Covers]
    rw [andWith, covers_append]
    by_cases endsFirst : range.last ≤ other.last
    · -- The range cannot meet a later one.
      rw [if_pos endsFirst, isLater _ rightAscending, covers_cons, covers_cons]
      have notLater : id ∈ range → ¬Covers rest id := fun inRange =>
        not_covers_of_le otherFirst ((Range.mem_iff.mp inRange).2.trans endsFirst)
      grind
    · rw [if_neg endsFirst, ih restAscending, covers_cons, covers_cons]
      have notLater : id ∈ other → ¬Covers left id := fun inOther =>
        not_covers_of_le above ((Range.mem_iff.mp inOther).2.trans (not_le.mp endsFirst).le)
      grind

theorem and_covers (leftAscending : Ascending left) (rightAscending : Ascending right) (id : Int) :
    Covers (and left right) id ↔ Covers left id ∧ Covers right id := by
  induction left generalizing right with
  | nil => simp [and, covers_nil]
  | cons range rest ih =>
    obtain ⟨above, restAscending⟩ := pairwise_cons.mp leftAscending
    exact and_with_covers rightAscending above (fun others ascending => ih restAscending ascending)

def Within (lower : Int) (ranges : List Range) : Prop := ∀ range ∈ ranges, lower ≤ range.first

theorem intersection_bounds {left right : Range} (meets : range ∈ left.intersection right) :
    left.first ≤ range.first ∧ right.first ≤ range.first ∧ range.last ≤ left.last ∧
      range.last ≤ right.last := by
  simp only [Range.intersection] at meets
  split_ifs at meets with ordered
  · cases meets
    simp
  · cases meets

def StartsAfter (left right ranges : List Range) : Prop :=
  Ascending ranges ∧ ∀ lower, Within lower left ∨ Within lower right → Within lower ranges

theorem ascending_append {bound : Int} (leftAscending : Ascending left)
    (ends : ∀ one ∈ left, one.last ≤ bound) (rightAscending : Ascending right)
    (after : Within (bound + 1) right) : Ascending (left ++ right) := by
  refine pairwise_append.mpr ⟨leftAscending, rightAscending, ?_⟩
  intro one isOne next isNext
  have oneLast := ends one isOne
  have nextFirst := after next isNext
  omega

theorem StartsAfter.join {other : Range} {rest parts : List Range} {bound : Int}
    (ascending : Ascending parts) (after : Within (bound + 1) parts)
    (ends : range.last ≤ bound ∨ other.last ≤ bound)
    (within : ∀ lower, Within lower (range :: left) ∨ Within lower (other :: rest) →
      Within lower parts) :
    StartsAfter (range :: left) (other :: rest) ((range.intersection other).toList ++ parts) := by
  have bounds : ∀ meeting ∈ (range.intersection other).toList, range.first ≤ meeting.first ∧
      other.first ≤ meeting.first ∧ meeting.last ≤ range.last ∧ meeting.last ≤ other.last :=
    fun meeting mem => intersection_bounds (Option.mem_toList.mp mem)
  have single : Ascending (range.intersection other).toList := by
    cases range.intersection other with
    | none => exact Pairwise.nil
    | some meeting => exact pairwise_singleton _ _
  constructor
  · apply ascending_append single _ ascending after
    intro meeting mem
    have meetingLast := (bounds meeting mem).2.2
    omega
  · intro lower starts
    refine forall_mem_append.mpr ⟨?_, within lower starts⟩
    intro meeting mem
    rcases starts with starts | starts
    · exact (starts range mem_cons_self).trans (bounds meeting mem).1
    · exact (starts other mem_cons_self).trans (bounds meeting mem).2.1

theorem and_with_starts {later : List Range → List Range} (rightAscending : Ascending right)
    (above : ∀ next ∈ left, range.last < next.first)
    (isLater : ∀ others, Ascending others → StartsAfter left others (later others)) :
    StartsAfter (range :: left) right (andWith range later right) := by
  induction right with
  | nil => exact ⟨Pairwise.nil, fun _ _ _ no => by cases no⟩
  | cons other rest ih =>
    obtain ⟨otherFirst, restAscending⟩ := pairwise_cons.mp rightAscending
    rw [andWith]
    by_cases endsFirst : range.last ≤ other.last
    · rw [if_pos endsFirst]
      obtain ⟨laterAscending, laterWithin⟩ := isLater _ rightAscending
      apply StartsAfter.join laterAscending (laterWithin _ (.inl above)) (.inl le_rfl)
      intro lower starts
      exact laterWithin lower (starts.imp_left (fun within => (forall_mem_cons.mp within).2))
    · rw [if_neg endsFirst]
      obtain ⟨laterAscending, laterWithin⟩ := ih restAscending
      apply StartsAfter.join laterAscending (laterWithin _ (.inr otherFirst)) (.inr le_rfl)
      intro lower starts
      exact laterWithin lower (starts.imp_right (fun within => (forall_mem_cons.mp within).2))

theorem and_starts (leftAscending : Ascending left) (rightAscending : Ascending right) :
    StartsAfter left right (and left right) := by
  induction left generalizing right with
  | nil => exact ⟨Pairwise.nil, fun _ _ _ no => by cases no⟩
  | cons range rest ih =>
    obtain ⟨above, restAscending⟩ := pairwise_cons.mp leftAscending
    exact and_with_starts rightAscending above (fun others ascending => ih restAscending ascending)

def rangeBetween (first last : Int) : List Range :=
  if ordered : first ≤ last then [⟨first, last, ordered⟩] else []

theorem range_between_covers (first last id : Int) :
    Covers (rangeBetween first last) id ↔ first ≤ id ∧ id ≤ last := by
  rw [rangeBetween]
  split_ifs with ordered
  · simp [covers_cons, covers_nil, Range.mem_iff]
  · simp only [covers_nil, false_iff]
    omega

theorem range_between_ascending (first last : Int) : Ascending (rangeBetween first last) := by
  rw [rangeBetween]
  split_ifs
  · exact pairwise_singleton _ _
  · exact Pairwise.nil

theorem mem_range_between {first last : Int} (mem : range ∈ rangeBetween first last) :
    range.first = first ∧ range.last = last := by
  rw [rangeBetween] at mem
  split_ifs at mem
  · rw [mem_singleton.mp mem]
    exact ⟨rfl, rfl⟩
  · cases mem

/-- The loop of `Exclude`, which has come to the id `current`. -/
def excludeFrom (last current : Int) : List Range → List Range
  | [] => rangeBetween current last
  | excluded :: rest =>
    if max current excluded.first ≤ min last excluded.last then
      rangeBetween current (max current excluded.first - 1) ++
        excludeFrom last (min last excluded.last + 1) rest
    else excludeFrom last current rest

def Range.exclude (range : Range) (excluded : List Range) : List Range :=
  excludeFrom range.last range.first (excluded.insertionSort (fun left right =>
    left.first ≤ right.first))

theorem exclude_from_ascending {last current : Int} {excluded : List Range} :
    Ascending (excludeFrom last current excluded) ∧
      Within current (excludeFrom last current excluded) := by
  induction excluded generalizing current with
  | nil =>
    refine ⟨range_between_ascending _ _, ?_⟩
    intro range mem
    rw [(mem_range_between mem).1]
  | cons range rest ih =>
    rw [excludeFrom]
    split_ifs with meets
    · obtain ⟨ascending, within⟩ := @ih (min last range.last + 1)
      constructor
      · apply ascending_append (range_between_ascending _ _) _ ascending within
        intro one isOne
        rw [(mem_range_between isOne).2]
        omega
      · refine forall_mem_append.mpr ⟨fun one isOne => (mem_range_between isOne).1.ge, ?_⟩
        intro next isNext
        have nextFirst := within next isNext
        omega
    · exact ih

theorem exclude_from_covers {last current : Int} {excluded : List Range} (id : Int)
    (sorted : excluded.Pairwise (fun left right => left.first ≤ right.first)) :
    Covers (excludeFrom last current excluded) id ↔
      (current ≤ id ∧ id ≤ last) ∧ ¬Covers excluded id := by
  induction excluded generalizing current with
  | nil =>
    rw [excludeFrom, range_between_covers]
    simp [covers_nil]
  | cons range rest ih =>
    obtain ⟨firstLe, restSorted⟩ := pairwise_cons.mp sorted
    -- What comes later starts at or after this range, so it leaves the part before alone.
    have restAfter : Covers rest id → range.first ≤ id := by
      rintro ⟨next, mem, inNext⟩
      rw [Range.mem_iff] at inNext
      exact (firstLe next mem).trans inNext.1
    rw [excludeFrom, covers_cons, Range.mem_iff]
    split_ifs with meets
    · rw [covers_append, range_between_covers, ih restSorted]
      by_cases inRest : Covers rest id
      · have notBefore := restAfter inRest
        simp only [inRest, not_true_eq_false, and_false, or_false, or_true, iff_false]
        omega
      · simp only [inRest, not_false_eq_true, and_true, or_false]
        omega
    · rw [ih restSorted]
      by_cases inRest : Covers rest id
      · simp [inRest]
      · simp only [inRest, not_false_eq_true, and_true, or_false]
        omega

theorem exclude_ascending (range : Range) (excluded : List Range) :
    Ascending (range.exclude excluded) :=
  exclude_from_ascending.1

theorem exclude_covers (range : Range) (excluded : List Range) (id : Int) :
    Covers (range.exclude excluded) id ↔ id ∈ range ∧ ¬Covers excluded id := by
  rw [Range.exclude, exclude_from_covers id (sorted_by_first excluded), ← Range.mem_iff,
    covers_perm (perm_insertionSort (fun left right => left.first ≤ right.first) excluded)]

end PaimonCore.Ranges
