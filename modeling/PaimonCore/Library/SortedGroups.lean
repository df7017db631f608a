import Mathlib.Data.List.SplitBy
import PaimonCore.Library.Comparators

/-!
# Records in groups of one key

A reader that merges sorted inputs hands out its records group by group: the records
of the least key left, in the order of a second comparison. Whatever way it finds
them, the groups are the runs of equal keys of the sorted records.
-/

namespace PaimonCore.SortedGroups

open Std List

variable {Record : Type} (compareKey compareRank : Record → Record → Ordering)

/-- All records sorted by key and rank, cut where the key changes. -/
def groupsOf (records : List Record) : List (List Record) :=
  (records.insertionSort (fun left right =>
    compareLex compareKey compareRank left right ≠ .gt)).splitBy (fun left right =>
      compareKey left right == .eq)

/-- `records` are handed out as `groups`, always a whole key that is below all others. -/
inductive Drains : List Record → List (List Record) → Prop where
  | done : Drains [] []
  | group {records group rest : List Record} {groups : List (List Record)}
      (split : records.Perm (group ++ rest)) (nonempty : group ≠ [])
      (ordered : group.Pairwise (fun left right =>
        compareKey left right = .eq ∧ compareRank left right = .lt))
      (least : ∀ left ∈ group, ∀ right ∈ rest, compareKey left right = .lt)
      (later : Drains rest groups) : Drains records (group :: groups)

variable {compareKey compareRank} {records : List Record} {groups : List (List Record)}

theorem Drains.perm (drains : Drains compareKey compareRank records groups) :
    groups.flatten.Perm records := by
  induction drains with
  | done => exact Perm.refl _
  | group split _ _ _ _ ih =>
    exact ((Perm.refl _).append ih).trans split.symm

theorem Drains.ordered (drains : Drains compareKey compareRank records groups) :
    groups.flatten.Pairwise (fun left right =>
      compareLex compareKey compareRank left right = .lt) := by
  induction drains with
  | done => exact Pairwise.nil
  | group _ _ ordered least later ih =>
    apply pairwise_append.mpr
    refine ⟨ordered.imp ?_, ih, ?_⟩
    · intro left right both
      simp [compareLex, both.1, both.2]
    · intro left leftMember right rightMember
      simp [compareLex, least left leftMember right (later.perm.mem_iff.mp rightMember)]

structure AreGroups (compareKey compareRank : Record → Record → Ordering) (records : List Record)
    (groups : List (List Record)) : Prop where
  perm : groups.flatten.Perm records
  nonempty : [] ∉ groups
  ordered : ∀ group ∈ groups, group.Pairwise (fun left right =>
    compareKey left right = .eq ∧ compareRank left right = .lt)
  ascending : groups.Pairwise (fun lower upper =>
    ∀ left ∈ lower, ∀ right ∈ upper, compareKey left right = .lt)

section
variable (drains : Drains compareKey compareRank records groups)
include drains

theorem Drains.nonempty : [] ∉ groups := by
  induction drains with
  | done => exact not_mem_nil
  | group _ nonempty _ _ _ ih =>
    intro mem
    rcases mem_cons.mp mem with same | later
    · exact nonempty same.symm
    · exact ih later

theorem Drains.are_groups : AreGroups compareKey compareRank records groups where
  perm := drains.perm
  nonempty := drains.nonempty
  ordered := by
    induction drains with
    | done => simp
    | group _ _ ordered _ _ ih =>
      exact forall_mem_cons.mpr ⟨ordered, ih⟩
  ascending := by
    induction drains with
    | done => exact Pairwise.nil
    | group _ _ _ least later ih =>
      apply pairwise_cons.mpr
      refine ⟨?_, ih⟩
      intro upper isUpper left isLeft right isRight
      apply least left isLeft right
      exact later.perm.mem_iff.mp (mem_flatten.mpr ⟨upper, isUpper, isRight⟩)

theorem Drains.cuts :
    (∀ group ∈ groups, group.IsChain (fun left right => compareKey left right == .eq)) ∧
      groups.IsChain (fun before after => ∃ last first,
        (compareKey (before.getLast last) (after.head first) == .eq) = false) := by
  induction drains with
  | done => simp
  | @group _ group rest groups _ nonempty ordered least later ih =>
    constructor
    · refine forall_mem_cons.mpr ⟨Pairwise.isChain ?_, ih.1⟩
      apply ordered.imp
      intro left right both
      simp [both.1]
    · apply isChain_cons.mpr
      constructor
      · intro next isNext
        have inGroups : next ∈ groups := mem_of_mem_head? isNext
        have nextNonempty : next ≠ [] := by
          rintro rfl
          exact later.nonempty inGroups
        have inRest : next.head nextNonempty ∈ rest := by
          apply later.perm.mem_iff.mp
          exact mem_flatten.mpr ⟨next, inGroups, head_mem _⟩
        refine ⟨nonempty, nextNonempty, ?_⟩
        rw [least _ (getLast_mem nonempty) _ inRest]
        rfl
      · exact ih.2

end

variable [TransCmp compareKey] [TransCmp compareRank]

/-- Drained records are the sorted records: the order leaves no choice. -/
theorem Drains.eq_groups_of (drains : Drains compareKey compareRank records groups) :
    groups = groupsOf compareKey compareRank records := by
  have sorted : records.insertionSort (fun left right =>
      compareLex compareKey compareRank left right ≠ .gt) = groups.flatten :=
    Comparators.sort_eq_of_ascending drains.perm.symm drains.ordered
  unfold groupsOf
  rw [sorted]
  exact (splitBy_flatten drains.nonempty drains.cuts.1 drains.cuts.2).symm

/-! ## The groups of any records

Ties are possible here: records of one key and rank stay in the order of the sort.
-/

omit [TransCmp compareKey] [TransCmp compareRank] in
theorem groups_of_flatten (records : List Record) :
    (groupsOf compareKey compareRank records).flatten = records.insertionSort
      (fun left right => compareLex compareKey compareRank left right ≠ .gt) :=
  flatten_splitBy _ _

omit [TransCmp compareKey] [TransCmp compareRank] in
theorem groups_of_perm (records : List Record) :
    (groupsOf compareKey compareRank records).flatten.Perm records := by
  rw [groups_of_flatten]
  exact perm_insertionSort _ _

theorem groups_of_sorted (records : List Record) :
    (groupsOf compareKey compareRank records).flatten.Pairwise (fun left right =>
      compareLex compareKey compareRank left right ≠ .gt) := by
  rw [groups_of_flatten]
  exact pairwise_insertionSort _ _

theorem groups_of_member {records group : List Record}
    (mem : group ∈ groupsOf compareKey compareRank records) : group.Pairwise (fun left right =>
      compareKey left right = .eq ∧ compareRank left right ≠ .gt) := by
  have sorted := (pairwise_flatten.mp (groups_of_sorted records)).1 group mem
  have transitive : IsTrans Record (fun left right => (compareKey left right == .eq) = true) := by
    constructor
    intro first second third lower upper
    simp only [beq_iff_eq] at lower upper ⊢
    exact TransCmp.eq_trans lower upper
  have sameKey : group.Pairwise (fun left right => (compareKey left right == .eq) = true) :=
    isChain_iff_pairwise.mp (isChain_of_mem_splitBy mem)
  apply (sorted.and sameKey).imp
  intro left right both
  have same : compareKey left right = .eq := by simpa using both.2
  have rank := both.1
  unfold compareLex at rank
  rw [same] at rank
  exact ⟨same, rank⟩

end PaimonCore.SortedGroups
