import Mathlib.Data.List.Pairwise
import PaimonCore.Common.Range

/-!
# Grouping by range

`RangeHelper::MergeOverlappingRanges` puts values whose ranges overlap, directly or through
others, into one group. `BinPacking::PackForOrdered` fills bins with groups in order.
-/

namespace PaimonCore.Ranges

open List

section
variable {Value : Type} (rangeOf : Value → Range)

/-- The order of `stable_sort`: by start, then by end. -/
def notAfter (left right : Value × Nat) : Prop :=
  (rangeOf left.1).first < (rangeOf right.1).first ∨
    ((rangeOf left.1).first = (rangeOf right.1).first ∧
      (rangeOf left.1).last ≤ (rangeOf right.1).last)

instance notAfterDecidable : DecidableRel (notAfter rangeOf) :=
  fun left right => inferInstanceAs (Decidable ((rangeOf left.1).first < (rangeOf right.1).first ∨
      ((rangeOf left.1).first = (rangeOf right.1).first ∧
        (rangeOf left.1).last ≤ (rangeOf right.1).last)))

instance notAfterTotal : Std.Total (notAfter rangeOf) :=
  ⟨fun left right => by
    unfold notAfter
    omega⟩

instance notAfterTrans : IsTrans (Value × Nat) (notAfter rangeOf) :=
  ⟨fun first second third before after => by
    unfold notAfter at *
    omega⟩

def groupFrom (group : List (Value × Nat)) (currentEnd : Int) :
    List (Value × Nat) → List (List (Value × Nat))
  | [] => [group]
  | current :: rest =>
    if (rangeOf current.1).first ≤ currentEnd then
      groupFrom (group ++ [current]) (max currentEnd (rangeOf current.1).last) rest
    else group :: groupFrom [current] (rangeOf current.1).last rest

def inputOrder (group : List (Value × Nat)) : List Value :=
  (group.insertionSort (fun left right => left.2 ≤ right.2)).map Prod.fst

def mergeOverlappingRanges (values : List Value) : List (List Value) :=
  match values.zipIdx.insertionSort (notAfter rangeOf) with
  | [] => []
  | first :: rest => (groupFrom rangeOf [first] (rangeOf first.1).last rest).map inputOrder

variable {rangeOf}

theorem group_from_flatten (group : List (Value × Nat)) (currentEnd : Int)
    (rest : List (Value × Nat)) :
    (groupFrom rangeOf group currentEnd rest).flatten = group ++ rest := by
  induction rest generalizing group currentEnd with
  | nil => simp [groupFrom]
  | cons current rest ih =>
    rw [groupFrom]
    split
    · rw [ih, append_assoc]
      rfl
    · rw [flatten_cons, ih]
      rfl

theorem group_from_nonempty {group : List (Value × Nat)} (nonempty : group ≠ []) (currentEnd : Int)
    (rest : List (Value × Nat)) : ∀ mem ∈ groupFrom rangeOf group currentEnd rest, mem ≠ [] := by
  induction rest generalizing group currentEnd with
  | nil =>
    intro mem isMember
    rw [groupFrom, mem_singleton] at isMember
    rwa [isMember]
  | cons current rest ih =>
    rw [groupFrom]
    split
    · exact ih (by simp) _
    · exact forall_mem_cons.mpr ⟨nonempty, ih (cons_ne_nil _ _) _⟩

def GroupBefore (rangeOf : Value → Range) (left right : List Value) : Prop :=
  ∀ first ∈ left, ∀ second ∈ right, (rangeOf first).last < (rangeOf second).first

theorem group_from_apart {group rest : List (Value × Nat)} {currentEnd : Int}
    (within : ∀ value ∈ group, (rangeOf value.1).last ≤ currentEnd)
    (sorted : rest.Pairwise (notAfter rangeOf)) : (groupFrom rangeOf group currentEnd rest).Pairwise
      (fun left right => ∀ first ∈ left, ∀ second ∈ right, (rangeOf first.1).last <
        (rangeOf second.1).first) := by
  induction rest generalizing group currentEnd with
  | nil => exact pairwise_singleton _ _
  | cons current rest ih =>
    obtain ⟨currentFirst, restSorted⟩ := pairwise_cons.mp sorted
    rw [groupFrom]
    split
    · apply ih _ restSorted
      rw [forall_mem_append, forall_mem_singleton]
      exact ⟨fun value isOld => (within value isOld).trans (le_max_left _ _), le_max_right _ _⟩
    · next behind =>
        refine pairwise_cons.mpr ⟨?_, ih (by simp) restSorted⟩
        intro later isLater first isFirst second isSecond
        have bound := within first isFirst
        have inRest : second ∈ [current] ++ rest := by
          rw [← @group_from_flatten Value rangeOf [current] (rangeOf current.1).last rest]
          exact mem_flatten.mpr ⟨later, isLater, isSecond⟩
        rcases mem_cons.mp inRest with rfl | inRest
        · omega
        · have order := currentFirst second inRest
          unfold notAfter at order
          omega

theorem input_order_perm (group : List (Value × Nat)) :
    (inputOrder group).Perm (group.map Prod.fst) :=
  (perm_insertionSort _ _).map _

theorem flatten_input_order (groups : List (List (Value × Nat))) :
    (groups.map inputOrder).flatten.Perm (groups.flatten.map Prod.fst) := by
  induction groups with
  | nil => exact .refl _
  | cons group rest ih =>
    rw [map_cons, flatten_cons, flatten_cons, map_append]
    exact (input_order_perm group).append ih

theorem merge_overlapping_perm (values : List Value) :
    (mergeOverlappingRanges rangeOf values).flatten.Perm values := by
  have sortedPerm := perm_insertionSort (notAfter rangeOf) values.zipIdx
  have valuesAgain : values.zipIdx.map Prod.fst = values := zipIdx_map_fst 0 values
  rw [mergeOverlappingRanges]
  split
  · next empty =>
      rw [empty] at sortedPerm
      have perm := sortedPerm.map Prod.fst
      rw [valuesAgain] at perm
      exact perm
  · next first rest isSorted =>
      rw [isSorted] at sortedPerm
      have perm := sortedPerm.map Prod.fst
      rw [valuesAgain] at perm
      refine (flatten_input_order _).trans ?_
      rw [group_from_flatten]
      exact perm

theorem merge_overlapping_nonempty (values : List Value) :
    ∀ group ∈ mergeOverlappingRanges rangeOf values, group ≠ [] := by
  rw [mergeOverlappingRanges]
  split
  · simp
  · intro group mem empty
    obtain ⟨indexed, isIndexed, rfl⟩ := mem_map.mp mem
    have nonempty := group_from_nonempty (cons_ne_nil _ _) _ _ indexed isIndexed
    have perm := input_order_perm indexed
    rw [empty] at perm
    exact nonempty (map_eq_nil_iff.mp perm.nil_eq.symm)

theorem merge_overlapping_apart (values : List Value) :
    (mergeOverlappingRanges rangeOf values).Pairwise (GroupBefore rangeOf) := by
  have sorted := pairwise_insertionSort (notAfter rangeOf) values.zipIdx
  rw [mergeOverlappingRanges]
  split
  · exact .nil
  · next first rest isSorted =>
      rw [isSorted] at sorted
      rw [pairwise_map]
      apply (group_from_apart (by simp) (pairwise_cons.mp sorted).2).imp
      intro left right before one isOne two isTwo
      obtain ⟨indexedOne, inLeft, rfl⟩ := mem_map.mp ((input_order_perm left).mem_iff.mp isOne)
      obtain ⟨indexedTwo, inRight, rfl⟩ := mem_map.mp ((input_order_perm right).mem_iff.mp isTwo)
      exact before _ inLeft _ inRight

theorem merge_overlapping_together {values : List Value} {left right : List Value}
    (isLeft : left ∈ mergeOverlappingRanges rangeOf values)
    (isRight : right ∈ mergeOverlappingRanges rangeOf values) {first second : Value} {id : Int}
    (inLeft : first ∈ left) (inRight : second ∈ right) (inFirst : id ∈ rangeOf first)
    (inSecond : id ∈ rangeOf second) : left = right := by
  by_contra differs
  have symmetric : Std.Symm (fun left right : List Value =>
      GroupBefore rangeOf left right ∨ GroupBefore rangeOf right left) :=
    ⟨fun _ _ => Or.symm⟩
  have apart : (mergeOverlappingRanges rangeOf values).Pairwise (fun left right : List Value =>
      GroupBefore rangeOf left right ∨ GroupBefore rangeOf right left) :=
    (merge_overlapping_apart values).imp Or.inl
  rw [Range.mem_iff] at inFirst inSecond
  rcases apart.forall isLeft isRight differs with before | before
  · have order := before first inLeft second inRight
    omega
  · have order := before second inRight first inLeft
    omega

end

section
variable {Item : Type} (weight : Item → Int) (targetWeight : Int)

def packFrom (binItems : List Item) (binWeight : Int) : List Item → List (List Item)
  | [] => if binItems.isEmpty then [] else [binItems]
  | item :: rest =>
    if targetWeight < binWeight + weight item ∧ !binItems.isEmpty then
      binItems :: packFrom [item] (weight item) rest
    else packFrom (binItems ++ [item]) (binWeight + weight item) rest

def packForOrdered (items : List Item) : List (List Item) :=
  packFrom weight targetWeight [] 0 items

theorem pack_from_flatten (binItems : List Item) (binWeight : Int) (items : List Item) :
    (packFrom weight targetWeight binItems binWeight items).flatten = binItems ++ items := by
  induction items generalizing binItems binWeight with
  | nil =>
    rw [packFrom]
    split
    · next empty => simp [isEmpty_iff.mp empty]
    · simp
  | cons item rest ih =>
    rw [packFrom]
    split
    · rw [flatten_cons, ih]
      rfl
    · rw [ih, append_assoc]
      rfl

theorem pack_flatten (items : List Item) :
    (packForOrdered weight targetWeight items).flatten = items :=
  pack_from_flatten weight targetWeight [] 0 items

theorem pack_from_nonempty (binItems : List Item) (binWeight : Int) (items : List Item) :
    ∀ bin ∈ packFrom weight targetWeight binItems binWeight items, bin ≠ [] := by
  induction items generalizing binItems binWeight with
  | nil =>
    rw [packFrom]
    split
    · simp
    · next filled =>
        intro bin mem
        rw [mem_singleton.mp mem]
        intro empty
        exact filled (by simp [empty])
  | cons item rest ih =>
    rw [packFrom]
    split
    · next full =>
        refine forall_mem_cons.mpr ⟨?_, ih _ _⟩
        intro empty
        simp [empty] at full
    · exact ih _ _

end

end PaimonCore.Ranges
