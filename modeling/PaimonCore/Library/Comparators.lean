import Mathlib.Data.List.Pairwise
import Mathlib.Data.List.Sort

/-!
# Three-way comparators

A comparator answers with an `Ordering`, the sign of a C++ `int32_t` result. The laws come from
`Std.TransCmp`; here are the combinators of a row comparator: nulls first, a reversed direction,
and a list of comparators tried in turn.
-/

namespace PaimonCore.Comparators

open Std List

variable {Value Row : Type*}

/-- `null` precedes every value, whatever the direction of the values is. -/
def nullsFirst (compareValues : Value → Value → Ordering) : Option Value → Option Value → Ordering
  | none, none => .eq
  | none, some _ => .lt
  | some _, none => .gt
  | some left, some right => compareValues left right

instance (compareValues : Value → Value → Ordering) [OrientedCmp compareValues] :
    OrientedCmp (nullsFirst compareValues) where
  eq_swap {left right} := by
    cases left <;> cases right <;> simp only [nullsFirst, Ordering.swap]
    exact OrientedCmp.eq_swap

instance (compareValues : Value → Value → Ordering) [TransCmp compareValues] :
    TransCmp (nullsFirst compareValues) where
  isLE_trans {first second third} lower upper := by
    cases first <;> cases second <;> cases third <;>
      simp only [nullsFirst] at lower upper ⊢ <;> try contradiction
    all_goals first | rfl | exact TransCmp.isLE_trans lower upper

def directed (ascending : Bool) (compareValues : Value → Value → Ordering) (left right : Value) :
    Ordering :=
  if ascending then compareValues left right else (compareValues left right).swap

theorem directed_descending (compareValues : Value → Value → Ordering) [OrientedCmp compareValues] :
    directed false compareValues = fun left right => compareValues right left := by
  funext left right
  have swapped : compareValues right left = (compareValues left right).swap := OrientedCmp.eq_swap
  exact swapped.symm

instance (ascending : Bool) (compareValues : Value → Value → Ordering)
    [TransCmp compareValues] : TransCmp (directed ascending compareValues) := by
  cases ascending with
  | true => exact inferInstanceAs (TransCmp compareValues)
  | false =>
    rw [directed_descending]
    exact TransCmp.opposite

def along (project : Row → Value) (compareValues : Value → Value → Ordering) (left right : Row) :
    Ordering :=
  compareValues (project left) (project right)

instance (project : Row → Value) (compareValues : Value → Value → Ordering)
    [TransCmp compareValues] : TransCmp (along project compareValues) where
  eq_swap {left right} := by
    have swapped : compareValues (project left) (project right) =
        (compareValues (project right) (project left)).swap := OrientedCmp.eq_swap
    exact swapped
  isLE_trans {first second third} lower upper := by
    have chained : (compareValues (project first) (project third)).isLE = true :=
      TransCmp.isLE_trans lower upper
    exact chained

def firstDifference : List (Row → Row → Ordering) → Row → Row → Ordering
  | [], _, _ => .eq
  | compareHead :: rest, left, right =>
    (compareHead left right).then (firstDifference rest left right)

theorem first_difference_lawful (comparators : List (Row → Row → Ordering))
    (lawful : ∀ cmp ∈ comparators, TransCmp cmp) :
    TransCmp (firstDifference comparators) := by
  induction comparators with
  | nil => exact { eq_swap := rfl, isLE_trans := fun _ _ => rfl }
  | cons compareHead rest ih =>
    have headLawful : TransCmp compareHead := lawful compareHead (by simp)
    have restLawful := ih (by intro cmp mem; exact lawful cmp (by simp [mem]))
    exact inferInstanceAs (TransCmp (compareLex compareHead (firstDifference rest)))

section
variable {compareRows : Row → Row → Ordering} [TransCmp compareRows]

omit [TransCmp compareRows] in
theorem not_gt_iff_isLE (left right : Row) :
    compareRows left right ≠ .gt ↔ (compareRows left right).isLE = true := by
  cases compareRows left right <;> simp

theorem not_lt_iff_isLE (left right : Row) :
    compareRows left right ≠ .lt ↔ (compareRows right left).isLE = true := by
  rw [← OrientedCmp.isGE_iff_isLE]
  cases compareRows left right <;> simp

theorem isLE_total (left right : Row) :
    (compareRows left right).isLE = true ∨ (compareRows right left).isLE = true := by
  by_cases lower : compareRows left right = .gt
  · exact Or.inr (by rw [OrientedCmp.lt_of_gt lower]; rfl)
  · exact Or.inl ((not_gt_iff_isLE left right).mp lower)

instance total_of_comparator : Std.Total (fun left right => compareRows left right ≠ .gt) where
  total left right := by
    have either : (compareRows left right).isLE = true ∨ (compareRows right left).isLE = true :=
      isLE_total left right
    rcases either with lower | upper
    · exact Or.inl ((not_gt_iff_isLE left right).mpr lower)
    · exact Or.inr ((not_gt_iff_isLE right left).mpr upper)

instance trans_of_comparator : IsTrans Row (fun left right => compareRows left right ≠ .gt) where
  trans first second third lower upper := by
    have lowerLe := (not_gt_iff_isLE first second).mp lower
    have upperLe := (not_gt_iff_isLE second third).mp upper
    exact (not_gt_iff_isLE first third).mpr (TransCmp.isLE_trans lowerLe upperLe)

theorem eq_of_not_gt {left right : Row} (lower : compareRows left right ≠ .gt)
    (upper : compareRows right left ≠ .gt) : compareRows left right = .eq := by
  cases verdict : compareRows left right with
  | lt => exact absurd (OrientedCmp.gt_of_lt verdict) upper
  | eq => rfl
  | gt => exact absurd verdict lower

theorem tie_free {rows : List Row} (ascending : rows.Pairwise (compareRows · · = .lt))
    {left right : Row} (leftMember : left ∈ rows) (rightMember : right ∈ rows)
    (tie : compareRows left right = .eq) : left = right := by
  by_contra ne
  have apart : rows.Pairwise (compareRows · · ≠ .eq) := by
    apply ascending.imp
    intro first second lower
    rw [lower]
    decide
  have symmetric : Std.Symm (compareRows · · ≠ .eq) := by
    constructor
    intro first second differ same
    exact differ (OrientedCmp.eq_symm same)
  exact apart.forall leftMember rightMember ne tie

/-- Rows without ties have one order, whatever sorts them. -/
theorem eq_of_ascending {rows sorted : List Row} (perm : rows.Perm sorted)
    (weakly : rows.Pairwise (compareRows · · ≠ .gt))
    (ascending : sorted.Pairwise (compareRows · · = .lt)) : rows = sorted := by
  have sortedWeakly : sorted.Pairwise (compareRows · · ≠ .gt) := by
    apply ascending.imp
    intro left right lower
    rw [lower]
    decide
  apply Perm.eq_of_pairwise _ weakly sortedWeakly perm
  intro left right leftMember rightMember lower upper
  exact tie_free ascending (perm.mem_iff.mp leftMember) rightMember (eq_of_not_gt lower upper)

theorem sort_eq_of_ascending {rows sorted : List Row} (perm : rows.Perm sorted)
    (ascending : sorted.Pairwise (compareRows · · = .lt)) :
    rows.insertionSort (compareRows · · ≠ .gt) = sorted :=
  eq_of_ascending ((perm_insertionSort _ _).trans perm) (pairwise_insertionSort _ _) ascending

theorem ascending_of_distinct {rows : List Row} (nodup : rows.Pairwise (compareRows · · ≠ .eq)) :
    (rows.insertionSort (compareRows · · ≠ .gt)).Pairwise (compareRows · · = .lt) := by
  have symmetric : ∀ {left right : Row}, compareRows left right ≠ .eq →
      compareRows right left ≠ .eq := by
    intro left right differ same
    exact differ (OrientedCmp.eq_symm same)
  have stillDistinct :
      (rows.insertionSort (compareRows · · ≠ .gt)).Pairwise (compareRows · · ≠ .eq) :=
    ((perm_insertionSort _ _).pairwise_iff symmetric).mpr nodup
  have weakly := pairwise_insertionSort (compareRows · · ≠ .gt) rows
  apply (weakly.and stillDistinct).imp
  intro left right both
  cases verdict : compareRows left right with
  | lt => rfl
  | eq => exact absurd verdict both.2
  | gt => exact absurd verdict both.1

end

end PaimonCore.Comparators
