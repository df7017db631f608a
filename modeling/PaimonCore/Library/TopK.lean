import Mathlib.Data.List.Perm.Subperm
import Mathlib.Order.Lattice

/-!
# The best rows of a list

Rows of equal score may be exchanged, so there are several choices of the best `limit` rows.
Choosing from the parts of a list, and then from what the parts gave, is one of them.
-/

namespace PaimonCore.TopK

open List

variable {Row Score : Type} [LinearOrder Score] {score : Row → Score} {limit : Nat}
  {rows chosen : List Row}

/-- A row is only left out if `limit` rows are chosen, none of a lower score. -/
structure IsTopK (score : Row → Score) (limit : Nat) (rows chosen : List Row) : Prop where
  distinct : chosen.Nodup
  subset : chosen ⊆ rows
  within : chosen.length ≤ limit
  best : ∀ row ∈ rows, row ∉ chosen → chosen.length = limit ∧ ∀ kept ∈ chosen,
    score row ≤ score kept

theorem IsTopK.perm {others kept : List Row} (top : IsTopK score limit rows chosen)
    (sameRows : rows.Perm others) (sameChosen : chosen.Perm kept) :
    IsTopK score limit others kept := by
  constructor
  · exact sameChosen.nodup top.distinct
  · intro row mem
    exact sameRows.subset (top.subset (sameChosen.symm.subset mem))
  · exact sameChosen.length_eq ▸ top.within
  · intro row mem missing
    rw [← sameRows.mem_iff] at mem
    rw [← sameChosen.mem_iff] at missing
    simpa only [sameChosen.mem_iff, sameChosen.length_eq] using top.best row mem missing

theorem is_top_k_self (nodup : rows.Nodup) (within : rows.length ≤ limit) :
    IsTopK score limit rows rows :=
  ⟨nodup, fun _ mem => mem, within, fun _ mem missing => absurd mem missing⟩

theorem is_top_k_take (nodup : rows.Nodup)
    (sorted : rows.Pairwise (fun left right => score right ≤ score left)) :
    IsTopK score limit rows (rows.take limit) := by
  constructor
  · exact nodup.sublist (take_sublist limit rows)
  · exact (take_sublist limit rows).subset
  · exact length_take_le limit rows
  · intro row mem missing
    rw [← take_append_drop limit rows] at mem sorted
    have dropped := (mem_append.mp mem).resolve_left missing
    have remaining := length_pos_of_mem dropped
    rw [length_drop] at remaining
    refine ⟨length_take_of_le (by omega), ?_⟩
    intro kept isKept
    exact (pairwise_append.mp sorted).2.2 kept isKept row dropped

variable {parts : List (List Row × List Row)}

theorem subperm_parts (each : ∀ part ∈ parts, IsTopK score limit part.1 part.2) :
    (parts.flatMap Prod.snd).Subperm (parts.flatMap Prod.fst) := by
  induction parts with
  | nil => exact .refl []
  | cons part parts induction =>
    obtain ⟨head, tail⟩ := forall_mem_cons.mp each
    exact (subperm_of_subset head.distinct head.subset).append (induction tail)

theorem IsTopK.of_parts (each : ∀ part ∈ parts, IsTopK score limit part.1 part.2)
    (merged : IsTopK score limit (parts.flatMap Prod.snd) chosen) :
    IsTopK score limit (parts.flatMap Prod.fst) chosen := by
  refine ⟨merged.distinct, Subset.trans merged.subset (subperm_parts each).subset,
    merged.within, ?_⟩
  intro row mem missing
  obtain ⟨part, inParts, inside⟩ := mem_flatMap.mp mem
  have given : ∀ next ∈ part.2, next ∈ parts.flatMap Prod.snd := by
    intro next isNext
    exact mem_flatMap.mpr ⟨part, inParts, isNext⟩
  by_cases returned : row ∈ part.2
  · exact merged.best row (given row returned) missing
  · -- the part has `limit` rows that score no less: the merge keeps them, or others as good
    have top := each part inParts
    obtain ⟨full, above⟩ := top.best row inside returned
    have within := merged.within
    by_cases taken : part.2 ⊆ chosen
    · have fits := subperm_of_subset top.distinct taken
      have same := fits.perm_of_length_le (by omega)
      rw [← same.length_eq]
      refine ⟨full, ?_⟩
      intro kept isKept
      exact above kept (same.mem_iff.mpr isKept)
    · rw [subset_def, not_forall] at taken
      obtain ⟨next, dropped⟩ := taken
      rw [Classical.not_imp] at dropped
      obtain ⟨isFull, below⟩ := merged.best next (given next dropped.1) dropped.2
      refine ⟨isFull, ?_⟩
      intro kept isKept
      exact (above next dropped.1).trans (below kept isKept)

end PaimonCore.TopK
