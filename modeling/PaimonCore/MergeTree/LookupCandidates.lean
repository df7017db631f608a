import PaimonCore.MergeTree.LookupChangelog

/-!
# The candidates of a lookup compaction

Records of one key without ties have one order. Of the candidates of a key, the merge
function gets those of level 0 and the one of the lowest level above, in that order.
-/

namespace PaimonCore.MergeTree

open Std PaimonCore.Fields List

namespace RecordOrder

variable (order : RecordOrder)

def inOrder (records : List KeyValue) : List KeyValue :=
  records.insertionSort (fun left right => order.compareSequence left right ≠ .gt)

def Ascending (records : List KeyValue) : Prop :=
  records.Pairwise (fun left right => order.compareSequence left right = .lt)

def Distinct (records : List KeyValue) : Prop :=
  records.Pairwise (fun left right => order.compareSequence left right ≠ .eq)

instance decidableAscending (records : List KeyValue) : Decidable (order.Ascending records) :=
  inferInstanceAs
    (Decidable (records.Pairwise (fun left right => order.compareSequence left right = .lt)))

instance decidableDistinct (records : List KeyValue) : Decidable (order.Distinct records) :=
  inferInstanceAs
    (Decidable (records.Pairwise (fun left right => order.compareSequence left right ≠ .eq)))

variable {order} {records others : List KeyValue}

theorem Ascending.nodup (ascending : order.Ascending records) : records.Nodup := by
  apply ascending.imp
  rintro left right lower rfl
  have equal : order.compareSequence left left = .eq := ReflCmp.compare_self
  rw [equal] at lower
  cases lower

theorem in_order_perm (records : List KeyValue) : (order.inOrder records).Perm records :=
  perm_insertionSort _ _

theorem in_order_ne_nil (nonempty : records ≠ []) : order.inOrder records ≠ [] := by
  intro empty
  have perm := @in_order_perm order records
  rw [empty] at perm
  exact nonempty perm.symm.eq_nil

theorem in_order_ascending (nodup : order.Distinct records) :
    order.Ascending (order.inOrder records) :=
  Comparators.ascending_of_distinct nodup

theorem in_order_eq (perm : records.Perm others) (ascending : order.Ascending others) :
    order.inOrder records = others :=
  Comparators.sort_eq_of_ascending perm ascending

/-- Records that lie before or after all of the others leave these together. -/
theorem in_order_around {early : KeyValue → Bool} (nodup : order.Distinct records)
    (othersDistinct : order.Distinct others) (nonempty : others ≠ [])
    (before : ∀ kv ∈ records, early kv = true → ∀ other ∈ others,
      order.compareSequence kv other = .lt)
    (after : ∀ kv ∈ records, early kv = false → ∀ other ∈ others,
      order.compareSequence other kv = .lt) :
    order.inOrder (records ++ others) = order.inOrder (records.filter early) ++
      order.inOrder others ++ order.inOrder (records.filter (!early ·)) := by
  have mem : ∀ {kept : List KeyValue} {kv}, kv ∈ order.inOrder kept → kv ∈ kept :=
    fun isIn => (in_order_perm _).mem_iff.mp isIn
  apply in_order_eq
  · have split := (filter_append_perm early records).symm.append_right others
    refine (split.trans ?_).trans
      (((in_order_perm _).append (in_order_perm _)).append (in_order_perm _)).symm
    rw [append_assoc, append_assoc]
    exact perm_append_comm.append_left _
  · obtain ⟨middle, isMiddle⟩ := exists_mem_of_ne_nil _ nonempty
    apply pairwise_append.mpr
    refine ⟨pairwise_append.mpr ⟨in_order_ascending (nodup.filter _),
      in_order_ascending othersDistinct, ?_⟩, in_order_ascending (nodup.filter _), ?_⟩
    · intro kv isEarly other isOther
      obtain ⟨isRecord, isEarly⟩ := mem_filter.mp (mem isEarly)
      exact before kv isRecord isEarly other (mem isOther)
    · intro first isFirst last isLast
      obtain ⟨lastRecord, isLate⟩ := mem_filter.mp (mem isLast)
      have late := after last lastRecord (by simpa using isLate)
      rcases mem_append.mp isFirst with isEarly | isOther
      · obtain ⟨isRecord, isEarly⟩ := mem_filter.mp (mem isEarly)
        exact TransCmp.lt_trans (before first isRecord isEarly middle isMiddle)
          (late middle isMiddle)
      · exact late first (mem isOther)

end RecordOrder

namespace LookupMergeFunction

/-- What `PickHighLevelIdx` has found when the loop ends. -/
structure Picked (index : Nat) (best : Option (Nat × KeyValue)) (candidates : List KeyValue)
    (pick : Nat × KeyValue) : Prop where
  source : best = some pick ∨ ∃ place, candidates[place]? = some pick.2 ∧ pick.1 = index + place ∧
    0 < pick.2.level
  belowBest : ∀ earlier ∈ best, pick.2.level ≤ earlier.2.level
  lowest : ∀ kv ∈ candidates, 0 < kv.level → pick.2.level ≤ kv.level

theorem Picked.skip {index : Nat} {best : Option (Nat × KeyValue)} {kv : KeyValue}
    {rest : List KeyValue} {pick : Nat × KeyValue} (picked : Picked (index + 1) best rest pick)
    (notBelow : 0 < kv.level → pick.2.level ≤ kv.level) : Picked index best (kv :: rest) pick := by
  constructor
  · rcases picked.source with same | ⟨place, isPlace, isIndex, pos⟩
    · exact .inl same
    · exact .inr ⟨place + 1, isPlace, by omega, pos⟩
  · exact picked.belowBest
  · exact forall_mem_cons.mpr ⟨notBelow, picked.lowest⟩

theorem Picked.improve {index : Nat} {best : Option (Nat × KeyValue)} {kv : KeyValue}
    {rest : List KeyValue} {pick : Nat × KeyValue}
    (picked : Picked (index + 1) (some (index, kv)) rest pick) (positive : 0 < kv.level)
    (improves : ∀ earlier ∈ best, kv.level < earlier.2.level) :
    Picked index best (kv :: rest) pick := by
  have belowHead := picked.belowBest (index, kv) rfl
  have skipped := picked.skip (fun _ => belowHead)
  constructor
  · rcases skipped.source with same | inCandidates
    · cases same
      exact .inr ⟨0, rfl, rfl, positive⟩
    · exact .inr inCandidates
  · exact fun earlier isBest => belowHead.trans (improves earlier isBest).le
  · exact skipped.lowest

theorem pick_from_spec (index : Nat) (best : Option (Nat × KeyValue)) (candidates : List KeyValue) :
    match pickHighLevelFrom index best candidates with
    | none => best = none ∧ ∀ kv ∈ candidates, kv.level ≤ 0
    | some pick => Picked index best candidates pick := by
  induction candidates generalizing index best with
  | nil =>
    rw [pickHighLevelFrom]
    cases best with
    | none => simp
    | some pick =>
      constructor
      · exact .inl rfl
      · rintro earlier ⟨⟩
        exact le_rfl
      · intro kv no
        cases no
  | cons kv rest ih =>
    rw [pickHighLevelFrom]
    by_cases low : kv.level ≤ 0
    · rw [if_pos low]
      have later := ih (index + 1) best
      cases found : pickHighLevelFrom (index + 1) best rest with
      | none =>
        simp only [found] at later ⊢
        refine ⟨later.1, ?_⟩
        exact forall_mem_cons.mpr ⟨low, later.2⟩
      | some pick =>
        simp only [found] at later ⊢
        exact later.skip (by omega)
    · rw [if_neg low]
      by_cases improves : best.all (fun pick => kv.level < pick.2.level) = true
      · rw [if_pos improves]
        have later := ih (index + 1) (some (index, kv))
        cases found : pickHighLevelFrom (index + 1) (some (index, kv)) rest with
        | none =>
          simp only [found] at later
          cases later.1
        | some pick =>
          simp only [found] at later ⊢
          refine later.improve (Int.not_le.mp low) ?_
          intro earlier isBest
          rw [isBest] at improves
          simpa using improves
      · rw [if_neg improves]
        have later := ih (index + 1) best
        cases best with
        | none => exact absurd rfl improves
        | some earlier =>
          have notBelow : earlier.2.level ≤ kv.level := by simpa using improves
          cases found : pickHighLevelFrom (index + 1) (some earlier) rest with
          | none =>
            simp only [found] at later
            cases later.1
          | some pick =>
            simp only [found] at later ⊢
            exact later.skip (fun _ => (later.belowBest earlier rfl).trans notBelow)

theorem merged_candidates_eq {candidates : List KeyValue} (nodup : candidates.Nodup) :
    mergedCandidates candidates = candidates.filter (fun kv =>
      decide (kv.level ≤ 0) || decide (some kv = pickHighLevel candidates)) := by
  have spec := pick_from_spec 0 none candidates
  have same : ∀ place kv, candidates[place]? = some kv →
      (some place = pickHighLevelIdx candidates ↔ some kv = pickHighLevel candidates) := by
    intro place kv isPlace
    unfold pickHighLevelIdx pickHighLevel
    cases found : pickHighLevelFrom 0 none candidates with
    | none => simp
    | some pick =>
      simp only [found] at spec
      rcases spec.source with no | ⟨other, isOther, isIndex, _⟩
      · cases no
      · simp only [Option.map_some, Option.some.injEq, isIndex, Nat.zero_add]
        constructor
        · rintro rfl
          rw [isOther] at isPlace
          exact (Option.some.inj isPlace).symm
        · rintro rfl
          obtain ⟨inside, isKv⟩ := List.getElem?_eq_some_iff.mp isPlace
          obtain ⟨otherInside, isPick⟩ := List.getElem?_eq_some_iff.mp isOther
          exact (nodup.getElem_inj_iff).mp (isKv.trans isPick.symm)
  unfold mergedCandidates
  conv_rhs => rw [← zipIdx_map_fst 0 candidates, filter_map]
  congr 1
  apply filter_congr
  rintro ⟨kv, place⟩ mem
  have isPlace := mem_zipIdx_iff_getElem?.mp mem
  have both := same place kv isPlace
  by_cases low : kv.level ≤ 0
  · simp [low]
  · simp [low, both]

theorem pick_eq_head {candidates level0 highs : List KeyValue}
    (perm : candidates.Perm (level0 ++ highs)) (fresh : ∀ kv ∈ level0, kv.level ≤ 0)
    (pos : ∀ kv ∈ highs, 0 < kv.level)
    (ascend : highs.Pairwise (fun lower upper => lower.level < upper.level)) :
    pickHighLevel candidates = highs.head? := by
  have spec := pick_from_spec 0 none candidates
  unfold pickHighLevel
  cases found : pickHighLevelFrom 0 none candidates with
  | none =>
    simp only [found] at spec
    cases highs with
    | nil => rfl
    | cons high rest =>
      have isCandidate : high ∈ candidates := perm.mem_iff.mpr (mem_append_right _ mem_cons_self)
      have low := spec.2 high isCandidate
      have isPositive := pos high mem_cons_self
      omega
  | some pick =>
    simp only [found] at spec
    rcases spec.source with no | ⟨place, isPlace, _, isPositive⟩
    · cases no
    have isCandidate : pick.2 ∈ candidates := mem_of_getElem? isPlace
    rcases mem_append.mp (perm.mem_iff.mp isCandidate) with isFresh | isHigh
    · have low := fresh _ isFresh
      omega
    cases highs with
    | nil => cases isHigh
    | cons high rest =>
      rcases mem_cons.mp isHigh with isHead | inRest
      · simp [isHead]
      · have above := rel_of_pairwise_cons ascend inRest
        have below := spec.lowest high (perm.mem_iff.mpr (mem_append_right _ mem_cons_self))
          (pos high mem_cons_self)
        omega

theorem merged_candidates_in_order {order : RecordOrder} {candidates level0 highs : List KeyValue}
    (ascending : order.Ascending candidates) (perm : candidates.Perm (level0 ++ highs))
    (fresh : ∀ kv ∈ level0, kv.level ≤ 0) (pos : ∀ kv ∈ highs, 0 < kv.level)
    (ascend : highs.Pairwise (fun lower upper => lower.level < upper.level)) :
    mergedCandidates candidates = order.inOrder (level0 ++ highs.head?.toList) := by
  rw [merged_candidates_eq ascending.nodup, pick_eq_head perm fresh pos ascend]
  apply Eq.symm
  apply RecordOrder.in_order_eq
  · apply Perm.trans _ (perm.symm.filter _)
    rw [filter_append]
    apply Perm.of_eq
    congr 1
    · apply Eq.symm
      apply filter_eq_self.mpr
      intro kv isFresh
      simp [fresh kv isFresh]
    · cases highs with
      | nil => rfl
      | cons high rest =>
        have others : rest.filter (fun kv =>
            decide (kv.level ≤ 0) || decide (some kv = (high :: rest).head?)) = [] := by
          apply filter_eq_nil_iff.mpr
          intro kv inRest
          have above := rel_of_pairwise_cons ascend inRest
          have isPositive := pos kv (mem_cons_of_mem _ inRest)
          have ne : kv ≠ high := by
            rintro rfl
            omega
          simp [ne, isPositive]
        rw [filter_cons, others]
        simp
  · exact ascending.filter _

end LookupMergeFunction

end PaimonCore.MergeTree
