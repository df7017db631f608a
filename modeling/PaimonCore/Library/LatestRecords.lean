import PaimonCore.Library.Comparators

/-!
# The latest of the records of a key

Records of one key are ranked, and the record with the greatest rank counts. Records that
lie in layers, newer ones above older ones, are looked up from the top.
-/

namespace PaimonCore.LatestRecords

open Std List

variable {Record : Type} (compareRank : Record → Record → Ordering)

def newer (left right : Record) : Record :=
  if compareRank left right = .gt then left else right

def newest : Option Record → Option Record → Option Record
  | none, right => right
  | some left, none => some left
  | some left, some right => some (newer compareRank left right)

def latest (ofKey : Record → Bool) : List Record → Option Record
  | [] => none
  | record :: records =>
    if ofKey record then newest compareRank (some record) (latest ofKey records)
    else latest ofKey records

variable {compareRank} {ofKey : Record → Bool} {records others : List Record}

@[simp] theorem newest_none (left : Option Record) : newest compareRank left none = left := by
  cases left <;> rfl

theorem latest_eq_none_iff :
    latest compareRank ofKey records = none ↔ ∀ record ∈ records, ofKey record = false := by
  induction records with
  | nil => simp [latest]
  | cons head tail ih =>
    rw [latest]
    cases isSame : ofKey head with
    | true =>
      cases latest compareRank ofKey tail <;> simp [newest, isSame]
    | false => simp [ih, isSame]

section
variable [TransCmp compareRank]

theorem newer_assoc (first second third : Record) :
    newer compareRank (newer compareRank first second) third =
      newer compareRank first (newer compareRank second third) := by
  unfold newer
  by_cases left : compareRank first second = .gt
  · rw [if_pos left]
    by_cases right : compareRank second third = .gt
    · have whole : compareRank first third = .gt := TransCmp.gt_trans left right
      rw [if_pos right, if_pos whole, if_pos left]
    · rw [if_neg right]
  · rw [if_neg left]
    by_cases right : compareRank second third = .gt
    · rw [if_pos right, if_neg left]
    · have whole : compareRank first third ≠ .gt := TransCmp.le_trans left right
      rw [if_neg right, if_neg whole]

theorem newest_assoc (first second third : Option Record) :
    newest compareRank (newest compareRank first second) third =
      newest compareRank first (newest compareRank second third) := by
  cases first with
  | none => rfl
  | some first =>
    cases second with
    | none => rfl
    | some second =>
      cases third with
      | none => rfl
      | some third => exact congrArg some (newer_assoc first second third)

theorem latest_append : latest compareRank ofKey (records ++ others) =
    newest compareRank (latest compareRank ofKey records) (latest compareRank ofKey others) := by
  induction records with
  | nil => rfl
  | cons head tail ih =>
    rw [cons_append, latest, latest, ih]
    split
    · rw [newest_assoc]
    · rfl

theorem latest_spec {found : Record} (isLatest : latest compareRank ofKey records = some found) :
    found ∈ records ∧ ofKey found = true ∧
      ∀ other ∈ records, ofKey other = true → (compareRank other found).isLE = true := by
  induction records generalizing found with
  | nil => cases isLatest
  | cons head tail ih =>
    rw [latest] at isLatest
    cases isSame : ofKey head with
    | false =>
      rw [isSame] at isLatest
      rcases ih isLatest with ⟨mem, same, top⟩
      refine ⟨mem_cons_of_mem _ mem, same, forall_mem_cons.mpr ⟨?_, top⟩⟩
      intro headSame
      rw [isSame] at headSame
      cases headSame
    | true =>
      rw [isSame, if_pos rfl] at isLatest
      cases inTail : latest compareRank ofKey tail with
      | none =>
        rw [inTail, newest_none, Option.some.injEq] at isLatest
        subst isLatest
        refine ⟨mem_cons_self, isSame, forall_mem_cons.mpr ⟨fun _ => ReflCmp.isLE_rfl, ?_⟩⟩
        intro other later otherSame
        rw [latest_eq_none_iff.mp inTail other later] at otherSame
        cases otherSame
      | some best =>
        rcases ih inTail with ⟨mem, same, top⟩
        rw [inTail] at isLatest
        simp only [newest, newer, Option.some.injEq] at isLatest
        by_cases larger : compareRank head best = .gt
        · rw [if_pos larger] at isLatest
          subst isLatest
          refine ⟨mem_cons_self, isSame, forall_mem_cons.mpr ⟨fun _ => ReflCmp.isLE_rfl, ?_⟩⟩
          intro other later otherSame
          have below := OrientedCmp.lt_of_gt larger
          exact TransCmp.isLE_trans (top other later otherSame) (Ordering.isLE_of_eq_lt below)
        · rw [if_neg larger] at isLatest
          subst isLatest
          refine ⟨mem_cons_of_mem _ mem, same, forall_mem_cons.mpr ⟨?_, top⟩⟩
          cases verdict : compareRank head best <;> simp_all

theorem latest_eq_of_top {found : Record} (mem : found ∈ records) (same : ofKey found = true)
    (top : ∀ other ∈ records, ofKey other = true → other ≠ found →
      compareRank other found = .lt) : latest compareRank ofKey records = some found := by
  cases isLatest : latest compareRank ofKey records with
  | none =>
    rw [latest_eq_none_iff.mp isLatest found mem] at same
    cases same
  | some best =>
    rcases latest_spec isLatest with ⟨bestMember, bestSame, bestTop⟩
    by_cases isFound : best = found
    · rw [isFound]
    · have lower := top best bestMember bestSame isFound
      have upper := bestTop found mem same
      rw [OrientedCmp.gt_of_lt lower] at upper
      cases upper

theorem latest_perm (perm : records.Perm others)
    (apart : ∀ left ∈ records, ∀ right ∈ records, ofKey left = true → ofKey right = true →
      compareRank left right = .eq → left = right) :
    latest compareRank ofKey records = latest compareRank ofKey others := by
  cases isLatest : latest compareRank ofKey records with
  | none =>
    apply Eq.symm
    rw [latest_eq_none_iff] at isLatest ⊢
    intro record isRecord
    exact isLatest record (perm.mem_iff.mpr isRecord)
  | some found =>
    rcases latest_spec isLatest with ⟨mem, same, top⟩
    apply Eq.symm
    apply latest_eq_of_top (perm.mem_iff.mp mem) same
    intro other isOther otherSame ne
    have otherMember := perm.mem_iff.mpr isOther
    have le := top other otherMember otherSame
    cases verdict : compareRank other found with
    | lt => rfl
    | eq => exact absurd (apart other otherMember found mem otherSame same verdict) ne
    | gt =>
      rw [verdict] at le
      cases le

end

end PaimonCore.LatestRecords
