/-!
# Upserts into keyed lists

An item goes to the place of the first one with the same key and is combined with it, or to the
end. If combining is associative, a list of items may first be gathered on its own.
-/

namespace PaimonCore.Upserts

open List

variable {Item : Type}

def upsert (same : Item → Item → Bool) (combine : Item → Item → Item) : List Item → Item → List Item
  | [], item => [item]
  | first :: rest, item =>
    if same first item then combine first item :: rest
    else first :: upsert same combine rest item

def upsertAll (same : Item → Item → Bool) (combine : Item → Item → Item) (items added : List Item) :
    List Item :=
  added.foldl (upsert same combine) items

/-- Items that are the same combine to one that is the same, in any grouping. -/
structure Combines (same : Item → Item → Bool) (combine : Item → Item → Item) : Prop where
  refl : ∀ item, same item item = true
  symm : ∀ left right, same left right = true → same right left = true
  trans : ∀ left middle right, same left middle = true → same middle right = true →
    same left right = true
  combined : ∀ left right, same left right = true → same left (combine left right) = true
  assoc : ∀ left middle right, same left middle = true → same middle right = true →
    combine (combine left middle) right = combine left (combine middle right)

def Distinct (same : Item → Item → Bool) (items : List Item) : Prop :=
  items.Pairwise (fun left right => same left right = false)

section
variable {same : Item → Item → Bool} {combine : Item → Item → Item}

section
variable (combines : Combines same combine)
include combines

theorem Combines.same_congr_left {left middle : Item}
    (alike : same left middle = true) (right : Item) : same left right = same middle right := by
  rw [Bool.eq_iff_iff]
  constructor
  · exact combines.trans _ _ _ (combines.symm _ _ alike)
  · exact combines.trans _ _ _ alike

theorem Combines.same_congr_right {middle right : Item}
    (alike : same middle right = true) (left : Item) : same left middle = same left right := by
  rw [Bool.eq_iff_iff]
  constructor
  · exact fun isSame => combines.trans _ _ _ isSame alike
  · exact fun isSame => combines.trans _ _ _ isSame (combines.symm _ _ alike)

theorem Combines.same_combined_left {left right : Item}
    (alike : same left right = true) (other : Item) : same (combine left right) other =
      same left other :=
  (combines.same_congr_left (combines.combined _ _ alike) other).symm

theorem upsert_combine {first second : Item} (alike : same first second = true)
    (items : List Item) :
    upsert same combine items (combine first second) =
      upsert same combine (upsert same combine items first) second := by
  have combined := combines.combined _ _ alike
  induction items with
  | nil => simp [upsert, alike]
  | cons head rest ih =>
    rw [upsert, upsert, ← combines.same_congr_right combined]
    by_cases isSame : same head first = true
    · have headSecond := combines.trans _ _ _ isSame alike
      rw [if_pos isSame, if_pos isSame, upsert,
        combines.same_combined_left isSame, if_pos headSecond, combines.assoc _ _ _ isSame alike]
    · have notSecond : ¬same head second = true := by
        intro headSecond
        exact isSame (combines.trans _ _ _ headSecond (combines.symm _ _ alike))
      rw [if_neg isSame, if_neg isSame, upsert, if_neg notSecond, ih]

end

variable {items : List Item}

section
variable (combines : Combines same combine)
include combines

theorem upsert_comm {present other : Item}
    (apart : same present other = false) (isThere : ∃ item ∈ items, same item present = true) :
    upsert same combine (upsert same combine items present) other =
      upsert same combine (upsert same combine items other) present := by
  induction items with
  | nil =>
    obtain ⟨item, mem, _⟩ := isThere
    cases mem
  | cons head rest ih =>
    by_cases isPresent : same head present = true
    · have notOther : ¬same head other = true := by
        rw [combines.same_congr_left isPresent, apart]
        exact Bool.false_ne_true
      rw [upsert, if_pos isPresent, upsert, combines.same_combined_left isPresent, if_neg notOther,
        upsert, if_neg notOther, upsert, if_pos isPresent]
    · have isRest : ∃ item ∈ rest, same item present = true := by
        obtain ⟨item, mem, isSame⟩ := isThere
        rcases mem_cons.mp mem with rfl | mem
        · exact absurd isSame isPresent
        · exact ⟨item, mem, isSame⟩
      rw [upsert, if_neg isPresent]
      by_cases isOther : same head other = true
      · have notPresent : ¬same (combine head other) present = true := by
          rw [combines.same_combined_left isOther]
          exact isPresent
        rw [upsert, if_pos isOther, upsert, if_pos isOther, upsert, if_neg notPresent]
      · rw [upsert, if_neg isOther, ih isRest, upsert, if_neg isOther, upsert, if_neg isPresent]

theorem upsert_present (items : List Item) (item : Item) :
    ∃ other ∈ upsert same combine items item, same other item = true := by
  induction items with
  | nil => exact ⟨item, mem_singleton.mpr rfl, combines.refl item⟩
  | cons head rest ih =>
    rw [upsert]
    split
    · next isSame =>
        refine ⟨combine head item, mem_cons_self, ?_⟩
        rw [combines.same_combined_left isSame]
        exact isSame
    · obtain ⟨other, mem, isSame⟩ := ih
      exact ⟨other, mem_cons_of_mem _ mem, isSame⟩

theorem upsert_keeps_present {item : Item} (isThere : ∃ other ∈ items, same other item = true)
    (added : Item) :
    ∃ other ∈ upsert same combine items added, same other item = true := by
  induction items with
  | nil =>
    obtain ⟨other, mem, _⟩ := isThere
    cases mem
  | cons head rest ih =>
    obtain ⟨other, mem, isSame⟩ := isThere
    rw [upsert]
    split
    · next headSame =>
        rcases mem_cons.mp mem with rfl | mem
        · refine ⟨combine other added, mem_cons_self, ?_⟩
          rw [combines.same_combined_left headSame]
          exact isSame
        · exact ⟨other, mem_cons_of_mem _ mem, isSame⟩
    · rcases mem_cons.mp mem with rfl | mem
      · exact ⟨other, mem_cons_self, isSame⟩
      · obtain ⟨found, inRest, foundSame⟩ := ih ⟨other, mem, isSame⟩
        exact ⟨found, mem_cons_of_mem _ inRest, foundSame⟩

theorem upsert_all_comm {present : Item} {added : List Item}
    (apart : ∀ other ∈ added, same present other = false)
    (isThere : ∃ item ∈ items, same item present = true) :
    upsertAll same combine (upsert same combine items present) added =
      upsert same combine (upsertAll same combine items added) present := by
  induction added generalizing items with
  | nil => rfl
  | cons other rest ih =>
    have headApart := apart other mem_cons_self
    change upsertAll same combine (upsert same combine (upsert same combine items present) other)
      rest =
        upsert same combine (upsertAll same combine (upsert same combine items other) rest) present
    rw [upsert_comm combines headApart isThere]
    apply ih
    · exact fun later mem => apart later (mem_cons_of_mem _ mem)
    · exact upsert_keeps_present combines isThere other

theorem upsert_all_upsert (items : List Item) {added : List Item} (nodup : Distinct same added)
    (last : Item) :
    upsertAll same combine items (upsert same combine added last) =
      upsert same combine (upsertAll same combine items added) last := by
  induction added generalizing items with
  | nil => rfl
  | cons head rest ih =>
    obtain ⟨headApart, restDistinct⟩ := pairwise_cons.mp nodup
    rw [upsert]
    split
    · next isSame =>
        have apart : ∀ other ∈ rest, same last other = false := by
          intro other mem
          rw [← combines.same_congr_left isSame]
          exact headApart other mem
        have isThere : ∃ item ∈ upsert same combine items head, same item last = true := by
          obtain ⟨item, mem, alike⟩ := upsert_present combines items head
          exact ⟨item, mem, combines.trans _ _ _ alike isSame⟩
        change upsertAll same combine (upsert same combine items (combine head last)) rest =
          upsert same combine (upsertAll same combine (upsert same combine items head) rest) last
        rw [upsert_combine combines isSame]
        exact upsert_all_comm combines apart isThere
    · exact ih _ restDistinct

end

theorem mem_upsert {added item : Item} (mem : item ∈ upsert same combine items added) :
    item ∈ items ∨ item = added ∨ ∃ head ∈ items, same head added = true ∧
      item = combine head added := by
  induction items with
  | nil => exact .inr (.inl (mem_singleton.mp mem))
  | cons head rest ih =>
    rw [upsert] at mem
    split at mem
    · next isSame =>
        rcases mem_cons.mp mem with rfl | mem
        · exact .inr (.inr ⟨head, mem_cons_self, isSame, rfl⟩)
        · exact .inl (mem_cons_of_mem _ mem)
    · rcases mem_cons.mp mem with rfl | mem
      · exact .inl mem_cons_self
      · rcases ih mem with before | isAdded | ⟨found, inRest, isSame, isCombined⟩
        · exact .inl (mem_cons_of_mem _ before)
        · exact .inr (.inl isAdded)
        · exact .inr (.inr ⟨found, mem_cons_of_mem _ inRest, isSame, isCombined⟩)

section
variable (combines : Combines same combine)
include combines

theorem upsert_distinct (nodup : Distinct same items)
    (added : Item) : Distinct same (upsert same combine items added) := by
  induction items with
  | nil => exact pairwise_singleton _ _
  | cons head rest ih =>
    obtain ⟨headApart, restDistinct⟩ := pairwise_cons.mp nodup
    rw [upsert]
    split
    · next isSame =>
        refine pairwise_cons.mpr ⟨?_, restDistinct⟩
        intro other mem
        rw [combines.same_combined_left isSame]
        exact headApart other mem
    · next differs =>
        refine pairwise_cons.mpr ⟨?_, ih restDistinct⟩
        intro other mem
        rcases mem_upsert mem with before | rfl | ⟨found, inRest, isSame, rfl⟩
        · exact headApart other before
        · exact Bool.eq_false_iff.mpr differs
        · rw [← combines.same_congr_right (combines.combined _ _ isSame)]
          exact headApart found inRest

theorem upsert_all_distinct (nodup : Distinct same items)
    (added : List Item) : Distinct same (upsertAll same combine items added) := by
  induction added generalizing items with
  | nil => exact nodup
  | cons item rest ih => exact ih (upsert_distinct combines nodup item)

theorem upsert_all_gathered (items : List Item)
    {gathered : List Item} (nodup : Distinct same gathered) (added : List Item) :
    upsertAll same combine items (upsertAll same combine gathered added) =
      upsertAll same combine (upsertAll same combine items gathered) added := by
  induction added generalizing gathered with
  | nil => rfl
  | cons item rest ih =>
    change upsertAll same combine items (upsertAll same combine
      (upsert same combine gathered item) rest) =
      upsertAll same combine (upsert same combine (upsertAll same combine items gathered) item) rest
    rw [ih (upsert_distinct combines nodup item), upsert_all_upsert combines items nodup]

end

theorem upsert_append {item : Item} (fresh : ∀ other ∈ items, same other item = false) :
    upsert same combine items item = items ++ [item] := by
  induction items with
  | nil => rfl
  | cons head rest ih =>
    rw [upsert, if_neg (Bool.eq_false_iff.mp (fresh head mem_cons_self)),
      ih (forall_mem_cons.mp fresh).2]
    rfl

theorem upsert_all_of_distinct {added : List Item} (nodup : Distinct same (items ++ added)) :
    upsertAll same combine items added = items ++ added := by
  induction added generalizing items with
  | nil => simp [upsertAll]
  | cons item rest ih =>
    have fresh : ∀ other ∈ items, same other item = false :=
      fun other mem => (pairwise_append.mp nodup).2.2 other mem item mem_cons_self
    change upsertAll same combine (upsert same combine items item) rest = items ++ item :: rest
    rw [upsert_append fresh, ih (by rwa [append_assoc]), append_assoc, singleton_append]

end

end PaimonCore.Upserts
