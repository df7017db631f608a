import Mathlib.Data.List.Nodup
import PaimonCore.Library.OrderedMaps

/-!
# Sweeping over intervals

Half-open intervals of integers are named by their index. The boundaries are the ends of the
intervals in order. A sweep toggles the intervals that start or stop at each, so that between two
boundaries the active ones are those that contain the ids in between.
-/

namespace PaimonCore.Sweep

open OrderedMaps List

abbrev Interval := Int × Int

abbrev Boundaries := List (Int × List Nat)

def keys (boundaries : Boundaries) : List Int := boundaries.map Prod.fst

def eventsAt (boundaries : Boundaries) (key : Int) : List Nat := (boundaries.lookup key).getD []

def touch (key : Int) (boundaries : Boundaries) : Boundaries :=
  assign (fun left right => decide (left < right)) key (eventsAt boundaries key) boundaries

def push (key : Int) (index : Nat) (boundaries : Boundaries) : Boundaries :=
  assign (fun left right => decide (left < right)) key (eventsAt boundaries key ++
    [index]) boundaries

variable {boundaries : Boundaries}

theorem mem_keys_touch {key other : Int} :
    other ∈ keys (touch key boundaries) ↔ other = key ∨ other ∈ keys boundaries :=
  mem_keys_assign _ _ _ _ _

theorem mem_keys_push {key other : Int} {index : Nat} :
    other ∈ keys (push key index boundaries) ↔ other = key ∨ other ∈ keys boundaries :=
  mem_keys_assign _ _ _ _ _

theorem events_at_touch (key other : Int) (boundaries : Boundaries) :
    eventsAt (touch key boundaries) other = eventsAt boundaries other := by
  rw [eventsAt, touch, lookup_assign]
  by_cases same : other = key
  · rw [if_pos same, same]
    rfl
  · rw [if_neg same]
    rfl

theorem events_at_push (key other : Int) (index : Nat) (boundaries : Boundaries) :
    eventsAt (push key index boundaries) other =
      if other = key then eventsAt boundaries other ++ [index] else eventsAt boundaries other := by
  rw [eventsAt, push, lookup_assign]
  by_cases same : other = key
  · rw [if_pos same, if_pos same, same]
    rfl
  · rw [if_neg same, if_neg same]
    rfl

def Ascending (boundaries : Boundaries) : Prop := (keys boundaries).Pairwise (· < ·)

theorem assign_ascending {key : Int} {events : List Nat} (ascending : Ascending boundaries) :
    Ascending (assign (fun left right => decide (left < right)) key events boundaries) := by
  have kept := @keys_assign_ascending Int (List Nat) _ (fun left right => decide (left < right))
    (by simp only [decide_eq_true_eq]; omega)
    (by simp only [decide_eq_true_eq, decide_eq_false_iff_not]; omega)
    key events boundaries (ascending.imp (by simp))
  exact kept.imp (by simp)

structure Marks (boundaries : Boundaries) (intervals : List Interval) : Prop where
  ascending : Ascending boundaries
  proper : ∀ interval ∈ intervals, interval.1 < interval.2
  starts : ∀ interval ∈ intervals, interval.1 ∈ keys boundaries
  stops : ∀ interval ∈ intervals, interval.2 ∈ keys boundaries
  distinct : ∀ key, (eventsAt boundaries key).Nodup
  events : ∀ key index, index ∈ eventsAt boundaries key ↔
    ∃ interval, intervals[index]? = some interval ∧ (key = interval.1 ∨ key = interval.2)

theorem marks_nil : Marks [] [] where
  ascending := .nil
  proper := by simp
  starts := by simp
  stops := by simp
  distinct := by simp [eventsAt]
  events := by simp [eventsAt]

variable {intervals : List Interval}

theorem Marks.touch (marks : Marks boundaries intervals) (key : Int) :
    Marks (touch key boundaries) intervals where
  ascending := assign_ascending marks.ascending
  proper := marks.proper
  starts := fun interval mem => mem_keys_touch.mpr (.inr (marks.starts interval mem))
  stops := fun interval mem => mem_keys_touch.mpr (.inr (marks.stops interval mem))
  distinct := fun other => events_at_touch key other boundaries ▸ marks.distinct other
  events := fun other index => events_at_touch key other boundaries ▸ marks.events other index

theorem Marks.push (marks : Marks boundaries intervals) {interval : Interval}
    (proper : interval.1 < interval.2) :
    Marks (push interval.2 intervals.length (push interval.1 intervals.length boundaries))
      (intervals ++ [interval]) where
  ascending := assign_ascending (assign_ascending marks.ascending)
  proper := by
    rw [forall_mem_append, forall_mem_singleton]
    exact ⟨marks.proper, proper⟩
  starts := by
    simp only [mem_keys_push, forall_mem_append, forall_mem_singleton]
    exact ⟨fun other mem => .inr (.inr (marks.starts other mem)), .inr (.inl trivial)⟩
  stops := by
    simp only [mem_keys_push, forall_mem_append, forall_mem_singleton]
    exact ⟨fun other mem => .inr (.inr (marks.stops other mem)), .inl trivial⟩
  distinct := by
    intro key
    have fresh : intervals.length ∉ eventsAt boundaries key := by
      intro mem
      obtain ⟨_, found, _⟩ := (marks.events key _).mp mem
      simp at found
    have once : (eventsAt boundaries key ++ [intervals.length]).Nodup := by
      rw [nodup_append]
      refine ⟨marks.distinct key, by simp, ?_⟩
      intro index mem last isLast same
      rw [same, mem_singleton.mp isLast] at mem
      exact fresh mem
    rw [events_at_push, events_at_push]
    by_cases atStop : key = interval.2
    · rw [if_pos atStop, if_neg (by omega)]
      exact once
    · rw [if_neg atStop]
      split
      · exact once
      · exact marks.distinct key
  events := by
    intro key index
    have added : index ∈ eventsAt (Sweep.push interval.2 intervals.length
          (Sweep.push interval.1 intervals.length boundaries)) key ↔
        index ∈ eventsAt boundaries key ∨
          (index = intervals.length ∧ (key = interval.1 ∨ key = interval.2)) := by
      rw [events_at_push, events_at_push]
      split_ifs with atStop atStart atStart
      · omega
      · simp [atStop]
      · simp [atStart]
      · simp [atStart, atStop]
    rw [added, marks.events key index]
    constructor
    · rintro (⟨other, found, ends⟩ | ⟨rfl, ends⟩)
      · have inside := (List.getElem?_eq_some_iff.mp found).1
        exact ⟨other, by rw [getElem?_append_left inside, found], ends⟩
      · exact ⟨interval, by simp, ends⟩
    · rintro ⟨other, found, ends⟩
      rcases Nat.lt_trichotomy index intervals.length with inside | same | outside
      · rw [getElem?_append_left inside] at found
        exact .inl ⟨other, found, ends⟩
      · subst same
        simp only [getElem?_concat_length, Option.some.injEq] at found
        subst found
        exact .inr ⟨rfl, ends⟩
      · rw [getElem?_eq_none (by simp; omega)] at found
        cases found

def insertInOrder (less : Nat → Nat → Bool) (index : Nat) : List Nat → List Nat
  | [] => [index]
  | first :: rest =>
    if less index first then index :: first :: rest
    else first :: insertInOrder less index rest

def toggle (less : Nat → Nat → Bool) (active : List Nat) (index : Nat) : List Nat :=
  if index ∈ active then active.erase index else insertInOrder less index active

theorem insert_in_order_perm (less : Nat → Nat → Bool) (index : Nat) (active : List Nat) :
    (insertInOrder less index active).Perm (index :: active) := by
  induction active with
  | nil => exact .refl _
  | cons first rest ih =>
    rw [insertInOrder]
    split
    · exact .refl _
    · exact (ih.cons first).trans (Perm.swap index first rest)

variable {active : List Nat}

section
variable (less : Nat → Nat → Bool)
include less

theorem toggle_nodup (nodup : active.Nodup) (index : Nat) : (toggle less active index).Nodup := by
  rw [toggle]
  split
  · exact nodup.erase index
  · next inactive =>
      exact (insert_in_order_perm less index active).nodup_iff.mpr
        (nodup_cons.mpr ⟨inactive, nodup⟩)

theorem mem_toggle (nodup : active.Nodup) {index other : Nat} : other ∈ toggle less active index ↔
      (other = index ∧ other ∉ active) ∨ (other ≠ index ∧ other ∈ active) := by
  rw [toggle]
  split
  · next isActive =>
      rw [nodup.mem_erase_iff]
      by_cases same : other = index <;> simp [same, isActive]
  · next inactive =>
      rw [(insert_in_order_perm less index active).mem_iff]
      by_cases same : other = index <;> simp [same, inactive]

theorem toggle_all_nodup (nodup : active.Nodup) (events : List Nat) :
    (events.foldl (toggle less) active).Nodup := by
  induction events generalizing active with
  | nil => exact nodup
  | cons index rest ih => exact ih (toggle_nodup less nodup index)

theorem mem_toggle_all {events : List Nat}
    (eventsDistinct : events.Nodup) (nodup : active.Nodup) {other : Nat} :
    other ∈ events.foldl (toggle less) active ↔
      (other ∈ events ∧ other ∉ active) ∨ (other ∉ events ∧ other ∈ active) := by
  induction events generalizing active with
  | nil => simp
  | cons index rest ih =>
    rw [nodup_cons] at eventsDistinct
    rw [foldl_cons, ih eventsDistinct.2 (toggle_nodup less nodup index), mem_toggle less nodup]
    by_cases same : other = index
    · subst same
      simp [eventsDistinct.1]
    · simp [same]

end

section
variable {less : Nat → Nat → Bool} {rank : Nat → Int}
  (below : ∀ left right, less left right = true → rank right ≤ rank left)
  (above : ∀ left right, less left right = false → rank left ≤ rank right)
include below above

theorem toggle_descending (descending : active.Pairwise (fun left right => rank right ≤ rank left))
    (index : Nat) :
    (toggle less active index).Pairwise (fun left right => rank right ≤ rank left) := by
  rw [toggle]
  split
  · exact descending.sublist erase_sublist
  · clear * - below above descending
    induction active with
    | nil => simp [insertInOrder]
    | cons first rest ih =>
      obtain ⟨firstAbove, restDescending⟩ := pairwise_cons.mp descending
      rw [insertInOrder]
      split
      · next isLess =>
          refine pairwise_cons.mpr ⟨?_, descending⟩
          intro other mem
          have belowIndex := below index first isLess
          rcases mem_cons.mp mem with rfl | mem
          · exact belowIndex
          · exact Int.le_trans (firstAbove other mem) belowIndex
      · next notLess =>
          refine pairwise_cons.mpr ⟨?_, ih restDescending⟩
          intro other mem
          rcases mem_cons.mp ((insert_in_order_perm less index rest).mem_iff.mp mem) with
            rfl | mem
          · exact above other first (by simpa using notLess)
          · exact firstAbove other mem

theorem toggle_all_descending
    (descending : active.Pairwise (fun left right => rank right ≤ rank left)) (events : List Nat) :
    (events.foldl (toggle less) active).Pairwise (fun left right => rank right ≤ rank left) := by
  induction events generalizing active with
  | nil => exact descending
  | cons index rest ih => exact ih (toggle_descending below above descending index)

end

/-- The active set: the intervals that started and did not stop. -/
structure ActiveAfter (processed : Boundaries) (intervals : List Interval) (active : List Nat) :
    Prop where
  distinct : active.Nodup
  mem : ∀ index, index ∈ active ↔ ∃ interval, intervals[index]? = some interval ∧
    interval.1 ∈ keys processed ∧ interval.2 ∉ keys processed

theorem keys_append (left right : Boundaries) : keys (left ++ right) = keys left ++ keys right :=
  map_append

theorem keys_singleton (entry : Int × List Nat) : keys [entry] = [entry.1] := rfl

section
variable {processed rest : Boundaries} {entry : Int × List Nat}
  (marks : Marks boundaries intervals) (split : boundaries = processed ++ entry :: rest)
include marks split

theorem Marks.mem_processed_iff {key : Int} (isKey : key ∈ keys boundaries) :
    key ∈ keys processed ↔ key < entry.1 := by
  have ascending := marks.ascending
  rw [Ascending, split, keys_append, pairwise_append] at ascending
  rw [split, keys_append, mem_append] at isKey
  constructor
  · intro isEarlier
    exact ascending.2.2 key isEarlier entry.1 (by simp [keys])
  · intro below
    rcases isKey with isKey | isKey
    · exact isKey
    · rcases mem_cons.mp isKey with rfl | isLater
      · omega
      · have later := (pairwise_cons.mp ascending.2.1).1 key isLater
        omega

theorem ActiveAfter.step (less : Nat → Nat → Bool)
    (after : ActiveAfter processed intervals active) :
    ActiveAfter (processed ++ [entry]) intervals (entry.2.foldl (toggle less) active) := by
  have events : eventsAt boundaries entry.1 = entry.2 := by
    rw [eventsAt, lookup_of_mem (marks.ascending.imp (by intros; omega)) (by simp [split])]
    rfl
  have nodup : entry.2.Nodup := events ▸ marks.distinct entry.1
  refine ⟨toggle_all_nodup less after.distinct entry.2, fun index => ?_⟩
  rw [mem_toggle_all less nodup after.distinct, after.mem, ← events, marks.events]
  cases found : intervals[index]? with
  | none => simp
  | some interval =>
    have mem := mem_of_getElem? found
    have proper := marks.proper interval mem
    -- Where the ends of the interval stand relative to this boundary.
    have started := marks.mem_processed_iff split (marks.starts interval mem)
    have stopped := marks.mem_processed_iff split (marks.stops interval mem)
    simp only [Option.some.injEq, exists_eq_left', keys_append, mem_append, started, stopped,
      keys_singleton, mem_singleton]
    omega

theorem ActiveAfter.between (after : ActiveAfter processed intervals active) {id : Int}
    (reached : ∀ key ∈ keys processed, key ≤ id) (before : id < entry.1) (index : Nat) :
    index ∈ active ↔ ∃ interval, intervals[index]? = some interval ∧ interval.1 ≤ id ∧
      id < interval.2 := by
  have position : ∀ key ∈ keys boundaries, key ∈ keys processed ↔ key ≤ id := by
    intro key isKey
    refine ⟨reached key, fun below => ?_⟩
    rw [marks.mem_processed_iff split isKey]
    omega
  rw [after.mem]
  apply exists_congr
  intro interval
  apply and_congr_right
  intro found
  have mem := mem_of_getElem? found
  rw [position _ (marks.starts interval mem), position _ (marks.stops interval mem), Int.not_le]

end

end PaimonCore.Sweep
