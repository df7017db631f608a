import PaimonCore.Library.Comparators

/-!
# Overlapping key ranges

Items with a smallest and a largest key. Items that follow each other share no key, so the number
of items at one key is a lower bound for the number of runs. Items that share keys are linked; no
cut between two keys separates a linked group.
-/

namespace PaimonCore.Overlaps

open Std PaimonCore List

structure Ranges (Item Key : Type*) where
  compareKeys : Key → Key → Ordering
  smallest : Item → Key
  largest : Item → Key

namespace Ranges

variable {Item Key : Type*} (ranges : Ranges Item Key)

def covers (key : Key) (item : Item) : Bool :=
  (ranges.compareKeys (ranges.smallest item) key).isLE &&
    (ranges.compareKeys key (ranges.largest item)).isLE

def Proper (item : Item) : Prop :=
  (ranges.compareKeys (ranges.smallest item) (ranges.largest item)).isLE = true

def Before (left right : Item) : Prop :=
  ranges.compareKeys (ranges.largest left) (ranges.smallest right) = .lt

def Meet (left right : Item) : Prop :=
  ∃ key, ranges.covers key left = true ∧ ranges.covers key right = true

/-- The second item is reached through members of the list that meet. -/
def Linked (items : List Item) : Item → Item → Prop :=
  Relation.ReflTransGen (fun left right => right ∈ items ∧ ranges.Meet left right)

def Connected (items : List Item) : Prop :=
  ∀ left ∈ items, ∀ right ∈ items, ranges.Linked items left right

variable {ranges}

theorem covers_iff {key : Key} {item : Item} : ranges.covers key item = true ↔
    (ranges.compareKeys (ranges.smallest item) key).isLE = true ∧
      (ranges.compareKeys key (ranges.largest item)).isLE = true := by
  simp only [covers, Bool.and_eq_true]

theorem Meet.symm {left right : Item} (meet : ranges.Meet left right) : ranges.Meet right left := by
  obtain ⟨key, inLeft, inRight⟩ := meet
  exact ⟨key, inRight, inLeft⟩

variable {items : List Item}

theorem Linked.mono {others : List Item} (included : items ⊆ others) {left right : Item}
    (linked : ranges.Linked items left right) : ranges.Linked others left right := by
  induction linked with
  | refl => exact Relation.ReflTransGen.refl
  | tail _ step reached => exact reached.tail ⟨included step.1, step.2⟩

theorem Linked.stays {group : List Item} {left right : Item}
    (closed : ∀ inside ∈ group, ∀ other ∈ items, ranges.Meet inside other → other ∈ group)
    (mem : left ∈ group) (linked : ranges.Linked items left right) : right ∈ group := by
  induction linked with
  | refl => exact mem
  | tail _ step inGroup => exact closed _ inGroup _ step.1 step.2

theorem connected_singleton (item : Item) : ranges.Connected [item] := by
  intro left isLeft right isRight
  rw [mem_singleton.mp isLeft, mem_singleton.mp isRight]
  exact Relation.ReflTransGen.refl

theorem Connected.append_item (connected : ranges.Connected items)
    {mem item : Item} (inside : mem ∈ items) (meet : ranges.Meet mem item) :
    ranges.Connected (items ++ [item]) := by
  have included : items ⊆ items ++ [item] := subset_append_left _ _
  have enters : ∀ left ∈ items, ranges.Linked (items ++ [item]) left item := by
    intro left isLeft
    exact ((connected left isLeft mem inside).mono included).tail ⟨by simp, meet⟩
  have leaves : ∀ right ∈ items, ranges.Linked (items ++ [item]) item right := by
    intro right isRight
    exact Relation.ReflTransGen.head ⟨included inside, meet.symm⟩
      ((connected mem inside right isRight).mono included)
  intro left isLeft right isRight
  rcases mem_append.mp isLeft with oldLeft | newLeft <;>
    rcases mem_append.mp isRight with oldRight | newRight
  · exact (connected left oldLeft right oldRight).mono included
  · rw [mem_singleton.mp newRight]
    exact enters left oldLeft
  · rw [mem_singleton.mp newLeft]
    exact leaves right oldRight
  · rw [mem_singleton.mp newLeft, mem_singleton.mp newRight]
    exact Relation.ReflTransGen.refl

section
variable [TransCmp ranges.compareKeys]

theorem Proper.covers_smallest {item : Item} (proper : ranges.Proper item) :
    ranges.covers (ranges.smallest item) item = true :=
  covers_iff.mpr ⟨ReflCmp.isLE_rfl, proper⟩

theorem covers_congr {key other : Key} (same : ranges.compareKeys key other = .eq) (item : Item) :
    ranges.covers key item = ranges.covers other item := by
  unfold covers
  rw [TransCmp.congr_right same, TransCmp.congr_left same]

theorem Before.not_covers {left right : Item} (before : ranges.Before left right) {key : Key}
    (inLeft : ranges.covers key left = true) : ranges.covers key right = false := by
  have beyond : ranges.compareKeys key (ranges.smallest right) = .lt :=
    TransCmp.lt_of_isLE_of_lt (covers_iff.mp inLeft).2 before
  unfold covers
  rw [OrientedCmp.gt_of_lt beyond]
  rfl

theorem Before.not_meet {left right : Item} (before : ranges.Before left right) :
    ¬ranges.Meet left right := by
  rintro ⟨key, inLeft, inRight⟩
  rw [before.not_covers inLeft] at inRight
  exact Bool.false_ne_true inRight

theorem count_le_one {run : List Item} (ordered : run.Pairwise ranges.Before) (key : Key) :
    run.countP (ranges.covers key) ≤ 1 := by
  induction run with
  | nil => simp
  | cons first rest ih =>
    rw [pairwise_cons] at ordered
    by_cases covered : ranges.covers key first = true
    · have others : rest.countP (ranges.covers key) = 0 := by
        apply countP_eq_zero.mpr
        intro other mem
        rw [(ordered.1 other mem).not_covers covered]
        exact Bool.false_ne_true
      rw [countP_cons_of_pos covered, others]
    · rw [countP_cons_of_neg covered]
      exact ih ordered.2

/-- However the items are put into runs, each run has at most one item at a key. -/
theorem count_le_runs {runs : List (List Item)} (same : runs.flatten.Perm items)
    (ordered : ∀ run ∈ runs, run.Pairwise ranges.Before) (key : Key) :
    items.countP (ranges.covers key) ≤ runs.length := by
  rw [← same.countP_eq]
  clear same
  induction runs with
  | nil => simp
  | cons run runs ih =>
    have rest := ih (forall_mem_cons.mp ordered).2
    have first := count_le_one (ordered run mem_cons_self) key
    rw [flatten_cons, countP_append, length_cons]
    omega

end

end Ranges

end PaimonCore.Overlaps
