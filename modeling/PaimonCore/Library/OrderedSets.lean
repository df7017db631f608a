import Mathlib.Data.List.Nodup

/-!
# Ordered sets

A set that is kept in the order of a less-than test, as the list of its elements. An
element is in the set if nothing in it is on either side of it: inserting such an element
does nothing, erasing removes whatever ties with the argument.
-/

namespace PaimonCore.OrderedSets

open List

variable {Item : Type*}

def insert (less : Item → Item → Bool) (item : Item) : List Item → List Item
  | [] => [item]
  | first :: rest =>
    if less item first then item :: first :: rest
    else if less first item then first :: insert less item rest
    else first :: rest

def erase (less : Item → Item → Bool) (item : Item) (set : List Item) : List Item :=
  set.filter (fun other => less item other || less other item)

def Apart (less : Item → Item → Bool) (left right : Item) : Prop :=
  less left right = true ∨ less right left = true

def Ascending (less : Item → Item → Bool) (set : List Item) : Prop :=
  set.Pairwise (fun left right => less left right = true)

variable {less : Item → Item → Bool}

theorem Apart.symm {left right : Item} (apart : Apart less left right) : Apart less right left :=
  Or.symm apart

variable {set : List Item}

theorem mem_of_mem_insert {item other : Item} (mem : other ∈ insert less item set) :
    other = item ∨ other ∈ set := by
  induction set with
  | nil => exact .inl (mem_singleton.mp mem)
  | cons first rest ih =>
    rw [insert] at mem
    split at mem
    · exact mem_cons.mp mem
    · split at mem
      · rcases mem_cons.mp mem with rfl | inRest
        · exact .inr mem_cons_self
        · exact (ih inRest).imp_right (mem_cons_of_mem _)
      · exact .inr mem

theorem Ascending.insert (transitive : ∀ left middle right, less left middle = true →
    less middle right = true →
      less left right = true) (ascending : Ascending less set) (item : Item) :
    Ascending less (insert less item set) := by
  induction set with
  | nil => exact pairwise_singleton _ _
  | cons first rest ih =>
    have fromFirst := (pairwise_cons.mp ascending).1
    rw [OrderedSets.insert]
    split
    · rename_i below
      apply pairwise_cons.mpr ⟨?_, ascending⟩
      exact forall_mem_cons.mpr ⟨below, fun other inRest =>
        transitive _ _ _ below (fromFirst other inRest)⟩
    · split
      · rename_i above
        apply pairwise_cons.mpr ⟨?_, ih (pairwise_cons.mp ascending).2⟩
        intro other mem
        rcases mem_of_mem_insert mem with rfl | inRest
        · exact above
        · exact fromFirst other inRest
      · exact ascending

theorem Ascending.erase (ascending : Ascending less set) (item : Item) :
    Ascending less (erase less item set) :=
  Pairwise.filter _ ascending

theorem insert_perm {item : Item} (apart : ∀ other ∈ set, Apart less item other) :
    (insert less item set).Perm (item :: set) := by
  induction set with
  | nil => exact .refl _
  | cons first rest ih =>
    rw [insert]
    split
    · exact .refl _
    · rename_i notBelow
      have above : less first item = true := (apart first mem_cons_self).resolve_left notBelow
      rw [if_pos above]
      have restApart : ∀ other ∈ rest, Apart less item other := fun other mem =>
        apart other (mem_cons_of_mem _ mem)
      exact ((ih restApart).cons first).trans (Perm.swap item first rest)

theorem insert_all_ascending
    (transitive : ∀ left middle right, less left middle = true → less middle right = true →
      less left right = true) (items : List Item) (ascending : Ascending less set) :
    Ascending less (items.foldl (fun set item => insert less item set) set) := by
  induction items generalizing set with
  | nil => exact ascending
  | cons item items ih => exact ih (ascending.insert transitive item)

theorem insert_all_perm (items : List Item) (apart : (set ++ items).Pairwise (Apart less)) :
    (items.foldl (fun set item => insert less item set) set).Perm (set ++ items) := by
  induction items generalizing set with
  | nil => simp
  | cons item items ih =>
    have toItem : ∀ other ∈ set, Apart less item other := fun other mem =>
      ((pairwise_append.mp apart).2.2 other mem item mem_cons_self).symm
    have inserted : (insert less item set ++ items).Perm (set ++ item :: items) :=
      ((insert_perm toItem).append_right items).trans perm_middle.symm
    apply (ih _).trans inserted
    exact (inserted.pairwise_iff (fun apart => apart.symm)).mpr apart

theorem erase_all_ascending (items : List Item) (ascending : Ascending less set) :
    Ascending less (items.foldl (fun set item => erase less item set) set) := by
  induction items generalizing set with
  | nil => exact ascending
  | cons item items ih => exact ih (ascending.erase item)

theorem Ascending.nodup (irreflexive : ∀ item, less item item = false)
    (ascending : Ascending less set) : set.Nodup := by
  apply ascending.imp
  intro left right below same
  rw [same, irreflexive right] at below
  exact Bool.false_ne_true below

section
variable [DecidableEq Item]

theorem erase_eq_list_erase (irreflexive : ∀ item, less item item = false) {item : Item}
    {set : List Item} (ascending : Ascending less set)
    (only : ∀ other ∈ set, other = item ∨ Apart less item other) :
    erase less item set = set.erase item := by
  rw [(ascending.nodup irreflexive).erase_eq_filter]
  apply filter_congr
  intro other mem
  by_cases same : other = item
  · rw [same, irreflexive item]
    simp
  · have apart : Apart less item other := (only other mem).resolve_left same
    rw [bne_iff_ne.mpr same, Bool.or_eq_true]
    exact apart

theorem erase_all_eq_diff (irreflexive : ∀ item, less item item = false) (items : List Item)
    {set : List Item} (ascending : Ascending less set)
    (only : ∀ item ∈ items, ∀ other ∈ set, other = item ∨ Apart less item other) :
    items.foldl (fun set item => erase less item set) set = set.diff items := by
  induction items generalizing set with
  | nil => rfl
  | cons item items ih =>
    have first : erase less item set = set.erase item :=
      erase_eq_list_erase irreflexive ascending (only item mem_cons_self)
    rw [diff_cons, ← first]
    apply ih (ascending.erase item)
    intro later isLater other mem
    exact only later (mem_cons_of_mem _ isLater) other (mem_of_mem_filter mem)

end

theorem Ascending.eq_of_perm (asymmetric : ∀ left right, less left right = true →
    less right left = false)
    {first second : List Item} (ascending : Ascending less first)
    (others : Ascending less second) (same : first.Perm second) : first = second := by
  apply Perm.eq_of_pairwise _ ascending others same
  intro left right _ _ below above
  rw [asymmetric left right below] at above
  exact absurd above Bool.false_ne_true

end PaimonCore.OrderedSets
