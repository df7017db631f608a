/-!
# Ordered maps

A map that is iterated in the order of its keys, as the list of its entries. Lookups take
the first entry of a key, so what is said about them needs no order.
-/

namespace PaimonCore.OrderedMaps

open List

variable {Key Value : Type} [DecidableEq Key]

/-- Assigns the value of a key; a new key is inserted before the first larger one. -/
def assign (less : Key → Key → Bool) (key : Key) (value : Value) :
    List (Key × Value) → List (Key × Value)
  | [] => [(key, value)]
  | entry :: rest =>
    if key = entry.1 then (key, value) :: rest
    else if less key entry.1 then (key, value) :: entry :: rest
    else entry :: assign less key value rest

theorem lookup_cons (key : Key) (entry : Key × Value) (rest : List (Key × Value)) :
    (entry :: rest).lookup key = if key = entry.1 then some entry.2 else rest.lookup key := by
  by_cases same : key = entry.1
  · rw [same, lookup_cons_self, if_pos rfl]
  · rw [List.lookup_cons, beq_false_of_ne same, if_neg same]

theorem lookup_assign (less : Key → Key → Bool) (key other : Key) (value : Value)
    (map : List (Key × Value)) :
    (assign less key value map).lookup other =
      if other = key then some value else map.lookup other := by
  induction map with
  | nil => exact lookup_cons other (key, value) []
  | cons entry rest ih =>
    rw [assign]
    by_cases same : key = entry.1
    · rw [if_pos same, lookup_cons, lookup_cons]
      by_cases isKey : other = key
      · simp [isKey]
      · have notEntry : other ≠ entry.1 := by rwa [← same]
        simp [isKey, notEntry]
    · rw [if_neg same]
      by_cases isLess : less key entry.1 = true
      · rw [if_pos isLess, lookup_cons]
      · rw [if_neg isLess, lookup_cons, lookup_cons, ih]
        by_cases isEntry : other = entry.1
        · have notKey : other ≠ key := fun isKey => same (isKey.symm.trans isEntry)
          simp [isEntry, isEntry ▸ notKey]
        · simp [isEntry]

theorem mem_keys_assign (less : Key → Key → Bool) (key other : Key) (value : Value)
    (map : List (Key × Value)) :
    other ∈ (assign less key value map).map Prod.fst ↔ other = key ∨ other ∈ map.map Prod.fst := by
  induction map with
  | nil => simp [assign]
  | cons entry rest ih =>
    rw [assign]
    split
    · next same => simp [same]
    · split
      · simp
      · rw [map_cons, mem_cons, ih, map_cons, mem_cons]
        exact or_left_comm

theorem keys_assign_ascending {less : Key → Key → Bool}
    (transitive : ∀ left middle right, less left middle → less middle right → less left right)
    (total : ∀ left right, left ≠ right → less left right = false → less right left)
    (key : Key) (value : Value) {map : List (Key × Value)}
    (ascending : (map.map Prod.fst).Pairwise (fun left right => less left right)) :
    ((assign less key value map).map Prod.fst).Pairwise (fun left right => less left right) := by
  induction map with
  | nil => simp [assign]
  | cons entry rest ih =>
    rw [map_cons, pairwise_cons] at ascending
    rw [assign]
    split
    · next same =>
        rw [map_cons, pairwise_cons, same]
        exact ascending
    · next differs =>
        split
        · next isLess =>
            rw [map_cons, pairwise_cons]
            refine ⟨?_, pairwise_cons.mpr ascending⟩
            exact forall_mem_cons.mpr
              ⟨isLess, fun other mem => transitive key entry.1 other isLess (ascending.1 other mem)⟩
        · next notLess =>
            rw [map_cons, pairwise_cons]
            refine ⟨?_, ih ascending.2⟩
            intro other mem
            rcases (mem_keys_assign less key other value rest).mp mem with rfl | mem
            · exact total other entry.1 differs (by simpa using notLess)
            · exact ascending.1 other mem

theorem lookup_of_mem {map : List (Key × Value)} (nodup : (map.map Prod.fst).Nodup)
    {entry : Key × Value} (mem : entry ∈ map) : map.lookup entry.1 = some entry.2 := by
  induction map with
  | nil => cases mem
  | cons first rest ih =>
    rw [map_cons, nodup_cons] at nodup
    rw [lookup_cons]
    rcases mem_cons.mp mem with rfl | mem
    · rw [if_pos rfl]
    · have differs : entry.1 ≠ first.1 := fun same =>
        nodup.1 (same ▸ mem_map_of_mem mem)
      rw [if_neg differs]
      exact ih nodup.2 mem

end PaimonCore.OrderedMaps
