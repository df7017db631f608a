import Mathlib.Data.List.Nodup

/-!
# Insertion-ordered maps

A map that remembers the order in which its keys were first inserted: the pairs
in that order, with the keys distinct. Erasing a key keeps the order of the others.
-/

namespace PaimonCore

open List

structure LinkedHashMap (Key Value : Type*) where
  order : List (Key × Value)
  distinct : (order.map Prod.fst).Nodup

namespace LinkedHashMap

variable {Key Value : Type*}

def empty : LinkedHashMap Key Value := ⟨[], List.nodup_nil⟩

def values (map : LinkedHashMap Key Value) : List Value := map.order.map Prod.snd

def keys (map : LinkedHashMap Key Value) : List Key := map.order.map Prod.fst

/-- Erase from the front until at most `size` pairs are left. -/
def shrinkTo (map : LinkedHashMap Key Value) (size : Nat) : LinkedHashMap Key Value where
  order := map.order.drop (map.order.length - size)
  distinct := map.distinct.sublist ((List.drop_sublist _ _).map Prod.fst)

@[simp] theorem keys_empty : (empty : LinkedHashMap Key Value).keys = [] := rfl

@[simp] theorem values_empty : (empty : LinkedHashMap Key Value).values = [] := rfl

variable [DecidableEq Key]

def find (map : LinkedHashMap Key Value) (key : Key) : Option Value := map.order.lookup key

def erase (map : LinkedHashMap Key Value) (key : Key) : LinkedHashMap Key Value where
  order := map.order.filter (fun pair => pair.1 ≠ key)
  distinct := map.distinct.sublist (List.filter_sublist.map Prod.fst)

/-- `insert` leaves the map alone when the key is there already. -/
def insert (map : LinkedHashMap Key Value) (key : Key) (value : Value) : LinkedHashMap Key Value :=
  if present : key ∈ map.keys then map
  else
    { order := map.order ++ [(key, value)]
      distinct := by
        rw [List.map_append]
        refine List.nodup_append.mpr ⟨map.distinct, by simp, ?_⟩
        rintro other member _ single rfl
        simp only [List.map_cons, List.map_nil, List.mem_singleton] at single
        exact present (single ▸ member) }

/-- `insert_or_assign`: a present key keeps its place and takes the new value. -/
def insertOrAssign (map : LinkedHashMap Key Value) (key : Key) (value : Value) :
    LinkedHashMap Key Value :=
  if key ∈ map.keys then
    { order := map.order.map (fun pair => (pair.1, if pair.1 = key then value else pair.2))
      distinct := by
        rw [List.map_map]
        exact map.distinct }
  else map.insert key value

section
variable (map : LinkedHashMap Key Value)
include map

theorem order_insert_fresh (key : Key) (value : Value)
    (fresh : key ∉ map.keys) : (map.insert key value).order = map.order ++ [(key, value)] := by
  simp [insert, fresh]

theorem insert_present (key : Key) (value : Value) (present : key ∈ map.keys) :
    map.insert key value = map := by
  simp [insert, present]

theorem mem_keys_insert (key other : Key) (value : Value) :
    other ∈ (map.insert key value).keys ↔ other ∈ map.keys ∨ other = key := by
  by_cases present : key ∈ map.keys
  · rw [insert_present map key value present]
    constructor
    · exact Or.inl
    · intro either
      rcases either with mem | same
      · exact mem
      · exact same ▸ present
  · rw [keys, order_insert_fresh map key value present, map_append]
    simp [keys]

theorem find_eq_none_iff (key : Key) : map.find key = none ↔ key ∉ map.keys := by
  simp only [find, keys, lookup_eq_none_iff, mem_map, not_exists, not_and]
  constructor
  · intro absent pair mem same
    have ne := absent pair mem
    simp [same] at ne
  · intro absent pair mem
    have ne := absent pair mem
    simpa using Ne.symm ne

theorem mem_order_of_find (key : Key) (value : Value)
    (found : map.find key = some value) : (key, value) ∈ map.order := by
  rcases lookup_eq_some_iff.mp found with ⟨before, after, split, _⟩
  rw [split]
  simp

theorem find_insert_fresh (key other : Key) (value : Value) (fresh : key ∉ map.keys) :
    (map.insert key value).find other = if other = key then some value else map.find other := by
  have absent := (find_eq_none_iff map key).mpr fresh
  unfold find at absent ⊢
  rw [order_insert_fresh map key value fresh, lookup_append]
  by_cases same : other = key
  · simp [same, absent]
  · have noMatch : (other == key) = false := by simp [same]
    simp [same, lookup_cons, noMatch]

theorem find_insert_known {key other : Key} {value known : Value}
    (found : map.find other = some known) : (map.insert key value).find other = some known := by
  by_cases present : key ∈ map.keys
  · rw [insert_present map key value present]
    exact found
  · have ne : other ≠ key := by
      rintro rfl
      rw [(find_eq_none_iff map other).mpr present] at found
      cases found
    rw [find_insert_fresh map key other value present, if_neg ne]
    exact found

end

end LinkedHashMap

end PaimonCore
