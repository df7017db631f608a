import Mathlib.Algebra.Ring.Nat
import PaimonCore.Read.ReaderUtils

/-!
# The cached arrays of one inner reader

`DataEvolutionFileReader` keeps, for each reader it zips, the valid rows that were read and
not yet emitted: a queue of slices that is filled batch by batch and emptied from the front.
-/

namespace PaimonCore.DataEvolution

open List ReaderUtils

variable {Value : Type}

/-- The cells of one row of an inner reader; `none` is null. -/
abbrev InnerRow (Value : Type) := List (Option Value)

/-- A batch of an inner reader, each row with its bit in the bitmap of valid rows. -/
abbrev Batch (Value : Type) := List (InnerRow Value × Bool)

/-- The batches still to return, and the cached arrays of the ones before. -/
structure InnerReader (Value : Type) where
  batches : List (Batch Value)
  cachedArrays : List (List (InnerRow Value)) := []
  eof : Bool := false

namespace InnerReader

/-- The loop of `EnsureCachedArray`. -/
def fillCache : List (Batch Value) → Except String (Bool × InnerReader Value)
  | [] => .ok (false, ⟨[], [], true⟩)
  | batch :: rest =>
    match generateFilteredArrayVector batch with
    | .error error => .error error
    | .ok arrays =>
      match arrays.filter (fun array => !array.isEmpty) with
      | [] => fillCache rest
      | cached => .ok (true, ⟨rest, cached, false⟩)

def ensureCachedArray (reader : InnerReader Value) : Except String (Bool × InnerReader Value) :=
  if reader.cachedArrays.isEmpty = false then .ok (true, reader)
  else if reader.eof then .ok (false, reader)
  else fillCache reader.batches

def cachedArrayLength (reader : InnerReader Value) : Nat :=
  (reader.cachedArrays.map List.length).sum

/-- The loop of `TakeCachedArray`: whole arrays, and the first rows of the one after. -/
def takeArrays :
    Nat → List (List (InnerRow Value)) → List (List (InnerRow Value)) × List (List (InnerRow Value))
  | _, [] => ([], [])
  | remaining, array :: rest =>
    if remaining = 0 then ([], array :: rest)
    else if array.length ≤ remaining then
      let (selected, later) := takeArrays (remaining - array.length) rest
      (array :: selected, later)
    else ([array.take remaining], array.drop remaining :: rest)

def takeCachedArray (arrayLength : Nat) (reader : InnerReader Value) :
    Except String (List (InnerRow Value) × InnerReader Value) :=
  if arrayLength = 0 then .error "array length must be larger than zero"
  else if reader.cachedArrayLength < arrayLength then
    .error "requested array length exceeds cached array length"
  else
    let (selected, later) := takeArrays arrayLength reader.cachedArrays
    -- A single array is returned as it is, without the check of the length.
    if selected.length ≠ 1 ∧ selected.flatten.length ≠ arrayLength then
      .error "concatenated array length does not match requested array length"
    else .ok (selected.flatten, { reader with cachedArrays := later })

end InnerReader

namespace InnerReader

def pending (reader : InnerReader Value) : List (InnerRow Value) :=
  reader.cachedArrays.flatten ++ (reader.batches.map validRows).flatten

def Promising (reader : InnerReader Value) : Prop :=
  ∀ batch ∈ reader.batches, HasValidRow batch

structure WellFormed (reader : InnerReader Value) : Prop where
  cached : ∀ array ∈ reader.cachedArrays, array ≠ []
  ended : reader.eof = true → reader.batches = []

structure Ensured (reader : InnerReader Value) (available : Bool) (next : InnerReader Value) :
    Prop where
  wellFormed : next.WellFormed
  pending : next.pending = reader.pending
  promising : next.Promising ↔ reader.Promising
  cached : available = true → next.cachedArrays ≠ []
  ended : available = false → next.pending = [] ∧ next.Promising

theorem flatten_drop_empty {Item : Type} (arrays : List (List Item)) :
    (arrays.filter (fun array => !array.isEmpty)).flatten = arrays.flatten := by
  induction arrays with
  | nil => rfl
  | cons array rest ih => cases array <;> simp [ih]

theorem fill_cache_error {batches : List (Batch Value)} {error : String}
    (failed : fillCache batches = .error error) : ∃ batch ∈ batches, ¬ HasValidRow batch := by
  induction batches with
  | nil => simp [fillCache] at failed
  | cons batch rest ih =>
    by_cases valid : HasValidRow batch
    · rw [fillCache, generate_valid valid] at failed
      dsimp only at failed
      split at failed
      · obtain ⟨other, mem, invalid⟩ := ih failed
        exact ⟨other, mem_cons_of_mem batch mem, invalid⟩
      · cases failed
    · exact ⟨batch, mem_cons_self, valid⟩

variable {next : InnerReader Value}

theorem fill_cache_ok {batches : List (Batch Value)} {available : Bool}
    (filled : fillCache batches = .ok (available, next)) :
    Ensured ⟨batches, [], false⟩ available next := by
  induction batches with
  | nil =>
    cases filled
    exact ⟨⟨by simp, fun _ => rfl⟩,
      rfl, by simp [Promising], by simp, by simp [InnerReader.pending, Promising]⟩
  | cons batch rest ih =>
    by_cases valid : HasValidRow batch
    · rw [fillCache, generate_valid valid] at filled
      have rows := flatten_drop_empty (validStretches batch [])
      rw [valid_stretches_flatten] at rows
      dsimp only at filled
      split at filled
      · -- A batch with a valid row has a stretch that is not empty.
        next nothing =>
          rw [nothing] at rows
          exact absurd valid ((valid_rows_nil_iff batch).mp rows.symm)
      · next some_array =>
          cases filled
          refine ⟨⟨?_, by simp⟩, ?_, ?_, fun _ => some_array, by simp⟩
          · intro array mem
            simpa using (mem_filter.mp mem).2
          · simp only [InnerReader.pending, rows, flatten_nil, nil_append, map_cons, flatten_cons]
          · simp [Promising, valid]
    · have invalid : ¬batch.any Prod.snd = true := valid
      rw [fillCache, generateFilteredArrayVector, if_neg invalid] at filled
      cases filled

variable {reader : InnerReader Value}

theorem ensure_error {error : String} (failed : reader.ensureCachedArray = .error error) :
    ¬ reader.Promising := by
  unfold ensureCachedArray at failed
  split at failed
  · cases failed
  · split at failed
    · cases failed
    · obtain ⟨batch, mem, invalid⟩ := fill_cache_error failed
      exact fun promising => invalid (promising batch mem)

theorem ensure_ok (wellFormed : reader.WellFormed) {available : Bool}
    (done : reader.ensureCachedArray = .ok (available, next)) : reader.Ensured available next := by
  obtain ⟨batches, cachedArrays, eof⟩ := reader
  cases cachedArrays with
  | cons array rest =>
    cases done
    exact ⟨wellFormed, rfl, Iff.rfl, by simp, by simp⟩
  | nil =>
    cases eof with
    | true =>
      cases done
      have none_left : batches = [] := wellFormed.ended rfl
      subst none_left
      exact ⟨wellFormed, rfl, Iff.rfl, by simp, by simp [InnerReader.pending, Promising]⟩
    | false => exact fill_cache_ok done

theorem take_arrays_spec (count : Nat) (arrays : List (List (InnerRow Value)))
    (nonempty : ∀ array ∈ arrays, array ≠ []) :
    (takeArrays count arrays).1.flatten = arrays.flatten.take count ∧
      (takeArrays count arrays).2.flatten = arrays.flatten.drop count ∧
      ∀ array ∈ (takeArrays count arrays).2, array ≠ [] := by
  induction arrays generalizing count with
  | nil => simp [takeArrays]
  | cons array rest ih =>
    have later : ∀ other ∈ rest, other ≠ [] := fun other mem =>
      nonempty other (mem_cons_of_mem array mem)
    unfold takeArrays
    by_cases zero : count = 0
    · subst zero
      simpa using nonempty
    · rw [if_neg zero]
      by_cases whole : array.length ≤ count
      · rw [if_pos whole]
        obtain ⟨taken, left, kept⟩ := ih (count - array.length) later
        refine ⟨?_, ?_, kept⟩
        · rw [flatten_cons, flatten_cons, taken, take_append, take_of_length_le whole]
        · rw [flatten_cons, left, drop_append, drop_eq_nil_of_le whole, nil_append]
      · rw [if_neg whole]
        have short : count ≤ array.length := by omega
        refine ⟨?_, ?_, ?_⟩
        · simp [take_append_of_le_length short]
        · simp [drop_append_of_le_length short]
        · refine forall_mem_cons.mpr ⟨?_, later⟩
          intro gone
          have := drop_eq_nil_iff.mp gone
          omega

theorem cached_array_length_eq (reader : InnerReader Value) :
    reader.cachedArrayLength = reader.cachedArrays.flatten.length := by
  rw [cachedArrayLength, length_flatten]

theorem cached_array_length_le (reader : InnerReader Value) :
    reader.cachedArrayLength ≤ reader.pending.length := by
  rw [cached_array_length_eq, pending, length_append]
  exact Nat.le_add_right _ _

theorem Ensured.cached_pos (ensured : reader.Ensured true next) : 0 < next.cachedArrayLength := by
  cases arrays : next.cachedArrays with
  | nil => exact absurd arrays (ensured.cached rfl)
  | cons array rest =>
    have nonempty := ensured.wellFormed.cached array (by simp [arrays])
    have counted := length_pos_iff.mpr nonempty
    simp only [cachedArrayLength, arrays, map_cons, sum_cons]
    omega

theorem take_cached_array (wellFormed : reader.WellFormed) {count : Nat} (pos : 0 < count)
    (enough : count ≤ reader.cachedArrayLength) :
    ∃ next, reader.takeCachedArray count = .ok (reader.pending.take count, next) ∧
      next.WellFormed ∧ next.pending = reader.pending.drop count ∧
      (next.Promising ↔ reader.Promising) := by
  obtain ⟨taken, left, kept⟩ := take_arrays_spec count reader.cachedArrays wellFormed.cached
  rw [cached_array_length_eq] at enough
  have exact_count : (takeArrays count reader.cachedArrays).1.flatten.length = count := by
    rw [taken, length_take, Nat.min_eq_left enough]
  refine ⟨{ reader with cachedArrays := (takeArrays count reader.cachedArrays).2 }, ?_,
    ⟨kept, wellFormed.ended⟩, ?_, Iff.rfl⟩
  · rw [takeCachedArray, if_neg (by omega), cached_array_length_eq, if_neg (by omega)]
    dsimp only
    rw [if_neg (fun wrong => wrong.2 exact_count), taken, pending, take_append_of_le_length enough]
  · simp only [pending, left]
    rw [drop_append_of_le_length enough]

end InnerReader

end PaimonCore.DataEvolution
