import Mathlib.Data.List.Basic

/-!
# `ReaderUtils`

A batch comes with a bitmap of its valid rows, here one bit for each row.
`GenerateFilteredArrayVector` cuts the valid rows out of the batch as slices.
-/

namespace PaimonCore.ReaderUtils

open List

variable {Row : Type}

def validRows (batch : List (Row × Bool)) : List Row :=
  (batch.filter Prod.snd).map Prod.fst

def HasValidRow (batch : List (Row × Bool)) : Prop := batch.any Prod.snd = true

instance (batch : List (Row × Bool)) : Decidable (HasValidRow batch) :=
  inferInstanceAs (Decidable (batch.any Prod.snd = true))

/-- The valid rows, cut where a row between them is not. -/
def validStretches : List (Row × Bool) → List Row → List (List Row)
  | [], current => if current.isEmpty then [] else [current]
  | (row, true) :: rest, current => validStretches rest (current ++ [row])
  | (_, false) :: rest, current =>
    (if current.isEmpty then [] else [current]) ++ validStretches rest []

def generateFilteredArrayVector (batch : List (Row × Bool)) : Except String (List (List Row)) :=
  if batch.any Prod.snd then .ok (validStretches batch [])
  else .error "selection bitmap cannot be empty in GenerateFilteredArrayVector"

theorem valid_stretches_flatten (batch : List (Row × Bool)) (current : List Row) :
    (validStretches batch current).flatten = current ++ validRows batch := by
  induction batch generalizing current with
  | nil => cases current <;> simp [validStretches, validRows]
  | cons entry rest ih =>
    obtain ⟨row, valid⟩ := entry
    cases valid with
    | true => simp [validStretches, ih, validRows]
    | false => cases current <;> simp [validStretches, ih, validRows]

theorem valid_rows_nil_iff (batch : List (Row × Bool)) :
    validRows batch = [] ↔ ¬ HasValidRow batch := by
  simp [validRows, HasValidRow]

theorem has_valid_row {batch : List (Row × Bool)} (hasRows : validRows batch ≠ []) :
    HasValidRow batch :=
  not_not.mp (fun noRow => hasRows ((valid_rows_nil_iff batch).mpr noRow))

theorem valid_rows_length_le (batch : List (Row × Bool)) :
    (validRows batch).length ≤ batch.length := by
  rw [validRows, length_map]
  exact length_filter_le _ _

theorem generate_valid {batch : List (Row × Bool)} (valid : HasValidRow batch) :
    generateFilteredArrayVector batch = .ok (validStretches batch []) := if_pos valid

end PaimonCore.ReaderUtils
