import PaimonCore.Common.FieldsComparator
import PaimonCore.Library.Matchings

/-!
# Values of nested types

`VariantType` with rows, arrays and maps, and `FieldAggregateUtils::Equals`. Values of one type
have one form, so the form stands for the type that the source switches on. Two maps are equal if
their entries can be matched, and equality is an equivalence on all values.
-/

namespace PaimonCore.Aggregate

open Comparators PaimonCore.Fields Matchings

/-- A string is the list of its characters, a binary value is a scalar. -/
inductive Variant where
  | null
  | scalar (value : Value)
  | text (value : List Char)
  | row (fields : List Variant)
  | array (elements : List Variant)
  | map (entries : List (Variant × Variant))

def Variant.isNull : Variant → Bool
  | .null => true
  | _ => false

def getScalar : Variant → Value
  | .scalar value => value
  | _ => .boolean false

def getText : Variant → List Char
  | .text value => value
  | _ => []

def getRow : Variant → List Variant
  | .row fields => fields
  | _ => []

def getArray : Variant → List Variant
  | .array elements => elements
  | _ => []

def getMap : Variant → List (Variant × Variant)
  | .map entries => entries
  | _ => []

def equalScalars : Value → Value → Bool
  | .floating left, .floating right => compareFloatingPoint left right == .eq
  | left, right => left == right

mutual

def equals : Variant → Variant → Bool
  | .null, .null => true
  | .scalar left, .scalar right => equalScalars left right
  | .text left, .text right => left == right
  | .row left, .row right => equalAll left right
  | .array left, .array right => equalAll left right
  | .map left, .map right => equalMaps left right
  | _, _ => false
termination_by structural left => left

/-- `EqualRows` and `EqualArrays`. -/
def equalAll : List Variant → List Variant → Bool
  | [], [] => true
  | left :: lefts, right :: rights => equals left right && equalAll lefts rights
  | _, _ => false
termination_by structural lefts => lefts

def equalEntries : Variant × Variant → Variant × Variant → Bool
  | (key, value), (otherKey, otherValue) => equals key otherKey && equals value otherValue
termination_by structural entry => entry

/-- `EqualMaps`: every entry takes the first equal one that is not matched yet. -/
def equalMaps : List (Variant × Variant) → List (Variant × Variant) → Bool
  | [], others => others.isEmpty
  | entry :: rest, others =>
    match takeFirst (fun other => equalEntries entry other) others with
    | none => false
    | some left => equalMaps rest left
termination_by structural entries => entries

end

theorem compare_floating_point_eq (left right : Floating) :
    compareFloatingPoint left right = .eq ↔ left = right := by
  cases left with
  | nan =>
    cases right with
    | nan => simp [compareFloatingPoint]
    | number negative magnitude => simp [compareFloatingPoint]
  | number leftNegative left =>
    cases right with
    | nan => simp [compareFloatingPoint]
    | number rightNegative right =>
      simp only [compareFloatingPoint, signedMagnitude, Floating.number.injEq]
      cases leftNegative <;> cases rightNegative <;> grind

theorem equal_scalars_iff (left right : Value) : equalScalars left right = true ↔ left = right := by
  rw [equalScalars.eq_def]
  split
  · rw [beq_iff_eq, compare_floating_point_eq, Value.floating.injEq]
  · exact beq_iff_eq

theorem equal_maps_eq : equalMaps = matchAll equalEntries := by
  funext entries
  induction entries with
  | nil => rfl
  | cons entry rest ih =>
    funext others
    rw [equalMaps, matchAll, ih]
    cases takeFirst (equalEntries entry) others with
    | none => rfl
    | some left => rfl

mutual

theorem equals_central : ∀ value : Variant, Central equals value
  | .null => by
    have unit : Central (fun _ _ : Unit => true) () := central_of_eq (fun _ _ => by simp) ()
    exact @Central.wrapped Unit Variant _ equals (fun _ => .null)
      (fun _ other => by cases other <;> simp [equals])
      (fun _ other => by cases other <;> simp [equals]) () unit
  | .scalar value => by
    exact @Central.wrapped Value Variant equalScalars equals .scalar
      (fun _ other => by cases other <;> simp [equals])
      (fun _ other => by cases other <;> simp [equals]) value
        (central_of_eq equal_scalars_iff value)
  | .text value => by
    exact @Central.wrapped (List Char) Variant (· == ·) equals .text
      (fun _ other => by cases other <;> simp [equals])
      (fun _ other => by cases other <;> simp [equals]) value
        (central_of_eq (fun _ _ => beq_iff_eq) value)
  | .row fields => by
    exact @Central.wrapped (List Variant) Variant equalAll equals .row
      (fun _ other => by cases other <;> simp [equals])
      (fun _ other => by cases other <;> simp [equals]) fields (equal_all_central fields)
  | .array elements => by
    exact @Central.wrapped (List Variant) Variant equalAll equals .array
      (fun _ other => by cases other <;> simp [equals])
      (fun _ other => by cases other <;> simp [equals]) elements (equal_all_central elements)
  | .map entries => by
    have central : Central equalMaps entries := by
      rw [equal_maps_eq]
      exact match_all_central (entries_central entries)
    exact @Central.wrapped (List (Variant × Variant)) Variant equalMaps equals .map
      (fun _ other => by cases other <;> simp [equals])
      (fun _ other => by cases other <;> simp [equals]) entries central
termination_by structural value => value

theorem equal_all_central : ∀ values : List Variant, Central equalAll values
  | [] => by
    have unit : Central (fun _ _ : Unit => true) () := central_of_eq (fun _ _ => by simp) ()
    exact @Central.wrapped Unit (List Variant) _ equalAll (fun _ => [])
      (fun _ other => by cases other <;> simp [equalAll])
      (fun _ other => by cases other <;> simp [equalAll]) () unit
  | value :: rest => by
    have both := @Central.pair Variant (List Variant) equals equalAll
      (fun left right => equals left.1 right.1 && equalAll left.2 right.2) (fun _ _ => rfl)
      value rest (equals_central value) (equal_all_central rest)
    exact @Central.wrapped (Variant × List Variant) (List Variant) _ equalAll (fun pair =>
      pair.1 :: pair.2)
      (fun _ other => by cases other <;> simp [equalAll])
      (fun _ other => by cases other <;> simp [equalAll]) (value, rest) both
termination_by structural values => values

theorem entry_central : ∀ entry : Variant × Variant, Central equalEntries entry
  | (key, value) => by
    exact Central.pair (fun left right => by rw [equalEntries.eq_def]) (equals_central key)
      (equals_central value)
termination_by structural entry => entry

theorem entries_central :
    ∀ entries : List (Variant × Variant), ∀ entry ∈ entries, Central equalEntries entry
  | [] => by
    intro entry mem
    cases mem
  | entry :: rest => List.forall_mem_cons.mpr ⟨entry_central entry, entries_central rest⟩
termination_by structural entries => entries

end

end PaimonCore.Aggregate
