import Mathlib.Tactic.Linarith
import PaimonCore.Library.Comparators

/-!
# Rows and `FieldsComparator`

A row is the list of its fields; a `null` field is `none`. `CompareField` picks a comparison by
the Arrow type, `CompareTo` walks the sort fields. Nulls come first in both directions.
-/

namespace PaimonCore.Fields

open Std Comparators

/-- An IEEE number; `magnitude` is the bit pattern without the sign. -/
inductive Floating where
  | nan
  | number (negative : Bool) (magnitude : Nat)
  deriving DecidableEq, Repr

inductive Value where
  | boolean (value : Bool)
  | integer (value : Int)
  | floating (value : Floating)
  | bytes (value : List (Fin 256))
  | timestamp (millisecond nanoOfMillisecond : Int)
  | decimal (unscaled : Int)
  deriving DecidableEq, Repr

abbrev BinaryRow := List (Option Value)

instance : LawfulBEq BinaryRow := inferInstance

inductive FieldType where
  | bool
  | int8
  | int16
  | date32
  | int32
  | int64
  | float
  | double
  | string
  | binary
  | timestamp (precision : Nat)
  | decimal128 (precision scale : Nat)
  | unsupported (name : String)
  deriving DecidableEq, Repr

/-- `IsNullAt` and the field getters in one: `none` for a null field. -/
def fieldAt (row : BinaryRow) (index : Nat) : Option Value := row[index]?.join

def getBoolean : Value → Bool
  | .boolean value => value
  | _ => false

def getInteger : Value → Int
  | .integer value => value
  | _ => 0

def getFloating : Value → Floating
  | .floating value => value
  | _ => .number false 0

def getStringView : Value → List (Fin 256)
  | .bytes value => value
  | _ => []

def getTimestamp : Value → Int × Int
  | .timestamp millisecond nanoOfMillisecond => (millisecond, nanoOfMillisecond)
  | _ => (0, 0)

def getDecimal : Value → Int
  | .decimal unscaled => unscaled
  | _ => 0

def signedMagnitude (negative : Bool) (magnitude : Nat) : Int :=
  if negative then -(magnitude : Int) else magnitude

/-- `CompareFloatingPoint`: every NaN is equal and last, `-0.0 < +0.0`. -/
def compareFloatingPoint : Floating → Floating → Ordering
  | .nan, .nan => .eq
  | .nan, .number _ _ => .gt
  | .number _ _, .nan => .lt
  | .number leftNegative left, .number rightNegative right =>
    if signedMagnitude leftNegative left = signedMagnitude rightNegative right then
      if leftNegative = rightNegative then .eq
      else if leftNegative then .lt else .gt
    else if signedMagnitude leftNegative left < signedMagnitude rightNegative right then .lt
    else .gt

/-- `Timestamp` ordering: milliseconds, then the nanoseconds inside one. -/
def compareTimestamp (left right : Int × Int) : Ordering :=
  if left = right then .eq
  else if (if left.1 = right.1 then left.2 < right.2 else left.1 < right.1) then .lt
  else .gt

/-- `Decimal::CompareTo` for two values of one column, which share the scale. -/
def compareDecimal (scale : Nat) (left right : Int) : Ordering :=
  if 0 ≤ left ∧ ¬0 ≤ right then .gt
  else if ¬0 ≤ left ∧ 0 ≤ right then .lt
  else
    let leftIntegral := left.tdiv (10 ^ scale)
    let rightIntegral := right.tdiv (10 ^ scale)
    if leftIntegral < rightIntegral then .lt
    else if rightIntegral < leftIntegral then .gt
    else
      let leftFraction := left - leftIntegral * 10 ^ scale
      let rightFraction := right - rightIntegral * 10 ^ scale
      if leftFraction < rightFraction then .lt
      else if rightFraction < leftFraction then .gt
      else .eq

/-- `CompareField` on two non-null values; an unsupported type makes `Create` fail. -/
def compareField : FieldType → Option (Value → Value → Ordering)
  | .bool => some (along getBoolean compare)
  | .int8 | .int16 | .date32 | .int32 | .int64 => some (along getInteger compare)
  | .float | .double => some (along getFloating compareFloatingPoint)
  | .string | .binary => some (along getStringView compare)
  | .timestamp _ => some (along getTimestamp compareTimestamp)
  | .decimal128 _ scale => some (along getDecimal (compareDecimal scale))
  | .unsupported _ => none

/-- Numbers compare as these pairs do: NaN last, a negative number below the positive one, also at
zero. -/
def floatingRank : Floating → Bool × Int
  | .nan => (true, 0)
  | .number negative magnitude => (false, if negative then -(magnitude : Int) - 1 else magnitude)

/-- The shape of the floating point and the timestamp comparisons. -/
def comparePairs {Major Minor : Type} [Ord Major] [Ord Minor] :
    Major × Minor → Major × Minor → Ordering :=
  compareLex (compareOn Prod.fst) (compareOn Prod.snd)

instance {Major Minor : Type} [Ord Major] [Ord Minor] [TransOrd Major] [TransOrd Minor] :
    TransCmp (comparePairs : Major × Minor → Major × Minor → Ordering) :=
  inferInstanceAs (TransCmp (compareLex (compareOn Prod.fst) (compareOn Prod.snd)))

theorem compare_floating_point_eq_rank :
    compareFloatingPoint = along floatingRank comparePairs := by
  funext left right
  rcases left with _ | ⟨leftNegative, left⟩ <;> rcases right with _ | ⟨rightNegative, right⟩
  · rfl
  · rfl
  · rfl
  · simp only [compareFloatingPoint, along, floatingRank, comparePairs, compareLex, compareOn,
      signedMagnitude, ReflOrd.compare_self, Ordering.eq_then, Int.compare_eq_ite_lt]
    cases leftNegative <;> cases rightNegative <;> grind

instance : TransCmp compareFloatingPoint := by
  rw [compare_floating_point_eq_rank]
  infer_instance

theorem compare_timestamp_eq_pairs : compareTimestamp = comparePairs := by
  funext left right
  rcases left with ⟨leftMilli, leftNano⟩
  rcases right with ⟨rightMilli, rightNano⟩
  simp only [compareTimestamp, comparePairs, compareLex, compareOn, Prod.mk.injEq]
  by_cases sameMilli : leftMilli = rightMilli
  · simp only [sameMilli, ReflOrd.compare_self, Ordering.eq_then, true_and, if_true,
      Int.compare_eq_ite_lt]
    grind
  · simp only [sameMilli, Int.compare_eq_ite_lt, false_and, if_false]
    have apart : leftMilli < rightMilli ∨ rightMilli < leftMilli := by omega
    rcases apart with lower | higher
    · simp [lower]
    · simp [higher, show ¬leftMilli < rightMilli by omega]

instance : TransCmp compareTimestamp := by
  rw [compare_timestamp_eq_pairs]
  infer_instance

theorem decimal_split (scale : Nat) (unscaled : Int) :
    let rest := unscaled - unscaled.tdiv (10 ^ scale) * 10 ^ scale
    (0 ≤ unscaled → 0 ≤ rest ∧ rest < 10 ^ scale) ∧
      (unscaled < 0 → -(10 ^ scale) < rest ∧ rest ≤ 0) := by
  have base : (0 : Int) < 10 ^ scale := by positivity
  have division := Int.tdiv_mul_add_tmod unscaled (10 ^ scale)
  refine ⟨fun nonnegative => ?_, fun negative => ?_⟩
  · have lower := Int.tmod_nonneg (10 ^ scale) nonnegative
    have upper := Int.tmod_lt_of_pos unscaled base
    constructor <;> linarith
  · have opposite := Int.neg_tmod unscaled (10 ^ scale)
    have lower := Int.tmod_nonneg (10 ^ scale) (show 0 ≤ -unscaled by omega)
    have upper := Int.tmod_lt_of_pos (-unscaled) base
    constructor <;> linarith

/-- Integral parts and then fractions compare as the unscaled values, as truncation is monotone. -/
theorem compare_decimal_eq_compare (scale : Nat) : compareDecimal scale = compare := by
  funext left right
  have base : (0 : Int) < 10 ^ scale := by positivity
  have leftSplit := decimal_split scale left
  have rightSplit := decimal_split scale right
  rw [Int.compare_eq_ite_lt]
  simp only [compareDecimal]
  generalize left.tdiv (10 ^ scale) = leftIntegral at *
  generalize right.tdiv (10 ^ scale) = rightIntegral at *
  generalize (10 : Int) ^ scale = unit at *
  have leftLower : leftIntegral < rightIntegral →
      leftIntegral * unit + unit ≤ rightIntegral * unit := by
    intro lower
    nlinarith
  have rightLower : rightIntegral < leftIntegral →
      rightIntegral * unit + unit ≤ leftIntegral * unit := by
    intro lower
    nlinarith
  grind

instance (scale : Nat) : TransCmp (compareDecimal scale) := by
  rw [compare_decimal_eq_compare]
  infer_instance

/-- Every comparison that `CompareField` hands out is a total preorder. -/
theorem compare_field_lawful (fieldType : FieldType) (cmp : Value → Value → Ordering)
    (supported : compareField fieldType = some cmp) : TransCmp cmp := by
  cases fieldType <;> simp only [compareField, Option.some.injEq, reduceCtorEq] at supported <;>
    subst supported <;> infer_instance

theorem get_integer_lawful : TransCmp (along getInteger compare) :=
  compare_field_lawful .int32 _ rfl

/-- One entry of `sort_fields_`, with its comparator and the law it keeps. -/
structure SortField where
  index : Nat
  comparator : Value → Value → Ordering
  lawful : TransCmp comparator

structure FieldsComparator where
  isAscendingOrder : Bool
  sortFields : List SortField

def createSortFields : Nat → List FieldType → Except String (List SortField)
  | _, [] => .ok []
  | index, fieldType :: rest =>
    match supported : compareField fieldType with
    | none =>
      let name := match fieldType with
        | .unsupported name => name
        | _ => ""
      .error ("Do not support comparing " ++ name ++ " type in idx " ++ toString index)
    | some comparator => do
      let lawful := compare_field_lawful fieldType comparator supported
      let fields ← createSortFields (index + 1) rest
      .ok ({ index, comparator, lawful } :: fields)

def FieldsComparator.create (inputDataField : List FieldType) (isAscendingOrder : Bool) :
    Except String FieldsComparator := do
  let sortFields ← createSortFields 0 inputDataField
  .ok { isAscendingOrder, sortFields }

def compareFieldsTo (isAscendingOrder : Bool) : List SortField → BinaryRow → BinaryRow → Ordering
  | [], _, _ => .eq
  | field :: rest, lhs, rhs =>
    match fieldAt lhs field.index, fieldAt rhs field.index with
    | none, none => compareFieldsTo isAscendingOrder rest lhs rhs
    | none, some _ => .lt
    | some _, none => .gt
    | some left, some right =>
      match field.comparator left right with
      | .eq => compareFieldsTo isAscendingOrder rest lhs rhs
      | verdict => if isAscendingOrder then verdict else verdict.swap

def FieldsComparator.compareTo (comparator : FieldsComparator) (lhs rhs : BinaryRow) : Ordering :=
  compareFieldsTo comparator.isAscendingOrder comparator.sortFields lhs rhs

/-- One field of the walk: nulls first, then the values in the chosen direction. -/
def SortField.compareRows (isAscendingOrder : Bool) (field : SortField) :
    BinaryRow → BinaryRow → Ordering :=
  along (fieldAt · field.index) (nullsFirst (directed isAscendingOrder field.comparator))

theorem compare_fields_to_eq_first_difference (isAscendingOrder : Bool)
    (sortFields : List SortField) : compareFieldsTo isAscendingOrder sortFields =
      firstDifference (sortFields.map (SortField.compareRows isAscendingOrder)) := by
  induction sortFields with
  | nil => rfl
  | cons field rest ih =>
    funext lhs rhs
    simp only [compareFieldsTo, ih, List.map_cons, firstDifference, SortField.compareRows, along]
    cases fieldAt lhs field.index <;> cases fieldAt rhs field.index <;>
      simp only [nullsFirst, directed, Ordering.eq_then, Ordering.lt_then, Ordering.gt_then]
    case some.some left right =>
      cases field.comparator left right <;> cases isAscendingOrder <;> rfl

instance (comparator : FieldsComparator) : TransCmp comparator.compareTo := by
  have walk : comparator.compareTo = firstDifference
      (comparator.sortFields.map (SortField.compareRows comparator.isAscendingOrder)) :=
    compare_fields_to_eq_first_difference _ _
  rw [walk]
  apply first_difference_lawful
  intro compareRows member
  obtain ⟨field, _, rfl⟩ := List.mem_map.mp member
  have fieldLawful := field.lawful
  exact inferInstanceAs (TransCmp (along (fieldAt · field.index)
    (nullsFirst (directed comparator.isAscendingOrder field.comparator))))

theorem FieldsComparator.empty_row_le (cmp : FieldsComparator) (row : BinaryRow) :
    (cmp.compareTo [] row).isLE = true := by
  unfold compareTo
  induction cmp.sortFields with
  | nil => rfl
  | cons field rest ih =>
    rw [compareFieldsTo]
    cases fieldAt row field.index with
    | none => exact ih
    | some value => rfl

theorem FieldsComparator.create_direction {types : List FieldType} {direction : Bool}
    {cmp : FieldsComparator} (created : create types direction = .ok cmp)
    (other : Bool) : create types other = .ok { cmp with isAscendingOrder := other } := by
  unfold create at created ⊢
  cases fields : createSortFields 0 types with
  | error message => simp [fields, Bind.bind, Except.bind] at created
  | ok sortFields =>
    simp only [fields, Bind.bind, Except.bind, Except.ok.injEq] at created
    rw [← created]
    rfl

theorem compare_field_separates (fieldType : FieldType)
    (cmp : Value → Value → Ordering) (supported : compareField fieldType = some cmp) :
    ∃ low high, cmp low high = .lt := by
  cases fieldType <;> simp only [compareField, Option.some.injEq, reduceCtorEq] at supported <;>
    subst supported
  case bool => exact ⟨.boolean false, .boolean true, rfl⟩
  case int8 | int16 | date32 | int32 | int64 => exact ⟨.integer 0, .integer 1, rfl⟩
  case float | double =>
    exact ⟨.floating (.number false 0), .floating (.number false 1), rfl⟩
  case string | binary => exact ⟨.bytes [], .bytes [0], rfl⟩
  case timestamp => exact ⟨.timestamp 0 0, .timestamp 1 0, rfl⟩
  case decimal128 precision scale =>
    rw [compare_decimal_eq_compare]
    exact ⟨.decimal 0, .decimal 1, rfl⟩

theorem FieldsComparator.exists_separated {types : List FieldType} {cmp : FieldsComparator}
    (nonempty : types ≠ []) (created : create types true = .ok cmp) :
    ∃ low high, cmp.compareTo low high = .lt ∧
      compareTo { cmp with isAscendingOrder := false } high low = .lt := by
  cases types with
  | nil => exact absurd rfl nonempty
  | cons fieldType rest =>
    unfold create createSortFields at created
    split at created
    case h_1 => simp [Bind.bind, Except.bind] at created
    case h_2 fieldComparator supported =>
      cases fields : createSortFields (0 + 1) rest with
      | error message => simp [fields, Bind.bind, Except.bind] at created
      | ok sortFields =>
        simp only [fields, Bind.bind, Except.bind, Except.ok.injEq] at created
        rcases compare_field_separates fieldType fieldComparator supported with
          ⟨low, high, lower⟩
        have lawful := compare_field_lawful fieldType fieldComparator supported
        have upper : fieldComparator high low = .gt := OrientedCmp.gt_of_lt lower
        use [some low], [some high]
        rw [← created]
        constructor
        · simp [compareTo, compareFieldsTo, fieldAt, lower]
        · simp [compareTo, compareFieldsTo, fieldAt, upper]

end PaimonCore.Fields
