import Mathlib.Tactic.Positivity
import Mathlib.Tactic.Ring
import PaimonCore.Common.FieldsComparator

/-!
# Literals

A `Literal` is a field type and a value, or no value for null. Numbers of the integer
types and dates are integers, strings and binaries are bytes. Decimals carry their scale:
`Decimal::CompareTo` works on any two of them and goes by their values.
-/

namespace PaimonCore.Predicates

open Std
open PaimonCore.Comparators (along)
open PaimonCore.Fields (Floating compareFloatingPoint compareTimestamp)

inductive FieldType where
  | boolean
  | tinyint
  | smallint
  | int
  | bigint
  | float
  | double
  | string
  | binary
  | timestamp
  | decimal
  | date
  | array
  | map
  | struct
  | blob
  | variant
  | vector
  | unknown
  deriving DecidableEq, Repr

/-- A value of at most `MAX_PRECISION` digits. -/
structure Decimal where
  unscaled : Int
  scale : Nat
  fits : unscaled.natAbs < 10 ^ 38
  scaled : scale ≤ 38
  deriving DecidableEq

namespace Decimal

def downScaleInt128 (value : Int) (scale : Nat) : Int := value.tdiv (10 ^ scale)

def scaleInt128 (value : Int) (scale : Nat) : Int × Bool :=
  if 2 ^ 127 - 1 < value * 10 ^ scale then (2 ^ 127 - 1, true)
  else if value * 10 ^ scale < -2 ^ 127 then (-2 ^ 127, true)
  else (value * 10 ^ scale, false)

def compareTo (left right : Decimal) : Ordering :=
  if 0 ≤ left.unscaled ∧ ¬0 ≤ right.unscaled then .gt
  else if ¬0 ≤ left.unscaled ∧ 0 ≤ right.unscaled then .lt
  else
    let leftIntegral := downScaleInt128 left.unscaled left.scale
    let rightIntegral := downScaleInt128 right.unscaled right.scale
    if leftIntegral < rightIntegral then .lt
    else if rightIntegral < leftIntegral then .gt
    else
      let leftRest := left.unscaled - (scaleInt128 leftIntegral left.scale).1
      let rightRest := right.unscaled - (scaleInt128 rightIntegral right.scale).1
      if right.scale < left.scale then
        let (rightRest, overflow) := scaleInt128 rightRest (left.scale - right.scale)
        if overflow then (if 0 ≤ left.unscaled then .lt else .gt)
        else compare leftRest rightRest
      else
        let (leftRest, overflow) := scaleInt128 leftRest (right.scale - left.scale)
        if overflow then (if 0 ≤ left.unscaled then .gt else .lt)
        else compare leftRest rightRest

def fine (decimal : Decimal) : Int := decimal.unscaled * 10 ^ (38 - decimal.scale)

theorem scale_int128_exact {value : Int} {scale : Nat}
    (small : (value * 10 ^ scale).natAbs < 10 ^ 38) :
    scaleInt128 value scale = (value * 10 ^ scale, false) := by
  unfold scaleInt128
  rw [if_neg (by omega), if_neg (by omega)]

theorem compare_scaled {left right unit : Int} (pos : 0 < unit) :
    compare (left * unit) (right * unit) = compare left right := by
  simp only [Int.compare_eq_ite_lt, mul_lt_mul_iff_of_pos_right pos]

/-- What `DownScaleInt128` cuts off, on the finest scale. -/
def fraction (decimal : Decimal) : Int :=
  (decimal.unscaled - downScaleInt128 decimal.unscaled decimal.scale * 10 ^ decimal.scale) *
    10 ^ (38 - decimal.scale)

section
variable (decimal : Decimal)
include decimal

theorem fine_eq :
    decimal.fine = downScaleInt128 decimal.unscaled decimal.scale * 10 ^ 38 + decimal.fraction := by
  have split : (10 : Int) ^ 38 = 10 ^ decimal.scale * 10 ^ (38 - decimal.scale) := by
    rw [← pow_add, Nat.add_sub_cancel' decimal.scaled]
  unfold fine fraction
  rw [split]
  ring

theorem fraction_bounds :
    (0 ≤ decimal.unscaled → 0 ≤ decimal.fraction ∧ decimal.fraction < 10 ^ 38) ∧
      (decimal.unscaled < 0 → -10 ^ 38 < decimal.fraction ∧ decimal.fraction ≤ 0) := by
  have split : (10 : Int) ^ 38 = 10 ^ decimal.scale * 10 ^ (38 - decimal.scale) := by
    rw [← pow_add, Nat.add_sub_cancel' decimal.scaled]
  have unit : (0 : Int) < 10 ^ (38 - decimal.scale) := by positivity
  rcases Fields.decimal_split decimal.scale decimal.unscaled with ⟨upper, lower⟩
  rw [split]
  constructor
  · intro nonnegative
    have bounds := upper nonnegative
    constructor
    · exact mul_nonneg bounds.1 unit.le
    · exact mul_lt_mul_of_pos_right bounds.2 unit
  · intro negative
    have bounds := lower negative
    constructor
    · rw [← neg_mul]
      exact mul_lt_mul_of_pos_right bounds.1 unit
    · exact mul_nonpos_of_nonpos_of_nonneg bounds.2 unit.le

theorem integral_exact :
    scaleInt128 (downScaleInt128 decimal.unscaled decimal.scale) decimal.scale =
      (downScaleInt128 decimal.unscaled decimal.scale * 10 ^ decimal.scale, false) := by
  apply scale_int128_exact
  apply Nat.lt_of_le_of_lt _ decimal.fits
  unfold downScaleInt128
  rw [Int.natAbs_mul, Int.natAbs_tdiv]
  exact Nat.div_mul_le_self _ _

theorem rest_exact {scale : Nat} (finer : decimal.scale ≤ scale) (scaled : scale ≤ 38) :
    scaleInt128 (decimal.unscaled - downScaleInt128 decimal.unscaled decimal.scale *
        10 ^ decimal.scale) (scale - decimal.scale) =
      ((decimal.unscaled - downScaleInt128 decimal.unscaled decimal.scale *
        10 ^ decimal.scale) * 10 ^ (scale - decimal.scale), false) := by
  apply scale_int128_exact
  have small : (decimal.unscaled - downScaleInt128 decimal.unscaled decimal.scale *
      10 ^ decimal.scale).natAbs < 10 ^ decimal.scale := by
    rcases Fields.decimal_split decimal.scale decimal.unscaled with ⟨upper, lower⟩
    have cast : ((10 ^ decimal.scale : Nat) : Int) = 10 ^ decimal.scale := by norm_cast
    unfold downScaleInt128
    by_cases nonnegative : 0 ≤ decimal.unscaled
    · omega
    · omega
  rw [Int.natAbs_mul]
  calc _ < 10 ^ decimal.scale * 10 ^ (scale - decimal.scale) :=
        Nat.mul_lt_mul_of_pos_right small (by positivity)
    _ = 10 ^ scale := by rw [← pow_add, Nat.add_sub_cancel' finer]
    _ ≤ 10 ^ 38 := Nat.pow_le_pow_right (by decide) scaled

theorem rest_on_fine {scale : Nat} (finer : decimal.scale ≤ scale)
    (scaled : scale ≤ 38) : (decimal.unscaled - downScaleInt128 decimal.unscaled decimal.scale *
        10 ^ decimal.scale) * 10 ^ (scale - decimal.scale) * 10 ^ (38 - scale) =
      decimal.fraction := by
  have exponents : 38 - decimal.scale = (scale - decimal.scale) + (38 - scale) := by omega
  unfold fraction
  rw [exponents]
  ring

end

theorem compare_to_eq (left right : Decimal) :
    compareTo left right = compare left.fine right.fine := by
  have leftBounds := left.fraction_bounds
  have rightBounds := right.fraction_bounds
  have rests :
      downScaleInt128 left.unscaled left.scale = downScaleInt128 right.unscaled right.scale →
      compare left.fine right.fine = compare left.fraction right.fraction := by
    intro same
    rw [fine_eq, fine_eq, same, Int.compare_eq_ite_lt, Int.compare_eq_ite_lt]
    simp
  unfold compareTo
  split
  · rename_i signs
    have upper : 0 ≤ left.fine := mul_nonneg signs.1 (by positivity)
    have lower : right.fine < 0 := mul_neg_of_neg_of_pos (by omega) (by positivity)
    exact (Int.compare_eq_gt.mpr (by omega)).symm
  split
  · rename_i signs
    have lower : left.fine < 0 := mul_neg_of_neg_of_pos (by omega) (by positivity)
    have upper : 0 ≤ right.fine := mul_nonneg signs.2 (by positivity)
    exact (Int.compare_eq_lt.mpr (by omega)).symm
  -- from here on both sides have one sign, so the integral parts decide unless they are equal
  dsimp only
  split
  · apply Eq.symm
    rw [fine_eq, fine_eq, Int.compare_eq_lt]
    by_cases nonnegative : 0 ≤ left.unscaled <;> omega
  split
  · apply Eq.symm
    rw [fine_eq, fine_eq, Int.compare_eq_gt]
    by_cases nonnegative : 0 ≤ left.unscaled <;> omega
  rw [rests (by omega), integral_exact, integral_exact]
  split
  · rename_i finer
    rw [rest_exact right finer.le left.scaled]
    have unit : (0 : Int) < 10 ^ (38 - left.scale) := by positivity
    rw [← compare_scaled unit, rest_on_fine right finer.le left.scaled]
    rfl
  · rename_i coarser
    have finer : left.scale ≤ right.scale := Nat.le_of_not_lt coarser
    rw [rest_exact left finer right.scaled]
    have unit : (0 : Int) < 10 ^ (38 - right.scale) := by positivity
    rw [← compare_scaled unit, rest_on_fine left finer right.scaled]
    rfl

instance decimal_comparison : TransCmp compareTo := by
  have byValue : compareTo = along fine compare := by
    funext left right
    exact compare_to_eq left right
  rw [byValue]
  infer_instance

end Decimal

inductive LiteralValue where
  | boolean (value : Bool)
  | integer (value : Int)
  | floating (value : Floating)
  | bytes (value : List (Fin 256))
  | timestamp (millisecond nanoOfMillisecond : Int)
  | decimal (value : Decimal)
  deriving DecidableEq

structure Literal where
  fieldType : FieldType
  value : Option LiteralValue
  deriving DecidableEq

namespace LiteralValue

def getBoolean : LiteralValue → Bool
  | .boolean value => value
  | _ => false

def getInteger : LiteralValue → Int
  | .integer value => value
  | _ => 0

def getFloating : LiteralValue → Floating
  | .floating value => value
  | _ => .number false 0

def getString : LiteralValue → List (Fin 256)
  | .bytes value => value
  | _ => []

def getTimestamp : LiteralValue → Int × Int
  | .timestamp millisecond nanoOfMillisecond => (millisecond, nanoOfMillisecond)
  | _ => (0, 0)

def getDecimal : LiteralValue → Decimal
  | .decimal value => value
  | _ => ⟨0, 0, by decide, by decide⟩

end LiteralValue

/-- `none` where `CompareTo` knows the type not. -/
def FieldType.comparison : FieldType → Option (LiteralValue → LiteralValue → Ordering)
  | .boolean => some (along LiteralValue.getBoolean compare)
  | .tinyint | .smallint | .int | .bigint | .date => some (along LiteralValue.getInteger compare)
  | .float | .double => some (along LiteralValue.getFloating compareFloatingPoint)
  | .string | .binary => some (along LiteralValue.getString compare)
  | .timestamp => some (along LiteralValue.getTimestamp compareTimestamp)
  | .decimal => some (along LiteralValue.getDecimal Decimal.compareTo)
  | _ => none

theorem comparison_lawful {fieldType : FieldType}
    {comparison : LiteralValue → LiteralValue → Ordering}
    (supported : fieldType.comparison = some comparison) : TransCmp comparison := by
  cases fieldType <;> simp only [FieldType.comparison, Option.some.injEq, reduceCtorEq]
    at supported <;> subst supported <;> infer_instance

namespace Literal

def isNull (literal : Literal) : Bool := literal.value.isNone

def compareTo (literal other : Literal) : Except String Ordering :=
  if literal.fieldType ≠ other.fieldType then .error "cannot compare with different type"
  else
    match literal.value, other.value with
    | none, none => .ok .eq
    | none, some _ => .error "cannot compare with null"
    | some _, none => .error "cannot compare with null"
    | some left, some right =>
      match literal.fieldType.comparison with
      | some comparison => .ok (comparison left right)
      | none => .error "unsupported type"

/-- `GetValue<std::string>`; the buffer of a null literal is empty. -/
def getString (literal : Literal) : List (Fin 256) :=
  (literal.value.map LiteralValue.getString).getD []

end Literal

end PaimonCore.Predicates
