import PaimonCore.Predicate.Like
import PaimonCore.Predicate.Literal

/-!
# Leaf functions

Every leaf function has a test of one value and a test of the statistics of a file. The
binary ones and the ones with several literals are false on null.
-/

namespace PaimonCore.Predicates

inductive LeafFunction where
  | equal
  | notEqual
  | lessThan
  | lessOrEqual
  | greaterThan
  | greaterOrEqual
  | startsWith
  | endsWith
  | contains
  | like
  | inLiterals
  | notInLiterals
  | isNull
  | isNotNull
  deriving DecidableEq, Repr

/-- The statistics of one field: `none` for an unknown bound or count. -/
structure FieldStats where
  rowCount : Int
  minValue : Literal
  maxValue : Literal
  nullCount : Option Int

namespace LeafFunction

def negate : LeafFunction → Option LeafFunction
  | equal => some notEqual
  | notEqual => some equal
  | lessThan => some greaterOrEqual
  | lessOrEqual => some greaterThan
  | greaterThan => some lessOrEqual
  | greaterOrEqual => some lessThan
  | inLiterals => some notInLiterals
  | notInLiterals => some inLiterals
  | isNull => some isNotNull
  | isNotNull => some isNull
  | startsWith | endsWith | contains | like => none

/-- The functions derived from `NullFalseLeafBinaryFunction`. -/
def isBinary : LeafFunction → Bool
  | equal | notEqual | lessThan | lessOrEqual | greaterThan | greaterOrEqual => true
  | startsWith | endsWith | contains | like => true
  | inLiterals | notInLiterals | isNull | isNotNull => false

/-- The functions derived from `StringLeafBinaryFunction`. -/
def isString : LeafFunction → Bool
  | startsWith | endsWith | contains | like => true
  | _ => false

/-- What a comparison function asks of `field.CompareTo(literal)`. -/
def accepts : LeafFunction → Ordering → Bool
  | equal, verdict => verdict == .eq
  | notEqual, verdict => verdict != .eq
  | lessThan, verdict => verdict == .lt
  | lessOrEqual, verdict => verdict != .gt
  | greaterThan, verdict => verdict == .gt
  | greaterOrEqual, verdict => verdict != .lt
  | _, _ => false

def testString : LeafFunction → Bytes → Bytes → Except String Bool
  | startsWith, field, pattern => .ok (Predicates.startsWith field pattern)
  | endsWith, field, pattern => .ok (Predicates.endsWith field pattern)
  | contains, field, pattern => .ok (Predicates.contains field pattern)
  | _, field, pattern => Like.matchString field pattern

def missingLiteral : String := "NullFalseLeafBinaryFunction needs single literal for field"

def testField (function : LeafFunction) (field literal : Literal) : Except String Bool :=
  if function.isString then function.testString field.getString literal.getString
  else return function.accepts (← field.compareTo literal)

/-- The loops of `In` and `NotIn`: the first literal with a verdict decides. -/
def firstVerdict (otherwise : Bool) (verdictOf : Literal → Except String (Option Bool)) :
    List Literal → Except String Bool
  | [] => .ok otherwise
  | literal :: literals => do
    match ← verdictOf literal with
    | some verdict => return verdict
    | none => firstVerdict otherwise verdictOf literals

/-- `In::InnerTest(field, literals)`. -/
def testIn (field : Literal) : List Literal → Except String Bool :=
  firstVerdict false fun literal => do
    if literal.isNull then return none
    return if (← field.compareTo literal) = .eq then some true else none

/-- `NotIn::InnerTest(field, literals)`. -/
def testNotIn (field : Literal) : List Literal → Except String Bool :=
  firstVerdict true fun literal => do
    if literal.isNull then return some false
    return if (← field.compareTo literal) = .eq then some false else none

def test (function : LeafFunction) (value : Literal) (literals : List Literal) :
    Except String Bool :=
  match function with
  | isNull => .ok value.isNull
  | isNotNull => .ok !value.isNull
  | inLiterals => if value.isNull then .ok false else testIn value literals
  | notInLiterals => if value.isNull then .ok false else testNotIn value literals
  | _ =>
    match literals with
    | [] => .error missingLiteral
    | literal :: _ =>
      if literal.isNull || value.isNull then .ok false
      else function.testField value literal

/-- `Test(row_count, min_value, max_value, null_count, literal)` of a binary function. -/
def testRange (function : LeafFunction) (minValue maxValue literal : Literal) :
    Except String Bool :=
  match function with
  | equal => do
    let minRes ← literal.compareTo minValue
    let maxRes ← literal.compareTo maxValue
    return minRes != .lt && maxRes != .gt
  | notEqual => do
    let minRes ← literal.compareTo minValue
    let maxRes ← literal.compareTo maxValue
    return minRes != .eq || maxRes != .eq
  | lessThan => return (← literal.compareTo minValue) == .gt
  | lessOrEqual => return (← literal.compareTo minValue) != .lt
  | greaterThan => return (← literal.compareTo maxValue) == .lt
  | greaterOrEqual => return (← literal.compareTo maxValue) != .gt
  | startsWith =>
    let minStr := minValue.getString
    let maxStr := maxValue.getString
    let pattern := literal.getString
    .ok ((Predicates.startsWith minStr pattern || compare minStr pattern != .gt) &&
      (Predicates.startsWith maxStr pattern || compare maxStr pattern != .lt))
  | _ => .ok true

/-- `In::InnerTest(row_count, min_value, max_value, null_count, literals)`. -/
def testInRange (minValue maxValue : Literal) : List Literal → Except String Bool :=
  firstVerdict false fun literal => do
    if literal.isNull then return none
    let minRet ← literal.compareTo minValue
    let maxRet ← literal.compareTo maxValue
    return if minRet ≠ .lt ∧ maxRet ≠ .gt then some true else none

/-- `NotIn::InnerTest(row_count, min_value, max_value, null_count, literals)`. -/
def testNotInRange (minValue maxValue : Literal) : List Literal → Except String Bool :=
  firstVerdict true fun literal => do
    if literal.isNull then return some false
    let minRet ← literal.compareTo minValue
    let maxRet ← literal.compareTo maxValue
    return if minRet = .eq ∧ maxRet = .eq then some false else none

/-- `Test(row_count, min_value, max_value, null_count, literals)`. -/
def testStats (function : LeafFunction) (stats : FieldStats) (literals : List Literal) :
    Except String Bool :=
  match function with
  | isNull => .ok (stats.nullCount.all (0 < ·))
  | isNotNull => .ok (stats.nullCount.all (· < stats.rowCount))
  | inLiterals =>
    if stats.nullCount = some stats.rowCount then .ok false
    else testInRange stats.minValue stats.maxValue literals
  | notInLiterals =>
    if stats.nullCount = some stats.rowCount then .ok false
    else testNotInRange stats.minValue stats.maxValue literals
  | _ =>
    match literals with
    | [] => .error missingLiteral
    | literal :: _ =>
      if stats.nullCount.any (fun count => count = stats.rowCount || literal.isNull) then
        .ok false
      else function.testRange stats.minValue stats.maxValue literal

/-- `LeafPredicateImpl::Test` on the statistics of its field. -/
def testFieldStats (function : LeafFunction) (stats : FieldStats) (literals : List Literal) :
    Except String Bool :=
  if stats.nullCount ≠ some stats.rowCount ∧
    (stats.minValue.isNull || stats.maxValue.isNull) = true then .ok true
  else function.testStats stats literals

end LeafFunction

end PaimonCore.Predicates
