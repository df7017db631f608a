import PaimonCore.Predicate.LeafFunction

/-!
# Predicate trees

`LeafPredicateImpl` and `CompoundPredicateImpl` with their tests of a row and of the
statistics of a file. AND and OR ask their children in order and stop at the first child
that decides.
-/

namespace PaimonCore.Predicates

inductive CompoundFunction where
  | and
  | or
  deriving DecidableEq, Repr

def CompoundFunction.negate : CompoundFunction → CompoundFunction
  | and => or
  | or => and

/-- The verdict of a child that ends the loop: false for AND, true for OR. -/
def CompoundFunction.decisive : CompoundFunction → Bool
  | and => false
  | or => true

inductive Predicate where
  | leaf (function : LeafFunction) (fieldIndex : Nat) (fieldType : FieldType)
      (literals : List Literal)
  | compound (function : CompoundFunction) (children : List Predicate)

abbrev Row := List (Option LiteralValue)

/-- `row_count`, `min_values`, `max_values` and `null_counts` of a file. -/
structure Stats where
  rowCount : Int
  minValues : Row
  maxValues : Row
  nullCounts : List (Option Int)

/-- `LiteralConverter::ConvertLiteralsFromRow` on a field that may be null. -/
def convertLiteralFromRow (row : Row) (fieldIndex : Nat) (fieldType : FieldType) :
    Except String Literal :=
  match row[fieldIndex]?.join with
  | none => .ok ⟨fieldType, none⟩
  | some value =>
    if fieldType.comparison.isSome then .ok ⟨fieldType, some value⟩
    else .error "Convert literal from row not valid"

def Stats.field (stats : Stats) (fieldIndex : Nat) (fieldType : FieldType) :
    Except String FieldStats := do
  let minValue ← convertLiteralFromRow stats.minValues fieldIndex fieldType
  let maxValue ← convertLiteralFromRow stats.maxValues fieldIndex fieldType
  return {
    rowCount := stats.rowCount
    minValue := minValue
    maxValue := maxValue
    nullCount := stats.nullCounts[fieldIndex]?.join }

def testLeaf (row : Row) (function : LeafFunction) (fieldIndex : Nat) (fieldType : FieldType)
    (literals : List Literal) : Except String Bool :=
  if row.length ≤ fieldIndex then
    .error ("field index " ++ toString fieldIndex ++ " exceed field count " ++
      toString row.length ++ " in row")
  else do
    let value ← convertLiteralFromRow row fieldIndex fieldType
    function.test value literals

def testLeafStats (stats : Stats) (function : LeafFunction) (fieldIndex : Nat)
    (fieldType : FieldType) (literals : List Literal) : Except String Bool := do
  let fieldStats ← stats.field fieldIndex fieldType
  function.testFieldStats fieldStats literals

/-- The loop of `And::Test` and `Or::Test` over the verdicts of the children. -/
def testChildren (decisive : Bool) : List (Except String Bool) → Except String Bool
  | [] => .ok !decisive
  | verdict :: verdicts => do
    if (← verdict) = decisive then return decisive
    testChildren decisive verdicts

namespace Predicate

def test (row : Row) : Predicate → Except String Bool
  | leaf function fieldIndex fieldType literals =>
    testLeaf row function fieldIndex fieldType literals
  | compound function children => testChildren function.decisive (children.map (test row))

/-- `Test(schema, row_count, min_values, max_values, null_counts)`. -/
def testStats (stats : Stats) : Predicate → Except String Bool
  | leaf function fieldIndex fieldType literals =>
    testLeafStats stats function fieldIndex fieldType literals
  | compound function children => testChildren function.decisive (children.map (testStats stats))

/-- `Negate`; `none` where a leaf has no negation. -/
def negate : Predicate → Option Predicate
  | leaf function fieldIndex fieldType literals => do
    let function ← function.negate
    return leaf function fieldIndex fieldType literals
  | compound function children => do
    let children ← (children.map negate).mapM id
    return compound function.negate children

def parts : Predicate → List Predicate
  | leaf function fieldIndex fieldType literals => [leaf function fieldIndex fieldType literals]
  | compound function children => compound function children :: (children.map parts).flatten

end Predicate

end PaimonCore.Predicates
