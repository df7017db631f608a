import PaimonCore.MergeTree.MergeFunction

/-!
# `FieldAggregator` and `AggregateMergeFunction`

A `VariantType` is a value of any type that has a null. The merge engines take the values of a
`BinaryRow`, the laws of the single aggregators nested ones.
-/

namespace PaimonCore.MergeTree

open PaimonCore.Fields List

class Nullable (Cell : Type) where
  null : Cell
  isNull : Cell → Bool

instance : Nullable (Option Value) := ⟨none, Option.isNone⟩

/-- The value aggregated so far, and `initialized_` of the two that keep a first value. -/
structure Accumulator (Cell : Type) where
  value : Cell
  initialized : Bool

structure FieldAggregator (Cell : Type) where
  agg : Accumulator Cell → Cell → Except String (Accumulator Cell)
  retract : Cell → Cell → Except String Cell
  aggReversed : Accumulator Cell → Cell → Except String (Accumulator Cell) :=
    fun accumulator inputField => agg ⟨inputField, accumulator.initialized⟩ accumulator.value

section
variable {Cell : Type}

/-- `Retract` of an aggregator that does not override it. -/
def retractUnsupported (name : String) (_accumulator _inputField : Cell) : Except String Cell :=
  .error ("Aggregate function " ++ name ++ " does not support retraction, if you allow this " ++
    "function to ignore retraction messages, you can configure " ++
    "fields.field_name.ignore-retract=true.")

/-- `Agg` of an aggregator without a state. -/
def stateless (merge : Cell → Cell → Except String Cell) (accumulator : Accumulator Cell)
    (inputField : Cell) : Except String (Accumulator Cell) := do
  let merged ← merge accumulator.value inputField
  return { accumulator with value := merged }

/-- `Agg` of an aggregator that has no errors either. -/
def plain (merge : Cell → Cell → Cell) :
    Accumulator Cell → Cell → Except String (Accumulator Cell) :=
  stateless (fun accumulator inputField => .ok (merge accumulator inputField))

def primaryKeyAgg : FieldAggregator Cell where
  agg := plain (fun _ inputField => inputField)
  retract := fun _ inputField => .ok inputField

def firstValueAgg : FieldAggregator Cell where
  agg := fun accumulator inputField =>
    if !accumulator.initialized then .ok ⟨inputField, true⟩ else .ok accumulator
  retract := retractUnsupported "first_value"

/-- `FieldIgnoreRetractAgg`. -/
def ignoreRetract (aggregator : FieldAggregator Cell) : FieldAggregator Cell where
  agg := aggregator.agg
  retract := fun accumulator _ => .ok accumulator

variable [Nullable Cell]

def emptyAccumulator : Accumulator Cell := ⟨Nullable.null, false⟩

def lastValueAgg : FieldAggregator Cell where
  agg := plain (fun _ inputField => inputField)
  retract := fun _ _ => .ok Nullable.null

def lastNonNullValueAgg : FieldAggregator Cell where
  agg := plain (fun accumulator inputField =>
    if Nullable.isNull inputField then accumulator else inputField)
  retract := fun accumulator inputField =>
    .ok (if Nullable.isNull inputField then accumulator else Nullable.null)

def firstNonNullValueAgg : FieldAggregator Cell where
  agg := fun accumulator inputField =>
    if !accumulator.initialized && !Nullable.isNull inputField then .ok ⟨inputField, true⟩
    else .ok accumulator
  retract := retractUnsupported "first_non_null_value"

end

structure AggregateMergeFunction (Cell : Type) where
  aggregators : List (FieldAggregator Cell)
  removeRecordOnDelete : Bool := false

namespace AggregateMergeFunction

structure Fields (Cell : Type) where
  currentDeleteRow : Bool
  latestKv : Option (KeyValueOf Cell)
  accumulators : List (Accumulator Cell)

variable {Cell : Type} [Nullable Cell] (function : AggregateMergeFunction Cell)

def reset : Fields Cell where
  currentDeleteRow := false
  latestKv := none
  accumulators := function.aggregators.map (fun _ => emptyAccumulator)

/-- The loop over the fields, with the call for one of them as a parameter. -/
def addFields
    (call : FieldAggregator Cell → Accumulator Cell → Cell → Except String (Accumulator Cell)) :
    List (FieldAggregator Cell) → List (Accumulator Cell) → List Cell →
      Except String (List (Accumulator Cell))
  | aggregator :: aggregators, accumulator :: accumulators, row => do
    let merged ← call aggregator accumulator (row.headD Nullable.null)
    let later ← addFields call aggregators accumulators row.tail
    return merged :: later
  | _, _, _ => .ok []

omit [Nullable Cell] in
def retractField (aggregator : FieldAggregator Cell) (accumulator : Accumulator Cell)
    (inputField : Cell) : Except String (Accumulator Cell) := do
  let merged ← aggregator.retract accumulator.value inputField
  return { accumulator with value := merged }

def add (fields : Fields Cell) (kv : KeyValueOf Cell) : Except String (Fields Cell) :=
  if function.removeRecordOnDelete && kv.valueKind = .delete then do
    let accumulators ← addFields
      (fun _ accumulator inputField => .ok { accumulator with value := inputField })
      function.aggregators fields.accumulators kv.value
    return ⟨true, some kv, accumulators⟩
  else do
    let accumulators ←
      if kv.valueKind.isRetract then
        addFields retractField function.aggregators fields.accumulators kv.value
      else addFields FieldAggregator.agg function.aggregators fields.accumulators kv.value
    return ⟨false, some kv, accumulators⟩

omit [Nullable Cell] in
/-- `GetResult` is called after a record was added. -/
def getResult (fields : Fields Cell) : Except String (KeyValueOf Cell) :=
  match fields.latestKv with
  | none => .error "latest_kv_"
  | some kv => .ok {
      kv with
      value := fields.accumulators.map Accumulator.value
      valueKind := if fields.currentDeleteRow then .delete else .insert
      level := unknownLevel }

/-- `Reset`, `Add` for every record, `GetResult`. -/
def merge (records : List (KeyValueOf Cell)) : Except String (KeyValueOf Cell) := do
  let fields ← records.foldlM function.add function.reset
  getResult fields

def toMergeFunction (function : AggregateMergeFunction (Option Value)) :
    MergeFunction (Fields (Option Value)) where
  reset := fun _ => function.reset
  add := fun kv fields => function.add fields kv
  getResult := fun fields => do
    let kv ← getResult fields
    return (some kv, { fields with latestKv := none, accumulators := [] })

variable {function} {fields added : Fields Cell}

theorem latest_kv_of_add {kv : KeyValueOf Cell} (adds : function.add fields kv = .ok added) :
    added.latestKv = some kv := by
  unfold add at adds
  split at adds
  · obtain ⟨_, _, adds⟩ := Programs.bind_eq_ok.mp adds
    cases adds
    rfl
  · dsimp only at adds
    split at adds
    all_goals
      obtain ⟨_, _, adds⟩ := Programs.bind_eq_ok.mp adds
      cases adds
      rfl

theorem latest_kv_of_add_all {function : AggregateMergeFunction (Option Value)}
    {fields added : Fields (Option Value)} {records : List KeyValue}
    (adds : addAll function.toMergeFunction.add records fields = .ok added) :
    added.latestKv = (records.getLast?).or fields.latestKv := by
  induction records generalizing fields with
  | nil =>
    cases adds
    rfl
  | cons kv rest ih =>
    obtain ⟨next, first, adds⟩ := Programs.bind_eq_ok.mp adds
    rw [ih adds, latest_kv_of_add first, getLast?_cons]
    cases rest.getLast? <;> rfl

end AggregateMergeFunction

end PaimonCore.MergeTree
