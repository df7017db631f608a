import PaimonCore.Library.Upserts
import PaimonCore.MergeTree.AggregateMergeFunction
import PaimonCore.MergeTree.Variant

/-!
# Field aggregators

The aggregators of `FieldAggregatorFactory` over nested values, without `product` and the
sketches. Arrow's names of types and the addition of floating point numbers are parameters.
-/

namespace PaimonCore.Aggregate

open Comparators PaimonCore.Fields Matchings MergeTree Upserts

inductive DataType where
  | field (type : FieldType)
  | list (element : DataType)
  | map (key value : DataType)
  | struct (fields : List (String × DataType))

structure Environment where
  typeName : DataType → String
  addFloating : FieldType → Floating → Floating → Floating

instance : Nullable Variant := ⟨.null, Variant.isNull⟩

@[simp] theorem variant_null : (Nullable.null : Variant) = .null := rfl

abbrev Accumulator := MergeTree.Accumulator Variant

abbrev FieldAggregator := MergeTree.FieldAggregator Variant

abbrev AggregateMergeFunction := MergeTree.AggregateMergeFunction Variant

abbrev KeyValue := KeyValueOf Variant

def unlessNull (merge : Variant → Variant → Variant) (accumulator inputField : Variant) : Variant :=
  if accumulator.isNull || inputField.isNull then
    if accumulator.isNull then inputField else accumulator
  else merge accumulator inputField

def integerOf (value : Variant) : Int := getInteger (getScalar value)

def decimalOf (value : Variant) : Int := getDecimal (getScalar value)

def floatingOf (value : Variant) : Floating := getFloating (getScalar value)

/-- Integers wrap around at the width of the type. -/
def addIntegers (modulus : Nat) (accumulator inputField : Variant) : Variant :=
  .scalar (.integer ((integerOf accumulator + integerOf inputField).bmod modulus))

def negateInteger (modulus : Nat) (inputField : Variant) : Variant :=
  .scalar (.integer ((-integerOf inputField).bmod modulus))

def decimalModulus : Nat := 340282366920938463463374607431768211456

def addDecimals (accumulator inputField : Variant) : Variant :=
  .scalar (.decimal ((decimalOf accumulator + decimalOf inputField).bmod decimalModulus))

def negateDecimal (inputField : Variant) : Variant :=
  .scalar (.decimal ((-decimalOf inputField).bmod decimalModulus))

def negateFloating : Floating → Floating
  | .nan => .nan
  | .number negative magnitude => .number (!negative) magnitude

def sumUnsupported (environment : Environment) (fieldType : DataType) : String :=
  "type " ++ environment.typeName fieldType ++ " not support in FieldSumAgg"

def createSumFunc (environment : Environment) (fieldType : DataType) :
    Except String (Variant → Variant → Variant) :=
  match fieldType with
  | .field .int8 => .ok (addIntegers 256)
  | .field .int16 => .ok (addIntegers 65536)
  | .field .int32 => .ok (addIntegers 4294967296)
  | .field .int64 => .ok (addIntegers 18446744073709551616)
  | .field .float => .ok (fun accumulator inputField => .scalar (.floating
      (environment.addFloating .float (floatingOf accumulator) (floatingOf inputField))))
  | .field .double => .ok (fun accumulator inputField => .scalar (.floating
      (environment.addFloating .double (floatingOf accumulator) (floatingOf inputField))))
  | .field (.decimal128 _ _) => .ok addDecimals
  | _ => .error (sumUnsupported environment fieldType)

def createNegFunc (environment : Environment) (fieldType : DataType) :
    Except String (Variant → Variant) :=
  match fieldType with
  | .field .int8 => .ok (negateInteger 256)
  | .field .int16 => .ok (negateInteger 65536)
  | .field .int32 => .ok (negateInteger 4294967296)
  | .field .int64 => .ok (negateInteger 18446744073709551616)
  | .field .float | .field .double => .ok (fun inputField =>
    .scalar (.floating (negateFloating (floatingOf inputField))))
  | .field (.decimal128 _ _) => .ok negateDecimal
  | _ => .error (sumUnsupported environment fieldType)

def sumAgg (environment : Environment) (fieldType : DataType) : Except String FieldAggregator := do
  let sumFunc ← createSumFunc environment fieldType
  let negFunc ← createNegFunc environment fieldType
  return {
    agg := plain (unlessNull sumFunc)
    retract := fun accumulator inputField =>
      if !accumulator.isNull && !inputField.isNull then
        .ok (sumFunc accumulator (negFunc inputField))
      else if !accumulator.isNull then .ok accumulator
      else if !inputField.isNull then .ok (negFunc inputField)
      else .ok accumulator }

def compareText (left right : List Char) : Ordering :=
  compare (left.map Char.toNat) (right.map Char.toNat)

def compareVariants : DataType → Option (Variant → Variant → Ordering)
  | .field .string => some (along getText compareText)
  | .field type => (compareField type).map (along getScalar)
  | _ => none

def createOrder (environment : Environment) (name : String) (fieldType : DataType) :
    Except String (Variant → Variant → Ordering) :=
  match fieldType with
  | .field .bool => .error ("type " ++ environment.typeName fieldType ++ " not support in " ++ name)
  | _ =>
    match compareVariants fieldType with
    | none => .error ("type " ++ environment.typeName fieldType ++ " not support in " ++ name)
    | some order => .ok order

def lesser (order : Variant → Variant → Ordering) (accumulator inputField : Variant) : Variant :=
  if order accumulator inputField = .lt then accumulator else inputField

def greater (order : Variant → Variant → Ordering) (accumulator inputField : Variant) : Variant :=
  if order accumulator inputField = .lt then inputField else accumulator

def minAgg (environment : Environment) (fieldType : DataType) : Except String FieldAggregator := do
  let order ← createOrder environment "FieldMinAgg" fieldType
  return {
    agg := plain (unlessNull (lesser order))
    retract := retractUnsupported "min" }

def maxAgg (environment : Environment) (fieldType : DataType) : Except String FieldAggregator := do
  let order ← createOrder environment "FieldMaxAgg" fieldType
  return {
    agg := plain (unlessNull (greater order))
    retract := retractUnsupported "max" }

def booleanOf (value : Variant) : Bool := getBoolean (getScalar value)

/-- `FieldBoolAndAgg` and `FieldBoolOrAgg`. -/
def boolAgg (environment : Environment) (name : String) (merge : Bool → Bool → Bool)
    (fieldType : DataType) : Except String FieldAggregator :=
  match fieldType with
  | .field .bool => .ok {
      agg := plain (unlessNull (fun accumulator inputField =>
        .scalar (.boolean (merge (booleanOf accumulator) (booleanOf inputField)))))
      retract := retractUnsupported name }
  | _ => .error ("invalid field type " ++ environment.typeName fieldType ++ " for " ++ name ++
      ", supposed to be boolean")

def boolAndAgg (environment : Environment) : DataType → Except String FieldAggregator :=
  boolAgg environment "bool_and" (fun left right => left && right)

def boolOrAgg (environment : Environment) : DataType → Except String FieldAggregator :=
  boolAgg environment "bool_or" (fun left right => left || right)

def isJavaWhitespace (codePoint : Nat) : Bool :=
  (0x0009 ≤ codePoint && codePoint ≤ 0x000d) || (0x001c ≤ codePoint && codePoint ≤ 0x0020) ||
  codePoint == 0x1680 || (0x2000 ≤ codePoint && codePoint ≤ 0x2006) ||
  (0x2008 ≤ codePoint && codePoint ≤ 0x200a) || codePoint == 0x2028 || codePoint == 0x2029 ||
  codePoint == 0x205f || codePoint == 0x3000

def isBlank (text : List Char) : Bool := text.all (fun char => isJavaWhitespace char.toNat)

/-- The text before the first delimiter, and what follows it if there is one. -/
def splitFirst (delimiter : List Char) : List Char → List Char × Option (List Char)
  | [] => if delimiter.isEmpty then ([], some []) else ([], none)
  | char :: rest =>
    if delimiter.isPrefixOf (char :: rest) then ([], some ((char :: rest).drop delimiter.length))
    else
      let (token, remaining) := splitFirst delimiter rest
      (char :: token, remaining)

/-- The loop over the tokens. Each turn but the last takes a delimiter off. -/
def tokensFrom (delimiter : List Char) : Nat → List Char → List (List Char)
  | 0, remaining => [remaining]
  | fuel + 1, remaining =>
    match splitFirst delimiter remaining with
    | (token, none) => [token]
    | (token, some rest) => token :: tokensFrom delimiter fuel rest

def tokens (delimiter text : List Char) : List (List Char) := tokensFrom delimiter text.length text

def newTokens (seen : List (List Char)) : List (List Char) → List (List Char)
  | [] => []
  | token :: rest =>
    if !isBlank token && !seen.contains token then token :: newTokens (token :: seen) rest
    else newTokens seen rest

def aggDistinctImpl (delimiter accStr inStr : List Char) : List Char :=
  accStr ++ (newTokens (tokens delimiter accStr) (tokens delimiter inStr)).flatMap (delimiter ++ ·)

def listaggMerge (delimiter : List Char) (distinct : Bool) (accumulator inputField : Variant) :
    Variant :=
  if inputField.isNull then accumulator
  else if isBlank (getText inputField) then accumulator
  else if accumulator.isNull then inputField
  else if isBlank (getText accumulator) then inputField
  else if distinct then .text (aggDistinctImpl delimiter (getText accumulator) (getText inputField))
  else .text (getText accumulator ++ delimiter ++ getText inputField)

def appendDistinct : List Variant → List Variant → List Variant :=
  upsertAll equals (fun present _ => present)

def collectMerge (distinct : Bool) (accumulator inputField : Variant) : Variant :=
  if accumulator.isNull && inputField.isNull then .null
  else if !distinct && (accumulator.isNull || inputField.isNull) then
    if accumulator.isNull then inputField else accumulator
  else if distinct then
    .array (appendDistinct (appendDistinct [] (getArray accumulator)) (getArray inputField))
  else .array (getArray accumulator ++ getArray inputField)

/-- Every retracted element takes one equal element away. -/
def retractElements : List Variant → List Variant → List Variant
  | [], _ => []
  | candidate :: rest, retracted =>
    match takeFirst (fun value => equals candidate value) retracted with
    | some left => retractElements rest left
    | none => candidate :: retractElements rest retracted

def collectRetract (accumulator inputField : Variant) : Variant :=
  if accumulator.isNull || inputField.isNull then accumulator
  else if (getArray inputField).isEmpty then accumulator
  else .array (retractElements (getArray accumulator) (getArray inputField))

/-- `PutMap`: the first of equal keys stays, the last of their values. -/
def putMap : List (Variant × Variant) → List (Variant × Variant) → List (Variant × Variant) :=
  upsertAll (fun present entry => equals present.1 entry.1) (fun present entry =>
    (present.1, entry.2))

def mergeMapMerge : Variant → Variant → Variant :=
  unlessNull (fun accumulator inputField =>
    .map (putMap (putMap [] (getMap accumulator)) (getMap inputField)))

def mergeMapRetract (accumulator inputField : Variant) : Variant :=
  if accumulator.isNull || inputField.isNull then accumulator
  else if (getMap inputField).isEmpty then accumulator
  else .map ((getMap inputField).foldl
    (fun entries retracted => entries.eraseP (fun entry => equals entry.1 retracted.1))
    (putMap [] (getMap accumulator)))

inductive NestedKeyNullStrategy where
  | merge
  | ignore
  | error
  deriving DecidableEq

structure NestedUpdate where
  keyFields : List Nat
  nullStrategy : NestedKeyNullStrategy
  sequenceComparator : Option (Variant → Variant → Ordering)
  /-- No limit is the greatest `int32_t`, which no array exceeds. -/
  countLimit : Option Nat

def rowField (row : Variant) (field : Nat) : Variant := (getRow row).getD field .null

namespace NestedUpdate

variable (nested : NestedUpdate)

def acceptKey (row : Variant) : Except String Bool :=
  if !nested.keyFields.any (fun field => (rowField row field).isNull) ||
      nested.nullStrategy = .merge then .ok true
  else if nested.nullStrategy = .ignore then .ok false
  else .error "Nested key contains null values. Primary key fields must not be null."

def keysEqual (left right : Variant) : Bool :=
  nested.keyFields.all (fun field => equals (rowField left field) (rowField right field))

/-- A row replaces another one of its key unless its sequence is lower. -/
def supersede (existing row : Variant) : Variant :=
  match nested.sequenceComparator with
  | none => row
  | some compareTo => if compareTo row existing = .lt then existing else row

def hasRoom (size : Nat) : Bool :=
  match nested.countLimit with
  | none => true
  | some limit => size < limit

def putRow (limitNewKeys : Bool) (rows : List Variant) (row : Variant) : List Variant :=
  match rows.findIdx? (fun existing => nested.keysEqual existing row) with
  | some index => rows.modify index (fun existing => nested.supersede existing row)
  | none => if !limitNewKeys || nested.hasRoom rows.length then rows ++ [row] else rows

def acceptedRows : List Variant → Except String (List Variant)
  | [] => .ok []
  | row :: rest => do
    if row.isNull then acceptedRows rest
    else
      let accept ← nested.acceptKey row
      let later ← acceptedRows rest
      return if accept then row :: later else later

def addRows (limitNewKeys : Bool) (rows array : List Variant) : Except String (List Variant) := do
  let accepted ← nested.acceptedRows array
  return accepted.foldl (nested.putRow limitNewKeys) rows

def nonNullRows (array : List Variant) : List Variant := array.filter (fun row => !row.isNull)

/-- The rows of the input that still fit without nested keys. -/
def fitting (accumulator : Variant) (rows : List Variant) : List Variant :=
  match nested.countLimit with
  | none => rows
  | some limit => rows.take (limit - (getArray accumulator).length)

def aggImpl (accumulator inputField : Variant) : Except String Variant :=
  if inputField.isNull then .ok accumulator
  else if nested.keyFields.isEmpty then
    if !accumulator.isNull && !nested.hasRoom (getArray accumulator).length then .ok accumulator
    else .ok (.array (nonNullRows (getArray accumulator) ++
      nested.fitting accumulator (nonNullRows (getArray inputField))))
  else do
    let rows ← nested.addRows false [] (getArray accumulator)
    let merged ← nested.addRows true rows (getArray inputField)
    return .array merged

def retractRows (rows : List Variant) (removes : Variant → Variant → Bool)
    (retracted : List Variant) : List Variant :=
  retracted.foldl (fun left row => left.filter (fun existing => !removes existing row)) rows

/-- Retraction gathers the rows without their sequence fields. -/
def retractImpl (accumulator inputField : Variant) : Except String Variant :=
  if accumulator.isNull || inputField.isNull then .ok accumulator
  else if nested.keyFields.isEmpty then
    .ok (.array (retractRows (nonNullRows (getArray accumulator)) equals
      (nonNullRows (getArray inputField))))
  else do
    let rows ← ({ nested with sequenceComparator := none } : NestedUpdate).addRows false []
      (getArray accumulator)
    let retracted ← nested.acceptedRows (getArray inputField)
    return .array (retractRows rows nested.keysEqual retracted)

end NestedUpdate

inductive AggFunction where
  | primaryKey
  | lastNonNullValue
  | firstNonNullValue
  | lastValue
  | firstValue
  | sum
  | min
  | max
  | boolOr
  | boolAnd
  | listagg
  | collect
  | mergeMap
  | nestedUpdate
  deriving DecidableEq

/-- The options `fields.<field-name>.…` of one field. -/
structure FieldOptions where
  aggFunction : Option AggFunction := none
  ignoreRetract : Bool := false
  listAggDelimiter : List Char := [',']
  distinct : Bool := false
  nestedKey : List String := []
  nestedSequenceField : List String := []
  nestedKeyNullStrategy : Option NestedKeyNullStrategy := none
  countLimit : Option Nat := none

def listaggAgg (environment : Environment) (options : FieldOptions) (fieldName : String)
    (fieldType : DataType) : Except String FieldAggregator :=
  match fieldType with
  | .field .string =>
    let delimiter := if options.distinct && options.listAggDelimiter.isEmpty then [' ']
      else options.listAggDelimiter
    .ok {
      agg := plain (listaggMerge delimiter options.distinct)
      retract := retractUnsupported "listagg" }
  | _ => .error ("invalid field type " ++ environment.typeName fieldType ++ " for field '" ++
      fieldName ++ "' of listagg, supposed to be string")

def collectAgg (environment : Environment) (options : FieldOptions) (fieldName : String)
    (fieldType : DataType) : Except String FieldAggregator :=
  match fieldType with
  | .list _ => .ok {
      agg := plain (collectMerge options.distinct)
      retract := fun accumulator inputField => .ok (collectRetract accumulator inputField)
      aggReversed := plain (collectMerge options.distinct) }
  | _ => .error ("invalid field type " ++ environment.typeName fieldType ++ " for field '" ++
      fieldName ++ "' of collect, supposed to be array")

def mergeMapAgg (environment : Environment) (fieldName : String) (fieldType : DataType) :
    Except String FieldAggregator :=
  match fieldType with
  | .map _ _ => .ok {
      agg := plain mergeMapMerge
      retract := fun accumulator inputField => .ok (mergeMapRetract accumulator inputField) }
  | _ => .error ("invalid field type " ++ environment.typeName fieldType ++ " for field '" ++
      fieldName ++ "' of merge_map, supposed to be map")

/-- `StructType::GetFieldIndex`: a name that stands for two fields has no index. -/
def getFieldIndex (fields : List (String × DataType)) (name : String) : Option Nat :=
  if fields.countP (fun field => field.1 == name) = 1 then
    fields.findIdx? (fun field => field.1 == name)
  else none

def resolveFields (environment : Environment) (fields : List (String × DataType))
    (optionName : String) : List String → Except String (List Nat)
  | [] => .ok []
  | name :: rest =>
    match getFieldIndex fields name with
    | none => .error ("Field '" ++ name ++ "' configured by '" ++ optionName ++
        "' does not exist in " ++ environment.typeName (.struct fields))
    | some index => do
      let later ← resolveFields environment fields optionName rest
      return index :: later

/-- One sort field of a `FieldsComparator` over nested rows. -/
structure SequenceField where
  index : Nat
  order : Variant → Variant → Ordering

def nonNull : Variant → Option Variant
  | .null => none
  | value => some value

def SequenceField.compareRows (field : SequenceField) : Variant → Variant → Ordering :=
  along (fun row => nonNull (rowField row field.index)) (nullsFirst field.order)

def createSequenceFields (environment : Environment) (fields : List (String × DataType)) :
    List Nat → Except String (List SequenceField)
  | [] => .ok []
  | index :: rest =>
    match fields[index]? with
    | none => createSequenceFields environment fields rest
    | some (_, fieldType) =>
      match compareVariants fieldType with
      | none => .error ("Do not support comparing " ++ environment.typeName fieldType ++
          " type in idx " ++ toString index)
      | some order => do
        let later ← createSequenceFields environment fields rest
        return ⟨index, order⟩ :: later

def createSequenceComparator (environment : Environment) (fields : List (String × DataType))
    (sequenceFields : List Nat) : Except String (Option (Variant → Variant → Ordering)) :=
  if sequenceFields.isEmpty then .ok none
  else do
    let sortFields ← createSequenceFields environment fields sequenceFields
    return some (firstDifference (sortFields.map SequenceField.compareRows))

def createNestedUpdate (environment : Environment) (options : FieldOptions)
    (fields : List (String × DataType)) : Except String NestedUpdate :=
  if options.nestedKey.isEmpty && options.nestedKeyNullStrategy.isSome then
    .error ("Option 'fields.<field-name>.nested-key-null-strategy' requires " ++
      "'fields.<field-name>.nested-key' to be configured.")
  else if options.nestedKey.isEmpty && !options.nestedSequenceField.isEmpty then
    .error ("Option 'fields.<field-name>.nested-sequence-field' requires " ++
      "'fields.<field-name>.nested-key' to be configured.")
  else do
    let keyFields ← resolveFields environment fields "nested-key" options.nestedKey
    let sequenceFields ← resolveFields environment fields "nested-sequence-field"
      options.nestedSequenceField
    let sequenceComparator ← createSequenceComparator environment fields sequenceFields
    return ⟨keyFields, options.nestedKeyNullStrategy.getD .merge, sequenceComparator,
      options.countLimit⟩

def nestedUpdateAgg (environment : Environment) (options : FieldOptions) (fieldName : String)
    (fieldType : DataType) : Except String FieldAggregator :=
  match fieldType with
  | .list (.struct fields) => do
    let nested ← createNestedUpdate environment options fields
    return { agg := stateless nested.aggImpl, retract := nested.retractImpl }
  | _ => .error ("invalid field type " ++ environment.typeName fieldType ++ " for field '" ++
      fieldName ++ "' of nested_update, supposed to be array<struct>")

/-- The aggregator before retractions are ignored. -/
def createOwnAggregator (environment : Environment) (options : FieldOptions) (fieldName : String)
    (fieldType : DataType) : AggFunction → Except String FieldAggregator
  | .primaryKey => .ok primaryKeyAgg
  | .lastNonNullValue => .ok lastNonNullValueAgg
  | .firstNonNullValue => .ok firstNonNullValueAgg
  | .lastValue => .ok lastValueAgg
  | .firstValue => .ok firstValueAgg
  | .sum => sumAgg environment fieldType
  | .min => minAgg environment fieldType
  | .max => maxAgg environment fieldType
  | .boolOr => boolOrAgg environment fieldType
  | .boolAnd => boolAndAgg environment fieldType
  | .listagg => listaggAgg environment options fieldName fieldType
  | .collect => collectAgg environment options fieldName fieldType
  | .mergeMap => mergeMapAgg environment fieldName fieldType
  | .nestedUpdate => nestedUpdateAgg environment options fieldName fieldType

def createFieldAggregator (environment : Environment) (removeRecordOnDelete : Bool)
    (options : FieldOptions) (fieldName : String) (fieldType : DataType)
    (aggFunction : AggFunction) : Except String FieldAggregator := do
  let fieldAggregator ← createOwnAggregator environment options fieldName fieldType aggFunction
  if removeRecordOnDelete && options.ignoreRetract then
    .error ("aggregation.remove-record-on-delete and fields." ++ fieldName ++
      ".ignore-retract have conflicting behavior so should not be enabled at the same time.")
  else if options.ignoreRetract then .ok (ignoreRetract fieldAggregator)
  else .ok fieldAggregator

structure TableOptions where
  sequenceField : List String := []
  fieldsDefaultFunc : Option AggFunction := none
  removeRecordOnDelete : Bool := false
  fieldOptions : String → FieldOptions := fun _ => {}

def getAggFuncName (options : TableOptions) (primaryKeys : List String) (fieldName : String) :
    AggFunction :=
  if options.sequenceField.contains fieldName then .lastValue
  else if primaryKeys.contains fieldName then .primaryKey
  else ((options.fieldOptions fieldName).aggFunction.or options.fieldsDefaultFunc).getD
    .lastNonNullValue

def createAggregators (environment : Environment) (options : TableOptions)
    (primaryKeys : List String) (schema : List (String × DataType)) :
    Except String (List FieldAggregator) :=
  schema.mapM (fun field => createFieldAggregator environment options.removeRecordOnDelete
    (options.fieldOptions field.1) field.1 field.2 (getAggFuncName options primaryKeys field.1))

/-- `CreateFieldGetters`, of which only the failure is seen. -/
def checkFieldGetters (environment : Environment) : List (String × DataType) → Except String Unit
  | [] => .ok ()
  | (_, .field (.unsupported name)) :: _ =>
    .error ("type " ++ environment.typeName (.field (.unsupported name)) ++
      " not support in data getter")
  | _ :: rest => checkFieldGetters environment rest

def AggregateMergeFunction.create (environment : Environment) (options : TableOptions)
    (primaryKeys : List String) (schema : List (String × DataType)) :
    Except String AggregateMergeFunction := do
  let aggregators ← createAggregators environment options primaryKeys schema
  checkFieldGetters environment schema
  return ⟨aggregators, options.removeRecordOnDelete⟩

end PaimonCore.Aggregate
