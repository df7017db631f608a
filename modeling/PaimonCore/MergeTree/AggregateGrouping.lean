import PaimonCore.MergeTree.CollectionLaws
import PaimonCore.MergeTree.ListaggLaws

/-!
# Aggregation in groups

Every aggregator that the factory hands out keeps the law of its column, a row keeps the law if its
columns do, and so `AggregateMergeFunction` gives the same record however compaction groups the
records of a key.
-/

namespace PaimonCore.Aggregate

open Comparators PaimonCore.Fields MergeTree Programs Regrouping List Option

/-- Left out: sums of floating point numbers, nested updates with a limit, distinct strings with a
longer delimiter. -/
def Covered (options : FieldOptions) (fieldType : DataType) : AggFunction → Prop
  | .sum => fieldType ≠ .field .float ∧ fieldType ≠ .field .double
  | .listagg => options.distinct = true → options.listAggDelimiter.length ≤ 1
  | .nestedUpdate => options.countLimit = none
  | _ => True

def allowedFor : AggFunction → Variant → Prop
  | .mergeMap => DistinctKeys
  | _ => anyValue

variable {aggregator : FieldAggregator} {env : Environment} {fieldType : DataType}

theorem sum_lawful (created : sumAgg env fieldType = .ok aggregator)
    (exact : fieldType ≠ .field .float ∧ fieldType ≠ .field .double) :
    Lawful aggregator anyValue := by
  obtain ⟨sumFunc, createsSum, later⟩ := bind_eq_ok.mp created
  obtain ⟨negFunc, _, isAggregator⟩ := bind_eq_ok.mp later
  cases isAggregator
  rw [createSumFunc.eq_def] at createsSum
  split at createsSum
  · cases createsSum
    exact (add_integers_associates _).lawful rfl
  · cases createsSum
    exact (add_integers_associates _).lawful rfl
  · cases createsSum
    exact (add_integers_associates _).lawful rfl
  · cases createsSum
    exact (add_integers_associates _).lawful rfl
  · exact absurd rfl exact.1
  · exact absurd rfl exact.2
  · cases createsSum
    exact add_decimals_associates.lawful rfl
  · cases createsSum

theorem bool_lawful {name : String} {merge : Bool → Bool → Bool}
    (assoc : ∀ first second third, merge (merge first second) third =
      merge first (merge second third))
    (created : boolAgg env name merge fieldType = .ok aggregator) :
    Lawful aggregator anyValue := by
  rw [boolAgg.eq_def] at created
  split at created
  · cases created
    exact (bool_associates assoc).lawful rfl
  · cases created

variable {options : FieldOptions}

theorem listagg_lawful {fieldName : String}
    (created : listaggAgg env options fieldName fieldType = .ok aggregator)
    (short : options.distinct = true → options.listAggDelimiter.length ≤ 1) :
    Lawful aggregator anyValue := by
  rw [listaggAgg.eq_def] at created
  split at created
  · cases created
    cases isDistinct : options.distinct with
    | false =>
      exact (listagg_associates (fun _ _ _ => by simp [joined, append_assoc])).lawful rfl
    | true =>
      have atMostOne := short isDistinct
      cases hasDelimiter : options.listAggDelimiter with
      | nil => exact (listagg_associates (distinct_joined_assoc ' ')).lawful rfl
      | cons separator rest =>
        rw [hasDelimiter] at atMostOne
        have single : rest = [] := by simpa using atMostOne
        subst single
        exact (listagg_associates (distinct_joined_assoc separator)).lawful rfl
  · cases created

theorem create_own_lawful {fieldName : String} {aggFunction : AggFunction}
    (created : createOwnAggregator env options fieldName fieldType aggFunction = .ok aggregator)
    (covered : Covered options fieldType aggFunction) :
    Lawful aggregator (allowedFor aggFunction) := by
  cases aggFunction with
  | primaryKey =>
    cases created
    exact last_associates.lawful rfl
  | lastNonNullValue =>
    cases created
    exact last_non_null_associates.lawful rfl
  | firstNonNullValue =>
    cases created
    exact first_non_null_value_lawful
  | lastValue =>
    cases created
    exact last_associates.lawful rfl
  | firstValue =>
    cases created
    exact first_value_lawful
  | sum => exact sum_lawful created covered
  | min =>
    obtain ⟨order, createsOrder, isAggregator⟩ := bind_eq_ok.mp created
    cases isAggregator
    have lawful := create_order_lawful createsOrder
    exact (lesser_associates order).lawful rfl
  | max =>
    obtain ⟨order, createsOrder, isAggregator⟩ := bind_eq_ok.mp created
    cases isAggregator
    have lawful := create_order_lawful createsOrder
    exact (greater_associates order).lawful rfl
  | boolOr => exact bool_lawful Bool.or_assoc created
  | boolAnd => exact bool_lawful Bool.and_assoc created
  | listagg => exact listagg_lawful created covered
  | collect =>
    simp only [createOwnAggregator, collectAgg] at created
    split at created
    · cases created
      cases isDistinct : options.distinct with
      | false => exact collect_plain_associates.lawful rfl
      | true => exact collect_distinct_associates.lawful rfl
    · cases created
  | mergeMap =>
    simp only [createOwnAggregator, mergeMapAgg] at created
    split at created
    · cases created
      exact merge_map_associates.lawful rfl
    · cases created
  | nestedUpdate =>
    simp only [createOwnAggregator, nestedUpdateAgg] at created
    split at created
    · obtain ⟨nested, createsNested, isAggregator⟩ := bind_eq_ok.mp created
      cases isAggregator
      obtain ⟨hasLimit, ordered⟩ := create_nested_update_ordered createsNested
      exact NestedUpdate.agg_impl_lawful (hasLimit.trans covered) ordered
    · cases created

theorem create_field_aggregator_lawful {removeRecordOnDelete : Bool} {fieldName : String}
    {aggFunction : AggFunction}
    (created : createFieldAggregator env removeRecordOnDelete options fieldName fieldType
      aggFunction = .ok aggregator) (covered : Covered options fieldType aggFunction) :
    Lawful aggregator (allowedFor aggFunction) := by
  obtain ⟨own, createsOwn, later⟩ := bind_eq_ok.mp created
  have lawful := create_own_lawful createsOwn covered
  split at later
  · cases later
  · split at later
    · cases later
      exact lawful
    · cases later
      exact lawful

def rowAllowed : List (Variant → Prop) → List Variant → Prop
  | [], _ => True
  | allowed :: rest, row => allowed (row.headD .null) ∧ rowAllowed rest row.tail

def rowOf (accumulators : List Accumulator) : Except String (List Variant) :=
  .ok (accumulators.map Accumulator.value)

def emptyAccumulators (aggregators : List FieldAggregator) : List Accumulator :=
  aggregators.map (fun _ => emptyAccumulator)

abbrev addRow :
    List FieldAggregator → List Accumulator → List Variant → Except String (List Accumulator) :=
  AggregateMergeFunction.addFields FieldAggregator.agg

variable {aggregators : List FieldAggregator}

theorem add_row_cons {acc : Accumulator} {accumulators after : List Accumulator}
    {row : List Variant} :
    addRow (aggregator :: aggregators) (acc :: accumulators) row = .ok after ↔
      ∃ merged later, aggregator.agg acc (row.headD .null) = .ok merged ∧
        addRow aggregators accumulators row.tail = .ok later ∧ merged :: later = after := by
  rw [addRow, AggregateMergeFunction.addFields]
  simp only [bind_eq_ok, variant_null, pure, Except.pure, Except.ok.injEq, exists_and_left]

theorem fold_rows_cons {acc : Accumulator} {accumulators after : List Accumulator}
    {rows : List (List Variant)} :
    rows.foldlM (addRow (aggregator :: aggregators)) (acc :: accumulators) = .ok after ↔
      ∃ merged later, (rows.map (·.headD .null)).foldlM aggregator.agg acc = .ok merged ∧
        (rows.map List.tail).foldlM (addRow aggregators) accumulators = .ok later ∧
        merged :: later = after := by
  induction rows generalizing acc accumulators with
  | nil => simp [pure, Except.pure]
  | cons row rest ih =>
    rw [foldlM_cons, bind_eq_ok, map_cons]
    constructor
    · rintro ⟨middle, adds, laterAdds⟩
      obtain ⟨first, others, isFirst, areOthers, rfl⟩ := add_row_cons.mp adds
      obtain ⟨merged, later, isMerged, isLater, isAfter⟩ := ih.mp laterAdds
      refine ⟨merged, later, ?_, ?_, isAfter⟩
      · exact bind_eq_ok.mpr ⟨first, isFirst, isMerged⟩
      · exact bind_eq_ok.mpr ⟨others, areOthers, isLater⟩
    · rintro ⟨merged, later, isMerged, isLater, isAfter⟩
      obtain ⟨first, isFirst, mergedLater⟩ := bind_eq_ok.mp isMerged
      obtain ⟨others, areOthers, laterLater⟩ := bind_eq_ok.mp isLater
      exact ⟨first :: others, add_row_cons.mpr ⟨first, others, isFirst, areOthers, rfl⟩,
        ih.mpr ⟨merged, later, mergedLater, laterLater, isAfter⟩⟩

theorem fold_rows_nil (accumulators : List Accumulator) {rows : List (List Variant)}
    (ne : rows ≠ []) : rows.foldlM (addRow []) accumulators = .ok [] := by
  induction rows generalizing accumulators with
  | nil => exact absurd rfl ne
  | cons row rest ih =>
    cases rest with
    | nil => rfl
    | cons next others => exact ih [] (cons_ne_nil _ _)

variable {alloweds : List (Variant → Prop)}

theorem rows_regroup (lawful : List.Forall₂ Lawful aggregators alloweds) :
    Regroups (addRow aggregators) (emptyAccumulators aggregators) rowOf (rowAllowed alloweds) := by
  induction lawful with
  | nil =>
    intro before group state final _ ne reaches adds
    have isEmpty : final = [] := by
      rw [fold_rows_nil state ne] at adds
      cases adds
      rfl
    subst isEmpty
    exact ⟨[], fold_rows_nil [] ne, [], rfl, trivial, rfl⟩
  | @cons aggregator allowed aggregators alloweds columnLawful _ ih =>
    intro before group state final areAllowed ne reaches adds
    obtain ⟨column, others, columnReaches, othersReach, rfl⟩ := fold_rows_cons.mp reaches
    obtain ⟨columnFinal, othersFinal, columnAdds, othersAdd, rfl⟩ := fold_rows_cons.mp adds
    have columnAllowed : ∀ value ∈ before.map (·.headD .null) ++ group.map (·.headD .null),
        allowed value := by
      intro value mem
      rw [← map_append] at mem
      obtain ⟨row, isRow, rfl⟩ := mem_map.mp mem
      exact (areAllowed row isRow).1
    have othersAllowed : ∀ row ∈ before.map List.tail ++ group.map List.tail,
        rowAllowed alloweds row := by
      intro row mem
      rw [← map_append] at mem
      obtain ⟨whole, isRow, rfl⟩ := mem_map.mp mem
      exact (areAllowed whole isRow).2
    obtain ⟨merged, merges, value, isValue, valueAllowed, stands⟩ :=
      columnLawful _ _ _ _ columnAllowed (by simpa using ne) columnReaches columnAdds
    obtain ⟨later, laterMerges, row, isRow, rowIsAllowed, laterStands⟩ :=
      ih _ _ _ _ othersAllowed (by simpa using ne) othersReach othersAdd
    cases isValue
    cases isRow
    refine ⟨merged :: later, fold_rows_cons.mpr ⟨merged, later, merges, laterMerges, rfl⟩, _, rfl,
      ⟨valueAllowed, rowIsAllowed⟩, ?_⟩
    exact add_row_cons.mpr ⟨columnFinal, othersFinal, stands, laterStands, rfl⟩

/-- What `AggregateMergeFunction` keeps of records that add. -/
structure Merged where
  latest : Option (BinaryRow × Int)
  accumulators : List Accumulator

namespace Merged

def add (aggregators : List FieldAggregator) (merged : Merged) (kv : KeyValue) :
    Except String Merged := do
  let accumulators ← addRow aggregators merged.accumulators kv.value
  return ⟨some (kv.key, kv.sequenceNumber), accumulators⟩

def start (aggregators : List FieldAggregator) : Merged := ⟨none, emptyAccumulators aggregators⟩

def record (merged : Merged) : Except String KeyValue :=
  match merged.latest with
  | none => .error "latest_kv_"
  | some (key, sequenceNumber) => .ok {
      valueKind := .insert
      sequenceNumber
      level := unknownLevel
      key
      value := merged.accumulators.map Accumulator.value }

def latestOf (latest : Option (BinaryRow × Int)) (records : List KeyValue) :
    Option (BinaryRow × Int) :=
  (records.getLast?.map (fun kv => (kv.key, kv.sequenceNumber))).or latest

theorem fold_add {aggregators : List FieldAggregator} {merged final : Merged}
    {records : List KeyValue} :
    records.foldlM (add aggregators) merged = .ok final ↔
      (records.map KeyValueOf.value).foldlM (addRow aggregators) merged.accumulators =
          .ok final.accumulators ∧ final.latest = latestOf merged.latest records := by
  induction records generalizing merged with
  | nil =>
    obtain ⟨latest, accumulators⟩ := merged
    obtain ⟨finalLatest, finalAccumulators⟩ := final
    simp only [foldlM_nil, map_nil, pure, Except.pure, Except.ok.injEq, Merged.mk.injEq,
      latestOf, getLast?_nil, map_none, none_or]
    constructor
    · rintro ⟨rfl, rfl⟩
      exact ⟨rfl, rfl⟩
    · rintro ⟨rfl, rfl⟩
      exact ⟨rfl, rfl⟩
  | cons kv rest ih =>
    have latestLater : latestOf (some (kv.key, kv.sequenceNumber)) rest =
        latestOf merged.latest (kv :: rest) := by
      simp only [latestOf, getLast?_cons]
      cases rest.getLast? <;> rfl
    rw [foldlM_cons, map_cons, foldlM_cons, bind_eq_ok, bind_eq_ok]
    constructor
    · rintro ⟨middle, adds, laterAdds⟩
      obtain ⟨accumulators, addsRow, isMiddle⟩ := bind_eq_ok.mp adds
      cases isMiddle
      obtain ⟨rowsAdd, isLatest⟩ := ih.mp laterAdds
      exact ⟨⟨accumulators, addsRow, rowsAdd⟩, isLatest.trans latestLater⟩
    · rintro ⟨⟨accumulators, addsRow, rowsAdd⟩, isLatest⟩
      refine ⟨⟨some (kv.key, kv.sequenceNumber), accumulators⟩,
        bind_eq_ok.mpr ⟨accumulators, addsRow, rfl⟩, ih.mpr ⟨rowsAdd, ?_⟩⟩
      exact isLatest.trans latestLater.symm

end Merged

def RecordAllowed (alloweds : List (Variant → Prop)) (kv : KeyValue) : Prop :=
  kv.valueKind.isAdd = true ∧ rowAllowed alloweds kv.value

theorem records_regroup (lawful : List.Forall₂ Lawful aggregators alloweds) :
    Regroups (Merged.add aggregators) (Merged.start aggregators) Merged.record
      (RecordAllowed alloweds) := by
  intro before group state final areAllowed ne reaches adds
  obtain ⟨rowsReach, _⟩ := Merged.fold_add.mp reaches
  obtain ⟨rowsAdd, isLatest⟩ := Merged.fold_add.mp adds
  have rowsAllowed : ∀ row ∈ before.map KeyValueOf.value ++ group.map KeyValueOf.value,
      rowAllowed alloweds row := by
    intro row mem
    rw [← map_append] at mem
    obtain ⟨kv, isRecord, rfl⟩ := mem_map.mp mem
    exact (areAllowed kv isRecord).2
  obtain ⟨accumulators, merges, row, isRow, rowIsAllowed, stands⟩ :=
    rows_regroup lawful _ _ _ _ rowsAllowed (by simpa using ne) rowsReach rowsAdd
  cases isRow
  obtain ⟨last, isLast⟩ : ∃ last, group.getLast? = some last :=
    ⟨group.getLast ne, getLast?_eq_some_getLast ne⟩
  have latestIs : ∀ latest, Merged.latestOf latest group =
      some (last.key, last.sequenceNumber) := by
    intro latest
    simp [Merged.latestOf, isLast]
  refine ⟨⟨some (last.key, last.sequenceNumber), accumulators⟩,
    Merged.fold_add.mpr ⟨merges, (latestIs _).symm⟩, _, rfl, ⟨rfl, rowIsAllowed⟩, ?_⟩
  refine bind_eq_ok.mpr ⟨final.accumulators, stands, ?_⟩
  rw [latestIs] at isLatest
  rw [← isLatest]
  rfl

namespace AggregateMergeFunction

open MergeTree.AggregateMergeFunction (Fields add getResult)

variable {function : AggregateMergeFunction}

def mergedOf (fields : Fields Variant) : Merged :=
  ⟨fields.latestKv.map (fun kv => (kv.key, kv.sequenceNumber)), fields.accumulators⟩

theorem add_of_is_add (fields : Fields Variant) {kv : KeyValue}
    (isAdd : kv.valueKind.isAdd = true) :
    function.add fields kv = do
      let accumulators ← addRow function.aggregators fields.accumulators kv.value
      return ⟨false, some kv, accumulators⟩ := by
  have notDelete : decide (kv.valueKind = .delete) = false := by
    cases kindIs : kv.valueKind <;> simp_all [RowKind.isAdd]
  have notRetract : kv.valueKind.isRetract = false := by
    cases kindIs : kv.valueKind <;> simp_all [RowKind.isAdd, RowKind.isRetract]
  rw [add, notDelete, notRetract, Bool.and_false]
  rfl

theorem fold_of_is_add {records : List KeyValue}
    (areAdds : ∀ kv ∈ records, kv.valueKind.isAdd = true)
    (fields : Fields Variant) (live : fields.currentDeleteRow = false) :
    (do let final ← records.foldlM function.add fields; getResult final) =
      (do
        let final ← records.foldlM (Merged.add function.aggregators) (mergedOf fields)
        final.record) := by
  induction records generalizing fields with
  | nil =>
    obtain ⟨deleteRow, latest, accumulators⟩ := fields
    cases live
    cases latest <;> rfl
  | cons kv rest ih =>
    rw [foldlM_cons, foldlM_cons, add_of_is_add fields (areAdds kv mem_cons_self),
      Merged.add, show (mergedOf fields).accumulators = fields.accumulators from rfl]
    cases addRow function.aggregators fields.accumulators kv.value with
    | error message => rfl
    | ok accumulators =>
      exact ih (forall_mem_cons.mp areAdds).2 ⟨false, some kv, accumulators⟩ rfl

theorem merge_passes (alloweds : List (Variant → Prop)) :
    Passes function.merge (Merged.add function.aggregators) (Merged.start function.aggregators)
      Merged.record (RecordAllowed alloweds) := by
  intro records _ areAllowed
  exact fold_of_is_add (fun kv mem => (areAllowed kv mem).1) function.reset rfl

end AggregateMergeFunction

theorem create_lawful {options : TableOptions} {primaryKeys : List String}
    {schema : List (String × DataType)} {function : AggregateMergeFunction}
    (created : AggregateMergeFunction.create env options primaryKeys schema = .ok function)
    (covered : ∀ field ∈ schema, Covered (options.fieldOptions field.1) field.2
      (getAggFuncName options primaryKeys field.1)) : List.Forall₂ Lawful function.aggregators
      (schema.map (fun field => allowedFor (getAggFuncName options primaryKeys field.1))) := by
  obtain ⟨aggregators, creates, later⟩ := bind_eq_ok.mp created
  obtain ⟨_, _, isFunction⟩ := bind_eq_ok.mp later
  cases isFunction
  rw [forall₂_map_right_iff]
  refine Forall₂.flip ?_
  refine ((forall₂_and_left _ _).mpr ⟨covered, map_m_pairs creates⟩).imp ?_
  rintro field aggregator ⟨isCovered, createsField⟩
  exact create_field_aggregator_lawful createsField isCovered

theorem row_allowed_of_index {row : List Variant}
    (each : ∀ (index : Nat) (allowed : Variant → Prop), alloweds[index]? = some allowed →
      allowed (row.getD index .null)) : rowAllowed alloweds row := by
  induction alloweds generalizing row with
  | nil => trivial
  | cons allowed rest ih =>
    refine ⟨?_, ih ?_⟩
    · have first := each 0 allowed rfl
      cases row <;> exact first
    · intro index later isLater
      have found := each (index + 1) later isLater
      cases row with
      | nil => simpa using found
      | cons head tail => simpa using found

/-- The maps of the columns with `merge_map` have distinct keys. -/
def MapsDistinct (options : TableOptions) (primaryKeys : List String)
    (schema : List (String × DataType))
    (kv : KeyValue) : Prop :=
  ∀ index field, schema[index]? = some field →
    getAggFuncName options primaryKeys field.1 = .mergeMap →
      DistinctKeys (kv.value.getD index .null)

/-- However the records of a key are grouped, the last merge gives the record of one pass. -/
theorem aggregation_in_groups {environment : Environment} {options : TableOptions}
    {primaryKeys : List String} {schema : List (String × DataType)}
    {function : AggregateMergeFunction}
    (created : AggregateMergeFunction.create environment options primaryKeys schema = .ok function)
    (covered : ∀ field ∈ schema, Covered (options.fieldOptions field.1) field.2
      (getAggFuncName options primaryKeys field.1))
    {first : GroupTree KeyValue} {rest : List (GroupTree KeyValue)} {result : KeyValue}
    (adds : ∀ kv ∈ (GroupTree.group first rest).records, kv.valueKind.isAdd = true)
    (maps : ∀ kv ∈ (GroupTree.group first rest).records, MapsDistinct options primaryKeys schema kv)
    (once : function.merge (GroupTree.group first rest).records = .ok result) :
    (GroupTree.group first rest).eval function.merge = .ok result := by
  refine eval_group (records_regroup (create_lawful created covered))
    (AggregateMergeFunction.merge_passes _) ?_ once
  intro kv member
  refine ⟨adds kv member, row_allowed_of_index ?_⟩
  intro index allowed isAllowed
  rw [getElem?_map, map_eq_some_iff] at isAllowed
  obtain ⟨field, isField, rfl⟩ := isAllowed
  cases aggFunction : getAggFuncName options primaryKeys field.1 with
  | mergeMap => exact maps kv member index field isField aggFunction
  | _ => trivial

def tagOptions : TableOptions where
  fieldOptions := fun fieldName =>
    if fieldName = "tags" then { aggFunction := some .listagg, distinct := true }
    else if fieldName = "properties" then { aggFunction := some .mergeMap }
    else {}

def tagSchema : List (String × DataType) :=
  [("id", .field .int32), ("tags", .field .string),
    ("properties", .map (.field .int32) (.field .int32))]

def tagEnvironment : Environment := ⟨fun _ => "type", fun _ left _ => left⟩

def tagRecord (sequenceNumber : Int) (tags : List Char) (properties : List (Int × Int)) :
    KeyValue where
  valueKind := .insert
  sequenceNumber
  level := 0
  key := [some (.integer 1)]
  value := [.scalar (.integer 1), .text tags, .map (properties.map (fun entry =>
    (.scalar (.integer entry.1), .scalar (.integer entry.2))))]

theorem maps_distinct_of_column {kv : KeyValue}
    (distinct : DistinctKeys (kv.value.getD 2 .null)) :
    MapsDistinct tagOptions ["id"] tagSchema kv := by
  intro index field isField isMap
  match index, isField with
  | 0, isField => cases isField; cases isMap
  | 1, isField => cases isField; cases isMap
  | 2, _ => exact distinct

theorem tags_in_groups : ∃ function result,
      AggregateMergeFunction.create tagEnvironment tagOptions ["id"] tagSchema = .ok function ∧
      function.merge [tagRecord 1 ['a', ',', 'b'] [(1, 1), (2, 2)],
        tagRecord 2 ['b', ',', 'c'] [(2, 3)],
        tagRecord 3 ['c', ',', 'a'] [(3, 4)]] = .ok result ∧
      (GroupTree.group (.single (tagRecord 1 ['a', ',', 'b'] [(1, 1), (2, 2)]))
        [.group (.single (tagRecord 2 ['b', ',', 'c'] [(2, 3)]))
          [.single (tagRecord 3 ['c', ',', 'a'] [(3, 4)])]]).eval function.merge = .ok result := by
  have created : AggregateMergeFunction.create tagEnvironment tagOptions ["id"] tagSchema = .ok _ :=
    rfl
  refine ⟨_, _, created, rfl, aggregation_in_groups created ?_ ?_ ?_ rfl⟩
  · intro field member
    simp only [tagSchema, mem_cons, not_mem_nil, or_false] at member
    rcases member with rfl | rfl | rfl
    · trivial
    · intro _
      decide
    · trivial
  · intro kv member
    simp only [GroupTree.records, GroupTree.recordsOf] at member
    simp only [append_nil, singleton_append, mem_cons, not_mem_nil, or_false] at member
    rcases member with rfl | rfl | rfl <;> rfl
  · intro kv member
    simp only [GroupTree.records, GroupTree.recordsOf] at member
    simp only [append_nil, singleton_append, mem_cons, not_mem_nil, or_false] at member
    rcases member with rfl | rfl | rfl
    · exact maps_distinct_of_column (by unfold DistinctKeys Upserts.Distinct; decide)
    · exact maps_distinct_of_column (by unfold DistinctKeys Upserts.Distinct; decide)
    · exact maps_distinct_of_column (by unfold DistinctKeys Upserts.Distinct; decide)
end PaimonCore.Aggregate
