import PaimonCore.MergeTree.AggregateMergeFunction

/-!
# The merge engines

`PartialUpdateMergeFunction` beside the aggregating and the deduplicating one. A
merge function is associative over its records if any consecutive ones may be replaced by the
record they merge to.
-/

namespace PaimonCore.MergeTree

open PaimonCore.Fields List Option

structure PartialUpdateMergeFunction where
  ignoreDelete : Bool := false
  removeRecordOnDelete : Bool := false
  fieldSequenceEnabled : Bool := false
  arity : Nat
  fieldComparators : List (Nat × FieldsComparator) := []
  fieldAggregators : List (Nat × FieldAggregator (Option Value)) := []
  sequenceGroupPartialDelete : List Nat := []

def compareFields (comparator : FieldsComparator) : List Nat :=
  comparator.sortFields.map SortField.index

namespace PartialUpdateMergeFunction

structure Fields where
  currentKey : Option BinaryRow := none
  row : BinaryRow := []
  lastSeqNum : Int := -1
  currentDeleteRow : Bool := false
  meetInsert : Bool := false
  notNullColumnFilled : Bool := false
  initialized : Nat → Bool := fun _ => false

variable (function : PartialUpdateMergeFunction)

def emptyRow : BinaryRow := List.replicate function.arity none

def initRow (value : BinaryRow) : BinaryRow := (List.range function.arity).map (fieldAt value)

def reset (fields : Fields) : Fields :=
  -- `current_delete_row_` keeps what the last key left there.
  { row := function.emptyRow, lastSeqNum := 0, currentDeleteRow := fields.currentDeleteRow }

def fieldComparator (index : Nat) :
    Option FieldsComparator := function.fieldComparators.lookup index

def fieldAggregator (index : Nat) : Option (FieldAggregator (Option Value)) :=
  function.fieldAggregators.lookup index

def isEmptySequenceGroup (kv : KeyValue) (comparator : FieldsComparator) : Bool :=
  (compareFields comparator).all (fun index => (fieldAt kv.value index).isNone)

def updateNonNullFields (kv : KeyValue) (fields : Fields) : Fields :=
  { fields with
    row := (List.range function.arity).map (fun index =>
      (fieldAt kv.value index).or (fieldAt fields.row index)) }

def setField (index : Nat) (field : Option Value) (fields : Fields) : Fields :=
  { fields with row := fields.row.set index field }

def accumulatorAt (index : Nat) (fields : Fields) : Accumulator (Option Value) :=
  ⟨fieldAt fields.row index, fields.initialized index⟩

def setAggregated (index : Nat) (aggregated : Accumulator (Option Value)) (fields : Fields) :
    Fields :=
  { fields with
    row := fields.row.set index aggregated.value
    initialized := Function.update fields.initialized index aggregated.initialized }

/-- One round of the loop of `UpdateWithSequenceGroup`. -/
def updateField (kv : KeyValue) (fields : Fields) (index : Nat) : Except String Fields :=
  let field := fieldAt kv.value index
  let accumulator := accumulatorAt index fields
  match function.fieldComparator index, function.fieldAggregator index with
  | none, some aggregator => do
    return setAggregated index (← aggregator.agg accumulator field) fields
  | none, none => .ok (if field.isSome then setField index field fields else fields)
  | some comparator, aggregator =>
    if isEmptySequenceGroup kv comparator then .ok fields
    else if (comparator.compareTo kv.value fields.row).isGE then
      if index ∈ compareFields comparator then
        .ok ((compareFields comparator).foldl
          (fun fields sequence => setField sequence (fieldAt kv.value sequence) fields) fields)
      else match aggregator with
        | some aggregator => do
          return setAggregated index (← aggregator.agg accumulator field) fields
        | none => .ok (setField index field fields)
    else match aggregator with
      | some aggregator => do
        return setAggregated index (← aggregator.aggReversed accumulator field) fields
      | none => .ok fields

def updateWithSequenceGroup (kv : KeyValue) (fields : Fields) : Except String Fields :=
  (List.range function.arity).foldlM (function.updateField kv) fields

/-- The sequence fields updated so far; the flag says that the whole row was deleted. -/
def retractSequenceFields (kv : KeyValue) : List Nat → List Nat → Fields → Bool × List Nat × Fields
  | [], updated, fields => (false, updated, fields)
  | index :: rest, updated, fields =>
    if index ∈ updated then retractSequenceFields kv rest updated fields
    else if kv.valueKind = .delete ∧ index ∈ function.sequenceGroupPartialDelete then
      (true, updated, { fields with currentDeleteRow := true, row := function.initRow kv.value })
    else
      retractSequenceFields kv rest (index :: updated)
        (setField index (fieldAt kv.value index) fields)

def retractField (kv : KeyValue) (index : Nat) (aggregator : FieldAggregator (Option Value))
    (fields : Fields) : Except String Fields := do
  return setField index (← aggregator.retract (fieldAt fields.row index)
    (fieldAt kv.value index)) fields

/-- The loop of `RetractWithSequenceGroup`. -/
def retractFields (kv : KeyValue) : List Nat → List Nat → Fields → Except String Fields
  | [], _, fields => .ok fields
  | index :: rest, updated, fields =>
    match function.fieldComparator index with
    | none => retractFields kv rest updated fields
    | some comparator =>
      if isEmptySequenceGroup kv comparator then retractFields kv rest updated fields
      else if (comparator.compareTo kv.value fields.row).isGE then
        if index ∈ compareFields comparator then
          match function.retractSequenceFields kv (compareFields comparator) updated fields with
          | (true, _, fields) => .ok fields
          | (false, updated, fields) => retractFields kv rest updated fields
        else match function.fieldAggregator index with
          | none => retractFields kv rest updated (setField index none fields)
          | some aggregator => do
            retractFields kv rest updated (← retractField kv index aggregator fields)
      else match function.fieldAggregator index with
        | none => retractFields kv rest updated fields
        | some aggregator => do
          retractFields kv rest updated (← retractField kv index aggregator fields)

/-- `InitRow` of the first record, whatever it is. -/
def fillRow (kv : KeyValue) (fields : Fields) : Fields :=
  if fields.notNullColumnFilled then fields
  else { fields with row := function.initRow kv.value, notNullColumnFilled := true }

def retractWithSequenceGroup (kv : KeyValue) (fields : Fields) : Except String Fields :=
  function.retractFields kv (List.range function.arity) [] (function.fillRow kv fields)

def deleteRejected : String :=
  "By default, Partial update can not accept delete records, you can choose one of " ++
  "the following solutions:\n" ++
  "1. Configure 'ignore-delete' to ignore delete records.\n" ++
  "2. Configure 'partial-update.remove-record-on-delete' to remove the whole row " ++
  "when receiving delete records.\n" ++
  "3. Configure 'sequence-group's to retract partial columns. Also configure " ++
  "'partial-update.remove-record-on-sequence-group' to remove the whole row when " ++
  "receiving deleted records of specified sequence group."

def addRetract (kv : KeyValue) (fields : Fields) : Except String Fields :=
  if function.ignoreDelete then .ok (function.fillRow kv fields)
  else
    let fields := { fields with lastSeqNum := kv.sequenceNumber }
    if function.fieldSequenceEnabled then function.retractWithSequenceGroup kv fields
    else if function.removeRecordOnDelete then
      if kv.valueKind = .delete then
        .ok { fields with currentDeleteRow := true, row := function.initRow kv.value }
      else .ok (function.fillRow kv fields)
    else .error deleteRejected

def addRow (kv : KeyValue) (fields : Fields) : Except String Fields := do
  let fields := { fields with lastSeqNum := kv.sequenceNumber }
  let fields ←
    if function.fieldComparators.isEmpty then .ok (function.updateNonNullFields kv fields)
    else function.updateWithSequenceGroup kv fields
  return { fields with meetInsert := true, notNullColumnFilled := true }

def add (kv : KeyValue) (fields : Fields) : Except String Fields :=
  let fields := { fields with currentKey := some kv.key, currentDeleteRow := false }
  if kv.valueKind.isRetract then function.addRetract kv fields else function.addRow kv fields

def result (fields : Fields) : KeyValue where
  valueKind := if fields.currentDeleteRow || !fields.meetInsert then .delete else .insert
  sequenceNumber := fields.lastSeqNum
  level := unknownLevel
  key := fields.currentKey.getD []
  value := fields.row

def toMergeFunction : MergeFunction Fields where
  reset := function.reset
  add := function.add
  getResult := fun fields =>
    .ok (some (result fields), { fields with currentKey := none, row := [] })

end PartialUpdateMergeFunction

inductive LookupEngine : Type → Type where
  | deduplicate (ignoreDelete : Bool) : LookupEngine (Option KeyValue)
  | partialUpdate (function : PartialUpdateMergeFunction) :
      LookupEngine PartialUpdateMergeFunction.Fields
  | aggregation (function : AggregateMergeFunction (Option Value)) :
      LookupEngine (AggregateMergeFunction.Fields (Option Value))

def LookupEngine.mergeFunction {State : Type} : LookupEngine State → MergeFunction State
  | .deduplicate ignoreDelete => MergeTree.deduplicate ignoreDelete
  | .partialUpdate function => function.toMergeFunction
  | .aggregation function => function.toMergeFunction

def LookupEngine.isDeduplicate {State : Type} : LookupEngine State → Bool
  | .deduplicate _ => true
  | _ => false

/-- A record without the level of the file it lies in. -/
def KeyValueOf.contents (kv : KeyValue) : KeyValue := { kv with level := unknownLevel }

def KeyValueOf.atLevel (level : Int) (kv : KeyValue) : KeyValue := { kv with level := level }

namespace MergeFunction

variable {State : Type} (mergeFunction : MergeFunction State)

/-- `Reset`, one `Add` for each record, `GetResult`. -/
def mergeRecords (records : List KeyValue) (state : State) : Except String (Option KeyValue) := do
  let added ← addAll mergeFunction.add records (mergeFunction.reset state)
  let (result, _) ← mergeFunction.getResult added
  return result

/-- What is merged, as it would be written to a file. -/
def mergeContents (records : List KeyValue) (state : State) : Except String (Option KeyValue) :=
  (mergeFunction.mergeRecords records state).map (Option.map KeyValueOf.contents)

/-- Consecutive records may be replaced by the record they merge to. -/
def Associative : Prop :=
  ∀ (earlier records later : List KeyValue) (merged : Option KeyValue) (level : Int)
    (state : State),
    records ≠ [] → mergeFunction.mergeContents records state = .ok merged →
      mergeFunction.mergeContents (earlier ++ records ++ later) state =
        mergeFunction.mergeContents
          (earlier ++ merged.toList.map (KeyValueOf.atLevel level) ++ later) state

def Resets : Prop :=
  ∀ (records : List KeyValue) (state other : State), records ≠ [] →
    mergeFunction.mergeRecords records state = mergeFunction.mergeRecords records other

end MergeFunction

variable {State : Type}

theorem add_all_append (add : KeyValue → State → Except String State)
    (records later : List KeyValue) (state : State) :
    addAll add (records ++ later) state = (addAll add records state).bind (addAll add later) := by
  unfold addAll
  rw [foldlM_append]
  rfl

theorem add_all_cons (add : KeyValue → State → Except String State) (kv : KeyValue)
    (rest : List KeyValue) (state : State) :
    addAll add (kv :: rest) state = (add kv state).bind (addAll add rest) := by
  rfl

namespace MergeFunction

variable {State : Type} {mergeFunction : MergeFunction State}

theorem merge_records_of_added {records : List KeyValue} {state added next : State}
    {result : Option KeyValue}
    (adds : addAll mergeFunction.add records (mergeFunction.reset state) =
      .ok added) (results : mergeFunction.getResult added = .ok (result, next)) :
    mergeFunction.mergeRecords records state = .ok result := by
  simp [mergeRecords, adds, results, bind, Except.bind, pure, Except.pure]

theorem Resets.contents (resets : mergeFunction.Resets) (records : List KeyValue)
    (state other : State) (nonempty : records ≠ []) :
    mergeFunction.mergeContents records state = mergeFunction.mergeContents records other := by
  rw [mergeContents, mergeContents, resets records state other nonempty]

/-- The merged record does to every state what the records did. -/
theorem associative_of_state (restores : ∀ (records : List KeyValue) (state added : State),
      records ≠ [] → addAll mergeFunction.add records (mergeFunction.reset state) = .ok added →
        ∃ merged next, mergeFunction.getResult added = .ok (some merged, next) ∧
          ∀ level before, mergeFunction.add (merged.atLevel level) before =
            addAll mergeFunction.add records before) : mergeFunction.Associative := by
  intro earlier records later merged level state nonempty merges
  cases adds : addAll mergeFunction.add records (mergeFunction.reset state) with
  | error reason =>
    simp [mergeContents, mergeRecords, adds, bind, Except.bind, Except.map] at merges
  | ok added =>
    obtain ⟨result, next, results, restored⟩ := restores records state added nonempty adds
    rw [mergeContents, merge_records_of_added adds results] at merges
    simp only [Except.map, map_some, Except.ok.injEq] at merges
    subst merges
    have alone : ∀ before, addAll mergeFunction.add [result.atLevel level] before =
        addAll mergeFunction.add records before := by
      intro before
      rw [← restored level before, add_all_cons]
      cases mergeFunction.add (result.atLevel level) before <;> rfl
    have replaced : addAll mergeFunction.add (earlier ++ [result.atLevel level] ++ later)
        (mergeFunction.reset state) =
          addAll mergeFunction.add (earlier ++ records ++ later) (mergeFunction.reset state) := by
      rw [add_all_append, add_all_append, add_all_append, add_all_append, funext alone]
    rw [mergeContents, mergeRecords, ← replaced]
    rfl

end MergeFunction

def kept (ignoreDelete : Bool) (kv : KeyValue) : Bool :=
  !(ignoreDelete && kv.valueKind.isRetract)

def lastKept (ignoreDelete : Bool) (records : List KeyValue) : Option KeyValue :=
  (records.filter (kept ignoreDelete)).getLast?

section
variable (ignoreDelete : Bool)
include ignoreDelete

theorem last_kept_append (records later : List KeyValue) :
    lastKept ignoreDelete (records ++ later) =
      (lastKept ignoreDelete later).or (lastKept ignoreDelete records) := by
  rw [lastKept, filter_append, getLast?_append]
  rfl

theorem last_kept_singleton (kv : KeyValue) :
    lastKept ignoreDelete [kv] = if kept ignoreDelete kv then some kv else none := by
  cases isKept : kept ignoreDelete kv <;> simp [lastKept, isKept]

theorem deduplicate_add (kv : KeyValue) (latestKv : Option KeyValue) :
    (deduplicate ignoreDelete).add kv latestKv =
      .ok ((lastKept ignoreDelete [kv]).or latestKv) := by
  have ignored : (ignoreDelete && kv.valueKind.isRetract) = !kept ignoreDelete kv :=
    (Bool.not_not _).symm
  rw [last_kept_singleton]
  simp only [deduplicate, ignored]
  cases kept ignoreDelete kv <;> rfl

theorem deduplicate_add_all (records : List KeyValue)
    (latestKv : Option KeyValue) : addAll (deduplicate ignoreDelete).add records latestKv =
      .ok ((lastKept ignoreDelete records).or latestKv) := by
  induction records generalizing latestKv with
  | nil => rfl
  | cons kv rest ih =>
    have split := last_kept_append ignoreDelete [kv] rest
    rw [singleton_append] at split
    rw [add_all_cons, split, deduplicate_add]
    change addAll _ rest _ = _
    rw [ih, Option.or_assoc]

theorem deduplicate_merge_records (records : List KeyValue)
    (latestKv : Option KeyValue) : (deduplicate ignoreDelete).mergeRecords records latestKv =
      .ok (lastKept ignoreDelete records) := by
  have adds := deduplicate_add_all ignoreDelete records none
  rw [or_none] at adds
  exact MergeFunction.merge_records_of_added adds rfl

end

variable {records : List KeyValue}

theorem deduplicate_associative (ignoreDelete : Bool) : (deduplicate ignoreDelete).Associative := by
  intro earlier records later merged level latestKv _ merges
  simp only [MergeFunction.mergeContents, deduplicate_merge_records, Except.map,
    Except.ok.injEq] at merges ⊢
  simp only [last_kept_append, ← merges]
  cases lastKept ignoreDelete later with
  | some kv => rfl
  | none =>
    cases isLast : lastKept ignoreDelete records with
    | none => rfl
    | some kv =>
      have isKept : kept ignoreDelete (kv.contents.atLevel level) = true :=
        (mem_filter.mp (mem_of_getLast? isLast)).2
      simp [last_kept_singleton, isKept]
      rfl

theorem LookupEngine.resets (engine : LookupEngine State) : engine.mergeFunction.Resets := by
  intro records state other nonempty
  cases engine with
  | deduplicate ignoreDelete =>
    change (MergeTree.deduplicate ignoreDelete).mergeRecords records state =
      (MergeTree.deduplicate ignoreDelete).mergeRecords records other
    rw [deduplicate_merge_records, deduplicate_merge_records]
  | partialUpdate function =>
    cases records with
    | nil => exact absurd rfl nonempty
    | cons kv rest =>
      -- The first `Add` overwrites the only field that `Reset` leaves.
      have forgets : function.add kv (function.reset state) =
          function.add kv (function.reset other) := rfl
      change (((function.add kv (function.reset state)).bind _) >>= _) =
        (((function.add kv (function.reset other)).bind _) >>= _)
      rw [forgets]
  | aggregation function => rfl

theorem LookupEngine.deduplicates {engine : LookupEngine State}
    (isDeduplicate : engine.isDeduplicate = true) : ∃ ignoreDelete, ∀ records state,
      engine.mergeFunction.mergeRecords records state = .ok (lastKept ignoreDelete records) := by
  cases engine with
  | deduplicate ignoreDelete => exact ⟨ignoreDelete, deduplicate_merge_records ignoreDelete⟩
  | partialUpdate function => cases isDeduplicate
  | aggregation function => cases isDeduplicate

theorem LookupEngine.merges_some (engine : LookupEngine State)
    (others : engine.isDeduplicate = false) {state : State} {merged : Option KeyValue}
    (nonempty : records ≠ [])
    (merges : engine.mergeFunction.mergeRecords records state = .ok merged) :
    merged.isSome = true := by
  cases adds : addAll engine.mergeFunction.add records (engine.mergeFunction.reset state) with
  | error reason => simp [MergeFunction.mergeRecords, adds, bind, Except.bind] at merges
  | ok added =>
    cases engine with
    | deduplicate ignoreDelete => cases others
    | partialUpdate function =>
      have results := MergeFunction.merge_records_of_added adds
        (show (PartialUpdateMergeFunction.toMergeFunction function).getResult added = _ from rfl)
      rw [merges] at results
      cases results
      rfl
    | aggregation function =>
      have latest := AggregateMergeFunction.latest_kv_of_add_all adds
      obtain ⟨last, isLast⟩ := isSome_iff_exists.mp (getLast?_isSome.mpr nonempty)
      rw [isLast, some_or] at latest
      have returns : ∃ kv, AggregateMergeFunction.getResult added = .ok kv := by
        rw [AggregateMergeFunction.getResult, latest]
        exact ⟨_, rfl⟩
      obtain ⟨kv, isResult⟩ := returns
      have results := MergeFunction.merge_records_of_added adds
        (Programs.bind_eq_ok.mpr ⟨kv, isResult, rfl⟩)
      rw [merges] at results
      cases results
      rfl

namespace PartialUpdateMergeFunction

/-- The default: retracts are refused and no field has a sequence group. -/
structure Plain (function : PartialUpdateMergeFunction) : Prop where
  refuses : function.ignoreDelete = false ∧ function.removeRecordOnDelete = false ∧
    function.fieldSequenceEnabled = false
  ungrouped : function.fieldComparators = []

variable {function : PartialUpdateMergeFunction}

/-- The fields after further records, given what these make of empty fields. -/
def laidOver (function : PartialUpdateMergeFunction) (before added : Fields) : Fields :=
  { before with
    currentKey := added.currentKey
    row := (List.range function.arity).map
      (fun index => (fieldAt added.row index).or (fieldAt before.row index))
    lastSeqNum := added.lastSeqNum
    currentDeleteRow := false
    meetInsert := true
    notNullColumnFilled := true }

theorem field_at_map_range {arity index : Nat} (cell : Nat → Option Value)
    (inside : index < arity) :
    fieldAt ((List.range arity).map cell) index = cell index := by
  simp [fieldAt, inside]

section
variable (plain : function.Plain)
include plain

theorem Plain.add_eq (kv : KeyValue) (fields : Fields) : function.add kv fields =
    if kv.valueKind.isRetract then .error deleteRejected
    else .ok (laidOver function fields
      { currentKey := some kv.key, row := kv.value, lastSeqNum := kv.sequenceNumber }) := by
  obtain ⟨refusesIgnored, refusesRemoved, refusesGroups⟩ := plain.refuses
  unfold add
  split
  · simp [addRetract, refusesIgnored, refusesRemoved, refusesGroups]
  · simp [addRow, plain.ungrouped, updateNonNullFields, laidOver, bind, Except.bind,
      pure, Except.pure]

theorem Plain.add_over (kv : KeyValue) (before added : Fields) :
    function.add kv (laidOver function before added) =
      (function.add kv added).map (laidOver function before) := by
  rw [plain.add_eq, plain.add_eq]
  split
  · rfl
  · simp only [Except.map, laidOver, Except.ok.injEq, Fields.mk.injEq, true_and, and_true]
    apply map_congr_left
    intro index mem
    have inside := mem_range.mp mem
    rw [field_at_map_range _ inside, field_at_map_range _ inside, Option.or_assoc]

theorem Plain.add_all_over (records : List KeyValue) (before added : Fields) :
    addAll function.add records (laidOver function before added) =
      (addAll function.add records added).map (laidOver function before) := by
  induction records generalizing added with
  | nil => rfl
  | cons kv rest ih =>
    rw [add_all_cons, add_all_cons, plain.add_over]
    cases function.add kv added with
    | error reason => rfl
    | ok next => exact ih next

/-- Adding records to any fields is adding them to empty ones first. -/
theorem Plain.add_all_eq {records : List KeyValue} (nonempty : records ≠ [])
    (before state : Fields) : addAll function.add records before =
      (addAll function.add records (function.reset state)).map (laidOver function before) := by
  cases records with
  | nil => exact absurd rfl nonempty
  | cons kv rest =>
    have first : function.add kv before =
        (function.add kv (function.reset state)).map (laidOver function before) := by
      rw [plain.add_eq, plain.add_eq]
      split
      · rfl
      · simp only [Except.map, laidOver, Except.ok.injEq, Fields.mk.injEq, true_and, and_true]
        apply map_congr_left
        intro index mem
        have inside := mem_range.mp mem
        have absent : fieldAt (function.reset state).row index = none := by
          simp [reset, emptyRow, fieldAt, inside]
        rw [field_at_map_range _ inside, absent, or_none]
    rw [add_all_cons, add_all_cons, first]
    cases function.add kv (function.reset state) with
    | error reason => rfl
    | ok next => exact plain.add_all_over rest before next

theorem Plain.added_fields {records : List KeyValue} (nonempty : records ≠ [])
    {before added : Fields}
    (adds : addAll function.add records before = .ok added) :
    added.currentKey.isSome = true ∧ added.meetInsert = true ∧ added.currentDeleteRow = false := by
  induction records generalizing before with
  | nil => exact absurd rfl nonempty
  | cons kv rest ih =>
    obtain ⟨next, first, adds⟩ := Programs.bind_eq_ok.mp adds
    by_cases last : rest = []
    · subst last
      cases adds
      change function.add kv before = _ at first
      rw [plain.add_eq] at first
      split_ifs at first
      cases first
      exact ⟨rfl, rfl, rfl⟩
    · exact ih last adds

theorem Plain.associative : function.toMergeFunction.Associative := by
  apply MergeFunction.associative_of_state
  intro records state added nonempty adds
  refine ⟨result added, _, rfl, fun level before => ?_⟩
  have whole := plain.add_all_eq nonempty before state
  obtain ⟨keyed, inserted, present⟩ := plain.added_fields nonempty adds
  obtain ⟨key, isKey⟩ := isSome_iff_exists.mp keyed
  rw [show addAll function.add records (function.reset state) = .ok added from adds] at whole
  change function.add _ _ = addAll function.add records before
  rw [whole, plain.add_eq]
  simp [KeyValueOf.atLevel, result, inserted, present, isKey, laidOver, Except.map,
    RowKind.isRetract]

end

end PartialUpdateMergeFunction

end PaimonCore.MergeTree
