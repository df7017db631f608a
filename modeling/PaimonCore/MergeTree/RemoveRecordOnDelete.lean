import PaimonCore.MergeTree.MergeEngines
import PaimonCore.MergeTree.ReducerMergeFunctionWrapper

/-!
# Partial update with `partial-update.remove-record-on-delete`

A DELETE starts the row anew, but `meet_insert_` and `not_null_column_filled_` keep what the
records before it left there. That shows when an UPDATE_BEFORE follows the last DELETE.
-/

namespace PaimonCore.MergeTree.PartialUpdateMergeFunction

open PaimonCore.Fields List

/-- The option alone: `Create` refuses it with `ignore-delete` or a sequence group. -/
structure RemovesOnDelete (function : PartialUpdateMergeFunction) : Prop where
  removes : function.removeRecordOnDelete = true
  heeds : function.ignoreDelete = false
  unsequenced : function.fieldSequenceEnabled = false
  ungrouped : function.fieldComparators = []

def isDelete (kv : KeyValue) : Bool := kv.valueKind = .delete

def isAdd (kv : KeyValue) : Bool := kv.valueKind.isAdd

/-- The records from the last DELETE on; all records if there is no DELETE. -/
def fromLastDelete : List KeyValue → List KeyValue
  | [] => []
  | kv :: rest => if rest.any isDelete then fromLastDelete rest else kv :: rest

/-- The records from the last DELETE on decide: an INSERT exactly if there is an add record among
them. -/
def DecidedFromLastDelete (function : PartialUpdateMergeFunction) (state : Fields)
    (records : List KeyValue) : Prop :=
  ∃ merged,
    (∃ next, function.toMergeFunction.merger.merge records state = .ok (some merged, next)) ∧
    (∃ next, function.toMergeFunction.merger.merge (fromLastDelete records) state =
      .ok (some merged, next)) ∧
    (merged.valueKind = .insert ↔ ∃ kv ∈ fromLastDelete records, isAdd kv = true)

/-- Two rows have the same value in a field, or an add record to come sets it. -/
def SettledBy (after : List KeyValue) (left right : BinaryRow) (index : Nat) : Prop :=
  fieldAt left index = fieldAt right index ∨ ∃ kv ∈ after, isAdd kv = true ∧
    (fieldAt kv.value index).isSome = true

/-- What the records around an UPDATE_BEFORE right after the last DELETE must be. -/
def Undisturbed (function : PartialUpdateMergeFunction) (records : List KeyValue) : Prop :=
  ∀ before delete update after, records = before ++ delete :: update :: after →
    fromLastDelete records = delete :: update :: after →
    delete.valueKind = .delete → update.valueKind = .updateBefore →
    ((∀ kv ∈ before, isAdd kv = false) ∨ ∃ kv ∈ after, isAdd kv = true) ∧
      ((∀ kv ∈ before, isDelete kv = true) ∨
        ∀ index < function.arity, SettledBy after delete.value update.value index)

variable {function : PartialUpdateMergeFunction} {records after : List KeyValue}
  {fields : Fields} {kv delete : KeyValue}

theorem not_add_of_delete (deletes : isDelete kv = true) : isAdd kv = false := by
  simp only [isDelete, decide_eq_true_eq] at deletes
  simp [isAdd, deletes, RowKind.isAdd]

theorem update_before_iff (kept : isDelete kv = false) :
    kv.valueKind = .updateBefore ↔ isAdd kv = false := by
  obtain ⟨kind, sequenceNumber, level, key, value⟩ := kv
  cases kind <;> simp_all [isAdd, isDelete, RowKind.isAdd]

theorem from_last_delete_eq (undeleted : records.any isDelete = false) :
    fromLastDelete records = records := by
  cases records with
  | nil => rfl
  | cons kv rest =>
    rw [any_cons, Bool.or_eq_false_iff] at undeleted
    rw [fromLastDelete, undeleted.2]
    rfl

theorem last_delete_split (deleted : records.any isDelete = true) :
    ∃ before delete after, records = before ++ delete :: after ∧ isDelete delete = true ∧
      after.any isDelete = false ∧ fromLastDelete records = delete :: after := by
  induction records with
  | nil => cases deleted
  | cons kv rest ih =>
    cases later : rest.any isDelete with
    | true =>
      obtain ⟨before, delete, after, split, isLast, undeleted, isSuffix⟩ := ih later
      refine ⟨kv :: before, delete, after, by rw [split]; rfl, isLast, undeleted, ?_⟩
      rw [fromLastDelete, if_pos later, isSuffix]
    | false =>
      rw [any_cons, later, Bool.or_false] at deleted
      refine ⟨[], kv, rest, rfl, deleted, later, ?_⟩
      rw [fromLastDelete, later]
      rfl

/-- What `Add` does with the option alone. -/
def receive (function : PartialUpdateMergeFunction) (fields : Fields) (kv : KeyValue) : Fields where
  currentKey := some kv.key
  row :=
    if isAdd kv then (List.range function.arity).map
      (fun index => (fieldAt kv.value index).or (fieldAt fields.row index))
    else if isDelete kv || !fields.notNullColumnFilled then function.initRow kv.value
    else fields.row
  lastSeqNum := kv.sequenceNumber
  currentDeleteRow := isDelete kv
  meetInsert := fields.meetInsert || isAdd kv
  notNullColumnFilled := fields.notNullColumnFilled || !isDelete kv
  initialized := fields.initialized

theorem RemovesOnDelete.add_eq (option : RemovesOnDelete function) (kv : KeyValue)
    (fields : Fields) : function.add kv fields = .ok (function.receive fields kv) := by
  obtain ⟨removes, heeds, unsequenced, ungrouped⟩ := option
  obtain ⟨kind, sequenceNumber, level, key, value⟩ := kv
  cases kind <;> cases filled : fields.notNullColumnFilled <;>
    simp [add, addRow, addRetract, receive, isDelete, isAdd, RowKind.isAdd, RowKind.isRetract,
      removes, heeds, unsequenced, ungrouped, filled, bind, Except.bind, pure, Except.pure,
      updateNonNullFields, fillRow]

theorem RemovesOnDelete.merge_eq (option : RemovesOnDelete function) (records : List KeyValue)
    (state : Fields) : ∃ next, function.toMergeFunction.merger.merge records state =
      .ok (some (result (records.foldl function.receive (function.reset state))), next) := by
  have adds : ∀ fields, records.foldlM (fun fields kv => function.add kv fields) fields =
      .ok (records.foldl function.receive fields) := by
    induction records with
    | nil => exact fun fields => rfl
    | cons kv rest ih =>
      intro fields
      rw [foldlM_cons, option.add_eq]
      exact ih _
  refine ⟨{ records.foldl function.receive (function.reset state) with
    currentKey := none, row := [] }, ?_⟩
  change (records.foldlM (fun fields kv => function.add kv fields) (function.reset state) >>= _) = _
  rw [adds]
  rfl

theorem run_flags (records : List KeyValue) (fields : Fields) :
    (records.foldl function.receive fields).meetInsert = (fields.meetInsert || records.any isAdd) ∧
      (records.foldl function.receive fields).notNullColumnFilled =
        (fields.notNullColumnFilled || records.any (fun kv => !isDelete kv)) ∧
      (records.foldl function.receive fields).initialized = fields.initialized := by
  induction records generalizing fields with
  | nil => simp
  | cons kv rest ih =>
    obtain ⟨met, filled, untouched⟩ := ih (function.receive fields kv)
    rw [foldl_cons, met, filled, untouched, any_cons, any_cons, ← Bool.or_assoc, ← Bool.or_assoc]
    exact ⟨rfl, rfl, rfl⟩

theorem run_kind (undeleted : records.any isDelete = false)
    (absent : records = [] → fields.currentDeleteRow = true → fields.meetInsert = false) :
    (result (records.foldl function.receive fields)).valueKind = .insert ↔
      fields.meetInsert = true ∨ ∃ kv ∈ records, isAdd kv = true := by
  induction records generalizing fields with
  | nil =>
    cases deleted : fields.currentDeleteRow <;> simp_all [result]
  | cons kv rest ih =>
    rw [any_cons, Bool.or_eq_false_iff] at undeleted
    have present : (function.receive fields kv).currentDeleteRow = false := undeleted.1
    rw [foldl_cons, ih undeleted.2 (by simp [present])]
    simp [receive, or_assoc]

/-- Two states that differ in the row and in `meet_insert_` only. -/
structure Beside (function : PartialUpdateMergeFunction) (left right : Fields) : Prop where
  key : left.currentKey = right.currentKey
  sequence : left.lastSeqNum = right.lastSeqNum
  present : left.currentDeleteRow = false ∧ right.currentDeleteRow = false
  filled : left.notNullColumnFilled = true ∧ right.notNullColumnFilled = true
  sized : left.row.length = function.arity ∧ right.row.length = function.arity

theorem field_at_range_map {index arity : Nat} (field : Nat → Option Value)
    (inside : index < arity) : fieldAt ((List.range arity).map field) index = field index := by
  simp [fieldAt, inside]

theorem rows_eq_iff {left right : BinaryRow} {arity : Nat} (leftSized : left.length = arity)
    (rightSized : right.length = arity) :
    left = right ↔ ∀ index < arity, fieldAt left index = fieldAt right index := by
  constructor
  · intro same index _
    rw [same]
  · intro same
    apply ext_getElem (leftSized.trans rightSized.symm)
    intro index leftInside rightInside
    have here := same index (leftSized ▸ leftInside)
    rw [fieldAt, fieldAt, getElem?_eq_getElem leftInside, getElem?_eq_getElem rightInside] at here
    exact here

theorem receive_beside {left right : Fields} (kept : isDelete kv = false)
    (leftSized : left.row.length = function.arity)
    (rightSized : right.row.length = function.arity) :
    Beside function (function.receive left kv) (function.receive right kv) := by
  have sized : ∀ fields : Fields, fields.row.length = function.arity →
      (function.receive fields kv).row.length = function.arity := by
    intro fields before
    unfold receive initRow
    split_ifs <;> simp [before]
  constructor
  case key => rfl
  case sequence => rfl
  case present => exact ⟨kept, kept⟩
  case filled => simp [receive, kept]
  case sized => exact ⟨sized left leftSized, sized right rightSized⟩

theorem Beside.settled_receive {left right : Fields} {rest : List KeyValue} {index : Nat}
    (beside : Beside function left right) (kept : isDelete kv = false)
    (inside : index < function.arity) :
    SettledBy rest (function.receive left kv).row (function.receive right kv).row index ↔
      SettledBy (kv :: rest) left.row right.row index := by
  cases adds : isAdd kv with
  | false =>
    simp [SettledBy, receive, adds, kept, beside.filled]
  | true =>
    simp only [SettledBy, receive, adds, if_true, field_at_range_map _ inside]
    cases isField : fieldAt kv.value index <;> simp [adds, isField]

theorem Beside.results_eq_iff {left right : Fields} (beside : Beside function left right)
    (undeleted : after.any isDelete = false) :
    result (after.foldl function.receive left) = result (after.foldl function.receive right) ↔
      (left.meetInsert = right.meetInsert ∨ ∃ kv ∈ after, isAdd kv = true) ∧
        ∀ index < function.arity, SettledBy after left.row right.row index := by
  induction after generalizing left right with
  | nil =>
    have rows := rows_eq_iff beside.sized.1 beside.sized.2
    cases met : left.meetInsert <;> cases metToo : right.meetInsert <;>
      simp [result, beside.key, beside.sequence, beside.present, SettledBy, rows, met, metToo]
  | cons kv rest ih =>
    rw [any_cons, Bool.or_eq_false_iff] at undeleted
    have settled : ∀ index < function.arity, SettledBy rest (function.receive left kv).row
        (function.receive right kv).row index ↔ SettledBy (kv :: rest) left.row right.row index :=
      fun _ inside => beside.settled_receive undeleted.1 inside
    have next := @receive_beside function kv left right undeleted.1 beside.sized.1 beside.sized.2
    rw [foldl_cons, foldl_cons, ih next undeleted.2, forall₂_congr settled]
    cases adds : isAdd kv <;> simp [receive, adds]

/-- The state after a DELETE with the flags that the records before it leave. -/
def afterDelete (function : PartialUpdateMergeFunction) (delete : KeyValue) (met filled : Bool) :
    Fields where
  currentKey := some delete.key
  row := function.initRow delete.value
  lastSeqNum := delete.sequenceNumber
  currentDeleteRow := true
  meetInsert := met
  notNullColumnFilled := filled

theorem run_last_delete (isLast : isDelete delete = true) (before : List KeyValue)
    (state : Fields) : (before ++ delete :: after).foldl function.receive (function.reset state) =
      after.foldl function.receive (function.afterDelete delete (before.any isAdd)
        (before.any (fun kv => !isDelete kv))) := by
  obtain ⟨met, filled, untouched⟩ := @run_flags function before (function.reset state)
  rw [foldl_append, foldl_cons]
  simp only [receive, afterDelete, isLast, not_add_of_delete isLast, met, filled, untouched]
  simp [reset]

theorem decided_after_delete (undeleted : after.any isDelete = false) (met filled : Bool) :
    (result (after.foldl function.receive (function.afterDelete delete met filled)) =
        result (after.foldl function.receive (function.afterDelete delete false false)) ∧
      ((result (after.foldl function.receive (function.afterDelete delete met filled))).valueKind =
        .insert ↔
        ∃ kv ∈ after, isAdd kv = true)) ↔
      ∀ update rest, after = update :: rest → isAdd update = false →
        (met = false ∨ ∃ kv ∈ rest, isAdd kv = true) ∧ (filled = false ∨
            ∀ index < function.arity, SettledBy rest delete.value update.value index) := by
  cases after with
  | nil => simp [result, afterDelete]
  | cons update rest =>
    rw [any_cons, Bool.or_eq_false_iff] at undeleted
    obtain ⟨kept, restUndeleted⟩ := undeleted
    have beside := @receive_beside function update (function.afterDelete delete met filled)
      (function.afterDelete delete false false) kept (by simp [afterDelete, initRow])
      (by simp [afterDelete, initRow])
    have present : (function.receive (function.afterDelete delete met filled)
        update).currentDeleteRow = false := kept
    rw [foldl_cons, foldl_cons, beside.results_eq_iff restUndeleted,
      run_kind restUndeleted (by simp [present])]
    cases adds : isAdd update with
    | true => simp [receive, adds, afterDelete, SettledBy]
    | false =>
      have settled : ∀ index < function.arity, SettledBy rest
          (function.receive (function.afterDelete delete met filled) update).row
          (function.receive (function.afterDelete delete false false) update).row index ↔
            filled = false ∨ SettledBy rest delete.value update.value index := by
        intro index inside
        cases filled <;>
          simp [SettledBy, receive, adds, kept, afterDelete, initRow, field_at_range_map _ inside]
      rw [forall₂_congr settled]
      by_cases later : ∃ kv ∈ rest, isAdd kv = true
      · cases filled <;> simp [receive, adds, afterDelete, later]
      · cases met <;> cases filled <;> simp [receive, adds, afterDelete, later]

theorem RemovesOnDelete.decided_iff (option : RemovesOnDelete function) (state : Fields) :
    DecidedFromLastDelete function state records ↔
      result (records.foldl function.receive (function.reset state)) =
          result ((fromLastDelete records).foldl function.receive (function.reset state)) ∧
        ((result (records.foldl function.receive (function.reset state))).valueKind = .insert ↔
          ∃ kv ∈ fromLastDelete records, isAdd kv = true) := by
  obtain ⟨next, whole⟩ := option.merge_eq records state
  obtain ⟨nextOfLast, last⟩ := option.merge_eq (fromLastDelete records) state
  simp only [DecidedFromLastDelete, whole, last, Except.ok.injEq, Prod.mk.injEq,
    Option.some.injEq, exists_and_left, exists_eq', and_true, exists_eq_left']
  exact and_congr_left' eq_comm

theorem decided_from_last_delete (option : RemovesOnDelete function) (state : Fields)
    (records : List KeyValue) :
    DecidedFromLastDelete function state records ↔ Undisturbed function records := by
  rw [option.decided_iff]
  cases deleted : records.any isDelete with
  | false =>
    rw [from_last_delete_eq deleted, run_kind deleted (fun _ _ => rfl)]
    apply iff_of_true
    · simp [reset]
    · intro before delete update after split _ isLast _
      simp [split, isDelete, isLast] at deleted
  | true =>
    obtain ⟨before, delete, after, rfl, isLast, undeleted, isSuffix⟩ := last_delete_split deleted
    have fromDelete : (delete :: after).foldl function.receive (function.reset state) =
        after.foldl function.receive (function.afterDelete delete false false) :=
      run_last_delete isLast [] state
    rw [isSuffix, run_last_delete isLast before state, fromDelete]
    simp only [mem_cons, exists_eq_or_imp, not_add_of_delete isLast, Bool.false_eq_true, false_or]
    rw [decided_after_delete undeleted]
    constructor
    · intro undisturbed before' delete' update rest isSplit isSuffix' _ isUpdate
      cases isSuffix.symm.trans isSuffix'
      cases append_cancel_right isSplit
      simpa using undisturbed update rest rfl (by simp [isAdd, isUpdate, RowKind.isAdd])
    · rintro undisturbed update rest rfl notAdd
      rw [any_cons, Bool.or_eq_false_iff] at undeleted
      have isUpdate := (update_before_iff undeleted.1).mpr notAdd
      simpa using undisturbed before delete update rest rfl isSuffix (of_decide_eq_true isLast)
        isUpdate

namespace OneField

def removing : PartialUpdateMergeFunction := { arity := 1, removeRecordOnDelete := true }

def record (kind : RowKind) (sequenceNumber field : Int) : KeyValue where
  valueKind := kind
  sequenceNumber := sequenceNumber
  key := [some (.integer 7)]
  value := [some (.integer field)]

def reinserted : List KeyValue :=
  [record .insert 0 10, record .delete 1 20, record .updateBefore 2 30, record .insert 3 40]

theorem removing_option : RemovesOnDelete removing := ⟨rfl, rfl, rfl, rfl⟩

theorem reinserted_decided : DecidedFromLastDelete removing {} reinserted := by
  apply (decided_from_last_delete removing_option {} reinserted).mpr
  intro before delete update after _ isSuffix _ _
  cases isSuffix
  refine ⟨.inr ⟨_, mem_cons_self, rfl⟩, .inr ?_⟩
  intro index inside
  obtain rfl : index = 0 := Nat.lt_one_iff.mp inside
  exact .inr ⟨_, mem_cons_self, rfl, rfl⟩

/-- The deleted row comes back as an INSERT. -/
theorem deleted_row_returns : (∃ next, removing.toMergeFunction.merger.merge
        [record .insert 0 10, record .delete 1 20, record .updateBefore 2 30] {} =
      .ok (some (record .insert 2 20), next)) ∧ ¬DecidedFromLastDelete removing {}
      [record .insert 0 10, record .delete 1 20, record .updateBefore 2 30] := by
  refine ⟨⟨_, rfl⟩, ?_⟩
  rw [removing_option.decided_iff]
  decide

end OneField

end PaimonCore.MergeTree.PartialUpdateMergeFunction
