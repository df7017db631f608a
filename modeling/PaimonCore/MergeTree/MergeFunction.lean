import PaimonCore.Library.Programs
import PaimonCore.MergeTree.KeyValue

/-!
# Merge functions and changelogs

A merge function takes the records of one key and returns at most one. The wrappers of
a compaction that produces a changelog return, besides that record, the changes of the
key. A changelog is right if its changes turn the row that was there before into the row
that is there afterwards.
-/

namespace PaimonCore.MergeTree

open PaimonCore.Fields

/-- A `MergeFunction` with its fields as `State`. -/
structure MergeFunction (State : Type) where
  reset : State → State
  add : KeyValue → State → Except String State
  getResult : State → Except String (Option KeyValue × State)

structure ChangelogResult where
  result : Option KeyValue := none
  changelogs : List KeyValue := []
  deriving DecidableEq, Repr

/-- A `MergeFunctionWrapper<ChangelogResult>` with its fields as `State`. -/
structure ChangelogMergeFunctionWrapper (State : Type) where
  reset : State → State
  add : KeyValue → State → Except String State
  getResult : State → Except String (Option ChangelogResult × State)

/-- `FieldComparatorFunc`; the empty function is `none`. -/
abbrev ValueEqualizer := Option (BinaryRow → BinaryRow → Ordering)

def unknownLevel : Int := -1

/-- The value goes through the serializer and comes back as it was. -/
def cloneKeyValue (source : KeyValue) (valueKind : RowKind) : KeyValue :=
  { source with valueKind := valueKind, level := unknownLevel }

def ValueEqualizer.differs (valueEqualizer : ValueEqualizer) (before after : KeyValue) : Bool :=
  match valueEqualizer with
  | none => true
  | some equalizer => equalizer before.value after.value != .eq

def addAll {State : Type} (add : KeyValue → State → Except String State) (records : List KeyValue)
    (state : State) : Except String State :=
  records.foldlM (fun state kv => add kv state) state

/-- `DeduplicateMergeFunction`: the last record that was not ignored. -/
def deduplicate (ignoreDelete : Bool) : MergeFunction (Option KeyValue) where
  reset := fun _ => none
  add := fun kv latestKv =>
    if ignoreDelete && kv.valueKind.isRetract then .ok latestKv else .ok (some kv)
  getResult := fun latestKv => .ok (latestKv, latestKv)

structure MergeFunction.Infallible {State : Type} (mergeFunction : MergeFunction State) : Prop where
  adds : ∀ kv state, ∃ next, mergeFunction.add kv state = .ok next
  results : ∀ state, ∃ result next, mergeFunction.getResult state = .ok (result, next)

theorem MergeFunction.Infallible.adds_all {State : Type} {mergeFunction : MergeFunction State}
    (infallible : mergeFunction.Infallible) (records : List KeyValue) (state : State) :
    ∃ next, addAll mergeFunction.add records state = .ok next := by
  induction records generalizing state with
  | nil => exact ⟨state, rfl⟩
  | cons kv rest ih =>
    obtain ⟨next, added⟩ := infallible.adds kv state
    obtain ⟨final, addedRest⟩ := ih next
    refine ⟨final, ?_⟩
    rw [addAll, List.foldlM_cons, added]
    exact addedRest

namespace ChangelogMergeFunctionWrapper

/-- The calls of one key: `Reset`, one `Add` for each record, `GetResult`. -/
def merge {State : Type} (wrapper : ChangelogMergeFunctionWrapper State) (records : List KeyValue)
    (state : State) : Except String (Option ChangelogResult × State) := do
  let state ← addAll wrapper.add records (wrapper.reset state)
  wrapper.getResult state

theorem merge_eq {State : Type} {wrapper : ChangelogMergeFunctionWrapper State}
    {records : List KeyValue} {state added : State}
    (adds : addAll wrapper.add records (wrapper.reset state) = .ok added) :
    wrapper.merge records state = wrapper.getResult added := by
  rw [merge, adds]
  rfl

end ChangelogMergeFunctionWrapper

/-- The row that readers see for a record. -/
def presentRow (record : Option KeyValue) : Option BinaryRow :=
  (record.filter (fun kv => kv.valueKind.isAdd)).map KeyValueOf.value

/-- A change fits the row it is applied to: an old image is that row, a new one finds none. -/
def applyChange (row : Option BinaryRow) (change : KeyValue) : Option (Option BinaryRow) :=
  if change.valueKind.isAdd then
    if row = none then some (some change.value) else none
  else if row = some change.value then some none else none

/-- The row after the changes, or `none` if one of them does not fit. -/
def replay (changelogs : List KeyValue) (row : Option BinaryRow) : Option (Option BinaryRow) :=
  changelogs.foldlM applyChange row

def Alike (valueEqualizer : ValueEqualizer) (left right : Option BinaryRow) : Prop :=
  left = right ∨ ∃ equalizer ∈ valueEqualizer, ∃ before ∈ left, ∃ after ∈ right,
    equalizer before after = .eq

/-- Every change fits, and together they turn the row of `previous` into the row of the result. -/
def Replays (valueEqualizer : ValueEqualizer) (previous : Option KeyValue)
    (outcome : ChangelogResult) : Prop :=
  ∃ row, replay outcome.changelogs (presentRow previous) = some row ∧
    Alike valueEqualizer row (presentRow outcome.result)

@[simp] theorem present_row_none : presentRow none = none := rfl

theorem present_row_of_add {kv : KeyValue} (isAdd : kv.valueKind.isAdd = true) :
    presentRow (some kv) = some kv.value := by
  simp [presentRow, isAdd]

theorem present_row_of_not_add {kv : KeyValue} (notAdd : kv.valueKind.isAdd = false) :
    presentRow (some kv) = none := by
  simp [presentRow, notAdd]

@[simp] theorem replay_nil (row : Option BinaryRow) : replay [] row = some row := rfl

@[simp] theorem replay_inserted (kv : KeyValue) :
    replay [cloneKeyValue kv .insert] none = some (some kv.value) := rfl

@[simp] theorem replay_deleted (kv : KeyValue) :
    replay [{ kv with valueKind := .delete }] (some kv.value) = some none := by
  simp [replay, applyChange, RowKind.isAdd]

@[simp] theorem replay_updated (before after : KeyValue) :
    replay [{ before with valueKind := .updateBefore }, cloneKeyValue after .updateAfter]
      (some before.value) = some (some after.value) := by
  simp [replay, applyChange, RowKind.isAdd, cloneKeyValue]

theorem is_retract_iff (kind : RowKind) : kind.isRetract = true ↔ kind.isAdd = false := by
  cases kind <;> decide

theorem replays_of_eq {valueEqualizer : ValueEqualizer} {previous : Option KeyValue}
    {outcome : ChangelogResult}
    (same : replay outcome.changelogs (presentRow previous) = some (presentRow outcome.result)) :
    Replays valueEqualizer previous outcome :=
  ⟨_, same, .inl rfl⟩

theorem replays_of_not_differs {valueEqualizer : ValueEqualizer} {previous merged : KeyValue}
    (wasThere : previous.valueKind.isAdd = true) (isThere : merged.valueKind.isAdd = true)
    (equal : valueEqualizer.differs previous merged = false) :
    Replays valueEqualizer (some previous) { result := some merged } := by
  cases valueEqualizer with
  | none => cases equal
  | some equalizer =>
    refine ⟨_, rfl, .inr ⟨equalizer, rfl, previous.value, ?_, merged.value, ?_, ?_⟩⟩
    · rw [present_row_of_add wasThere]
      rfl
    · rw [present_row_of_add isThere]
      rfl
    · simpa [ValueEqualizer.differs] using equal

end PaimonCore.MergeTree
