import PaimonCore.MergeTree.MergeFunction

/-!
# `LookupMergeFunction` and `LookupChangelogMergeFunctionWrapper`

The merge function of a lookup compaction keeps, of the records above level 0, only the
one of the lowest level. If the compaction has none, the wrapper looks the key up above
the output level and sorts what it finds among the other records.
-/

namespace PaimonCore.MergeTree

open PaimonCore.Fields List Option

/-- `std::sort` of the records of one key; the order of tied records is not specified. -/
structure RecordSort (order : RecordOrder) where
  sort : List KeyValue → List KeyValue
  perm : ∀ records, (sort records).Perm records
  ascending : ∀ records, (sort records).Pairwise
    (fun first second => order.compareSequence first second ≠ .gt)

def RecordSort.stable (order : RecordOrder) : RecordSort order where
  sort := List.insertionSort (fun first second => order.compareSequence first second ≠ .gt)
  perm := perm_insertionSort _
  ascending := pairwise_insertionSort _

namespace LookupMergeFunction

structure Fields (State : Type) where
  inner : State
  candidates : List KeyValue := []
  currentKey : Option BinaryRow := none
  containLevel0 : Bool := false

/-- The loop of `PickHighLevelIdx` from `index` on; `best` is the pick so far. -/
def pickHighLevelFrom (index : Nat) (best : Option (Nat × KeyValue)) :
    List KeyValue → Option (Nat × KeyValue)
  | [] => best
  | kv :: rest =>
    -- Level -1 is the write buffer.
    if kv.level ≤ 0 then pickHighLevelFrom (index + 1) best rest
    else if best.all (fun pick => kv.level < pick.2.level) then
      pickHighLevelFrom (index + 1) (some (index, kv)) rest
    else pickHighLevelFrom (index + 1) best rest

def pickHighLevelIdx (candidates : List KeyValue) : Option Nat :=
  (pickHighLevelFrom 0 none candidates).map Prod.fst

def pickHighLevel (candidates : List KeyValue) : Option KeyValue :=
  (pickHighLevelFrom 0 none candidates).map Prod.snd

/-- The candidates that `GetResult` gives to the merge function. -/
def mergedCandidates (candidates : List KeyValue) : List KeyValue :=
  (candidates.zipIdx.filter (fun candidate =>
    candidate.1.level ≤ 0 ∨ some candidate.2 = pickHighLevelIdx candidates)).map Prod.fst

variable {State : Type} (mergeFunction : MergeFunction State)

def reset (fields : Fields State) : Fields State :=
  { inner := fields.inner }

def add (kv : KeyValue) (fields : Fields State) : Except String (Fields State) :=
  .ok
    { fields with
      currentKey := some kv.key
      containLevel0 := fields.containLevel0 || kv.level = 0
      candidates := fields.candidates ++ [kv] }

def getResult (fields : Fields State) : Except String (Option KeyValue × Fields State) := do
  let inner ← addAll mergeFunction.add (mergedCandidates fields.candidates)
    (mergeFunction.reset fields.inner)
  let (result, inner) ← mergeFunction.getResult inner
  return (result, { fields with inner := inner })

/-- `CreateSequenceComparator` is the order of the records of one key. -/
def insertInto {order : RecordOrder} (sorting : RecordSort order) (highLevel : KeyValue)
    (fields : Fields State) : Fields State :=
  { fields with candidates := sorting.sort (fields.candidates ++ [highLevel]) }

def toMergeFunction : MergeFunction (Fields State) where
  reset := reset
  add := add
  getResult := getResult mergeFunction

theorem add_all_eq (records : List KeyValue) (fields : Fields State) :
    addAll add records fields = .ok
      { inner := fields.inner
        candidates := fields.candidates ++ records
        currentKey := (records.getLast?.map KeyValueOf.key).or fields.currentKey
        containLevel0 := fields.containLevel0 || records.any (fun kv => kv.level = 0) } := by
  induction records generalizing fields with
  | nil => simp [addAll, pure, Except.pure]
  | cons kv rest ih =>
    change addAll add rest _ = _
    rw [ih]
    simp only [append_assoc, singleton_append, any_cons, Bool.or_assoc,
      Except.ok.injEq, Fields.mk.injEq, true_and, and_true]
    rw [List.getLast?_cons]
    cases rest.getLast? <;> rfl

end LookupMergeFunction

/-- What `lookup_` returns: the template parameter is one of the three. -/
inductive LookupResult where
  | keyValue (kv : KeyValue)
  | positionedKeyValue (kv : KeyValue) (fileName : String) (rowPosition : Int)
  | filePosition (fileName : String) (rowPosition : Int)
  deriving DecidableEq, Repr

namespace LookupResult

def highLevel : LookupResult → Option KeyValue
  | .keyValue kv | .positionedKeyValue kv _ _ => some kv
  | .filePosition _ _ => none

def fileName : LookupResult → String
  | .keyValue _ => ""
  | .positionedKeyValue _ fileName _ | .filePosition fileName _ => fileName

def rowPosition : LookupResult → Int
  | .keyValue _ => -1
  | .positionedKeyValue _ _ rowPosition | .filePosition _ rowPosition => rowPosition

end LookupResult

structure LookupChangelogMergeFunctionWrapper (State : Type) where
  mergeFunction : MergeFunction State
  lookup : Option BinaryRow → Except String (Option LookupResult)
  /-- `lookup_strategy_.deletion_vector`. -/
  deletionVector : Bool := false
  shouldProduceChangelog : Bool
  notifyNewDeletion : String → Int → Except String Unit := fun _ _ => .ok ()
  order : RecordOrder
  sorting : RecordSort order := .stable order
  valueEqualizer : ValueEqualizer

namespace LookupChangelogMergeFunctionWrapper

open LookupMergeFunction (Fields)

variable {State : Type} (wrapper : LookupChangelogMergeFunctionWrapper State)

def setChangelog (before after : Option KeyValue) : List KeyValue :=
  match before.filter (fun kv => kv.valueKind.isAdd),
      after.filter (fun kv => kv.valueKind.isAdd) with
  | none, none => []
  | none, some after => [cloneKeyValue after .insert]
  | some before, none => [{ before with valueKind := .delete }]
  | some before, some after =>
    if wrapper.valueEqualizer.differs before after then
      [{ before with valueKind := .updateBefore }, cloneKeyValue after .updateAfter]
    else []

/-- The second step of `GetResult`: the record above the compaction, or none. -/
def lookupHighLevel (key : Option BinaryRow) : Except String (Option KeyValue) := do
  match ← wrapper.lookup key with
  | none => return none
  | some found =>
    if wrapper.deletionVector then
      wrapper.notifyNewDeletion found.fileName found.rowPosition
    return found.highLevel

def lookupIfAbsent (fields : Fields State) : Except String (Option KeyValue) :=
  if (LookupMergeFunction.pickHighLevel fields.candidates).isSome then .ok none
  else wrapper.lookupHighLevel fields.currentKey

def withLookedUp (lookedUp : Option KeyValue) (fields : Fields State) : Fields State :=
  match lookedUp with
  | some highLevel => LookupMergeFunction.insertInto wrapper.sorting highLevel fields
  | none => fields

def getResult (fields : Fields State) : Except String (Option ChangelogResult × Fields State) := do
  let picked := LookupMergeFunction.pickHighLevel fields.candidates
  let lookedUp ← wrapper.lookupIfAbsent fields
  let produces := fields.containLevel0 && wrapper.shouldProduceChangelog
  let before :=
    if produces then (picked.or lookedUp).map (fun kv => cloneKeyValue kv kv.valueKind) else none
  let (result, final) ← LookupMergeFunction.getResult wrapper.mergeFunction
    (wrapper.withLookedUp lookedUp fields)
  let changelogs := if produces then wrapper.setChangelog before result else []
  return (some { result, changelogs }, LookupMergeFunction.reset final)

def toWrapper : ChangelogMergeFunctionWrapper (Fields State) where
  reset := LookupMergeFunction.reset
  add := LookupMergeFunction.add
  getResult := wrapper.getResult

theorem clone_filter (previous : Option KeyValue) :
    (previous.map (fun kv => cloneKeyValue kv kv.valueKind)).filter (fun kv => kv.valueKind.isAdd) =
      (previous.filter (fun kv => kv.valueKind.isAdd)).map (fun kv =>
        cloneKeyValue kv kv.valueKind) := by
  cases previous with
  | none => rfl
  | some kv => cases isAdd : kv.valueKind.isAdd <;> simp [Option.filter, cloneKeyValue, isAdd]

theorem replays_set_changelog (previous result : Option KeyValue) :
    Replays wrapper.valueEqualizer previous
      { result := result
        changelogs := wrapper.setChangelog (previous.map (fun kv => cloneKeyValue kv kv.valueKind))
          result } := by
  rw [setChangelog, clone_filter]
  cases before : previous.filter (fun kv => kv.valueKind.isAdd) with
  | none =>
    have absent : presentRow previous = none := by rw [presentRow, before]; rfl
    cases after : result.filter (fun kv => kv.valueKind.isAdd) with
    | none =>
      apply replays_of_eq
      rw [absent, presentRow, after]
      rfl
    | some merged =>
      apply replays_of_eq
      rw [absent, presentRow, after]
      exact replay_inserted merged
  | some record =>
    have present : presentRow previous = some record.value := by rw [presentRow, before]; rfl
    cases after : result.filter (fun kv => kv.valueKind.isAdd) with
    | none =>
      apply replays_of_eq
      rw [present, presentRow, after]
      exact replay_deleted (cloneKeyValue record record.valueKind)
    | some merged =>
      have sameRows : wrapper.valueEqualizer.differs (cloneKeyValue record record.valueKind)
          merged = wrapper.valueEqualizer.differs record merged := rfl
      obtain ⟨wasPrevious, wasThere⟩ := filter_eq_some_iff.mp before
      obtain ⟨isResult, isThere⟩ := filter_eq_some_iff.mp after
      subst wasPrevious isResult
      cases differ : wrapper.valueEqualizer.differs record merged with
      | true =>
        apply replays_of_eq
        simp only [Option.map_some, sameRows, differ, if_true]
        rw [present, present_row_of_add isThere]
        exact replay_updated (cloneKeyValue record record.valueKind) merged
      | false =>
        have unchanged := replays_of_not_differs wasThere isThere differ
        simpa [sameRows, differ] using unchanged

/-- The record that the compaction has of the key above level 0, or else the lookup. -/
def previous (records : List KeyValue) : Option KeyValue :=
  (LookupMergeFunction.pickHighLevel records).or
    (match wrapper.lookup (records.getLast?.map KeyValueOf.key) with
    | .ok found => found.bind LookupResult.highLevel
    | .error _ => none)

structure Infallible : Prop where
  merges : wrapper.mergeFunction.Infallible
  looksUp : ∀ key, ∃ found, wrapper.lookup key = .ok found
  notifies : ∀ fileName rowPosition, wrapper.notifyNewDeletion fileName rowPosition = .ok ()

structure Sound (records : List KeyValue) : Prop where
  answers : wrapper.Infallible → ∀ fields, ∃ outcome after,
    wrapper.toWrapper.merge records fields = .ok (some outcome, after)
  replays :
    ∀ fields outcome after, wrapper.toWrapper.merge records fields = .ok (some outcome, after) →
      Replays wrapper.valueEqualizer (wrapper.previous records) outcome

theorem merge_lookup (records : List KeyValue) (fields : Fields State) :
    wrapper.toWrapper.merge records fields = wrapper.getResult
      { inner := fields.inner
        candidates := records
        currentKey := records.getLast?.map KeyValueOf.key
        containLevel0 := records.any (fun kv => kv.level = 0) } := by
  have added := LookupMergeFunction.add_all_eq records (LookupMergeFunction.reset fields)
  rw [ChangelogMergeFunctionWrapper.merge_eq added]
  simp [toWrapper, LookupMergeFunction.reset]

theorem lookup_high_level_eq {key : Option BinaryRow} {highLevel : Option KeyValue}
    (looksUp : wrapper.lookupHighLevel key = .ok highLevel) :
    ∃ found, wrapper.lookup key = .ok found ∧ highLevel = found.bind LookupResult.highLevel := by
  cases answer : wrapper.lookup key with
  | error reason => simp [lookupHighLevel, answer, bind, Except.bind] at looksUp
  | ok found =>
    refine ⟨found, rfl, ?_⟩
    cases found with
    | none =>
      simpa [lookupHighLevel, answer, bind, Except.bind, pure, Except.pure] using looksUp.symm
    | some result =>
      cases notified : wrapper.notifyNewDeletion result.fileName result.rowPosition with
      | error reason =>
        cases deletes : wrapper.deletionVector <;>
          simp_all [lookupHighLevel, bind, Except.bind, pure, Except.pure]
      | ok done =>
        cases deletes : wrapper.deletionVector <;>
          simp_all [lookupHighLevel, bind, Except.bind, pure, Except.pure]

theorem lookup_high_level_answers (infallible : wrapper.Infallible) (key : Option BinaryRow) :
    ∃ highLevel, wrapper.lookupHighLevel key = .ok highLevel := by
  obtain ⟨found, looksUp⟩ := infallible.looksUp key
  cases found with
  | none => exact ⟨none, by simp [lookupHighLevel, looksUp, bind, Except.bind, pure, Except.pure]⟩
  | some result =>
    refine ⟨result.highLevel, ?_⟩
    have notified := infallible.notifies result.fileName result.rowPosition
    cases deletes : wrapper.deletionVector <;>
      simp [lookupHighLevel, looksUp, deletes, notified, bind, Except.bind, pure, Except.pure]

theorem previous_eq {records : List KeyValue} {fields : Fields State} {lookedUp : Option KeyValue}
    (isCandidates : fields.candidates = records)
    (isKey : fields.currentKey = records.getLast?.map KeyValueOf.key)
    (looksUp : wrapper.lookupIfAbsent fields = .ok lookedUp) : wrapper.previous records =
      (LookupMergeFunction.pickHighLevel fields.candidates).or lookedUp := by
  rw [lookupIfAbsent, isCandidates, isKey] at looksUp
  rw [previous, isCandidates]
  cases picked : LookupMergeFunction.pickHighLevel records with
  | some kv => rfl
  | none =>
    simp only [picked, isSome_none, Bool.false_eq_true, if_false] at looksUp
    obtain ⟨found, answer, isFound⟩ := wrapper.lookup_high_level_eq looksUp
    rw [answer, isFound]

theorem lookup_if_absent_answers (infallible : wrapper.Infallible) (fields : Fields State) :
    ∃ lookedUp, wrapper.lookupIfAbsent fields = .ok lookedUp := by
  rw [lookupIfAbsent]
  split
  · exact ⟨none, rfl⟩
  · exact wrapper.lookup_high_level_answers infallible _

theorem get_result_answers (infallible : wrapper.Infallible) (fields : Fields State) :
    ∃ outcome after, wrapper.getResult fields = .ok (some outcome, after) := by
  obtain ⟨lookedUp, looksUp⟩ := wrapper.lookup_if_absent_answers infallible fields
  obtain ⟨inner, adds⟩ := infallible.merges.adds_all
    (LookupMergeFunction.mergedCandidates (wrapper.withLookedUp lookedUp fields).candidates)
    (wrapper.mergeFunction.reset (wrapper.withLookedUp lookedUp fields).inner)
  obtain ⟨result, final, results⟩ := infallible.merges.results inner
  have merges :
      LookupMergeFunction.getResult wrapper.mergeFunction (wrapper.withLookedUp lookedUp fields) =
        .ok (result, { wrapper.withLookedUp lookedUp fields with inner := final }) := by
    simp [LookupMergeFunction.getResult, adds, results, bind, Except.bind, pure, Except.pure]
  rw [getResult, looksUp]
  simp only [bind, Except.bind, merges]
  exact ⟨_, _, rfl⟩

theorem lookup_sound {records : List KeyValue} (level0 : ∃ kv ∈ records, kv.level = 0)
    (produces : wrapper.shouldProduceChangelog = true) : wrapper.Sound records := by
  constructor
  · intro infallible fields
    rw [merge_lookup]
    exact wrapper.get_result_answers infallible _
  · intro fields outcome after merges
    rw [merge_lookup] at merges
    obtain ⟨lookedUp, looksUp, merges⟩ := Programs.bind_eq_ok.mp merges
    obtain ⟨⟨result, final⟩, _, merges⟩ := Programs.bind_eq_ok.mp merges
    have contains : records.any (fun kv => decide (kv.level = 0)) = true := by
      simpa using level0
    cases merges
    simp only [contains, produces, Bool.and_self, if_true]
    rw [← wrapper.previous_eq rfl rfl looksUp]
    exact wrapper.replays_set_changelog _ _

end LookupChangelogMergeFunctionWrapper

end PaimonCore.MergeTree
