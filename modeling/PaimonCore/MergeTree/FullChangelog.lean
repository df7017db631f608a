import PaimonCore.MergeTree.MergeFunction

/-!
# `FullChangelogMergeFunctionWrapper`

The wrapper of a full compaction. It remembers the record of the top level and compares
it with the merged record; a record that is alone does not go through the merge function.
-/

namespace PaimonCore.MergeTree

open PaimonCore.Fields List

structure FullChangelogMergeFunctionWrapper (State : Type) where
  mergeFunction : MergeFunction State
  maxLevel : Int
  valueEqualizer : ValueEqualizer

namespace FullChangelogMergeFunctionWrapper

structure Fields (State : Type) where
  inner : State
  topLevelKv : Option KeyValue := none
  initialKv : Option KeyValue := none
  isInitialized : Bool := false

variable {State : Type} (wrapper : FullChangelogMergeFunctionWrapper State)

def reset (fields : Fields State) : Fields State :=
  { inner := wrapper.mergeFunction.reset fields.inner }

def rememberTopLevel (kv : KeyValue) (fields : Fields State) : Except String (Fields State) :=
  if fields.topLevelKv.isSome then
    .error "Top level key-value already exists. This is unexpected."
  else
    .ok { fields with topLevelKv := some (cloneKeyValue kv kv.valueKind) }

def pass (kv : KeyValue) (fields : Fields State) : Except String (Fields State) := do
  let fields ← if kv.level = wrapper.maxLevel then rememberTopLevel kv fields else .ok fields
  let inner ← wrapper.mergeFunction.add kv fields.inner
  return { fields with inner := inner }

def add (kv : KeyValue) (fields : Fields State) : Except String (Fields State) :=
  match fields.initialKv with
  | none => .ok { fields with initialKv := some kv }
  | some initial => do
    let fields ←
      if fields.isInitialized then .ok fields
      else do
        let fields ← wrapper.pass initial fields
        .ok { fields with isInitialized := true }
    wrapper.pass kv fields

def changesAgainstTopLevel (topLevelKv merged : Option KeyValue) : List KeyValue :=
  match topLevelKv, merged with
  | none, none => []
  | none, some merged =>
    if merged.valueKind.isAdd then [cloneKeyValue merged .insert] else []
  | some top, none => [{ top with valueKind := .delete }]
  | some top, some merged =>
    if !merged.valueKind.isAdd then [{ top with valueKind := .delete }]
    else if wrapper.valueEqualizer.differs top merged then
      [{ top with valueKind := .updateBefore }, cloneKeyValue merged .updateAfter]
    else []

def changesOfSingle (merged : Option KeyValue) : List KeyValue :=
  match merged with
  | none => []
  | some merged =>
    if merged.level ≠ wrapper.maxLevel ∧ merged.valueKind.isAdd then
      [cloneKeyValue merged .insert]
    else []

def getResult (fields : Fields State) : Except String (Option ChangelogResult × Fields State) := do
  let (merged, inner) ←
    if fields.isInitialized then wrapper.mergeFunction.getResult fields.inner
    else .ok (fields.initialKv, fields.inner)
  let changelogs :=
    if fields.isInitialized then wrapper.changesAgainstTopLevel fields.topLevelKv merged
    else wrapper.changesOfSingle merged
  let result := merged.filter (fun kv => kv.valueKind.isAdd)
  return (some { result, changelogs }, wrapper.reset { fields with inner := inner })

def toWrapper : ChangelogMergeFunctionWrapper (Fields State) where
  reset := wrapper.reset
  add := wrapper.add
  getResult := wrapper.getResult

def topLevelRecord (maxLevel : Int) (records : List KeyValue) : Option KeyValue :=
  records.find? (fun kv => kv.level = maxLevel)

def AtMostOneTopLevel (maxLevel : Int) (records : List KeyValue) : Prop :=
  records.countP (fun kv => kv.level = maxLevel) ≤ 1

instance decidableAtMostOneTopLevel (maxLevel : Int) (records : List KeyValue) :
    Decidable (AtMostOneTopLevel maxLevel records) :=
  inferInstanceAs (Decidable (_ ≤ 1))

structure Passed (maxLevel : Int) (records : List KeyValue) (fields : Fields State) : Prop where
  initial : fields.initialKv.isSome = true
  initialized : fields.isInitialized = true
  top : fields.topLevelKv = (topLevelRecord maxLevel records).map (fun kv =>
    cloneKeyValue kv kv.valueKind)

variable {records : List KeyValue} {kv : KeyValue} {maxLevel : Int}

theorem top_level_record_none (unique : AtMostOneTopLevel maxLevel (records ++ [kv]))
    (isTop : kv.level = maxLevel) : topLevelRecord maxLevel records = none := by
  have noOther : records.countP (fun kv => decide (kv.level = maxLevel)) = 0 := by
    simpa [AtMostOneTopLevel, countP_append, isTop] using unique
  rw [topLevelRecord, find?_eq_none]
  exact countP_eq_zero.mp noOther

theorem top_level_record_append (unique : AtMostOneTopLevel maxLevel (records ++ [kv])) :
    topLevelRecord maxLevel (records ++ [kv]) =
      if kv.level = maxLevel then some kv else topLevelRecord maxLevel records := by
  by_cases isTop : kv.level = maxLevel
  · have noOther := top_level_record_none unique isTop
    rw [topLevelRecord] at noOther
    rw [topLevelRecord, find?_append, noOther]
    simp [isTop]
  · rw [topLevelRecord, topLevelRecord]
    simp [isTop]

theorem top_level_record_of_mem {top : KeyValue} (unique : AtMostOneTopLevel maxLevel records)
    (isRecord : top ∈ records) (isTop : top.level = maxLevel) :
    topLevelRecord maxLevel records = some top := by
  rw [AtMostOneTopLevel, countP_eq_length_filter] at unique
  have among : top ∈ records.filter (fun kv => decide (kv.level = maxLevel)) := by
    simp [isRecord, isTop]
  rw [topLevelRecord, ← head?_filter]
  match filtered : records.filter (fun kv => decide (kv.level = maxLevel)) with
  | [] => simp [filtered] at among
  | [found] =>
    rw [filtered, mem_singleton] at among
    rw [filtered, among]
    rfl
  | _ :: _ :: _ => simp [filtered] at unique

variable {later : List KeyValue}

theorem AtMostOneTopLevel.initial (unique : AtMostOneTopLevel maxLevel (records ++ later)) :
    AtMostOneTopLevel maxLevel records := by
  rw [AtMostOneTopLevel, countP_append] at unique
  rw [AtMostOneTopLevel]
  omega

variable {fields next : Fields State}

theorem pass_fields (passes : wrapper.pass kv fields = .ok next) :
    next.initialKv = fields.initialKv ∧ next.isInitialized = fields.isInitialized ∧
      next.topLevelKv = if kv.level = wrapper.maxLevel then some (cloneKeyValue kv kv.valueKind)
        else fields.topLevelKv := by
  by_cases isTop : kv.level = wrapper.maxLevel
  · cases remembered : fields.topLevelKv with
    | some top => simp [pass, isTop, rememberTopLevel, remembered, bind, Except.bind] at passes
    | none =>
      cases added : wrapper.mergeFunction.add kv fields.inner with
      | error reason =>
        simp [pass, isTop, rememberTopLevel, remembered, bind, Except.bind, added] at passes
      | ok inner =>
        simp only [pass, isTop, rememberTopLevel, remembered, bind, Except.bind, added, pure,
          Except.pure, Option.isSome_none, Bool.false_eq_true, if_false, if_true,
          Except.ok.injEq] at passes
        simp [← passes, isTop]
  · cases added : wrapper.mergeFunction.add kv fields.inner with
    | error reason => simp [pass, isTop, bind, Except.bind, added] at passes
    | ok inner =>
      simp only [pass, isTop, bind, Except.bind, added, pure, Except.pure, if_false,
        Except.ok.injEq] at passes
      simp [← passes, isTop]

theorem pass_answers (infallible : wrapper.mergeFunction.Infallible)
    (free : kv.level = wrapper.maxLevel → fields.topLevelKv = none) :
    ∃ next, wrapper.pass kv fields = .ok next := by
  obtain ⟨inner, added⟩ := infallible.adds kv fields.inner
  by_cases isTop : kv.level = wrapper.maxLevel
  · simp [pass, isTop, rememberTopLevel, free isTop, bind, Except.bind, added, pure, Except.pure]
  · simp [pass, isTop, bind, Except.bind, added, pure, Except.pure]

section
variable (passed : Passed wrapper.maxLevel records fields)
include passed

theorem add_to_passed : wrapper.add kv fields = wrapper.pass kv fields := by
  obtain ⟨initial, isInitial⟩ := Option.isSome_iff_exists.mp passed.initial
  simp [add, isInitial, passed.initialized, bind, Except.bind]

theorem passed_step (unique : AtMostOneTopLevel wrapper.maxLevel (records ++ [kv]))
    (adds : wrapper.add kv fields = .ok next) : Passed wrapper.maxLevel (records ++ [kv]) next := by
  rw [wrapper.add_to_passed passed] at adds
  obtain ⟨sameInitial, sameInitialized, top⟩ := wrapper.pass_fields adds
  refine ⟨sameInitial ▸ passed.initial, sameInitialized ▸ passed.initialized, ?_⟩
  rw [top, top_level_record_append unique, passed.top]
  split <;> rfl

theorem passed_answers (infallible : wrapper.mergeFunction.Infallible)
    (unique : AtMostOneTopLevel wrapper.maxLevel (records ++ [kv])) :
    ∃ next, wrapper.add kv fields = .ok next := by
  rw [wrapper.add_to_passed passed]
  apply wrapper.pass_answers infallible
  intro isTop
  rw [passed.top, top_level_record_none unique isTop]
  rfl

end

/-- What the fields are once a second record has come, before that record is added. -/
def opened (first : KeyValue) (fields : Fields State) : Except String (Fields State) := do
  let fields ← wrapper.pass first { wrapper.reset fields with initialKv := some first }
  .ok { fields with isInitialized := true }

theorem opened_passed {first : KeyValue} (opens : wrapper.opened first fields = .ok next) :
    Passed wrapper.maxLevel [first] next := by
  obtain ⟨passed, passes, opens⟩ := Programs.bind_eq_ok.mp opens
  obtain ⟨sameInitial, _, top⟩ := wrapper.pass_fields passes
  cases opens
  refine ⟨by simp [sameInitial], rfl, ?_⟩
  rw [top, topLevelRecord]
  by_cases isTop : first.level = wrapper.maxLevel <;> simp [isTop, reset]

theorem add_second (first second : KeyValue) (fields : Fields State) :
    wrapper.add second { wrapper.reset fields with initialKv := some first } =
      wrapper.opened first fields >>= wrapper.add second := by
  cases passes : wrapper.pass first { wrapper.reset fields with initialKv := some first } with
  | error reason =>
    rw [reset] at passes
    simp [add, opened, passes, reset, bind, Except.bind]
  | ok passed =>
    have opens : wrapper.opened first fields = .ok { passed with isInitialized := true } := by
      simp [opened, passes, bind, Except.bind]
    rw [opens]
    change _ = wrapper.add second { passed with isInitialized := true }
    rw [wrapper.add_to_passed (wrapper.opened_passed opens)]
    rw [reset] at passes
    simp [add, passes, reset, bind, Except.bind]

theorem add_all_opened (first second : KeyValue) (rest : List KeyValue) (fields : Fields State) :
    addAll wrapper.add (first :: second :: rest) (wrapper.reset fields) =
      wrapper.opened first fields >>= addAll wrapper.add (second :: rest) := by
  change addAll wrapper.add (second :: rest) _ = _
  rw [addAll, foldlM_cons, add_second, bind_assoc]
  rfl

theorem opened_answers (infallible : wrapper.mergeFunction.Infallible) (first : KeyValue)
    (fields : Fields State) : ∃ next, wrapper.opened first fields = .ok next := by
  have free : first.level = wrapper.maxLevel → (wrapper.reset fields).topLevelKv = none :=
    fun _ => rfl
  obtain ⟨passed, passes⟩ : ∃ passed,
      wrapper.pass first { wrapper.reset fields with initialKv := some first } = .ok passed :=
    wrapper.pass_answers infallible free
  exact ⟨{ passed with isInitialized := true }, by simp [opened, passes, bind, Except.bind]⟩

theorem passed_run (passed : Passed wrapper.maxLevel records fields)
    (unique : AtMostOneTopLevel wrapper.maxLevel (records ++ later))
    (adds : addAll wrapper.add later fields = .ok next) :
    Passed wrapper.maxLevel (records ++ later) next := by
  induction later generalizing records fields with
  | nil =>
    cases adds
    rwa [append_nil]
  | cons kv rest ih =>
    rw [append_cons] at unique ⊢
    obtain ⟨middle, added, adds⟩ := Programs.bind_eq_ok.mp adds
    exact ih (wrapper.passed_step passed unique.initial added) unique adds

theorem passed_run_answers (infallible : wrapper.mergeFunction.Infallible)
    (passed : Passed wrapper.maxLevel records fields)
    (unique : AtMostOneTopLevel wrapper.maxLevel (records ++ later)) :
    ∃ next, addAll wrapper.add later fields = .ok next := by
  induction later generalizing records fields with
  | nil => exact ⟨fields, rfl⟩
  | cons kv rest ih =>
    rw [append_cons] at unique
    obtain ⟨middle, added⟩ := wrapper.passed_answers passed infallible unique.initial
    obtain ⟨next, addedRest⟩ := ih (wrapper.passed_step passed unique.initial added) unique
    refine ⟨next, ?_⟩
    rw [addAll, foldlM_cons, added]
    exact addedRest

theorem add_all_answers (infallible : wrapper.mergeFunction.Infallible)
    (unique : AtMostOneTopLevel wrapper.maxLevel records) (fields : Fields State) :
    ∃ next, addAll wrapper.add records (wrapper.reset fields) = .ok next := by
  match records with
  | [] => exact ⟨_, rfl⟩
  | [only] => exact ⟨_, rfl⟩
  | first :: second :: rest =>
    obtain ⟨opened, opens⟩ := wrapper.opened_answers infallible first fields
    rw [add_all_opened, opens]
    exact wrapper.passed_run_answers infallible (wrapper.opened_passed opens) unique

theorem merge_single (only : KeyValue) (fields : Fields State) :
    ∃ after, wrapper.toWrapper.merge [only] fields = .ok (some
      { result := (some only).filter (fun kv => kv.valueKind.isAdd)
        changelogs := wrapper.changesOfSingle (some only) }, after) :=
  ⟨_, rfl⟩

theorem merge_nil (fields : Fields State) :
    ∃ after, wrapper.toWrapper.merge [] fields = .ok (some {}, after) :=
  ⟨_, rfl⟩

theorem merge_many {first second : KeyValue} {rest : List KeyValue} {added : Fields State}
    (unique : AtMostOneTopLevel wrapper.maxLevel (first :: second :: rest))
    (adds : addAll wrapper.add (first :: second :: rest) (wrapper.reset fields) = .ok added) :
    wrapper.toWrapper.merge (first :: second :: rest) fields = do
      let (merged, inner) ← wrapper.mergeFunction.getResult added.inner
      return (some
        { result := merged.filter (fun kv => kv.valueKind.isAdd)
          changelogs := wrapper.changesAgainstTopLevel
            ((topLevelRecord wrapper.maxLevel (first :: second :: rest)).map
              (fun kv => cloneKeyValue kv kv.valueKind)) merged },
        wrapper.reset { added with inner := inner }) := by
  have opening := adds
  rw [add_all_opened] at opening
  obtain ⟨opened, opens, addsLater⟩ := Programs.bind_eq_ok.mp opening
  have passed : Passed wrapper.maxLevel (first :: second :: rest) added :=
    wrapper.passed_run (wrapper.opened_passed opens) unique addsLater
  rw [ChangelogMergeFunctionWrapper.merge_eq adds]
  rw [← passed.top]
  simp [toWrapper, getResult, passed.initialized]

theorem present_row_filter (merged : Option KeyValue) :
    presentRow (merged.filter (fun kv => kv.valueKind.isAdd)) = presentRow merged := by
  cases merged with
  | none => rfl
  | some kv => simp [presentRow]

/-- Right if the record of the top level was a row. -/
theorem replays_against_top_level {top merged : Option KeyValue}
    (wasThere : ∀ record ∈ top, record.valueKind.isAdd = true) : Replays wrapper.valueEqualizer top
      { result := merged.filter (fun kv => kv.valueKind.isAdd)
        changelogs := wrapper.changesAgainstTopLevel
          (top.map (fun kv => cloneKeyValue kv kv.valueKind)) merged } := by
  cases top with
  | none =>
    apply replays_of_eq
    cases merged with
    | none => rfl
    | some kv =>
      cases isAdd : kv.valueKind.isAdd <;> simp [changesAgainstTopLevel, isAdd, presentRow]
  | some record =>
    have isRow := wasThere record rfl
    have before := present_row_of_add isRow
    have deleted := replay_deleted (cloneKeyValue record record.valueKind)
    cases merged with
    | none =>
      apply replays_of_eq
      rw [before]
      exact deleted
    | some kv =>
      cases isAdd : kv.valueKind.isAdd with
      | false =>
        apply replays_of_eq
        simp only [changesAgainstTopLevel, Option.map_some, isAdd, Bool.not_false, if_true]
        rw [present_row_filter, present_row_of_not_add isAdd, before]
        exact deleted
      | true =>
        have sameRows : wrapper.valueEqualizer.differs (cloneKeyValue record record.valueKind) kv =
              wrapper.valueEqualizer.differs record kv := rfl
        cases differ : wrapper.valueEqualizer.differs record kv with
        | true =>
          apply replays_of_eq
          simp only [changesAgainstTopLevel, Option.map_some, isAdd, Bool.not_true,
            sameRows, differ,
            if_true]
          rw [present_row_filter, present_row_of_add isAdd, before]
          exact replay_updated (cloneKeyValue record record.valueKind) kv
        | false =>
          have unchanged := replays_of_not_differs isRow isAdd differ
          simpa [changesAgainstTopLevel, isAdd, sameRows, differ, Option.filter] using unchanged

theorem replays_single (only : KeyValue) :
    Replays wrapper.valueEqualizer (topLevelRecord wrapper.maxLevel [only])
      { result := (some only).filter (fun kv => kv.valueKind.isAdd)
        changelogs := wrapper.changesOfSingle (some only) } := by
  apply replays_of_eq
  rw [present_row_filter, topLevelRecord]
  by_cases isTop : only.level = wrapper.maxLevel
  · simp [isTop, changesOfSingle]
  · cases isAdd : only.valueKind.isAdd with
    | false => simp [isTop, isAdd, changesOfSingle, present_row_of_not_add]
    | true => simp [isTop, isAdd, changesOfSingle, present_row_of_add]

/-- Two records or more, and that of the top level is a retract. -/
def RetractOnTop (maxLevel : Int) (records : List KeyValue) : Prop :=
  2 ≤ records.length ∧ ∃ top ∈ records, top.level = maxLevel ∧ top.valueKind.isRetract = true

/-- The wrapper answers if the merge function does, and what it answers replays. -/
structure Sound (records : List KeyValue) : Prop where
  answers : wrapper.mergeFunction.Infallible → ∀ fields, ∃ outcome after,
    wrapper.toWrapper.merge records fields = .ok (some outcome, after)
  replays :
    ∀ fields outcome after, wrapper.toWrapper.merge records fields = .ok (some outcome, after) →
      Replays wrapper.valueEqualizer (topLevelRecord wrapper.maxLevel records) outcome

theorem sound_of_rows (unique : AtMostOneTopLevel wrapper.maxLevel records)
    (rows : ¬RetractOnTop wrapper.maxLevel records) : wrapper.Sound records := by
  match records with
  | [] =>
    refine ⟨fun _ fields => ⟨_, wrapper.merge_nil fields⟩, ?_⟩
    intro fields outcome after merges
    obtain ⟨_, merged⟩ := wrapper.merge_nil fields
    rw [merged] at merges
    cases merges
    exact replays_of_eq rfl
  | [only] =>
    refine ⟨fun _ fields => ⟨_, wrapper.merge_single only fields⟩, ?_⟩
    intro fields outcome after merges
    obtain ⟨_, merged⟩ := wrapper.merge_single only fields
    rw [merged] at merges
    cases merges
    exact wrapper.replays_single only
  | first :: second :: rest =>
    constructor
    · intro infallible fields
      obtain ⟨added, adds⟩ := wrapper.add_all_answers infallible unique fields
      obtain ⟨merged, inner, results⟩ := infallible.results added.inner
      rw [wrapper.merge_many unique adds, results]
      exact ⟨_, _, rfl⟩
    · intro fields outcome after merges
      cases adds : addAll wrapper.add (first :: second :: rest) (wrapper.reset fields) with
      | error reason =>
        rw [ChangelogMergeFunctionWrapper.merge] at merges
        simp [toWrapper, adds, bind, Except.bind] at merges
      | ok added =>
        rw [wrapper.merge_many unique adds] at merges
        obtain ⟨answer, _, merges⟩ := Programs.bind_eq_ok.mp merges
        cases merges
        apply wrapper.replays_against_top_level
        intro record isRecord
        by_contra notAdd
        have isTop : record.level = wrapper.maxLevel := by
          simpa using find?_some isRecord
        exact rows ⟨by simp, record, mem_of_find?_eq_some isRecord, isTop,
          (is_retract_iff _).mpr (by simpa using notAdd)⟩

/-- A merge function that returns nothing, whatever it was given. -/
def nothing : MergeFunction Unit where
  reset := id
  add := fun _ state => .ok state
  getResult := fun state => .ok (none, state)

theorem merge_nothing {valueEqualizer : ValueEqualizer} {top : KeyValue}
    (unique : AtMostOneTopLevel maxLevel records) (two : 2 ≤ records.length)
    (isTop : topLevelRecord maxLevel records = some top) :
    ∃ after, (mk nothing maxLevel valueEqualizer).toWrapper.merge records { inner := () } =
      .ok (some { changelogs := [{ cloneKeyValue top top.valueKind with valueKind := .delete }] },
        after) := by
  match records with
  | first :: second :: rest =>
    obtain ⟨added, adds⟩ := (mk nothing maxLevel valueEqualizer).add_all_answers
      ⟨fun _ state => ⟨state, rfl⟩, fun state => ⟨none, state, rfl⟩⟩ unique { inner := () }
    rw [merge_many _ unique adds, isTop]
    exact ⟨_, rfl⟩

theorem retract_unsound (valueEqualizer : ValueEqualizer)
    (unique : AtMostOneTopLevel maxLevel records)
    (retracts : RetractOnTop maxLevel records) :
    ¬(mk nothing maxLevel valueEqualizer).Sound records := by
  obtain ⟨two, top, isRecord, isTop, retract⟩ := retracts
  intro sound
  have isTop := top_level_record_of_mem unique isRecord isTop
  obtain ⟨after, merges⟩ := @merge_nothing _ _ valueEqualizer top unique two isTop
  -- A row is deleted that was not there.
  obtain ⟨row, replays, _⟩ := sound.replays _ _ _ merges
  rw [isTop, present_row_of_not_add ((is_retract_iff _).mp retract)] at replays
  cases replays

end FullChangelogMergeFunctionWrapper

end PaimonCore.MergeTree
