import PaimonCore.Library.LatestRecords
import PaimonCore.MergeTree.LookupCandidates
import PaimonCore.MergeTree.LookupLevels
import PaimonCore.MergeTree.MergeEngines

/-!
# Lookup compaction against full merging

Every level above 0 stores, for each key, the merge of all records that reached this
level or a higher one. A compaction that merges the level-0 records with one such record
therefore merges them with all of them, as long as none belongs between these.
-/

namespace PaimonCore.MergeTree

open Std PaimonCore.Fields List Option LatestRecords RecordOrder MergeFunction

/-- `CreateLookupMergeFunctionWrapper` for one output level. -/
structure LookupCompaction (State : Type) where
  order : RecordOrder
  sorting : RecordSort order := .stable order
  engine : LookupEngine State
  lookupLevels : LookupLevels
  outputLevel : Nat
  deletionVector : Bool := false
  notifyNewDeletion : String → Int → Except String Unit := fun _ _ => .ok ()
  shouldProduceChangelog : Bool := false
  valueEqualizer : ValueEqualizer := none

namespace LookupCompaction

open LookupMergeFunction (Fields)

variable {State : Type} (compaction : LookupCompaction State) (key : BinaryRow)

def wrapper : LookupChangelogMergeFunctionWrapper State where
  mergeFunction := compaction.engine.mergeFunction
  lookup := fun key => compaction.lookupLevels.lookup (key.getD []) (compaction.outputLevel + 1)
  deletionVector := compaction.deletionVector
  shouldProduceChangelog := compaction.shouldProduceChangelog
  notifyNewDeletion := compaction.notifyNewDeletion
  order := compaction.order
  sorting := compaction.sorting
  valueEqualizer := compaction.valueEqualizer

/-- The records rewritten besides those of level 0: every level up to the one written to. -/
def inputs : List KeyValue :=
  (List.range' 1 compaction.outputLevel).filterMap (compaction.lookupLevels.recordAt key)

structure Takes (level0 records : List KeyValue) : Prop where
  perm : records.Perm (level0 ++ compaction.inputs key)
  ascending : compaction.order.Ascending records
  nonempty : records ≠ []
  fresh : ∀ kv ∈ level0, kv.level ≤ 0
  keyed : ∀ kv ∈ level0, kv.key = key

def produced (records : List KeyValue) (fields : Fields State) : Except String (Option KeyValue) :=
  (compaction.wrapper.toWrapper.merge records fields).map
    (fun outcome => (outcome.1.bind ChangelogResult.result).map KeyValueOf.contents)

def maxLevel : Nat := compaction.lookupLevels.levels.levels.length

def stored (level : Nat) : Option KeyValue := compaction.lookupLevels.recordAt key level

def highLevel : Option KeyValue :=
  (List.range' 1 compaction.maxLevel).findSome? (compaction.stored key)

/-- Runs are sorted, lookups return records, and the deletion vectors take what they are told. -/
structure Readable : Prop where
  sorted : compaction.lookupLevels.Sorted
  withValue : compaction.lookupLevels.processor ≠ .position
  notifies : ∀ fileName rowPosition, compaction.notifyNewDeletion fileName rowPosition = .ok ()
  inside : compaction.outputLevel ≤ compaction.maxLevel

variable {compaction} {key}

section
variable (readable : compaction.Readable)
include readable

theorem record_at_level {level : Nat} {kv : KeyValue}
    (pos : 0 < level) (isStored : compaction.stored key level = some kv) :
    kv.level = level ∧ kv.key = key := by
  obtain ⟨file, mem, isRecord⟩ := exists_of_findSome?_eq_some isStored
  obtain ⟨row, _, rfl⟩ := map_eq_some_iff.mp isRecord
  exact ⟨readable.sorted.placed level pos file mem, rfl⟩

theorem inputs_mem {kv : KeyValue} (mem : kv ∈ compaction.inputs key) :
    0 < kv.level ∧ kv.key = key := by
  obtain ⟨level, inRange, isStored⟩ := mem_filterMap.mp mem
  have bounds := mem_range'_1.mp inRange
  have placed := record_at_level readable (by omega) isStored
  refine ⟨?_, placed.2⟩
  omega

theorem high_level_positive {high : KeyValue} (found : compaction.highLevel key = some high) :
    0 < high.level := by
  obtain ⟨level, inRange, isStored⟩ := exists_of_findSome?_eq_some found
  have bounds := mem_range'_1.mp inRange
  rw [(record_at_level readable (by omega) isStored).1]
  omega

theorem inputs_ascend :
    (compaction.inputs key).Pairwise (fun lower upper => lower.level < upper.level) := by
  have levels := pairwise_lt_range' (s := 1) (n := compaction.outputLevel) 1
  apply pairwise_filterMap.mpr
  apply levels.imp_of_mem
  intro lower upper lowerMember upperMember less low isLow high isHigh
  have lowBounds := mem_range'_1.mp lowerMember
  have placedLow := (record_at_level readable (by omega) isLow).1
  have placedHigh := (record_at_level readable (by omega) isHigh).1
  rw [placedLow, placedHigh]
  exact_mod_cast less

theorem high_level_eq : compaction.highLevel key = (compaction.inputs key).head?.or
      ((compaction.lookupLevels.levelsFrom (compaction.outputLevel + 1)).findSome?
        (compaction.lookupLevels.recordAt key)) := by
  have inside := readable.inside
  have split : List.range' 1 compaction.maxLevel = List.range' 1 compaction.outputLevel ++
      compaction.lookupLevels.levelsFrom (compaction.outputLevel + 1) := by
    unfold LookupLevels.levelsFrom Levels.numberOfLevels
    rw [Nat.add_comm compaction.outputLevel 1, List.range'_append_1]
    congr 1
    unfold maxLevel at inside ⊢
    omega
  unfold highLevel
  rw [split, findSome?_append, inputs, head?_filterMap]
  rfl

end

theorem get_result_fst {mergeFunction : MergeFunction State} (fields : Fields State) :
    (LookupMergeFunction.getResult mergeFunction fields).map Prod.fst =
      mergeFunction.mergeRecords (LookupMergeFunction.mergedCandidates fields.candidates)
        fields.inner := by
  unfold LookupMergeFunction.getResult mergeRecords
  cases addAll mergeFunction.add (LookupMergeFunction.mergedCandidates fields.candidates)
      (mergeFunction.reset fields.inner) with
  | error reason => rfl
  | ok added =>
    simp only [bind, Except.bind]
    cases mergeFunction.getResult added <;> rfl

def gathered (records : List KeyValue) (fields : Fields State) : Fields State where
  inner := fields.inner
  candidates := records
  currentKey := records.getLast?.map KeyValueOf.key
  containLevel0 := records.any (fun kv => kv.level = 0)

variable {records : List KeyValue}

theorem produced_of_looked_up {fields : Fields State} {lookedUp : Option KeyValue}
    (looksUp : compaction.wrapper.lookupIfAbsent (gathered records fields) = .ok lookedUp) :
    compaction.produced records fields = compaction.engine.mergeFunction.mergeContents
      (LookupMergeFunction.mergedCandidates
        (compaction.wrapper.withLookedUp lookedUp (gathered records fields)).candidates)
      fields.inner := by
  have isInner :
      fields.inner =
      (compaction.wrapper.withLookedUp lookedUp (gathered records fields)).inner := by
    cases lookedUp <;> rfl
  have merges : compaction.wrapper.toWrapper.merge records fields =
      compaction.wrapper.getResult (gathered records fields) :=
    compaction.wrapper.merge_lookup records fields
  unfold produced
  rw [merges, LookupChangelogMergeFunctionWrapper.getResult, looksUp, mergeContents, isInner,
    ← get_result_fst]
  change Except.map _ ((LookupMergeFunction.getResult compaction.engine.mergeFunction
    (compaction.wrapper.withLookedUp lookedUp (gathered records fields))) >>= _) = _
  cases LookupMergeFunction.getResult compaction.engine.mergeFunction
      (compaction.wrapper.withLookedUp lookedUp (gathered records fields)) with
  | error reason => rfl
  | ok answer => rfl

variable {level0 : List KeyValue}

theorem Takes.last_key (takes : compaction.Takes key level0 records)
    (readable : compaction.Readable) : records.getLast?.map KeyValueOf.key = some key := by
  obtain ⟨last, isLast⟩ := isSome_iff_exists.mp (getLast?_isSome.mpr takes.nonempty)
  have mem := takes.perm.mem_iff.mp (mem_of_getLast? isLast)
  rw [isLast, map_some]
  rcases mem_append.mp mem with isFresh | isInput
  · rw [takes.keyed last isFresh]
  · rw [(inputs_mem readable isInput).2]

theorem looks_up_high_level (readable : compaction.Readable) :
    compaction.wrapper.lookupHighLevel (some key) =
      .ok ((compaction.lookupLevels.levelsFrom (compaction.outputLevel + 1)).findSome?
        (compaction.lookupLevels.recordAt key)) := by
  obtain ⟨found, looksUp, isRecord⟩ := @LookupLevels.Sorted.lookup_record
    compaction.lookupLevels key readable.withValue readable.sorted compaction.outputLevel
  have answers : compaction.wrapper.lookup (some key) = .ok found := looksUp
  rw [← isRecord]
  unfold LookupChangelogMergeFunctionWrapper.lookupHighLevel
  rw [answers]
  cases found with
  | none => rfl
  | some result =>
    have notified : compaction.wrapper.notifyNewDeletion result.fileName result.rowPosition =
        .ok () := readable.notifies _ _
    cases compaction.wrapper.deletionVector <;>
      simp [notified, bind, Except.bind, pure, Except.pure]

theorem merged_with_looked_up {high : KeyValue} (perm : records.Perm level0)
    (fresh : ∀ kv ∈ level0, kv.level ≤ 0) (nodup : compaction.order.Distinct (level0 ++ [high]))
    (positive : 0 < high.level) :
    LookupMergeFunction.mergedCandidates (compaction.sorting.sort (records ++ [high])) =
      compaction.order.inOrder (level0 ++ [high]) := by
  have sorted : compaction.sorting.sort (records ++ [high]) =
      compaction.order.inOrder (level0 ++ [high]) := by
    apply Comparators.eq_of_ascending _ (compaction.sorting.ascending _)
      (in_order_ascending nodup)
    exact (compaction.sorting.perm _).trans
      ((perm.append_right _).trans (in_order_perm _).symm)
  rw [sorted]
  apply LookupMergeFunction.merged_candidates_in_order
    (in_order_ascending nodup) (in_order_perm _) fresh
  · intro kv mem
    rw [mem_singleton.mp mem]
    exact positive
  · exact pairwise_singleton _ _

theorem produced_eq (readable : compaction.Readable) (takes : compaction.Takes key level0 records)
    (nodup : compaction.order.Distinct (level0 ++ (compaction.highLevel key).toList))
    (fields : Fields State) :
    compaction.produced records fields = compaction.engine.mergeFunction.mergeContents
      (compaction.order.inOrder (level0 ++ (compaction.highLevel key).toList)) fields.inner := by
  have pos : ∀ kv ∈ compaction.inputs key, 0 < kv.level := fun kv mem =>
    (inputs_mem readable mem).1
  have ascend := @inputs_ascend State compaction key readable
  have picked : LookupMergeFunction.pickHighLevel records = (compaction.inputs key).head? :=
    LookupMergeFunction.pick_eq_head takes.perm takes.fresh pos ascend
  have isHigh := @high_level_eq State compaction key readable
  cases isInput : (compaction.inputs key).head? with
  | some high =>
    have looksUp : compaction.wrapper.lookupIfAbsent (gathered records fields) = .ok none := by
      unfold LookupChangelogMergeFunctionWrapper.lookupIfAbsent
      simp [gathered, picked, isInput]
    rw [isInput, some_or] at isHigh
    rw [produced_of_looked_up looksUp, isHigh, ← isInput]
    change compaction.engine.mergeFunction.mergeContents
      (LookupMergeFunction.mergedCandidates records) fields.inner = _
    rw [LookupMergeFunction.merged_candidates_in_order takes.ascending takes.perm
      takes.fresh pos ascend]
  | none =>
    have noInputs : compaction.inputs key = [] := head?_eq_none_iff.mp isInput
    have perm := takes.perm
    rw [noInputs, append_nil] at perm
    rw [isInput, none_or] at isHigh
    have looksUp : compaction.wrapper.lookupIfAbsent (gathered records fields) =
        .ok (compaction.highLevel key) := by
      unfold LookupChangelogMergeFunctionWrapper.lookupIfAbsent
      rw [if_neg (by simp [gathered, picked, isInput])]
      change compaction.wrapper.lookupHighLevel (records.getLast?.map KeyValueOf.key) = _
      rw [takes.last_key readable, looks_up_high_level readable, isHigh]
    rw [produced_of_looked_up looksUp]
    congr 1
    cases found : compaction.highLevel key with
    | none =>
      change LookupMergeFunction.mergedCandidates records = _
      rw [LookupMergeFunction.merged_candidates_in_order takes.ascending takes.perm takes.fresh
        pos ascend, isInput]
    | some high =>
      rw [found] at nodup
      exact merged_with_looked_up perm takes.fresh nodup (high_level_positive readable found)

variable (compaction)

def above (maxLevel : Nat) (history : Nat → List KeyValue) (level : Nat) : List KeyValue :=
  (List.range' level (maxLevel + 1 - level)).flatMap history

/-- A level stores the merge of all records that reached it or a level above. -/
structure LookupInvariant (maxLevel : Nat) (stored : Nat → Option KeyValue)
    (history : Nat → List KeyValue) : Prop where
  absent : ∀ level, 0 < level → level ≤ maxLevel → stored level = none → history level = []
  present : ∀ level kv, 0 < level → level ≤ maxLevel → stored level = some kv → history level ≠ []
  merged : ∀ level kv, 0 < level → level ≤ maxLevel → stored level = some kv → ∀ state,
    compaction.engine.mergeFunction.mergeContents
      (compaction.order.inOrder (above maxLevel history level)) state = .ok (some kv.contents)

/-- No level-0 record comes between the records above level 0, raw and stored. -/
def NoneBetween (key : BinaryRow) (history : Nat → List KeyValue) (level0 : List KeyValue) : Prop :=
  let others := above compaction.maxLevel history 1 ++ (compaction.highLevel key).toList
  ∀ kv ∈ level0, (∀ other ∈ others, compaction.order.compareSequence kv other = .lt) ∨
    ∀ other ∈ others, compaction.order.compareSequence other kv = .lt

def storedAfter (key : BinaryRow) (result : Option KeyValue) (level : Nat) : Option KeyValue :=
  if level < compaction.outputLevel then none
  else if level = compaction.outputLevel then result.map (KeyValueOf.atLevel compaction.outputLevel)
  else compaction.stored key level

/-- The records that have reached each level; those that merge to nothing are gone. -/
def historyAfter (history : Nat → List KeyValue) (level0 : List KeyValue)
    (result : Option KeyValue) (level : Nat) : List KeyValue :=
  if level < compaction.outputLevel then []
  else if level = compaction.outputLevel then
    if result.isSome then level0 ++ (List.range' 1 compaction.outputLevel).flatMap history else []
  else history level

variable {compaction}

theorem above_split (maxLevel : Nat) (history : Nat → List KeyValue) {lower level : Nat}
    (order : lower ≤ level) (inside : level ≤ maxLevel + 1) : above maxLevel history lower =
      (List.range' lower (level - lower)).flatMap history ++ above maxLevel history level := by
  have split : List.range' lower (maxLevel + 1 - lower) = List.range' lower (level - lower) ++
      List.range' level (maxLevel + 1 - level) := by
    have next : level = lower + (level - lower) := by omega
    conv_rhs => rw [next]
    rw [show lower + (level - lower) - lower = level - lower by omega, List.range'_append_1]
    congr 1
    omega
  unfold above
  rw [split, flatMap_append]

section
variable {history : Nat → List KeyValue}
  (invariant : compaction.LookupInvariant compaction.maxLevel (compaction.stored key) history)
include invariant

theorem LookupInvariant.nothing {levels : List Nat}
    (empty : ∀ level ∈ levels, 0 < level ∧ level ≤ compaction.maxLevel ∧
      compaction.stored key level = none) : levels.flatMap history = [] := by
  apply flatMap_eq_nil_iff.mpr
  intro level mem
  obtain ⟨pos, inside, isNone⟩ := empty level mem
  exact invariant.absent level pos inside isNone

theorem LookupInvariant.above_eq_nil (isNone : compaction.highLevel key = none) :
    above compaction.maxLevel history 1 = [] := by
  apply invariant.nothing
  intro level mem
  have bounds := mem_range'_1.mp mem
  exact ⟨by omega, by omega, findSome?_eq_none_iff.mp isNone level (mem_range'_1.mpr (by omega))⟩

/-- The record of the lowest level is the merge of all records above level 0. -/
theorem LookupInvariant.merged_of_high {high : KeyValue}
    (isHigh : compaction.highLevel key = some high) :
    above compaction.maxLevel history 1 ≠ [] ∧
      ∀ state, compaction.engine.mergeFunction.mergeContents
        (compaction.order.inOrder (above compaction.maxLevel history 1)) state =
          .ok (some high.contents) := by
  obtain ⟨before, level, after, isSplit, isStored, beforeNone⟩ := findSome?_eq_some_iff.mp isHigh
  obtain ⟨count, _, rfl, isRest⟩ := List.range'_eq_append_iff.mp isSplit
  obtain ⟨rfl, pos, _⟩ := List.range'_eq_cons_iff.mp isRest.symm
  rw [Nat.mul_one] at isStored
  have below : (List.range' 1 count).flatMap history = [] := by
    apply invariant.nothing
    intro lower mem
    have bounds := mem_range'_1.mp mem
    exact ⟨by omega, by omega, beforeNone lower mem⟩
  have same : above compaction.maxLevel history 1 =
      above compaction.maxLevel history (1 + count) := by
    rw [above_split compaction.maxLevel history (Nat.le_add_right 1 count) (by omega),
      Nat.add_sub_cancel_left, below, nil_append]
  constructor
  · intro empty
    exact invariant.present (1 + count) high (by omega) (by omega) isStored
      (flatMap_eq_nil_iff.mp empty _ (mem_range'_1.mpr (by omega)))
  · rw [same]
    exact invariant.merged (1 + count) high (by omega) (by omega) isStored

end

theorem compare_sequence_contents (order : RecordOrder) {left right : KeyValue}
    (same : left.contents = right.contents) (other : KeyValue) :
    order.compareSequence other left = order.compareSequence other right := by
  change order.compareSequence other left.contents = order.compareSequence other right.contents
  rw [same]

theorem last_kept_eq_latest (order : RecordOrder) (ignoreDelete : Bool)
    (ascending : order.Ascending records) : lastKept ignoreDelete records =
      LatestRecords.latest order.compareSequence (kept ignoreDelete) records := by
  induction records with
  | nil => rfl
  | cons kv rest ih =>
    obtain ⟨below, restAscending⟩ := pairwise_cons.mp ascending
    have split := last_kept_append ignoreDelete [kv] rest
    rw [singleton_append, last_kept_singleton] at split
    rw [split, latest, ih restAscending]
    cases isKept : kept ignoreDelete kv with
    | false => simp
    | true =>
      cases found : latest order.compareSequence (kept ignoreDelete) rest with
      | none => rfl
      | some later =>
        have lower := below later (latest_spec found).1
        simp [newest, newer, lower]

theorem last_kept_in_order {order : RecordOrder} (ignoreDelete : Bool)
    (nodup : order.Distinct records) : lastKept ignoreDelete (order.inOrder records) =
      LatestRecords.latest order.compareSequence (kept ignoreDelete) records := by
  rw [last_kept_eq_latest order ignoreDelete (in_order_ascending nodup)]
  apply latest_perm (in_order_perm records)
  intro left leftMember right rightMember _ _ tie
  exact Comparators.tie_free (in_order_ascending nodup) leftMember rightMember tie

theorem latest_with_stored (order : RecordOrder) {ignoreDelete : Bool} {older : List KeyValue}
    {latest high : KeyValue}
    (isLatest : LatestRecords.latest order.compareSequence (kept ignoreDelete) older = some latest)
    (same : latest.contents = high.contents) :
    (LatestRecords.latest order.compareSequence (kept ignoreDelete) (level0 ++ [high])).map
      KeyValueOf.contents =
      (LatestRecords.latest order.compareSequence (kept ignoreDelete)
        (level0 ++ older)).map KeyValueOf.contents := by
  have isKept : kept ignoreDelete high.contents = true := by
    rw [← same]
    exact (latest_spec isLatest).2.1
  have alone : LatestRecords.latest order.compareSequence (kept ignoreDelete) [high] =
      some high := by
    simp [LatestRecords.latest, show kept ignoreDelete high = true from isKept]
  rw [latest_append, latest_append, alone, isLatest]
  cases LatestRecords.latest order.compareSequence (kept ignoreDelete) level0 with
  | none => simp [newest, same]
  | some newer =>
    simp only [LatestRecords.newest, LatestRecords.newer,
      compare_sequence_contents order same newer]
    split
    · rfl
    · simp [same]

section
variable {history : Nat → List KeyValue} {level0 : List KeyValue}

theorem latest_of_merged {ignoreDelete : Bool} {high : KeyValue} {state : State}
    (deduplicates : ∀ records state, compaction.engine.mergeFunction.mergeRecords records state =
      .ok (lastKept ignoreDelete records)) (nodup : compaction.order.Distinct records)
    (merged : compaction.engine.mergeFunction.mergeContents (compaction.order.inOrder records)
      state = .ok (some high.contents)) :
    ∃ latest, LatestRecords.latest compaction.order.compareSequence (kept ignoreDelete) records =
      some latest ∧ latest.contents = high.contents := by
  rw [mergeContents, deduplicates, last_kept_in_order ignoreDelete nodup] at merged
  simp only [Except.map, Except.ok.injEq] at merged
  exact map_eq_some_iff.mp merged

section
variable (invariant : compaction.LookupInvariant compaction.maxLevel
  (compaction.stored key) history)
  (nodup : compaction.order.Distinct (level0 ++ above compaction.maxLevel history 1))
include invariant nodup

section
variable (settled : compaction.engine.isDeduplicate = true ∨
  compaction.NoneBetween key history level0)
include settled

theorem distinct_with_high [Nonempty State] :
    compaction.order.Distinct (level0 ++ (compaction.highLevel key).toList) := by
  obtain ⟨freshDistinct, olderDistinct, distinct⟩ := pairwise_append.mp nodup
  cases isHigh : compaction.highLevel key with
  | none => simpa [RecordOrder.Distinct] using freshDistinct
  | some high =>
    apply pairwise_append.mpr
    refine ⟨freshDistinct, pairwise_singleton _ _, ?_⟩
    intro newer isNewer other isOther
    obtain rfl : other = high := by simpa using isOther
    rcases settled with isDeduplicate | apart
    · obtain ⟨ignoreDelete, deduplicates⟩ := LookupEngine.deduplicates isDeduplicate
      obtain ⟨state⟩ := ‹Nonempty State›
      obtain ⟨latest, isLatest, same⟩ := latest_of_merged deduplicates olderDistinct
        ((invariant.merged_of_high isHigh).2 state)
      rw [← compare_sequence_contents compaction.order same]
      exact distinct newer isNewer latest (latest_spec isLatest).1
    · have isStored : other ∈ above compaction.maxLevel history 1 ++
          (compaction.highLevel key).toList := by simp [isHigh]
      rcases apart newer isNewer with before | after
      · rw [before other isStored]
        decide
      · rw [OrientedCmp.gt_of_lt (after other isStored)]
        decide

theorem merge_with_high (associative : compaction.engine.mergeFunction.Associative)
    (state : State) :
    compaction.engine.mergeFunction.mergeContents
        (compaction.order.inOrder (level0 ++ (compaction.highLevel key).toList)) state =
      compaction.engine.mergeFunction.mergeContents
        (compaction.order.inOrder (level0 ++ above compaction.maxLevel history 1)) state := by
  have nonempty : Nonempty State := ⟨state⟩
  have highDistinct := distinct_with_high invariant nodup settled
  obtain ⟨freshDistinct, olderDistinct, _⟩ := pairwise_append.mp nodup
  cases isHigh : compaction.highLevel key with
  | none =>
    rw [invariant.above_eq_nil isHigh]
    rfl
  | some high =>
    obtain ⟨olderNonempty, merged⟩ := invariant.merged_of_high isHigh
    rw [isHigh] at highDistinct
    rcases settled with isDeduplicate | apart
    · obtain ⟨ignoreDelete, deduplicates⟩ := LookupEngine.deduplicates isDeduplicate
      obtain ⟨latest, isLatest, same⟩ := latest_of_merged deduplicates olderDistinct (merged state)
      rw [mergeContents, mergeContents, deduplicates, deduplicates,
        last_kept_in_order ignoreDelete nodup, last_kept_in_order ignoreDelete highDistinct]
      exact congrArg Except.ok (latest_with_stored compaction.order isLatest same)
    · -- The stored record stands where all the records it was merged from stand.
      let early (kv : KeyValue) : Bool := compaction.order.compareSequence kv high = .lt
      have isStored : high ∈ above compaction.maxLevel history 1 ++
          (compaction.highLevel key).toList := by simp [isHigh]
      have before : ∀ kv ∈ level0, early kv = true →
          ∀ other ∈ above compaction.maxLevel history 1 ++
          (compaction.highLevel key).toList, compaction.order.compareSequence kv other = .lt := by
        intro kv mem isEarly
        refine (apart kv mem).resolve_right fun after => ?_
        rw [decide_eq_true_eq, OrientedCmp.gt_of_lt (after high isStored)] at isEarly
        cases isEarly
      have after : ∀ kv ∈ level0, early kv = false →
          ∀ other ∈ above compaction.maxLevel history 1 ++
          (compaction.highLevel key).toList, compaction.order.compareSequence other kv = .lt := by
        intro kv mem isLate
        refine (apart kv mem).resolve_left fun before => ?_
        exact of_decide_eq_false isLate (before high isStored)
      have raw := in_order_around freshDistinct olderDistinct olderNonempty
        (fun kv mem isEarly other isOther =>
          before kv mem isEarly other (mem_append_left _ isOther))
        (fun kv mem isLate other isOther => after kv mem isLate other (mem_append_left _ isOther))
      have stored := in_order_around freshDistinct (pairwise_singleton _ high) (cons_ne_nil _ _)
        (fun kv mem isEarly other isOther =>
          before kv mem isEarly other (mem_singleton.mp isOther ▸ isStored))
        (fun kv mem isLate other isOther =>
          after kv mem isLate other (mem_singleton.mp isOther ▸ isStored))
      rw [raw, associative _ _ _ _ high.level state (in_order_ne_nil olderNonempty) (merged state)]
      exact congrArg (compaction.engine.mergeFunction.mergeContents · state) stored

end

theorem merge_some_of_high {high : KeyValue} {state : State}
    (highDistinct : compaction.order.Distinct (level0 ++ [high]))
    (isHigh : compaction.highLevel key = some high) : compaction.engine.mergeFunction.mergeContents
      (compaction.order.inOrder (level0 ++ [high])) state ≠ .ok none := by
  intro isNone
  have isMember : high ∈ compaction.order.inOrder (level0 ++ [high]) :=
    (in_order_perm _).mem_iff.mpr (mem_append_right _ mem_cons_self)
  cases merges : compaction.engine.mergeFunction.mergeRecords
      (compaction.order.inOrder (level0 ++ [high])) state with
  | error reason => simp [mergeContents, merges, Except.map] at isNone
  | ok merged =>
    have nothing : merged = none := by
      simpa [mergeContents, merges, Except.map] using isNone
    cases isDeduplicate : compaction.engine.isDeduplicate with
    | false =>
      have some := compaction.engine.merges_some isDeduplicate (ne_nil_of_mem isMember) merges
      rw [nothing] at some
      cases some
    | true =>
      obtain ⟨ignoreDelete, deduplicates⟩ := LookupEngine.deduplicates isDeduplicate
      obtain ⟨latest, isLatest, same⟩ := latest_of_merged deduplicates
        (pairwise_append.mp nodup).2.1 ((invariant.merged_of_high isHigh).2 state)
      have isKept : kept ignoreDelete high.contents = true := by
        rw [← same]
        exact (latest_spec isLatest).2.1
      rw [deduplicates, nothing, Except.ok.injEq, last_kept_in_order ignoreDelete highDistinct,
        latest_eq_none_iff] at merges
      have ignored := merges high (mem_append_right _ mem_cons_self)
      rw [show kept ignoreDelete high = true from isKept] at ignored
      cases ignored

end

theorem Takes.reached_nonempty (takes : compaction.Takes key level0 records)
    (readable : compaction.Readable)
    (invariant : compaction.LookupInvariant compaction.maxLevel (compaction.stored key) history) :
    level0 ++ (List.range' 1 compaction.outputLevel).flatMap history ≠ [] := by
  intro empty
  obtain ⟨noFresh, noHistory⟩ := append_eq_nil_iff.mp empty
  have perm := takes.perm
  rw [noFresh] at perm
  obtain ⟨kv, isRecord⟩ := exists_mem_of_ne_nil _ takes.nonempty
  obtain ⟨level, inRange, isStored⟩ := mem_filterMap.mp (perm.mem_iff.mp isRecord)
  have bounds := mem_range'_1.mp inRange
  have inside := readable.inside
  exact invariant.present level kv (by omega) (by omega) isStored
    (flatMap_eq_nil_iff.mp noHistory level inRange)

theorem above_after (result : Option KeyValue) {level : Nat}
    (beyond : compaction.outputLevel < level) :
    above compaction.maxLevel (compaction.historyAfter history level0 result) level =
      above compaction.maxLevel history level := by
  apply flatMap_congr
  intro other mem
  have bounds := mem_range'_1.mp mem
  unfold historyAfter
  rw [if_neg (by omega), if_neg (by omega)]

theorem above_after_output (result : KeyValue)
    (inside : compaction.outputLevel ≤ compaction.maxLevel)
    (pos : 0 < compaction.outputLevel) :
    above compaction.maxLevel (compaction.historyAfter history level0 (some result))
        compaction.outputLevel = level0 ++ above compaction.maxLevel history 1 := by
  rw [above_split _ _ (show compaction.outputLevel ≤
    compaction.outputLevel + 1 by omega) (by omega),
    above_after _ (Nat.lt_succ_self _), above_split compaction.maxLevel history
      (show 1 ≤ compaction.outputLevel + 1 by omega)
      (by omega), Nat.add_sub_cancel_left]
  simp [historyAfter]

theorem LookupInvariant.after {result : Option KeyValue} {fresh : List KeyValue}
    (invariant : compaction.LookupInvariant compaction.maxLevel (compaction.stored key) history)
    (inside : compaction.outputLevel ≤ compaction.maxLevel)
    (reached : fresh ++ (List.range' 1 compaction.outputLevel).flatMap history ≠ [])
    (written : result.map KeyValueOf.contents = result)
    (merges : ∀ state, compaction.engine.mergeFunction.mergeContents
      (compaction.order.inOrder (fresh ++ above compaction.maxLevel history 1)) state =
        .ok result) :
    compaction.LookupInvariant compaction.maxLevel (compaction.storedAfter key result)
      (compaction.historyAfter history fresh result) := by
  constructor
  case absent =>
    intro level pos bounded isNone
    unfold storedAfter at isNone
    unfold historyAfter
    split_ifs at isNone ⊢ with below isOutput
    · rfl
    · simp_all
    · rfl
    · exact invariant.absent level pos bounded isNone
  case present =>
    intro level kv pos bounded isStored
    unfold storedAfter at isStored
    unfold historyAfter
    split_ifs at isStored ⊢ with below isOutput
    · exact reached
    · simp_all
    · exact invariant.present level kv pos bounded isStored
  case merged =>
    intro level kv pos bounded isStored state
    unfold storedAfter at isStored
    split at isStored
    · cases isStored
    · split at isStored
      · rename_i isOutput
        obtain ⟨merged, isResult, rfl⟩ := map_eq_some_iff.mp isStored
        subst isOutput isResult
        rw [above_after_output merged inside pos, merges]
        exact congrArg Except.ok written.symm
      · rw [above_after result (by omega)]
        exact invariant.merged level kv pos bounded isStored state

end

end LookupCompaction

open LookupCompaction (above)

/-- The produced record is the merge of all records of the key, and so is that of every level. -/
structure MergesAll {State : Type} (compaction : LookupCompaction State) (key : BinaryRow)
    (history : Nat → List KeyValue) (level0 records : List KeyValue)
    (fields : LookupMergeFunction.Fields State) : Prop where
  equal : ∀ state, compaction.produced records fields =
    compaction.engine.mergeFunction.mergeContents
      (compaction.order.inOrder (level0 ++ above compaction.maxLevel history 1)) state
  again : ∀ result, compaction.produced records fields = .ok result →
    compaction.LookupInvariant compaction.maxLevel (compaction.storedAfter key result)
      (compaction.historyAfter history level0 result)
  gone : compaction.produced records fields = .ok none → compaction.highLevel key = none

namespace PartialRows

def integerColumn (index : Nat) : FieldsComparator where
  isAscendingOrder := true
  sortFields :=
    [{ index
       comparator := Comparators.along getInteger compare
       lawful := get_integer_lawful }]

def key : BinaryRow := [some (.integer 1)]

/-- A row of the columns key, `a`, `b` and the sequence field. -/
def row (level sequence : Int) (a b : Option Int) : KeyValue where
  sequenceNumber := sequence
  level := level
  key := key
  value := [some (.integer 1), a.map .integer, b.map .integer, some (.integer sequence)]

def file : Manifest.DataFileMeta where
  fileName := "data-1"
  rowCount := 1
  minKey := key
  maxKey := key
  level := 1

/-- Level 1 stores the merge of `a = 1` at sequence 1 and `b = 3` at sequence 3. -/
def compaction : LookupCompaction PartialUpdateMergeFunction.Fields where
  order :=
    { userKeyComparator := integerColumn 0, userDefinedSeqComparator := some (integerColumn 3) }
  engine := .partialUpdate { arity := 4 }
  lookupLevels :=
    { levels := { keyComparator := integerColumn 0, levels := [⟨[file]⟩] }
      readRows := fun _ => [(0, row 1 3 (some 1) (some 3))]
      processor := .value }
  outputLevel := 1

def history (level : Nat) : List KeyValue :=
  if level = 1 then [row 0 1 (some 1) none, row 0 3 none (some 3)] else []

theorem readable : compaction.Readable := by
  have onlyRun : ∀ run ∈ compaction.lookupLevels.levels.levels, run = ⟨[file]⟩ := by
    intro run mem
    simpa [compaction] using mem
  refine ⟨⟨?_, ?_, ?_, ?_⟩, by decide, fun _ _ => rfl, by decide⟩
  · intro run isRun other isFile
    rw [onlyRun run isRun] at isFile
    rw [mem_singleton.mp isFile]
    exact ⟨by decide, by decide⟩
  · intro run isRun
    rw [onlyRun run isRun]
    rfl
  · intro run isRun other isFile read isRead
    rw [onlyRun run isRun] at isFile
    rw [mem_singleton.mp isFile, mem_singleton.mp isRead]
    decide
  · intro level pos other isFile
    by_cases isFirst : level = 1
    · subst isFirst
      rw [mem_singleton.mp isFile]
      rfl
    · have beyond : ∃ more, level - 1 = more + 1 := ⟨level - 2, by omega⟩
      obtain ⟨more, isMore⟩ := beyond
      simp [LookupLevels.filesAt, compaction, isMore] at isFile

theorem invariant :
    compaction.LookupInvariant compaction.maxLevel (compaction.stored key) history := by
  have onlyLevel : ∀ level, 0 < level → level ≤ compaction.maxLevel → level = 1 := by
    intro level pos inside
    change level ≤ 1 at inside
    omega
  constructor
  · intro level pos inside isNone
    rw [onlyLevel level pos inside] at isNone
    cases isNone
  · intro level kv pos inside _
    rw [onlyLevel level pos inside]
    decide
  · intro level kv pos inside isStored state
    rw [onlyLevel level pos inside] at isStored ⊢
    cases isStored
    rfl

theorem associative : compaction.engine.mergeFunction.Associative :=
  PartialUpdateMergeFunction.Plain.associative ⟨⟨rfl, rfl, rfl⟩, rfl⟩

end PartialRows

end PaimonCore.MergeTree
