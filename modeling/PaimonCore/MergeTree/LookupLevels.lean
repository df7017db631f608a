import PaimonCore.MergeTree.Levels
import PaimonCore.MergeTree.LookupChangelog

/-!
# `LookupLevels`

A data file is turned into a lookup file once; from then on a key is searched there. What
a lookup returns is the record of the lowest level that has the key.
-/

namespace PaimonCore.MergeTree

open Std PaimonCore.Fields List Option
open PaimonCore.Manifest (DataFileMeta)

inductive PersistProcessor where
  | value
  | valueAndPosition
  | position
  deriving DecidableEq, Repr

/-- `ReadFromDisk` of a row that `PersistToDisk` wrote. -/
def PersistProcessor.readFromDisk (processor : PersistProcessor) (key : BinaryRow) (level : Int)
    (fileName : String) (row : Int × KeyValue) : LookupResult :=
  match processor with
  | .value => .keyValue { row.2 with key := key, level := level }
  | .valueAndPosition =>
    .positionedKeyValue { row.2 with key := key, level := level } fileName row.1
  | .position => .filePosition fileName row.1

structure LookupLevels where
  levels : Levels
  /-- The rows of a file that its deletion vector leaves, with their positions. -/
  readRows : DataFileMeta → List (Int × KeyValue)
  processor : PersistProcessor

namespace LookupLevels

variable (lookupLevels : LookupLevels) (key : BinaryRow)

def rowOf (file : DataFileMeta) : Option (Int × KeyValue) :=
  (lookupLevels.readRows file).find? (fun row =>
    lookupLevels.levels.keyComparator.compareTo row.2.key key = .eq)

def lookupFile (file : DataFileMeta) : Option LookupResult :=
  (lookupLevels.rowOf key file).map
    (lookupLevels.processor.readFromDisk key file.level file.fileName)

def lookup (startLevel : Nat) : Except String (Option LookupResult) :=
  LookupUtils.lookup lookupLevels.levels startLevel
    (LookupUtils.lookupRun lookupLevels.levels.keyComparator key
      (fun file => .ok (lookupLevels.lookupFile key file)))
    (LookupUtils.lookupLevel0 lookupLevels.levels.keyComparator key
      (fun file => .ok (lookupLevels.lookupFile key file)))

def filesAt (level : Nat) : List DataFileMeta :=
  (lookupLevels.levels.levels.getD (level - 1) ⟨[]⟩).files

def recordIn (file : DataFileMeta) : Option KeyValue :=
  (lookupLevels.rowOf key file).map (fun row => { row.2 with key := key, level := file.level })

def recordAt (level : Nat) : Option KeyValue :=
  (lookupLevels.filesAt level).findSome? (lookupLevels.recordIn key)

def levelsFrom (startLevel : Nat) : List Nat :=
  List.range' startLevel (lookupLevels.levels.numberOfLevels - startLevel)

/-- Runs are sorted, and the files hold what their key intervals say. -/
structure Sorted : Prop where
  intervals : ∀ run ∈ lookupLevels.levels.levels, ∀ file ∈ run.files,
    Interval lookupLevels.levels.keyComparator file
  valid : ∀ run ∈ lookupLevels.levels.levels, run.isValid lookupLevels.levels.keyComparator = true
  within : ∀ run ∈ lookupLevels.levels.levels, ∀ file ∈ run.files,
    ∀ row ∈ lookupLevels.readRows file,
      (lookupLevels.levels.keyComparator.compareTo file.minKey row.2.key).isLE = true ∧
        (lookupLevels.levels.keyComparator.compareTo row.2.key file.maxKey).isLE = true
  placed : ∀ level, 0 < level → ∀ file ∈ lookupLevels.filesAt level, file.level = level

variable {lookupLevels} {key}

theorem files_at_mem {level : Nat} {file : DataFileMeta} (mem : file ∈ lookupLevels.filesAt level) :
    ∃ run ∈ lookupLevels.levels.levels, run.files = lookupLevels.filesAt level := by
  unfold filesAt at mem ⊢
  by_cases inside : level - 1 < lookupLevels.levels.levels.length
  · simp only [getD_eq_getElem?_getD, getElem?_eq_getElem inside, getD_some]
    exact ⟨_, getElem_mem inside, rfl⟩
  · simp [getD_eq_getElem?_getD, getElem?_eq_none (Nat.not_lt.mp inside)] at mem

section
variable (sorted : lookupLevels.Sorted)
include sorted
variable {file : DataFileMeta}

theorem Sorted.interval {level : Nat} (mem : file ∈ lookupLevels.filesAt level) :
    Interval lookupLevels.levels.keyComparator file := by
  obtain ⟨run, isRun, isFiles⟩ := files_at_mem mem
  exact sorted.intervals run isRun file (isFiles ▸ mem)

theorem Sorted.pairwise (level : Nat) :
    (lookupLevels.filesAt level).Pairwise (EndsBefore lookupLevels.levels.keyComparator) := by
  cases files : lookupLevels.filesAt level with
  | nil => exact Pairwise.nil
  | cons first rest =>
    have mem : first ∈ lookupLevels.filesAt level := by rw [files]; exact mem_cons_self
    obtain ⟨run, isRun, isFiles⟩ := files_at_mem mem
    rw [← files, ← isFiles]
    have spans : ∀ file ∈ run.files, Spans lookupLevels.levels.keyComparator file :=
      fun file inRun => (sorted.intervals run isRun file inRun).nonempty
    exact (valid_iff_pairwise spans).mp (sorted.valid run isRun)

theorem Sorted.row_within {level : Nat} {row : Int × KeyValue}
    (mem : file ∈ lookupLevels.filesAt level) (isRow : lookupLevels.rowOf key file = some row) :
    (lookupLevels.levels.keyComparator.compareTo file.minKey key).isLE = true ∧
      (lookupLevels.levels.keyComparator.compareTo key file.maxKey).isLE = true := by
  obtain ⟨run, isRun, isFiles⟩ := files_at_mem mem
  have same : lookupLevels.levels.keyComparator.compareTo row.2.key key = .eq := by
    have tested := find?_some isRow
    simpa using tested
  obtain ⟨lower, upper⟩ :=
    sorted.within run isRun file (isFiles ▸ mem) row (mem_of_find?_eq_some isRow)
  constructor
  · exact TransCmp.isLE_trans lower (Ordering.isLE_of_eq_eq same)
  · exact TransCmp.isLE_trans (Ordering.isLE_of_eq_eq (OrientedCmp.eq_symm same)) upper

theorem Sorted.partitioned (level : Nat) :
    LookupUtils.Partitioned lookupLevels.levels.keyComparator key (lookupLevels.filesAt level) := by
  apply (sorted.pairwise level).imp_of_mem
  intro first second _ secondMember before below
  have later := (sorted.interval secondMember).nonempty
  exact TransCmp.lt_trans (TransCmp.lt_of_lt_of_isLE before later) below

theorem Sorted.row_only_in_found {level : Nat} {other : DataFileMeta}
    (found : (lookupLevels.filesAt level).find?
      (fun file => ¬LookupUtils.Below lookupLevels.levels.keyComparator key file) = some file)
    (mem : other ∈ lookupLevels.filesAt level) (ne : other ≠ file) :
    lookupLevels.rowOf key other = none := by
  cases isRow : lookupLevels.rowOf key other with
  | none => rfl
  | some row =>
    exfalso
    obtain ⟨lower, upper⟩ := sorted.row_within mem isRow
    obtain ⟨reaches, before, after, isSplit, beforeBelow⟩ := find?_eq_some_iff_append.mp found
    have pairwise := sorted.pairwise level
    rw [isSplit] at pairwise mem
    rcases mem_append.mp mem with inBefore | inAfter
    · have below := beforeBelow other inBefore
      have ends : lookupLevels.levels.keyComparator.compareTo other.maxKey key = .lt := by
        simp only [decide_not, Bool.not_not, decide_eq_true_eq] at below
        exact below
      rw [OrientedCmp.gt_of_lt ends] at upper
      cases upper
    · rcases mem_cons.mp inAfter with same | inRest
      · exact ne same
      · have ends := (pairwise_append.mp pairwise).2.1
        have begins : EndsBefore lookupLevels.levels.keyComparator file other :=
          rel_of_pairwise_cons ends inRest
        have behind : lookupLevels.levels.keyComparator.compareTo file.maxKey key = .lt :=
          TransCmp.lt_of_lt_of_isLE begins lower
        simp [LookupUtils.Below, behind] at reaches

theorem Sorted.row_none_of_all_below {level : Nat} (found : (lookupLevels.filesAt level).find?
      (fun file => ¬LookupUtils.Below lookupLevels.levels.keyComparator key file) = none)
    (mem : file ∈ lookupLevels.filesAt level) : lookupLevels.rowOf key file = none := by
  cases isRow : lookupLevels.rowOf key file with
  | none => rfl
  | some row =>
    obtain ⟨_, upper⟩ := sorted.row_within mem isRow
    have below := find?_eq_none.mp found file mem
    have ends : lookupLevels.levels.keyComparator.compareTo file.maxKey key = .lt := by
      simp only [decide_not, Bool.not_eq_true', decide_eq_false_iff_not, not_not] at below
      exact below
    rw [OrientedCmp.gt_of_lt ends] at upper
    cases upper

theorem Sorted.lookup_run (level : Nat) :
    LookupUtils.lookupRun lookupLevels.levels.keyComparator key
        (fun file => .ok (lookupLevels.lookupFile key file)) ⟨lookupLevels.filesAt level⟩ =
      .ok ((lookupLevels.filesAt level).findSome? (lookupLevels.lookupFile key)) := by
  rw [LookupUtils.lookup_run_eq (sorted.partitioned level)]
  cases found : (lookupLevels.filesAt level).find?
      (fun file => ¬LookupUtils.Below lookupLevels.levels.keyComparator key file) with
  | none =>
    have nowhere : (lookupLevels.filesAt level).findSome? (lookupLevels.lookupFile key) = none := by
      apply findSome?_eq_none_iff.mpr
      intro file mem
      rw [lookupFile, sorted.row_none_of_all_below found mem]
      rfl
    rw [nowhere]
  | some file =>
    have elsewhere : ∀ other ∈ lookupLevels.filesAt level, other ≠ file →
        lookupLevels.lookupFile key other = none := by
      intro other mem ne
      rw [lookupFile, sorted.row_only_in_found found mem ne]
      rfl
    cases answer : lookupLevels.lookupFile key file with
    | none =>
      have nowhere :
          (lookupLevels.filesAt level).findSome? (lookupLevels.lookupFile key) = none := by
        apply findSome?_eq_none_iff.mpr
        intro other mem
        by_cases same : other = file
        · rw [same, answer]
        · exact elsewhere other mem same
      simp only [answer, nowhere]
    | some result =>
      obtain ⟨_, before, after, isSplit, beforeBelow⟩ := find?_eq_some_iff_append.mp found
      have here : (lookupLevels.filesAt level).findSome? (lookupLevels.lookupFile key) =
          some result := by
        apply findSome?_eq_some_iff.mpr
        refine ⟨before, file, after, isSplit, answer, ?_⟩
        intro other inBefore
        have mem : other ∈ lookupLevels.filesAt level := by
          rw [isSplit]
          exact mem_append_left _ inBefore
        apply elsewhere other mem
        rintro rfl
        simp_all
      simp only [answer, here]

theorem Sorted.lookup_eq (startLevel : Nat) (above : 0 < startLevel) :
    lookupLevels.lookup key startLevel = .ok ((lookupLevels.levelsFrom startLevel).findSome?
      (fun level => (lookupLevels.filesAt level).findSome? (lookupLevels.lookupFile key))) := by
  have pos : ∀ level ∈ lookupLevels.levelsFrom startLevel, level ≠ 0 := by
    intro level mem
    have bounds := mem_range'_1.mp mem
    omega
  change LookupUtils.lookupIn _ _ _ (lookupLevels.levelsFrom startLevel) = _
  generalize lookupLevels.levelsFrom startLevel = levels at pos ⊢
  induction levels with
  | nil => rfl
  | cons level rest ih =>
    have notZero := pos level mem_cons_self
    have later := ih (forall_mem_cons.mp pos).2
    have run := @Sorted.lookup_run lookupLevels key sorted level
    simp only [LookupUtils.lookupIn, Levels.runOfLevel, if_neg notZero, bind, Except.bind]
    rw [show lookupLevels.levels.levels.getD (level - 1) ⟨[]⟩ = ⟨lookupLevels.filesAt level⟩ from
      rfl, run, findSome?_cons]
    cases answer : (lookupLevels.filesAt level).findSome? (lookupLevels.lookupFile key) with
    | some result => rfl
    | none => exact later

end

theorem find_some_bind {Place Found Kept : Type} {search : Place → Option Found}
    {read : Found → Option Kept} (keeps : ∀ place found, search place = some found →
      (read found).isSome = true) (places : List Place) :
    (places.findSome? search).bind read =
      places.findSome? (fun place => (search place).bind read) := by
  induction places with
  | nil => rfl
  | cons place rest ih =>
    rw [findSome?_cons, findSome?_cons]
    cases answer : search place with
    | none => exact ih
    | some found =>
      obtain ⟨kept, isKept⟩ := isSome_iff_exists.mp (keeps place found answer)
      simp [isKept]

variable (withValue : lookupLevels.processor ≠ .position)
include withValue

theorem high_level_is_some {file : DataFileMeta}
    {found : LookupResult} (answer : lookupLevels.lookupFile key file = some found) :
    found.highLevel.isSome = true := by
  obtain ⟨row, _, rfl⟩ := map_eq_some_iff.mp answer
  cases processor : lookupLevels.processor with
  | value => rfl
  | valueAndPosition => rfl
  | position => exact absurd processor withValue

theorem lookup_file_high_level
    (file : DataFileMeta) : (lookupLevels.lookupFile key file).bind LookupResult.highLevel =
      lookupLevels.recordIn key file := by
  unfold lookupFile recordIn
  cases lookupLevels.rowOf key file with
  | none => rfl
  | some row =>
    cases processor : lookupLevels.processor with
    | value => rfl
    | valueAndPosition => rfl
    | position => exact absurd processor withValue

theorem find_some_high_level (levels : List Nat) :
    (levels.findSome? (fun level => (lookupLevels.filesAt level).findSome?
        (lookupLevels.lookupFile key))).bind LookupResult.highLevel =
      levels.findSome? (lookupLevels.recordAt key) := by
  have inLevel : ∀ level, ((lookupLevels.filesAt level).findSome?
      (lookupLevels.lookupFile key)).bind LookupResult.highLevel =
        lookupLevels.recordAt key level := by
    intro level
    rw [find_some_bind (fun _ _ => high_level_is_some withValue), recordAt]
    simp only [lookup_file_high_level withValue]
  rw [find_some_bind]
  · simp only [inLevel]
  · intro level found answer
    obtain ⟨file, _, isAnswer⟩ := exists_of_findSome?_eq_some answer
    exact high_level_is_some withValue isAnswer

theorem Sorted.lookup_record (sorted : lookupLevels.Sorted) (outputLevel : Nat) :
    ∃ found, lookupLevels.lookup key (outputLevel + 1) = .ok found ∧
      found.bind LookupResult.highLevel =
        (lookupLevels.levelsFrom (outputLevel + 1)).findSome? (lookupLevels.recordAt key) :=
  ⟨_, sorted.lookup_eq (outputLevel + 1) (Nat.succ_pos _), find_some_high_level withValue _⟩

end LookupLevels

end PaimonCore.MergeTree
