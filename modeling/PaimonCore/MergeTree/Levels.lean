import PaimonCore.Library.OrderedSets
import PaimonCore.MergeTree.IntervalPartition

/-!
# `Levels`

The files of a bucket: those of level 0 from the newest to the oldest, each a run of its
own, and one sorted run for every level above. An update goes through the levels one after
another, so its outcome is a status together with the levels that it leaves behind.
-/

namespace PaimonCore.MergeTree

open Std PaimonCore.Fields List
open PaimonCore.Manifest (DataFileMeta)

structure Levels where
  keyComparator : FieldsComparator
  level0 : List DataFileMeta := []
  levels : List SortedRun

namespace Levels

def numberOfLevels (levels : Levels) : Nat := levels.levels.length + 1

def runOfLevel (level : Nat) (levels : List SortedRun) : Except String SortedRun :=
  if level = 0 then .error "Level0 does not have one single sorted run."
  else .ok (levels.getD (level - 1) ⟨[]⟩)

/-- `Level0Comparator`: the larger sequence number in front, then the smaller one, the time and the
name. -/
def level0Comparator (a b : DataFileMeta) : Bool :=
  if a.maxSequenceNumber ≠ b.maxSequenceNumber then a.maxSequenceNumber > b.maxSequenceNumber
  else if a.minSequenceNumber ≠ b.minSequenceNumber then a.minSequenceNumber < b.minSequenceNumber
  else if a.creationTime ≠ b.creationTime then a.creationTime < b.creationTime
  else a.fileName < b.fileName

/-- The entry of a level in the map of `GroupByLevel`; a level without files has none. -/
def filesWithLevel (level : Int) (files : List DataFileMeta) : List DataFileMeta :=
  files.filter (fun file => file.level = level)

/-- `GroupByLevel`, in the order in which the map is iterated. -/
def groupByLevel (files : List DataFileMeta) : List (Int × List DataFileMeta) :=
  ((files.map DataFileMeta.level).dedup.insertionSort (· ≤ ·)).map
    (fun level => (level, filesWithLevel level files))

def eraseNamed (files : List DataFileMeta) (beforeFile : DataFileMeta) : List DataFileMeta :=
  files.eraseP (fun cur => beforeFile.fileName == cur.fileName)

def updateLevel (level : Int) (before after : List DataFileMeta) (levels : Levels) :
    Except String Levels :=
  if before.isEmpty && after.isEmpty then .ok levels
  else if level = 0 then
    let erased := before.foldl (fun set file => OrderedSets.erase level0Comparator file set)
      levels.level0
    .ok { levels with
      level0 := after.foldl (fun set file => OrderedSets.insert level0Comparator file set) erased }
  else do
    let run ← runOfLevel level.toNat levels.levels
    let files := before.foldl eraseNamed run.files
    let run ← SortedRun.fromUnsorted levels.keyComparator (files ++ after)
    .ok { levels with levels := levels.levels.set (level.toNat - 1) run }

def create (keyComparator : FieldsComparator) (inputFiles : List DataFileMeta) (numLevels : Int) :
    Except String Levels := do
  let highest := (inputFiles.map DataFileMeta.level).foldl max (-1)
  let restoredNumLevels := max (highest + 1) numLevels
  if restoredNumLevels ≤ 1 then throw "Number of levels must be at least 2."
  let levels := List.replicate (restoredNumLevels - 1).toNat (⟨[]⟩ : SortedRun)
  let stored ← (groupByLevel inputFiles).foldlM
    (fun stored group => updateLevel group.1 [] group.2 stored) { keyComparator, levels }
  let totalFileNum := stored.level0.length + (stored.levels.map (fun run => run.files.length)).sum
  if totalFileNum ≠ inputFiles.length then
    throw ("Number of files stored in Levels does not equal to the size of inputFiles. This " ++
      "is unexpected.")
  return stored

def addLevel0File (levels : Levels) (file : DataFileMeta) : Except String Levels :=
  if file.level ≠ 0 then .error "must add level0 file in AddLevel0File"
  else .ok { levels with level0 := OrderedSets.insert level0Comparator file levels.level0 }

structure LevelSortedRun where
  level : Nat
  run : SortedRun
  deriving DecidableEq, Repr

def levelSortedRuns (levels : Levels) : List LevelSortedRun :=
  levels.level0.map (fun file => ⟨0, SortedRun.fromSingle file⟩) ++
    (levels.levels.zipIdx.filter (fun run => !run.1.isEmpty)).map (fun run => ⟨run.2 + 1, run.1⟩)

def allFiles (levels : Levels) : List DataFileMeta :=
  levels.levelSortedRuns.flatMap (fun run => run.run.files)

/-- The loop of `Update`; the levels before one that fails stay updated. -/
def updateLevels (before after : List DataFileMeta) :
    List Nat → Levels → Except String Unit × Levels
  | [], levels => (.ok (), levels)
  | level :: above, levels =>
    match updateLevel level (filesWithLevel level before) (filesWithLevel level after) levels with
    | .error error => (.error error, levels)
    | .ok updated => updateLevels before after above updated

/-- The names that the drop callbacks are told: removed files that were not upgraded. -/
def droppedFiles (before after : List DataFileMeta) : List String :=
  let dropped := (before.map DataFileMeta.fileName).foldl (fun set name =>
    OrderedSets.insert (· < ·) name set) []
  (after.map DataFileMeta.fileName).foldl (fun set name =>
    OrderedSets.erase (· < ·) name set) dropped

def update (levels : Levels) (before after : List DataFileMeta) :
    Except String (List String) × Levels :=
  match updateLevels before after (List.range levels.numberOfLevels) levels with
  | (.error error, left) => (.error error, left)
  | (.ok _, updated) => (.ok (droppedFiles before after), updated)

end Levels

namespace LookupUtils

variable {T : Type}

/-- The loop over the levels: the first one that answers ends it. -/
def lookupIn (levels : Levels) (lookup : SortedRun → Except String (Option T))
    (level0Lookup : List DataFileMeta → Except String (Option T)) :
    List Nat → Except String (Option T)
  | [] => .ok none
  | level :: above => do
    let result ←
      if level = 0 then level0Lookup levels.level0
      else do lookup (← Levels.runOfLevel level levels.levels)
    match result with
    | some found => return some found
    | none => lookupIn levels lookup level0Lookup above

def lookup (levels : Levels) (startLevel : Nat) (lookup : SortedRun → Except String (Option T))
    (level0Lookup : List DataFileMeta → Except String (Option T)) : Except String (Option T) :=
  lookupIn levels lookup level0Lookup (List.range' startLevel (levels.numberOfLevels - startLevel))

def lookupLevel0 (keyComparator : FieldsComparator) (target : BinaryRow)
    (lookup : DataFileMeta → Except String (Option T)) :
    List DataFileMeta → Except String (Option T)
  | [] => .ok none
  | file :: level0 => do
    if (keyComparator.compareTo file.maxKey target).isGE ∧
      (keyComparator.compareTo file.minKey target).isLE then
      match ← lookup file with
      | some found => return some found
      | none => lookupLevel0 keyComparator target lookup level0
    else lookupLevel0 keyComparator target lookup level0

/-- No file before `left` reaches the target, and every file after `right` begins behind it. -/
def searchFrom (keyComparator : FieldsComparator) (target : BinaryRow) (files : List DataFileMeta)
    (left right : Nat) : Nat :=
  if left < right then
    let mid := (left + right) / 2
    if files[mid]?.any (fun file => keyComparator.compareTo file.maxKey target = .lt) then
      searchFrom keyComparator target files (mid + 1) right
    else searchFrom keyComparator target files left mid
  else right
termination_by right - left

def lookupRun (keyComparator : FieldsComparator) (target : BinaryRow)
    (lookup : DataFileMeta → Except String (Option T)) (level : SortedRun) :
    Except String (Option T) :=
  if level.isEmpty then .ok none
  else
    let index := searchFrom keyComparator target level.files 0 (level.files.length - 1)
    let index :=
      if index = level.files.length - 1 ∧ level.files[index]?.any
          (fun file => keyComparator.compareTo file.maxKey target = .lt) then index + 1
      else index
    match level.files[index]? with
    | some file => lookup file
    | none => .ok none

end LookupUtils

namespace LookupUtils

variable {keyComparator : FieldsComparator} {target : BinaryRow} {files : List DataFileMeta}

def Below (keyComparator : FieldsComparator) (target : BinaryRow) (file : DataFileMeta) : Prop :=
  keyComparator.compareTo file.maxKey target = .lt

instance (keyComparator : FieldsComparator) (target : BinaryRow) :
    DecidablePred (Below keyComparator target) :=
  fun file => inferInstanceAs (Decidable (keyComparator.compareTo file.maxKey target = .lt))

/-- Files of a run ascend, so those that end before the target come first. -/
def Partitioned (keyComparator : FieldsComparator) (target : BinaryRow)
    (files : List DataFileMeta) : Prop :=
  files.Pairwise (fun first second =>
    Below keyComparator target second → Below keyComparator target first)

theorem Partitioned.below_of_lt (partitioned : Partitioned keyComparator target files)
    {first second : Nat} (order : first < second) (bound : second < files.length)
    (below : Below keyComparator target files[second]) : Below keyComparator target files[first] :=
  pairwise_iff_getElem.mp partitioned first second (by omega) bound order below

theorem any_below_iff {index : Nat} (bound : index < files.length) :
    files[index]?.any (fun file => keyComparator.compareTo file.maxKey target = .lt) = true ↔
      Below keyComparator target files[index] := by
  simp [getElem?_eq_getElem bound, Below]

structure Encloses (keyComparator : FieldsComparator) (target : BinaryRow)
    (files : List DataFileMeta) (left right : Nat) : Prop where
  ordered : left ≤ right
  bound : right < files.length
  before : ∀ index, (inside : index < files.length) → index < left →
    Below keyComparator target files[index]
  after : ∀ index, (inside : index < files.length) → right ≤ index → right + 1 < files.length →
    ¬Below keyComparator target files[index]

theorem search_from_encloses (partitioned : Partitioned keyComparator target files)
    (left right : Nat) (encloses : Encloses keyComparator target files left right) :
    Encloses keyComparator target files (searchFrom keyComparator target files left right)
      (searchFrom keyComparator target files left right) := by
  fun_induction searchFrom keyComparator target files left right with
  | case1 left right open_ mid below ih =>
    have bound := encloses.bound
    have midBound : mid < files.length := by omega
    have midBelow := (any_below_iff midBound).mp below
    apply ih
    constructor
    case ordered => omega
    case bound => exact bound
    case before =>
      intro index inside upTo
      by_cases isMid : index = mid
      · subst isMid
        exact midBelow
      · exact partitioned.below_of_lt (by omega) midBound midBelow
    case after => exact encloses.after
  | case2 left right open_ mid notBelow ih =>
    have bound := encloses.bound
    have midBound : mid < files.length := by omega
    have midAbove : ¬Below keyComparator target files[mid] := fun below =>
      notBelow ((any_below_iff midBound).mpr below)
    apply ih
    constructor
    case ordered => omega
    case bound => exact midBound
    case before => exact encloses.before
    case after =>
      intro index inside fromMid _ below
      by_cases isMid : index = mid
      · subst isMid
        exact midAbove below
      · exact midAbove (partitioned.below_of_lt (by omega) inside below)
  | case3 left right closed =>
    have same : left = right := by
      have ordered := encloses.ordered
      omega
    subst same
    exact encloses

theorem find_eq_of_split {index : Nat}
    (before : ∀ earlier, (inside : earlier < files.length) → earlier < index →
      Below keyComparator target files[earlier])
    (here : (inside : index < files.length) → ¬Below keyComparator target files[index]) :
    files.find? (fun file => ¬Below keyComparator target file) = files[index]? := by
  by_cases inside : index < files.length
  · rw [getElem?_eq_getElem inside]
    apply find?_eq_some_iff_getElem.mpr
    refine ⟨by simpa using here inside, index, inside, rfl, ?_⟩
    intro earlier order
    simpa using before earlier (by omega) order
  · rw [getElem?_eq_none (by omega)]
    apply find?_eq_none.mpr
    intro file mem
    obtain ⟨earlier, bound, rfl⟩ := mem_iff_getElem.mp mem
    simpa using before earlier bound (by omega)

theorem lookup_run_eq {T : Type} {lookup : DataFileMeta → Except String (Option T)}
    (partitioned : Partitioned keyComparator target files) :
    lookupRun keyComparator target lookup ⟨files⟩ =
      match files.find? (fun file => ¬Below keyComparator target file) with
      | some file => lookup file
      | none => .ok none := by
  by_cases empty : files = []
  · subst empty
    rfl
  · have pos : 0 < files.length := length_pos_iff.mpr empty
    have starts : Encloses keyComparator target files 0 (files.length - 1) := by
      constructor
      case ordered => omega
      case bound => omega
      case before => intro index _ no; omega
      case after => intro index _ _ no; omega
    have ends := search_from_encloses partitioned 0 (files.length - 1) starts
    have notEmpty : SortedRun.isEmpty ⟨files⟩ = false := by
      simpa [SortedRun.isEmpty] using empty
    rw [lookupRun, notEmpty]
    simp only [Bool.false_eq_true, if_false]
    generalize searchFrom keyComparator target files 0 (files.length - 1) = index at ends ⊢
    have bound := ends.bound
    simp only [any_below_iff bound]
    by_cases beyond : index = files.length - 1 ∧ Below keyComparator target files[index]
    · rw [if_pos beyond, find_eq_of_split]
      · intro earlier inside upTo
        by_cases isLast : earlier = index
        · subst isLast
          exact beyond.2
        · exact ends.before earlier inside (by omega)
      · intro inside
        omega
    · rw [if_neg beyond, find_eq_of_split ends.before]
      intro inside below
      by_cases isLast : index = files.length - 1
      · exact beyond ⟨isLast, below⟩
      · exact ends.after index inside le_rfl (by omega) below

end LookupUtils

end PaimonCore.MergeTree
