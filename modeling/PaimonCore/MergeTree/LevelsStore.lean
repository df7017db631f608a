import Mathlib.Data.List.Dedup
import PaimonCore.Library.Programs
import PaimonCore.MergeTree.IntervalSections
import PaimonCore.MergeTree.LevelsUpdate

/-!
# `Levels` as a store of files

Which files are in the store after any sequence of operations. `Create` and `AddLevel0File`
are updates that remove nothing, so all three keep the same invariant.
-/

namespace PaimonCore.MergeTree.Levels

open List

open Std (TransCmp OrientedCmp)
open PaimonCore.Fields OrderedSets
open PaimonCore.Manifest (DataFileMeta)

variable {levels : Levels} {before after : List DataFileMeta} {files next : List DataFileMeta}

theorem Rebuilt.perm {keyComparator : FieldsComparator} {level : Nat}
    (rebuilt : Rebuilt keyComparator level next files) : files.Perm next := by
  unfold Rebuilt at rebuilt
  split at rebuilt
  · exact rebuilt.2
  · exact (from_unsorted_valid rebuilt).1

theorem Rebuilt.kept {keyComparator : FieldsComparator} {level : Nat}
    (rebuilt : Rebuilt keyComparator level next files) : Kept keyComparator level files := by
  unfold Rebuilt at rebuilt
  unfold Kept
  by_cases isZero : level = 0
  · rw [if_pos isZero] at rebuilt ⊢
    exact rebuilt.1
  · rw [if_neg isZero] at rebuilt ⊢
    exact from_unsorted_again rebuilt

theorem kept_nil (keyComparator : FieldsComparator) (level : Nat) :
    Kept keyComparator level [] := by
  unfold Kept
  split
  · exact Pairwise.nil
  · rfl

section
variable {updated : Levels} (stored : Stored levels) (fits : Fits levels before after)
  (reached : Reached levels before after (List.range levels.numberOfLevels) updated)
include stored fits reached

theorem Reached.level_perm (level : Nat) :
    (updated.filesOfLevel level).Perm (levels.nextFiles before after level) := by
  by_cases bound : level < levels.numberOfLevels
  · exact (reached.done level (mem_range.mpr bound)).perm
  · have beyond := Nat.not_lt.mp bound
    rw [files_of_level_beyond (by rwa [reached.number])]
    have noFile : levels.nextFiles before after level = [] := by
      apply eq_nil_iff_forall_not_mem.mpr
      intro file mem
      obtain ⟨isLevel, held | added⟩ := (stored.mem_next_iff level file).mp mem
      · obtain ⟨home, inside, inHome⟩ := (mem_all_files levels file).mp held.1
        have placed := stored.placed home file inHome
        omega
      · have placed := fits.placed file added
        omega
    rw [noFile]

theorem Reached.mem_all (file : DataFileMeta) : file ∈ updated.allFiles ↔
    file ∈ levels.allFiles.diff before ++ after := by
  rw [mem_all_files, stored.mem_diff_append]
  constructor
  · rintro ⟨level, _, mem⟩
    have isNext := (reached.level_perm stored fits level).mem_iff.mp mem
    exact ((stored.mem_next_iff level file).mp isNext).2
  · intro next
    have placed : ∃ level < levels.numberOfLevels, file.level = (level : Nat) := by
      rcases next with held | added
      · obtain ⟨home, inside, inHome⟩ := (mem_all_files levels file).mp held.1
        exact ⟨home, inside, stored.placed home file inHome⟩
      · have placed := fits.placed file added
        exact ⟨file.level.toNat, by omega, by omega⟩
    obtain ⟨level, bound, isLevel⟩ := placed
    refine ⟨level, by rwa [reached.number], ?_⟩
    apply (reached.level_perm stored fits level).mem_iff.mpr
    exact (stored.mem_next_iff level file).mpr ⟨isLevel, next⟩

theorem Reached.placed : ∀ level, ∀ file ∈ updated.filesOfLevel level, file.level = level := by
  intro level file mem
  have isNext := (reached.level_perm stored fits level).mem_iff.mp mem
  exact ((stored.mem_next_iff level file).mp isNext).1

theorem Reached.all_files_perm : updated.allFiles.Perm (levels.allFiles.diff before ++ after) := by
  have nodup : updated.allFiles.Nodup := by
    apply all_files_nodup _ (reached.placed stored fits)
    intro level
    exact (reached.level_perm stored fits level).nodup_iff.mpr (fits.next_nodup stored level)
  apply (perm_ext_iff_of_nodup nodup (Nodup.of_map _ fits.distinct)).mpr
  exact reached.mem_all stored fits

theorem Reached.stays_stored : Stored updated where
  kept level := by
    by_cases bound : level < levels.numberOfLevels
    · rw [reached.comparator]
      exact (reached.done level (mem_range.mpr bound)).kept
    · rw [files_of_level_beyond (by rw [reached.number]; exact Nat.not_lt.mp bound)]
      exact kept_nil _ _
  placed := reached.placed stored fits
  distinct := ((reached.all_files_perm stored fits).map _).nodup_iff.mpr fits.distinct

end

theorem add_level0_file_reached (stored : Stored levels) {file : DataFileMeta}
    (fits : Fits levels [] [file]) {updated : Levels}
    (result : levels.addLevel0File file = .ok updated) :
    Reached levels [] [file] (List.range levels.numberOfLevels) updated := by
  unfold addLevel0File at result
  split at result
  · cases result
  · rename_i isZero
    have isZero : file.level = 0 := not_not.mp isZero
    have added : updateLevel (0 : Nat) (filesWithLevel (0 : Nat) [])
        (filesWithLevel (0 : Nat) [file]) levels = .ok updated := by
      have group : filesWithLevel (0 : Nat) [file] = [file] := by simp [filesWithLevel, isZero]
      rw [group]
      exact result
    have visited :=
      (reached_start levels [] [file]).step not_mem_nil (fits.ready stored 0) (Nat.succ_pos _) added
    apply visited.complete (fits.ready stored)
    intro level outside
    refine ⟨rfl, ?_⟩
    have above : ¬(0 : Int) = level := by
      intro same
      simp [Int.ofNat_eq_zero.mp same.symm] at outside
    simp [filesWithLevel, isZero, above]

def emptyLevels (keyComparator : FieldsComparator) (above : Nat) : Levels :=
  { keyComparator, levels := List.replicate above ⟨[]⟩ }

variable {keyComparator : FieldsComparator} {above : Nat}

theorem empty_files_of_level (level : Nat) :
    (emptyLevels keyComparator above).filesOfLevel level = [] := by
  unfold filesOfLevel emptyLevels
  split
  · rfl
  · simp only [getD_eq_getElem?_getD, getElem?_replicate]
    split <;> rfl

theorem empty_all_files : (emptyLevels keyComparator above).allFiles = [] := by
  rw [all_files_eq]
  simp [empty_files_of_level]

theorem empty_stored : Stored (emptyLevels keyComparator above) where
  kept level := by
    rw [empty_files_of_level]
    exact kept_nil _ _
  placed level file mem := by
    rw [empty_files_of_level] at mem
    cases mem
  distinct := by
    rw [empty_all_files]
    exact nodup_nil

theorem mem_levels_iff {level : Int} :
    level ∈ (files.map DataFileMeta.level).dedup.insertionSort (· ≤ ·) ↔
      ∃ file ∈ files, file.level = level := by
  rw [(perm_insertionSort _ _).mem_iff, mem_dedup, mem_map]

theorem update_level_negative {level : Int} (negative : level < 0) (occupied : files ≠ [])
    (levels : Levels) : updateLevel level [] files levels =
      .error "Level0 does not have one single sorted run." := by
  have touched : ¬(([] : List DataFileMeta).isEmpty && files.isEmpty) := by simpa using occupied
  have noRun : level.toNat = 0 := by omega
  unfold updateLevel
  rw [if_neg touched, if_neg (by omega), noRun]
  rfl

theorem load_levels_natural (keys : List Int)
    (occupied : ∀ key ∈ keys, filesWithLevel key files ≠ []) {current final : Levels}
    (result : (keys.map (fun key => (key, filesWithLevel key files))).foldlM
      (fun stored group => updateLevel group.1 [] group.2 stored) current = .ok final) :
    ∀ key ∈ keys, 0 ≤ key := by
  induction keys generalizing current with
  | nil => simp
  | cons key keys ih =>
    rw [map_cons, foldlM_cons] at result
    obtain ⟨updated, isUpdated, rest⟩ := Programs.bind_eq_ok.mp result
    obtain ⟨isOccupied, restOccupied⟩ := forall_mem_cons.mp occupied
    refine forall_mem_cons.mpr ⟨?_, ih restOccupied rest⟩
    by_contra negative
    rw [update_level_negative (by omega) isOccupied] at isUpdated
    cases isUpdated

theorem load_levels_reached (ready : ∀ level, Ready levels [] files level)
    (keys visited : List Nat) (nodup : (visited ++ keys).Nodup)
    (bound : ∀ key ∈ keys, key < levels.numberOfLevels) {current final : Levels}
    (reached : Reached levels [] files visited current)
    (result : (keys.map (fun key : Nat => ((key : Int), filesWithLevel key files))).foldlM
      (fun stored group => updateLevel group.1 [] group.2 stored) current = .ok final) :
    Reached levels [] files (visited ++ keys) final := by
  induction keys generalizing visited current with
  | nil =>
    cases result
    rwa [append_nil]
  | cons key keys ih =>
    have fresh : key ∉ visited := by
      intro seen
      exact (nodup_append.mp nodup).2.2 key seen key mem_cons_self rfl
    obtain ⟨updated, isUpdated, rest⟩ := Programs.bind_eq_ok.mp result
    have after := ih (visited ++ [key]) (by rwa [append_assoc]) (forall_mem_cons.mp bound).2
      (reached.step fresh (ready key) (bound key mem_cons_self) isUpdated) rest
    rwa [append_assoc] at after

theorem le_highest (values : List Int) (start value : Int)
    (either : value ≤ start ∨ value ∈ values) : value ≤ values.foldl max start := by
  induction values generalizing start with
  | nil => exact either.resolve_right not_mem_nil
  | cons first values ih =>
    apply ih
    rcases either with below | mem
    · exact .inl (Int.le_trans below (Int.le_max_left _ _))
    · rcases mem_cons.mp mem with rfl | later
      · exact .inl (Int.le_max_right _ _)
      · exact .inr later

theorem group_by_level_natural (natural : ∀ file ∈ files, 0 ≤ file.level) :
    ∃ keys : List Nat, keys.Nodup ∧ (∀ key, key ∈ keys ↔ ∃ file ∈ files, file.level = (key : Nat)) ∧
      groupByLevel files = keys.map (fun key : Nat => ((key : Int), filesWithLevel key files)) := by
  have back : ∀ level ∈ (files.map DataFileMeta.level).dedup.insertionSort (· ≤ ·),
      ((level.toNat : Nat) : Int) = level := by
    intro level mem
    obtain ⟨file, inFiles, rfl⟩ := mem_levels_iff.mp mem
    exact Int.toNat_of_nonneg (natural file inFiles)
  refine ⟨((files.map DataFileMeta.level).dedup.insertionSort (· ≤ ·)).map Int.toNat, ?_, ?_, ?_⟩
  · have nodup : ((files.map DataFileMeta.level).dedup.insertionSort (· ≤ ·)).Nodup :=
      (perm_insertionSort _ _).nodup_iff.mpr (nodup_dedup _)
    apply nodup.map_on
    intro first isFirst second isSecond same
    rw [← back first isFirst, ← back second isSecond, same]
  · intro key
    rw [mem_map]
    constructor
    · rintro ⟨level, mem, rfl⟩
      rw [back level mem]
      exact mem_levels_iff.mp mem
    · intro held
      exact ⟨key, mem_levels_iff.mpr held, Int.toNat_natCast key⟩
  · rw [map_map]
    apply map_congr_left
    intro level mem
    simp only [Function.comp_apply, back level mem]

theorem create_reached {numLevels : Int} (distinct : (files.map DataFileMeta.fileName).Nodup)
    (result : create keyComparator files numLevels = .ok levels) :
    ∃ above, Fits (emptyLevels keyComparator above) [] files ∧
      Reached (emptyLevels keyComparator above) [] files
        (List.range (emptyLevels keyComparator above).numberOfLevels) levels := by
  unfold create at result
  dsimp only at result
  split at result
  · cases result
  · obtain ⟨stored, loaded, rest⟩ := Programs.bind_eq_ok.mp result
    split at rest
    · cases rest
    · cases rest
      have natural : ∀ file ∈ files, 0 ≤ file.level := by
        intro file mem
        apply load_levels_natural _ _ loaded file.level (mem_levels_iff.mpr ⟨file, mem, rfl⟩)
        intro key isKey empty
        obtain ⟨other, inFiles, isLevel⟩ := mem_levels_iff.mp isKey
        have inGroup := mem_files_with_level.mpr ⟨inFiles, isLevel⟩
        rw [empty] at inGroup
        cases inGroup
      refine ⟨(max ((files.map DataFileMeta.level).foldl max (-1) + 1) numLevels - 1).toNat, ?_⟩
      generalize isEmpty : emptyLevels keyComparator
        (max ((files.map DataFileMeta.level).foldl max (-1) + 1) numLevels - 1).toNat = empty
      have bound : ∀ file ∈ files, file.level < empty.numberOfLevels := by
        intro file mem
        have below :=
          le_highest (files.map DataFileMeta.level) (-1) file.level (.inr (mem_map_of_mem mem))
        rw [← isEmpty]
        simp only [numberOfLevels, emptyLevels, length_replicate]
        omega
      have fits : Fits empty [] files := by
        subst isEmpty
        constructor
        · simp
        · rw [empty_all_files]
          exact distinct
        · intro file mem
          exact ⟨natural file mem, bound file mem⟩
      have ready : ∀ level, Ready empty [] files level := fits.ready (isEmpty ▸ empty_stored)
      obtain ⟨keys, nodup, isKey, groups⟩ := group_by_level_natural natural
      rw [groups] at loaded
      have visited : Reached empty [] files keys levels := by
        apply load_levels_reached ready keys [] nodup _ (reached_start _ _ _)
        · rw [← isEmpty]
          exact loaded
        · intro key mem
          obtain ⟨file, inFiles, isLevel⟩ := (isKey key).mp mem
          have below := bound file inFiles
          omega
      refine ⟨fits, visited.complete ready ?_⟩
      intro level outside
      refine ⟨rfl, eq_nil_iff_forall_not_mem.mpr ?_⟩
      intro file mem
      exact outside ((isKey level).mpr ⟨file, mem_files_with_level.mp mem⟩)

/-- `Create`, `AddLevel0File` and successful `Update` calls, with the files that are in. -/
inductive Run (keyComparator : FieldsComparator) : Levels → List DataFileMeta → Prop
  | create {files : List DataFileMeta} {numLevels : Int} {levels : Levels}
      (distinct : (files.map DataFileMeta.fileName).Nodup)
      (result : create keyComparator files numLevels = .ok levels) : Run keyComparator levels files
  | add {levels updated : Levels} {files : List DataFileMeta} {file : DataFileMeta}
      (run : Run keyComparator levels files) (fits : Fits levels [] [file])
      (result : levels.addLevel0File file = .ok updated) :
        Run keyComparator updated (files ++ [file])
  | update {levels updated : Levels} {files before after : List DataFileMeta}
      {dropped : List String} (run : Run keyComparator levels files)
      (fits : Fits levels before after)
      (result : levels.update before after = (.ok dropped, updated)) :
      Run keyComparator updated (files.diff before ++ after)

/-- The runs are in key order, level 0 is newest first, and no file is lost or doubled. -/
structure Faithful (levels : Levels) (files : List DataFileMeta) : Prop where
  sorted : ∀ run ∈ levels.levels, run.files.Pairwise (EndsBefore levels.keyComparator)
  newest : levels.level0.Pairwise (fun newer older =>
    older.maxSequenceNumber ≤ newer.maxSequenceNumber)
  complete : levels.allFiles.Perm files

structure FirstUnsortable (levels : Levels) (before after : List DataFileMeta)
    (failed : Nat) : Prop where
  above : failed ≠ 0
  bound : failed < levels.numberOfLevels
  unsorted : ∀ run,
    SortedRun.fromUnsorted levels.keyComparator (levels.nextFiles before after failed) ≠ .ok run
  first : ∀ level < failed, level ≠ 0 → ∃ run, SortedRun.fromUnsorted levels.keyComparator
    (levels.nextFiles before after level) = .ok run

/-- The update adds what it removes on every level below the first one that fails. -/
def LowerLevelsStay (levels : Levels) (before after : List DataFileMeta) : Prop :=
  ∀ failed, FirstUnsortable levels before after failed → ∀ level < failed,
    (levels.nextFiles before after level).Perm (levels.filesOfLevel level)

theorem Run.stored (run : Run keyComparator levels files) :
    Stored levels ∧ levels.keyComparator = keyComparator ∧ levels.allFiles.Perm files := by
  induction run with
  | create nodup result =>
    obtain ⟨above, fits, reached⟩ := create_reached nodup result
    refine ⟨reached.stays_stored empty_stored fits, reached.comparator, ?_⟩
    have complete := reached.all_files_perm empty_stored fits
    rwa [empty_all_files] at complete
  | add run fits result ih =>
    obtain ⟨stored, cmp, complete⟩ := ih
    have reached := add_level0_file_reached stored fits result
    refine ⟨reached.stays_stored stored fits, reached.comparator.trans cmp, ?_⟩
    exact (reached.all_files_perm stored fits).trans (complete.append_right _)
  | update run fits result ih =>
    obtain ⟨stored, cmp, complete⟩ := ih
    have reached := update_ok (fits.ready stored) result
    refine ⟨reached.stays_stored stored fits, reached.comparator.trans cmp, ?_⟩
    exact (reached.all_files_perm stored fits).trans ((complete.diff_right _).append_right _)

theorem mem_runs {run : SortedRun} (mem : run ∈ levels.levels) :
    ∃ level, level ≠ 0 ∧ levels.filesOfLevel level = run.files := by
  obtain ⟨index, bound, isRun⟩ := getElem_of_mem mem
  refine ⟨index + 1, Nat.succ_ne_zero index, ?_⟩
  simp [filesOfLevel, bound, isRun]

theorem Stored.faithful (stored : Stored levels) (complete : levels.allFiles.Perm files) :
    Faithful levels files where
  complete := complete
  sorted := by
    intro run mem
    obtain ⟨level, above, isFiles⟩ := mem_runs mem
    have kept := stored.kept level
    rw [Kept, if_neg above, isFiles] at kept
    exact from_unsorted_pairwise kept
  newest := by
    have ascending : Ascending level0Comparator levels.level0 := stored.kept 0
    apply ascending.imp
    intro newer older precedes
    rcases (level0_comparator_iff newer older).mp precedes with larger | ⟨same, _⟩
    · exact Int.le_of_lt larger
    · exact Int.le_of_eq same.symm

theorem eq_of_files {first second : Levels} (cmp : first.keyComparator = second.keyComparator)
    (number : first.numberOfLevels = second.numberOfLevels)
    (files : ∀ level, first.filesOfLevel level = second.filesOfLevel level) : first = second := by
  have level0 : first.level0 = second.level0 := files 0
  have runs : first.levels = second.levels := by
    have lengths : first.levels.length = second.levels.length := Nat.succ.inj number
    apply ext_getElem lengths
    intro index inFirst inSecond
    have same := files (index + 1)
    simp only [filesOfLevel, Nat.succ_ne_zero, if_false, Nat.add_sub_cancel,
      getD_eq_getElem?_getD, getElem?_eq_getElem inFirst,
      getElem?_eq_getElem inSecond, Option.getD_some] at same
    exact congrArg SortedRun.mk same
  cases first
  cases second
  cases cmp
  cases level0
  cases runs
  rfl

theorem Rebuilt.from_unsorted {level : Nat} (rebuilt : Rebuilt keyComparator level next files)
    (above : level ≠ 0) : SortedRun.fromUnsorted keyComparator next = .ok ⟨files⟩ := by
  rwa [Rebuilt, if_neg above] at rebuilt

theorem Stopped.first_unsortable {error : String} {left : Levels} {failed : Nat}
    (stopped : Stopped levels before after error left (List.range failed) failed)
    (bound : failed < levels.numberOfLevels) : FirstUnsortable levels before after failed where
  above := stopped.above
  bound := bound
  unsorted run sorted := by
    rw [stopped.unsorted] at sorted
    cases sorted
  first level below above :=
    ⟨_, (stopped.reached.done level (mem_range.mpr below)).from_unsorted above⟩

theorem FirstUnsortable.unique {first second : Nat}
    (isFirst : FirstUnsortable levels before after first)
    (isSecond : FirstUnsortable levels before after second) : first = second := by
  have notBelow : ∀ {low high : Nat}, FirstUnsortable levels before after low →
      FirstUnsortable levels before after high → ¬low < high := by
    intro low high isLow isHigh below
    obtain ⟨run, sorted⟩ := isHigh.first low below isLow.above
    exact isLow.unsorted run sorted
  have notLower := notBelow isFirst isSecond
  have notHigher := notBelow isSecond isFirst
  omega

theorem spans_ends_before_asymm {left right : DataFileMeta}
    (leftSpans : Spans keyComparator left) (rightSpans : Spans keyComparator right)
    (before : EndsBefore keyComparator left right) : ¬EndsBefore keyComparator right left := by
  intro after
  have around : keyComparator.compareTo left.maxKey left.maxKey = .lt :=
    TransCmp.lt_of_lt_of_isLE (before.trans after rightSpans) leftSpans
  have reflexive : keyComparator.compareTo left.maxKey left.maxKey = .eq := Std.ReflCmp.compare_self
  rw [reflexive] at around
  cases around

theorem Rebuilt.eq_of_perm {level : Nat} {old : List DataFileMeta}
    (rebuilt : Rebuilt keyComparator level next files) (kept : Kept keyComparator level old)
    (spans : ∀ file ∈ old, Spans keyComparator file) (same : next.Perm old) : files = old := by
  have perm : files.Perm old := rebuilt.perm.trans same
  have built := rebuilt.kept
  unfold Kept at built kept
  by_cases isZero : level = 0
  · rw [if_pos isZero] at built kept
    exact built.eq_of_perm level0_comparator_asymm kept perm
  · rw [if_neg isZero] at built kept
    have ordered := from_unsorted_pairwise built
    have oldOrdered := from_unsorted_pairwise kept
    apply perm.eq_of_pairwise _ ordered oldOrdered
    intro left right inLeft inRight before after
    exact absurd after (spans_ends_before_asymm (spans left (perm.mem_iff.mp inLeft))
      (spans right inRight) before)

theorem update_unsortable (ready : ∀ level, Ready levels before after level) {failed : Nat}
    (unsortable : FirstUnsortable levels before after failed) :
    ∃ error left, levels.update before after = (.error error, left) := by
  cases result : levels.update before after with
  | mk status updated =>
    cases status with
    | error error => exact ⟨error, updated, rfl⟩
    | ok dropped =>
      have reached := update_ok ready result
      have rebuilt := reached.done failed (mem_range.mpr unsortable.bound)
      exact absurd (rebuilt.from_unsorted unsortable.above) (unsortable.unsorted _)

/-- A failed update changes nothing exactly if it had nothing to change below the level that
fails. -/
theorem failed_update_iff (stored : Stored levels) (fits : Fits levels before after)
    (spans : ∀ file ∈ levels.allFiles, Spans levels.keyComparator file) :
    (∀ error, (levels.update before after).1 = .error error →
      (levels.update before after).2 = levels) ↔ LowerLevelsStay levels before after := by
  have ready := fits.ready stored
  constructor
  · intro unchanged failed unsortable level below
    obtain ⟨error, left, result⟩ := update_unsortable ready unsortable
    have same : left = levels := by
      have kept := unchanged error (by rw [result])
      rwa [result] at kept
    obtain ⟨stop, bound, stopped⟩ := update_error ready result
    have isStop : stop = failed := (stopped.first_unsortable bound).unique unsortable
    have rebuilt := stopped.reached.done level (mem_range.mpr (by omega))
    rw [same] at rebuilt
    exact rebuilt.perm.symm
  · intro stay error failing
    have result : levels.update before after = (.error error, (levels.update before after).2) := by
      rw [← failing]
    obtain ⟨stop, bound, stopped⟩ := update_error ready result
    apply eq_of_files stopped.reached.comparator stopped.reached.number
    intro level
    by_cases below : level < stop
    · have rebuilt := stopped.reached.done level (mem_range.mpr below)
      exact rebuilt.eq_of_perm (stored.kept level) (fun file mem =>
        spans file (mem_all_of_mem_level mem))
        (stay stop (stopped.first_unsortable bound) level below)
    · exact stopped.reached.ahead level (by simpa using below)

/-- After every sequence of operations the levels hold the files that went in and did not
come out, and a failed update changes nothing exactly where nothing below the failing level
was to change. -/
theorem levels_faithful {files : List DataFileMeta} (run : Run keyComparator levels files) :
    Faithful levels files ∧ ∀ before after, Fits levels before after →
        (∀ file ∈ levels.allFiles, Spans keyComparator file) →
        ((∀ error, (levels.update before after).1 = .error error →
          (levels.update before after).2 = levels) ↔ LowerLevelsStay levels before after) := by
  obtain ⟨stored, comparator, complete⟩ := run.stored
  refine ⟨stored.faithful complete, ?_⟩
  intro before after fits spans
  exact failed_update_iff stored fits (comparator ▸ spans)

open IntervalPartition in
/-- A section needs no more readers than there are sorted runs. -/
theorem sections_within_sorted_runs (run : Run keyComparator levels files)
    (heap : RunQueue keyComparator)
    (spans : ∀ file ∈ files, Spans keyComparator file) :
    ∀ runs ∈ partition heap levels.allFiles, runs.length ≤ levels.levelSortedRuns.length := by
  obtain ⟨stored, rfl, complete⟩ := run.stored
  have ordered : ∀ run ∈ levels.levelSortedRuns.map (·.run.files),
      run.Pairwise (keyRanges levels.keyComparator).Before := by
    intro run mem
    simp only [levelSortedRuns, map_append, map_map, mem_append, mem_map, mem_filter] at mem
    rcases mem with ⟨file, _, rfl⟩ | ⟨indexed, ⟨mem, _⟩, rfl⟩
    · exact pairwise_singleton _ file
    · exact (stored.faithful complete).sorted _ (fst_mem_of_mem_zipIdx mem)
  intro runs isSection
  obtain ⟨group, isGroup, rfl⟩ := mem_map.mp isSection
  obtain ⟨key, deep⟩ := partition_section_deep (fun file mem =>
    spans file (complete.mem_iff.mp (mem_of_member isGroup mem))) (members_sorted isGroup)
  calc (partitionSection _ group).length
    _ ≤ group.countP ((keyRanges _).covers key) := by
      rwa [(partition_section_files group).countP_eq] at deep
    _ ≤ (members _ levels.allFiles).flatten.countP _ :=
      (sublist_flatten_of_mem isGroup).countP_le
    _ = levels.allFiles.countP _ := by rw [members_flatten, (sort_files_perm _).countP_eq]
    _ ≤ (levels.levelSortedRuns.map (·.run.files)).length :=
      Overlaps.Ranges.count_le_runs (.of_eq flatMap_def.symm) ordered key
    _ = levels.levelSortedRuns.length := length_map _

namespace TwoLevels

open IntervalPartition (integerKeys spanning)

def fresh : DataFileMeta := { spanning "fresh" 1 2 with maxSequenceNumber := 9 }

def settled : DataFileMeta := { spanning "settled" 1 5 with level := 1 }

def crossing : DataFileMeta := { spanning "crossing" 3 7 with level := 1 }

def bucket : Levels :=
  { keyComparator := integerKeys, level0 := [fresh], levels := [⟨[settled]⟩] }

theorem bucket_run : Run integerKeys bucket [settled, fresh] :=
  .create (by decide) (show create integerKeys [settled, fresh] 2 = _ from rfl)

theorem bucket_sections :
    ((IntervalPartition.partition (.inserted integerKeys) bucket.allFiles).headD []).length ≤ 2 :=
  sections_within_sorted_runs bucket_run (.inserted integerKeys) (by decide) _ (.head [])

theorem fits_removing : Fits bucket [fresh] [crossing] where
  identified := by decide
  distinct := by decide
  placed := by decide

theorem fits_adding : Fits bucket [] [crossing] where
  identified := by decide
  distinct := by decide
  placed := by decide

/-- The update fails at level 1, after the file of level 0 is gone. -/
theorem failed_update_drops_file :
    Run integerKeys bucket [settled, fresh] ∧ Fits bucket [fresh] [crossing] ∧
      (bucket.update [fresh] [crossing]).1 = .error "from unsorted validate failed" ∧
      bucket.level0 = [fresh] ∧ (bucket.update [fresh] [crossing]).2.level0 = [] :=
  ⟨bucket_run, fits_removing, rfl, rfl, rfl⟩

theorem adding_stays : LowerLevelsStay bucket [] [crossing] := by
  intro failed unsortable level below
  have bound : failed < 2 := unsortable.bound
  have isZero : level = 0 := by omega
  rw [isZero]
  exact .refl _

/-- Without a file to remove below, the failed update changes nothing. -/
theorem bucket_faithful : Faithful bucket [settled, fresh] ∧
    (bucket.update [] [crossing]).1 = .error "from unsorted validate failed" ∧
    (bucket.update [] [crossing]).2 = bucket :=
  ⟨(levels_faithful bucket_run).1, rfl,
    ((levels_faithful bucket_run).2 [] [crossing] fits_adding (by decide)).mpr adding_stays _ rfl⟩

end TwoLevels

end PaimonCore.MergeTree.Levels
