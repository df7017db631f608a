import PaimonCore.MergeTree.Levels

/-!
# What an update does to the levels

An update treats each level on its own: the files of the level without those of `before`,
and then those of `after`. A level above 0 that cannot be sorted stops the update, and the
levels below it have been changed by then.
-/

namespace PaimonCore.MergeTree.Levels

open List

open Std (TransCmp OrientedCmp)
open PaimonCore.Fields OrderedSets
open PaimonCore.Manifest (DataFileMeta)

theorem level0_comparator_iff (a b : DataFileMeta) : level0Comparator a b = true ↔
    b.maxSequenceNumber < a.maxSequenceNumber ∨ a.maxSequenceNumber = b.maxSequenceNumber ∧
      (a.minSequenceNumber < b.minSequenceNumber ∨ a.minSequenceNumber = b.minSequenceNumber ∧
        (a.creationTime < b.creationTime ∨ a.creationTime = b.creationTime ∧
          a.fileName < b.fileName)) := by
  unfold level0Comparator
  split_ifs with maxDiffers minDiffers timeDiffers <;> simp only [decide_eq_true_eq] <;> grind

theorem level0_comparator_trans (first second third : DataFileMeta)
    (lower : level0Comparator first second = true) (upper : level0Comparator second third = true) :
    level0Comparator first third = true := by
  rw [level0_comparator_iff] at *
  grind

theorem level0_comparator_asymm (first second : DataFileMeta)
    (lower : level0Comparator first second = true) : level0Comparator second first = false := by
  rw [← Bool.not_eq_true]
  intro upper
  rw [level0_comparator_iff] at *
  grind

theorem level0_comparator_irrefl (file : DataFileMeta) : level0Comparator file file = false := by
  rw [← Bool.not_eq_true]
  intro lower
  rw [level0_comparator_asymm file file lower] at lower
  exact Bool.false_ne_true lower

theorem apart_of_name_ne {first second : DataFileMeta} (differ : first.fileName ≠ second.fileName) :
    Apart level0Comparator first second := by
  unfold Apart
  rw [level0_comparator_iff, level0_comparator_iff]
  grind

def filesOfLevel (levels : Levels) (level : Nat) : List DataFileMeta :=
  if level = 0 then levels.level0 else (levels.levels.getD (level - 1) ⟨[]⟩).files

def nextFiles (levels : Levels) (before after : List DataFileMeta) (level : Nat) :
    List DataFileMeta :=
  (levels.filesOfLevel level).diff (filesWithLevel level before) ++ filesWithLevel level after

/-- Level 0 is in its order; a level above is what `FromUnsorted` makes of its files. -/
def Kept (keyComparator : FieldsComparator) (level : Nat) (files : List DataFileMeta) : Prop :=
  if level = 0 then Ascending level0Comparator files
  else SortedRun.fromUnsorted keyComparator files = .ok ⟨files⟩

structure Stored (levels : Levels) : Prop where
  kept : ∀ level, Kept levels.keyComparator level (levels.filesOfLevel level)
  placed : ∀ level, ∀ file ∈ levels.filesOfLevel level, file.level = level
  distinct : (levels.allFiles.map DataFileMeta.fileName).Nodup

/-- Names stand for files, and no two files of the result share one. -/
structure Fits (levels : Levels) (before after : List DataFileMeta) : Prop where
  identified : ∀ file ∈ levels.allFiles, ∀ removed ∈ before,
    file.fileName = removed.fileName → file.level = removed.level → file = removed
  distinct : ((levels.allFiles.diff before ++ after).map DataFileMeta.fileName).Nodup
  placed : ∀ file ∈ after, 0 ≤ file.level ∧ file.level < levels.numberOfLevels

variable {levels : Levels} {before after : List DataFileMeta} {files : List DataFileMeta}

theorem mem_files_with_level {level : Int} {file : DataFileMeta} :
    file ∈ filesWithLevel level files ↔ file ∈ files ∧ file.level = level := by
  simp [filesWithLevel]

theorem runs_eq_map (runs : List SortedRun) :
    (List.range runs.length).map (fun index => (runs.getD index ⟨[]⟩).files) =
      runs.map SortedRun.files := by
  apply ext_getElem
  · simp
  · intro index _ bound
    simp only [length_map] at bound
    simp [bound]

theorem flat_map_occupied (runs : List SortedRun) (first : Nat) :
    ((runs.zipIdx first).filter (fun run => !run.1.isEmpty)).flatMap (fun run => run.1.files) =
      runs.flatMap SortedRun.files := by
  induction runs generalizing first with
  | nil => rfl
  | cons run runs ih =>
    rw [zipIdx_cons, filter_cons, flatMap_cons]
    split
    · rw [flatMap_cons, ih]
    · rename_i empty
      have noFiles : run.files = [] := by simpa [SortedRun.isEmpty] using empty
      rw [ih, noFiles, nil_append]

theorem all_files_eq (levels : Levels) :
    levels.allFiles = (List.range levels.numberOfLevels).flatMap levels.filesOfLevel := by
  have above : (List.range levels.levels.length).flatMap (fun index =>
      levels.filesOfLevel (index + 1)) = levels.levels.flatMap SortedRun.files := by
    rw [flatMap_def, flatMap_def, ← runs_eq_map]
    rfl
  unfold allFiles levelSortedRuns numberOfLevels
  rw [range_succ_eq_map, flatMap_cons, flatMap_map, above,
    flatMap_append, flatMap_map, flatMap_map, flat_map_occupied]
  simp [SortedRun.fromSingle, filesOfLevel]

theorem mem_all_files (levels : Levels) (file : DataFileMeta) : file ∈ levels.allFiles ↔
    ∃ level < levels.numberOfLevels, file ∈ levels.filesOfLevel level := by
  rw [all_files_eq]
  simp

variable {level : Nat}

theorem files_of_level_beyond (beyond : levels.numberOfLevels ≤ level) :
    levels.filesOfLevel level = [] := by
  unfold numberOfLevels at beyond
  have outside : levels.levels.length ≤ level - 1 := by omega
  unfold filesOfLevel
  rw [if_neg (by omega), getD_eq_getElem?_getD, getElem?_eq_none outside]
  rfl

theorem mem_all_of_mem_level {file : DataFileMeta} (mem : file ∈ levels.filesOfLevel level) :
    file ∈ levels.allFiles := by
  apply (mem_all_files levels file).mpr
  by_cases bound : level < levels.numberOfLevels
  · exact ⟨level, bound, mem⟩
  · rw [files_of_level_beyond (Nat.not_lt.mp bound)] at mem
    cases mem

theorem all_files_nodup (nodup : ∀ level, (levels.filesOfLevel level).Nodup)
    (placed : ∀ level, ∀ file ∈ levels.filesOfLevel level, file.level = level) :
    levels.allFiles.Nodup := by
  rw [all_files_eq]
  apply nodup_flatMap.mpr ⟨fun level _ => nodup level, ?_⟩
  apply nodup_range.imp
  intro first second differ file inFirst inSecond
  have same : (first : Int) = second :=
    (placed first file inFirst).symm.trans (placed second file inSecond)
  exact differ (Int.ofNat_inj.mp same)

section
variable (stored : Stored levels)
include stored

theorem Stored.nodup : levels.allFiles.Nodup := Nodup.of_map _ stored.distinct

theorem Stored.level_nodup (level : Nat) : (levels.filesOfLevel level).Nodup := by
  by_cases bound : level < levels.numberOfLevels
  · have whole := stored.nodup
    rw [all_files_eq] at whole
    exact (nodup_flatMap.mp whole).1 level (mem_range.mpr bound)
  · rw [files_of_level_beyond (Nat.not_lt.mp bound)]
    exact nodup_nil

theorem Stored.mem_next_iff (level : Nat) (file : DataFileMeta) :
    file ∈ levels.nextFiles before after level ↔ file.level = level ∧
      (file ∈ levels.allFiles ∧ file ∉ before ∨ file ∈ after) := by
  have atLevel : file ∈ levels.filesOfLevel level ↔
      file ∈ levels.allFiles ∧ file.level = level := by
    constructor
    · intro mem
      exact ⟨mem_all_of_mem_level mem, stored.placed level file mem⟩
    · rintro ⟨mem, isLevel⟩
      obtain ⟨home, _, inHome⟩ := (mem_all_files levels file).mp mem
      have same : (home : Int) = level := (stored.placed home file inHome).symm.trans isLevel
      exact Int.ofNat_inj.mp same ▸ inHome
  unfold nextFiles
  rw [mem_append, (stored.level_nodup level).mem_sdiff_iff, mem_files_with_level,
    mem_files_with_level]
  grind

theorem Stored.mem_diff_append (file : DataFileMeta) : file ∈ levels.allFiles.diff before ++ after ↔
      file ∈ levels.allFiles ∧ file ∉ before ∨ file ∈ after := by
  rw [mem_append, stored.nodup.mem_sdiff_iff]

variable (fits : Fits levels before after)
include fits

theorem Fits.next_nodup (level : Nat) : (levels.nextFiles before after level).Nodup := by
  have whole := nodup_append.mp (Nodup.of_map _ fits.distinct)
  apply nodup_append.mpr
  refine ⟨(stored.level_nodup level).diff, whole.2.1.filter _, ?_⟩
  intro kept inLevel added inAfter same
  rw [(stored.level_nodup level).mem_sdiff_iff, mem_files_with_level] at inLevel
  rw [mem_files_with_level] at inAfter
  have isKept : kept ∈ levels.allFiles.diff before := by
    apply stored.nodup.mem_sdiff_iff.mpr
    refine ⟨mem_all_of_mem_level inLevel.1, ?_⟩
    intro removed
    exact inLevel.2 ⟨removed, stored.placed level kept inLevel.1⟩
  exact whole.2.2 kept isKept added inAfter.1 same

theorem Fits.next_apart (level : Nat) :
    (levels.nextFiles before after level).Pairwise (Apart level0Comparator) := by
  apply (fits.next_nodup stored level).imp_of_mem
  intro first second inFirst inSecond differ
  apply apart_of_name_ne
  intro sameName
  apply differ
  exact inj_on_of_nodup_map fits.distinct
    ((stored.mem_diff_append first).mpr ((stored.mem_next_iff level first).mp inFirst).2)
    ((stored.mem_diff_append second).mpr ((stored.mem_next_iff level second).mp inSecond).2)
    sameName

omit stored in
theorem Fits.identified_at (placed : ∀ level, ∀ file ∈ levels.filesOfLevel level,
    file.level = level)
    (level : Nat) : ∀ removed ∈ filesWithLevel level before, ∀ file ∈ levels.filesOfLevel level,
      removed.fileName = file.fileName → file = removed := by
  intro removed isRemoved file mem sameName
  obtain ⟨inBefore, isLevel⟩ := mem_files_with_level.mp isRemoved
  exact fits.identified file (mem_all_of_mem_level mem) removed inBefore sameName.symm
    ((placed level file mem).trans isLevel.symm)

end

def Rebuilt (keyComparator : FieldsComparator) (level : Nat) (next files : List DataFileMeta) :
    Prop :=
  if level = 0 then Ascending level0Comparator files ∧ files.Perm next
  else SortedRun.fromUnsorted keyComparator next = .ok ⟨files⟩

structure Replaced (levels : Levels) (level : Nat) (files : List DataFileMeta) (updated : Levels) :
    Prop where
  comparator : updated.keyComparator = levels.keyComparator
  number : updated.numberOfLevels = levels.numberOfLevels
  files : ∀ other, updated.filesOfLevel other =
    if other = level then files else levels.filesOfLevel other

theorem replaced_run (above : level ≠ 0) (bound : level < levels.numberOfLevels) (run : SortedRun) :
    Replaced levels level run.files
      { levels with levels := levels.levels.set (level - 1) run } where
  comparator := rfl
  number := by simp [numberOfLevels]
  files other := by
    unfold numberOfLevels at bound
    have inside : level - 1 < levels.levels.length := by omega
    unfold filesOfLevel
    by_cases isZero : other = 0
    · have differ : other ≠ level := by omega
      rw [if_pos isZero, if_neg differ, if_pos isZero]
    · simp only [if_neg isZero, getD_eq_getElem?_getD, getElem?_set]
      by_cases same : other = level
      · simp [same, inside]
      · have differ : level - 1 ≠ other - 1 := by omega
        simp [same, differ]

theorem erase_named {gone : DataFileMeta}
    (identified : ∀ file ∈ files, gone.fileName = file.fileName → file = gone) :
    eraseNamed files gone = files.erase gone := by
  unfold eraseNamed
  induction files with
  | nil => rfl
  | cons first files ih =>
    by_cases sameName : gone.fileName = first.fileName
    · rw [eraseP_cons_of_pos (by simpa using sameName), identified first mem_cons_self sameName,
        erase_cons_head]
    · have differ : (first == gone) = false := by
        apply beq_false_of_ne
        intro same
        exact sameName (same ▸ rfl)
      have others := ih (forall_mem_cons.mp identified).2
      rw [eraseP_cons_of_neg (by simpa using sameName), others, erase_cons_tail (by simp [differ])]

theorem erase_all_named {removed : List DataFileMeta}
    (identified : ∀ gone ∈ removed, ∀ file ∈ files, gone.fileName = file.fileName → file = gone) :
    removed.foldl eraseNamed files = files.diff removed := by
  induction removed generalizing files with
  | nil => rfl
  | cons gone removed ih =>
    rw [foldl_cons, diff_cons, erase_named (identified gone mem_cons_self)]
    apply ih
    intro later isLater file mem
    exact identified later (mem_cons_of_mem _ isLater) file (mem_of_mem_erase mem)

/-- The level in order, names that stand for files, and no ties among the files to come. -/
structure Ready (levels : Levels) (before after : List DataFileMeta) (level : Nat) : Prop where
  kept : Kept levels.keyComparator level (levels.filesOfLevel level)
  identified : ∀ removed ∈ filesWithLevel level before, ∀ file ∈ levels.filesOfLevel level,
    removed.fileName = file.fileName → file = removed
  apart : (levels.nextFiles before after level).Pairwise (Apart level0Comparator)

theorem Fits.ready (fits : Fits levels before after) (stored : Stored levels) (level : Nat) :
    Ready levels before after level where
  kept := stored.kept level
  identified := fits.identified_at stored.placed level
  apart := fits.next_apart stored level

theorem Ready.rebuilt_same (ready : Ready levels before after level)
    (noBefore : filesWithLevel level before = []) (noAfter : filesWithLevel level after = []) :
    Rebuilt levels.keyComparator level (levels.nextFiles before after level)
      (levels.filesOfLevel level) := by
  have unchanged : levels.nextFiles before after level = levels.filesOfLevel level := by
    unfold nextFiles
    rw [noBefore, noAfter, append_nil]
    rfl
  have kept := ready.kept
  rw [unchanged]
  unfold Rebuilt
  unfold Kept at kept
  by_cases isZero : level = 0
  · rw [if_pos isZero] at kept ⊢
    exact ⟨kept, .refl _⟩
  · rw [if_neg isZero] at kept ⊢
    exact kept

theorem Ready.rebuilt_level0 (ready : Ready levels before after 0) :
    Rebuilt levels.keyComparator 0 (levels.nextFiles before after 0)
      ((filesWithLevel 0 after).foldl (fun set file => OrderedSets.insert level0Comparator file set)
        ((filesWithLevel 0 before).foldl
          (fun set file => OrderedSets.erase level0Comparator file set) levels.level0)) := by
  have ascending : Ascending level0Comparator levels.level0 := ready.kept
  have erased : (filesWithLevel 0 before).foldl
      (fun set file => OrderedSets.erase level0Comparator file set) levels.level0 =
        levels.level0.diff (filesWithLevel 0 before) := by
    apply erase_all_eq_diff level0_comparator_irrefl _ ascending
    intro removed isRemoved file mem
    by_cases sameName : removed.fileName = file.fileName
    · exact .inl (ready.identified removed isRemoved file mem sameName)
    · exact .inr (apart_of_name_ne sameName)
  have stillAscending := erase_all_ascending (filesWithLevel 0 before) ascending
  rw [erased] at stillAscending ⊢
  exact ⟨insert_all_ascending level0_comparator_trans _ stillAscending,
    insert_all_perm _ ready.apart⟩

section
variable (ready : Ready levels before after level)
include ready

theorem Ready.update_run (above : level ≠ 0)
    (touched : ¬((filesWithLevel level before).isEmpty && (filesWithLevel level after).isEmpty)) :
    updateLevel level (filesWithLevel level before) (filesWithLevel level after) levels =
      (SortedRun.fromUnsorted levels.keyComparator (levels.nextFiles before after level)).map
        (fun run => { levels with levels := levels.levels.set (level - 1) run }) := by
  have files : levels.filesOfLevel level = (levels.levels.getD (level - 1) ⟨[]⟩).files :=
    if_neg above
  have erased := erase_all_named ready.identified
  have notZero : ¬(level : Int) = 0 := fun isZero => above (Int.ofNat_eq_zero.mp isZero)
  unfold updateLevel
  rw [if_neg touched, if_neg notZero, Int.toNat_natCast, runOfLevel, if_neg above]
  unfold nextFiles
  rw [← erased, files]
  dsimp only [Bind.bind, Except.bind]
  cases SortedRun.fromUnsorted levels.keyComparator ((filesWithLevel level before).foldl eraseNamed
      (levels.levels.getD (level - 1) ⟨[]⟩).files ++ filesWithLevel level after) <;> rfl

theorem Ready.update_level_ok (bound : level < levels.numberOfLevels) {updated : Levels}
    (result : updateLevel level (filesWithLevel level before) (filesWithLevel level after) levels =
      .ok updated) :
    ∃ files, Rebuilt levels.keyComparator level (levels.nextFiles before after level) files ∧
      Replaced levels level files updated := by
  by_cases touched : (filesWithLevel level before).isEmpty && (filesWithLevel level after).isEmpty
  · rw [updateLevel, if_pos touched] at result
    simp only [Bool.and_eq_true, List.isEmpty_iff] at touched
    cases result
    refine ⟨_, ready.rebuilt_same touched.1 touched.2, rfl, rfl, fun other => ?_⟩
    split
    · next same => rw [same]
    · rfl
  · by_cases isZero : level = 0
    · subst isZero
      rw [updateLevel, if_neg touched] at result
      cases result
      refine ⟨_, ready.rebuilt_level0, rfl, rfl, fun other => ?_⟩
      unfold filesOfLevel
      split <;> rfl
    · rw [ready.update_run isZero touched] at result
      cases built :
          SortedRun.fromUnsorted levels.keyComparator (levels.nextFiles before after level) with
      | error error =>
        rw [built] at result
        cases result
      | ok run =>
        rw [built] at result
        cases result
        refine ⟨run.files, ?_, replaced_run isZero bound run⟩
        unfold Rebuilt
        rw [if_neg isZero]
        exact built

theorem Ready.update_level_error {error : String}
    (result : updateLevel level (filesWithLevel level before) (filesWithLevel level after) levels =
      .error error) : level ≠ 0 ∧ SortedRun.fromUnsorted levels.keyComparator
      (levels.nextFiles before after level) = .error error := by
  have touched :
      ¬((filesWithLevel level before).isEmpty && (filesWithLevel level after).isEmpty) := by
    intro untouched
    rw [updateLevel, if_pos untouched] at result
    cases result
  have above : level ≠ 0 := by
    rintro rfl
    rw [updateLevel, if_neg touched] at result
    cases result
  rw [ready.update_run above touched] at result
  cases built :
      SortedRun.fromUnsorted levels.keyComparator (levels.nextFiles before after level) with
  | ok run =>
    rw [built] at result
    cases result
  | error found =>
    rw [built] at result
    cases result
    exact ⟨above, rfl⟩

end

structure Reached (levels : Levels) (before after : List DataFileMeta) (visited : List Nat)
    (current : Levels) : Prop where
  comparator : current.keyComparator = levels.keyComparator
  number : current.numberOfLevels = levels.numberOfLevels
  done : ∀ level ∈ visited, Rebuilt levels.keyComparator level
    (levels.nextFiles before after level) (current.filesOfLevel level)
  ahead : ∀ level, level ∉ visited → current.filesOfLevel level = levels.filesOfLevel level

theorem reached_start (levels : Levels) (before after : List DataFileMeta) :
    Reached levels before after [] levels where
  comparator := rfl
  number := rfl
  done _ mem := absurd mem not_mem_nil
  ahead _ _ := rfl

section
variable {visited : List Nat} {level : Nat} {current : Levels}

section
variable (reached : Reached levels before after visited current)
include reached

theorem Reached.next_files (fresh : level ∉ visited) :
    current.nextFiles before after level = levels.nextFiles before after level := by
  unfold nextFiles
  rw [reached.ahead level fresh]

theorem Reached.ready (fresh : level ∉ visited) (ready : Ready levels before after level) :
    Ready current before after level where
  kept := by
    rw [reached.comparator, reached.ahead level fresh]
    exact ready.kept
  identified := by
    rw [reached.ahead level fresh]
    exact ready.identified
  apart := by
    rw [reached.next_files fresh]
    exact ready.apart

theorem Reached.step {updated : Levels} (fresh : level ∉ visited)
    (ready : Ready levels before after level) (bound : level < levels.numberOfLevels)
    (result : updateLevel level (filesWithLevel level before) (filesWithLevel level after) current =
      .ok updated) : Reached levels before after (visited ++ [level]) updated := by
  obtain ⟨files, rebuilt, replaced⟩ := (reached.ready fresh ready).update_level_ok
    (by rw [reached.number]; exact bound) result
  rw [reached.comparator, reached.next_files fresh] at rebuilt
  constructor
  case comparator => exact replaced.comparator.trans reached.comparator
  case number => exact replaced.number.trans reached.number
  case done =>
    intro other mem
    rw [replaced.files other]
    split
    · rename_i same
      rw [same]
      exact rebuilt
    · rename_i differ
      apply reached.done other
      simpa [differ] using mem
  case ahead =>
    intro other beyond
    simp only [mem_append, mem_singleton, not_or] at beyond
    rw [replaced.files other, if_neg beyond.2]
    exact reached.ahead other beyond.1

theorem Reached.complete (ready : ∀ level, Ready levels before after level)
    (touched : ∀ level, level ∉ visited →
      filesWithLevel level before = [] ∧ filesWithLevel level after = []) :
    Reached levels before after (List.range levels.numberOfLevels) current where
  comparator := reached.comparator
  number := reached.number
  done level _ := by
    by_cases seen : level ∈ visited
    · exact reached.done level seen
    · rw [reached.ahead level seen]
      exact (ready level).rebuilt_same (touched level seen).1 (touched level seen).2
  ahead level outside := by
    have beyond : levels.numberOfLevels ≤ level := by simpa using outside
    rw [files_of_level_beyond beyond, files_of_level_beyond (by rw [reached.number]; exact beyond)]

end

end

structure Stopped (levels : Levels) (before after : List DataFileMeta) (error : String)
    (left : Levels) (visited : List Nat) (failed : Nat) : Prop where
  above : failed ≠ 0
  reached : Reached levels before after visited left
  unsorted : SortedRun.fromUnsorted levels.keyComparator (levels.nextFiles before after failed) =
    .error error

theorem update_levels_outcome (ready : ∀ level, Ready levels before after level)
    (remaining visited : List Nat) (nodup : (visited ++ remaining).Nodup)
    (bound : ∀ level ∈ remaining, level < levels.numberOfLevels) {current : Levels}
    (reached : Reached levels before after visited current) :
    match updateLevels before after remaining current with
    | (.ok _, updated) => Reached levels before after (visited ++ remaining) updated
    | (.error error, left) => ∃ done failed rest, visited ++ remaining = done ++ failed :: rest ∧
        Stopped levels before after error left done failed := by
  induction remaining generalizing visited current with
  | nil =>
    rw [append_nil]
    exact reached
  | cons level remaining ih =>
    have fresh : level ∉ visited := by
      intro seen
      exact (nodup_append.mp nodup).2.2 level seen level mem_cons_self rfl
    rw [updateLevels]
    cases result : updateLevel level (filesWithLevel level before) (filesWithLevel level after)
        current with
    | error error =>
      obtain ⟨above, unsorted⟩ := (reached.ready fresh (ready level)).update_level_error result
      rw [reached.comparator, reached.next_files fresh] at unsorted
      exact ⟨visited, level, remaining, rfl, above, reached, unsorted⟩
    | ok updated =>
      have after := ih (visited ++ [level]) (by rwa [append_assoc]) (fun other mem =>
          bound other (by simp [mem]))
        (reached.step fresh (ready level) (bound level mem_cons_self) result)
      rwa [append_assoc] at after

theorem update_ok (ready : ∀ level, Ready levels before after level) {dropped : List String}
    {updated : Levels} (result : levels.update before after = (.ok dropped, updated)) :
    Reached levels before after (List.range levels.numberOfLevels) updated := by
  have outcome := update_levels_outcome ready (List.range levels.numberOfLevels) []
    nodup_range (fun level mem => mem_range.mp mem)
    (reached_start levels before after)
  unfold update at result
  split at result
  · cases result
  · rename_i looped
    rw [looped] at outcome
    cases result
    exact outcome

theorem range_split {total failed : Nat} {done rest : List Nat}
    (split : List.range total = done ++ failed :: rest) :
    done = List.range failed ∧ failed < total := by
  have lengths : total = done.length + (rest.length + 1) := by
    simpa using congrArg List.length split
  have isFailed : done.length = failed := by
    have entry := congrArg (fun levels => levels[done.length]?) split
    simpa [lengths] using entry
  have isDone : List.range done.length = done := by
    have taken := congrArg (List.take done.length) split
    simpa [take_range, lengths] using taken
  rw [isFailed] at isDone
  exact ⟨isDone.symm, by omega⟩

theorem update_error (ready : ∀ level, Ready levels before after level) {error : String}
    {left : Levels} (result : levels.update before after = (.error error, left)) :
    ∃ failed < levels.numberOfLevels, Stopped levels before after error left
      (List.range failed) failed := by
  have outcome := update_levels_outcome ready (List.range levels.numberOfLevels) []
    nodup_range (fun level mem => mem_range.mp mem)
    (reached_start levels before after)
  unfold update at result
  split at result
  · rename_i looped
    rw [looped] at outcome
    cases result
    obtain ⟨done, failed, rest, split, stopped⟩ := outcome
    obtain ⟨isDone, bound⟩ := range_split split
    exact ⟨failed, bound, isDone ▸ stopped⟩
  · cases result

end PaimonCore.MergeTree.Levels
