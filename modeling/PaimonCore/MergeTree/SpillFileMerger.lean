import Mathlib.Algebra.Ring.Nat
import Mathlib.Data.List.Nodup
import Mathlib.Data.List.Pairwise
import Mathlib.Data.Nat.Log

/-!
# Merging spill files

Files wait in levels. As many files of one level as the fan-in become one file of the next level;
before the final read the smallest files are merged until few enough remain.
-/

namespace PaimonCore.Spill

open List

structure FileChannelInfo where
  channelId : String
  fileSize : Int
  /-- The added files whose records it holds, each with how often they were rewritten. -/
  holds : List (String × Nat)

abbrev LeveledFile := Nat × FileChannelInfo

structure MergeTask where
  targetLevel : Nat
  inputFiles : List LeveledFile

/-- `std::sort` by size; the order of files of one size is not specified. -/
structure SizeSort where
  sort : List LeveledFile → List LeveledFile
  perm : ∀ files, (sort files).Perm files
  ascending : ∀ files, (sort files).Pairwise (fun left right => left.2.fileSize ≤ right.2.fileSize)

structure SpillFileMerger where
  maxFanIn : Nat
  several : 2 ≤ maxFanIn
  /-- The files of all levels: each level has its files in this order. -/
  files : List LeveledFile := []

namespace SpillFileMerger

variable (merger : SpillFileMerger)

def level (i : Nat) : List LeveledFile :=
  merger.files.filter (·.1 = i)

/-- The first level with as many files as the fan-in. -/
def fullLevel : Option Nat :=
  ((merger.files.map Prod.fst).filter fun i => merger.maxFanIn ≤ (merger.level i).length).min?

/-- `PickMergeTask`, if `NeedMerge` holds. -/
def mergeRound : Option MergeTask :=
  merger.fullLevel.map fun i => ⟨i + 1, (merger.level i).take merger.maxFanIn⟩

def filesToMerge (targetFileCount : Nat) : Nat :=
  min (merger.files.length - targetFileCount + 1) merger.maxFanIn

def pickFinalMergeBatch (order : SizeSort) (targetFileCount : Nat) : MergeTask :=
  let batch := (order.sort merger.files).take (merger.filesToMerge targetFileCount)
  ⟨(batch.map Prod.fst).foldl max 0 + 1, batch⟩

def finalRound (order : SizeSort) (targetFileCount : Nat) : Option MergeTask :=
  if merger.files.length > targetFileCount then
    some (merger.pickFinalMergeBatch order targetFileCount)
  else none

def removeFile (files : List LeveledFile) (file : LeveledFile) : List LeveledFile :=
  files.eraseP (·.2.channelId = file.2.channelId)

def applyMergeResult (task : MergeTask) (output : FileChannelInfo) : SpillFileMerger :=
  { merger with files := task.inputFiles.foldl removeFile merger.files ++
    [(task.targetLevel, output)] }

end SpillFileMerger

/-- The answer may depend on all that happened before; its file has a new id. -/
structure MergeFn where
  merge : List String → List FileChannelInfo → Except String (String × Int)
  fresh : ∀ {seen inputs output}, merge seen inputs = .ok output → output.1 ∉ seen

def outputFile (task : MergeTask) (output : String × Int) : FileChannelInfo where
  channelId := output.1
  fileSize := output.2
  holds := (task.inputFiles.flatMap (·.2.holds)).map fun part => (part.1, part.2 + 1)

/-- The merger with the files added, the ids so far, and whether a final merge has run. -/
structure History extends merger : SpillFileMerger where
  added : List String := []
  seen : List String := []
  finalMerged : Bool := false

namespace History

variable (history : History)

def addFile (channelId : String) (fileSize : Int) : History :=
  let file := (0, ⟨channelId, fileSize, [(channelId, 0)]⟩)
  { history with
    files := history.files ++ [file]
    added := channelId :: history.added
    seen := channelId :: history.seen }

def merged (final : Bool) (task : MergeTask) (output : String × Int) : History :=
  { history with
    merger := history.applyMergeResult task (outputFile task output)
    seen := output.1 :: history.seen
    finalMerged := history.finalMerged || final }

/-- Either loop; `none` when the rounds do not suffice. -/
def mergeLoop (final : Bool) (next : SpillFileMerger → Option MergeTask) (mergeFn : MergeFn) :
    Nat → History → Option (History × Except String Unit)
  | 0, _ => none
  | rounds + 1, history =>
    match next history.merger with
    | none => some (history, .ok ())
    | some task =>
      match mergeFn.merge history.seen (task.inputFiles.map Prod.snd) with
      | .error message => some (history, .error message)
      | .ok output => mergeLoop final next mergeFn rounds (history.merged final task output)

end History

open SpillFileMerger History

/-- The rounds of `RunMergeIfNeeded` and of `RunFinalMergeIfNeeded`. -/
inductive Round (order : SizeSort) : Bool → (SpillFileMerger → Option MergeTask) → Prop
  | merge : Round order false mergeRound
  | final (targetFileCount : Nat) (pos : 1 ≤ targetFileCount) :
    Round order true (·.finalRound order targetFileCount)

/-- The histories at any moment of any sequence of calls. -/
inductive Moment (order : SizeSort) : History → Prop
  | start (merger : SpillFileMerger) (empty : merger.files = []) : Moment order { merger }
  | added {history : History} {channelId : String} (fileSize : Int) (moment : Moment order history)
    (new : channelId ∉ history.seen) : Moment order (history.addFile channelId fileSize)
  | merged {history : History} {final : Bool} {next : SpillFileMerger → Option MergeTask}
    {task : MergeTask} {output : String × Int} (mergeFn : MergeFn) (moment : Moment order history)
    (round : Round order final next) (picked : next history.merger = some task)
    (result : mergeFn.merge history.seen (task.inputFiles.map Prod.snd) = .ok output) :
    Moment order (history.merged final task output)

variable {merger : SpillFileMerger} {task : MergeTask} {order : SizeSort} {final : Bool}
  {next : SpillFileMerger → Option MergeTask} {history : History}

/-- The inputs of a task are files of the merger, at least two and at most the fan-in. -/
structure Selects (merger : SpillFileMerger) (task : MergeTask) (others : List LeveledFile) :
    Prop where
  stored : merger.files.Perm (task.inputFiles ++ others)
  several : 2 ≤ task.inputFiles.length
  bounded : task.inputFiles.length ≤ merger.maxFanIn

theorem merge_round_spec (picked : merger.mergeRound = some task) :
    ∃ i, task = ⟨i + 1, (merger.level i).take merger.maxFanIn⟩ ∧
      task.inputFiles.length = merger.maxFanIn := by
  obtain ⟨i, full, rfl⟩ := Option.map_eq_some_iff.mp picked
  have enough := of_decide_eq_true (mem_filter.mp (min?_mem full)).2
  exact ⟨i, rfl, length_take_of_le enough⟩

theorem Round.selects (round : Round order final next) (picked : next merger = some task) :
    ∃ others, Selects merger task others := by
  have wide := merger.several
  cases round with
  | merge =>
    obtain ⟨i, rfl, length⟩ := merge_round_spec picked
    have whole := (filter_append_perm (·.1 = i) merger.files).symm
    rw [← level, ← take_append_drop merger.maxFanIn (merger.level i), append_assoc] at whole
    exact ⟨_, whole, by omega, length.le⟩
  | final targetFileCount pos =>
    simp only [finalRound] at picked
    split_ifs at picked with above
    cases picked
    have whole := order.perm merger.files
    have count := whole.length_eq
    have isCount : merger.filesToMerge targetFileCount = min _ _ := rfl
    have length : (merger.pickFinalMergeBatch order targetFileCount).inputFiles.length =
        merger.filesToMerge targetFileCount := length_take_of_le (by omega)
    rw [← take_append_drop (merger.filesToMerge targetFileCount) (order.sort _)] at whole
    exact ⟨_, whole.symm, by omega, by omega⟩

theorem remove_files_perm {stored files others : List LeveledFile}
    (perm : stored.Perm (files ++ others)) (nodup : (stored.map (·.2.channelId)).Nodup) :
    (files.foldl removeFile stored).Perm others := by
  induction files generalizing stored with
  | nil => exact perm
  | cons file files ih =>
    have apart : stored.Pairwise (fun left right => decide (left.2.channelId = file.2.channelId) →
        decide (right.2.channelId = file.2.channelId) → False) := by
      apply (pairwise_map.mp nodup).imp
      intro left right ne first second
      exact ne ((of_decide_eq_true first).trans (of_decide_eq_true second).symm)
    have erased := perm.eraseP _ apart
    rw [cons_append, eraseP_cons_of_pos (by simp)] at erased
    exact ih erased (nodup.sublist (eraseP_sublist.map _))

theorem Selects.merged_perm {others : List LeveledFile} (selects : Selects merger task others)
    (nodup : (merger.files.map (·.2.channelId)).Nodup) (output : FileChannelInfo) :
    (merger.applyMergeResult task output).files.Perm ((task.targetLevel, output) :: others) :=
  (perm_append_singleton _ _).trans ((remove_files_perm selects.stored nodup).cons _)

structure Kept (history : History) : Prop where
  distinct : (history.files.map (·.2.channelId)).Nodup
  known : ∀ file ∈ history.files, file.2.channelId ∈ history.seen
  addedDistinct : history.added.Nodup
  addedKnown : history.added ⊆ history.seen
  held : ((history.files.flatMap (·.2.holds)).map Prod.fst).Perm history.added
  /-- A file has been rewritten once for each level. -/
  weighted : history.finalMerged = false → ∀ file ∈ history.files,
    history.maxFanIn ^ file.1 ≤ file.2.holds.length ∧ ∀ part ∈ file.2.holds, part.2 ≤ file.1

theorem holds_length {inputs : List LeveledFile} {weight : Nat}
    (heavy : ∀ file ∈ inputs, weight ≤ file.2.holds.length) :
    inputs.length * weight ≤ (inputs.flatMap (·.2.holds)).length := by
  induction inputs with
  | nil => simp
  | cons file inputs ih =>
    obtain ⟨first, later⟩ := forall_mem_cons.mp heavy
    have rest := ih later
    rw [length_cons, Nat.succ_mul, flatMap_cons, length_append]
    omega

section
variable (kept : Kept history)
include kept

theorem Kept.replaces {inputs others files : List LeveledFile} {file : LeveledFile}
    (stored : history.files.Perm (inputs ++ others)) (now : files.Perm (file :: others))
    (new : file.2.channelId ∉ history.seen) : (files.map (·.2.channelId)).Nodup ∧
      ∀ other ∈ files, other.2.channelId ∈ file.2.channelId :: history.seen := by
  have known : ∀ other ∈ others, other.2.channelId ∈ history.seen :=
    fun other mem => kept.known other (stored.mem_iff.mpr (mem_append_right inputs mem))
  constructor
  · rw [(now.map _).nodup_iff, map_cons, nodup_cons]
    constructor
    · intro found
      obtain ⟨other, mem, same⟩ := mem_map.mp found
      exact new (same ▸ known other mem)
    · have apart := (stored.map (·.2.channelId)).nodup_iff.mp kept.distinct
      rw [map_append] at apart
      exact apart.of_append_right
  · intro other mem
    rcases mem_cons.mp (now.mem_iff.mp mem) with rfl | mem
    · exact mem_cons_self
    · exact mem_cons_of_mem _ (known other mem)

theorem Kept.added {channelId : String} (fileSize : Int)
    (new : channelId ∉ history.seen) : Kept (history.addFile channelId fileSize) := by
  have now := perm_append_singleton (0, ⟨channelId, fileSize, [(channelId, 0)]⟩) history.files
  obtain ⟨nodup, known⟩ := kept.replaces (Perm.refl ([] ++ _)) now new
  refine ⟨nodup, known, nodup_cons.mpr ⟨fun found => new (kept.addedKnown found),
    kept.addedDistinct⟩,
    cons_subset_cons channelId kept.addedKnown, ?_, ?_⟩
  · exact ((now.flatMap_right _).map _).trans (kept.held.cons channelId)
  · intro noFinal file mem
    rcases mem_cons.mp (now.mem_iff.mp mem) with rfl | old
    · simp
    · exact kept.weighted noFinal file old

theorem Kept.merged {output : String × Int} (round : Round order final next)
    (picked : next history.merger = some task) (new : output.1 ∉ history.seen) :
    Kept (history.merged final task output) := by
  obtain ⟨others, selects⟩ := round.selects picked
  have now := selects.merged_perm kept.distinct (outputFile task output)
  obtain ⟨nodup, known⟩ := kept.replaces selects.stored now new
  refine ⟨nodup, known, kept.addedDistinct, fun _ found =>
    mem_cons_of_mem _ (kept.addedKnown found), ?_, ?_⟩
  · have held := ((selects.stored.flatMap_right (·.2.holds)).map Prod.fst).symm.trans kept.held
    have sameIds : (outputFile task output).holds.map Prod.fst =
        (task.inputFiles.flatMap (·.2.holds)).map Prod.fst := by
      rw [outputFile, map_map]
      rfl
    refine ((now.flatMap_right _).map _).trans ?_
    rw [flatMap_cons, map_append, sameIds, ← map_append, ← flatMap_append]
    exact held
  · intro noFinal file mem
    obtain ⟨notBefore, notNow⟩ := Bool.or_eq_false_iff.mp noFinal
    rcases mem_cons.mp (now.mem_iff.mp mem) with rfl | old
    · cases round with
      | final => cases notNow
      | merge =>
        obtain ⟨i, rfl, length⟩ := merge_round_spec picked
        have inputs : ∀ input ∈ (history.level i).take history.maxFanIn,
            history.maxFanIn ^ i ≤ input.2.holds.length ∧ ∀ part ∈ input.2.holds, part.2 ≤ i := by
          intro input taken
          obtain ⟨stored, isLevel⟩ := mem_filter.mp (mem_of_mem_take taken)
          rw [← of_decide_eq_true isLevel]
          exact kept.weighted notBefore input stored
        constructor
        · have heavy := holds_length (fun input taken => (inputs input taken).1)
          rw [show (take _ _).length = _ from length] at heavy
          rw [outputFile, length_map, Nat.pow_succ']
          exact heavy
        · intro part isPart
          obtain ⟨before, held, rfl⟩ := mem_map.mp isPart
          obtain ⟨input, taken, held⟩ := mem_flatMap.mp held
          exact Nat.succ_le_succ ((inputs input taken).2 before held)
    · exact kept.weighted notBefore file (selects.stored.mem_iff.mpr (mem_append_right _ old))

theorem Kept.holders_apart {left right : LeveledFile} {channelId : String}
    (first : left ∈ history.files) (second : right ∈ history.files)
    (inFirst : channelId ∈ left.2.holds.map Prod.fst)
    (inSecond : channelId ∈ right.2.holds.map Prod.fst) :
    left = right := by
  have nodup := kept.held.nodup_iff.mpr kept.addedDistinct
  rw [map_flatMap, nodup_flatMap] at nodup
  have symmetric :
      Std.Symm (Function.onFun Disjoint fun file : LeveledFile => file.2.holds.map Prod.fst) :=
    ⟨fun _ _ disjoint _ inFirst inSecond => disjoint inSecond inFirst⟩
  by_contra ne
  exact nodup.2.forall first second ne inFirst inSecond

theorem Kept.level_bound (noFinal : history.finalMerged = false)
    {file : LeveledFile} (mem : file ∈ history.files) :
    file.1 ≤ Nat.log history.maxFanIn history.added.length := by
  have within : file.2.holds.length ≤ history.added.length := by
    rw [← kept.held.length_eq, length_map, flatMap_def]
    exact (sublist_flatten_of_mem (mem_map_of_mem (f := (·.2.holds)) mem)).length_le
  exact Nat.le_log_of_pow_le history.several ((kept.weighted noFinal file mem).1.trans within)

end

theorem Moment.kept (moment : Moment order history) : Kept history := by
  induction moment with
  | start merger empty => constructor <;> simp [empty]
  | added fileSize _ new kept => exact kept.added fileSize new
  | merged mergeFn _ round picked result kept =>
    exact kept.merged round picked (mergeFn.fresh result)

/-- An error only if a merge failed, and else nothing is left to do. -/
def Returns (order : SizeSort) (final : Bool) (next : SpillFileMerger → Option MergeTask)
    (mergeFn : MergeFn) (rounds : Nat) (history : History) : Prop :=
  ∃ last result, mergeLoop final next mergeFn rounds history = some (last, result) ∧
    Moment order last ∧ (result = .ok () → next last.merger = none) ∧
    ((∀ seen inputs, ∃ output, mergeFn.merge seen inputs = .ok output) → result = .ok ())

/-- Each round leaves at least one file less, so there are no more rounds than files. -/
theorem merge_loop_returns (round : Round order final next) (mergeFn : MergeFn) {rounds : Nat}
    (moment : Moment order history) (enough : history.files.length < rounds) :
    Returns order final next mergeFn rounds history := by
  induction rounds generalizing history with
  | zero => cases enough
  | succ rounds ih =>
    rw [Returns, mergeLoop]
    cases picked : next history.merger with
    | none => exact ⟨history, .ok (), rfl, moment, fun _ => picked, fun _ => rfl⟩
    | some task =>
      cases result : mergeFn.merge history.seen (task.inputFiles.map Prod.snd) with
      | error message =>
        refine ⟨history, .error message, by simp [result], moment, nofun, fun succeeds => ?_⟩
        obtain ⟨output, isOk⟩ := succeeds history.seen (task.inputFiles.map Prod.snd)
        rw [result] at isOk
        cases isOk
      | ok output =>
        have fewer : (history.merged final task output).files.length < rounds := by
          obtain ⟨others, selects⟩ := round.selects picked
          have several := selects.several
          have before := selects.stored.length_eq
          have after :=
            (selects.merged_perm moment.kept.distinct (outputFile task output)).length_eq
          rw [length_append] at before
          rw [length_cons] at after
          change (history.applyMergeResult _ _).files.length < rounds
          omega
        obtain ⟨last, answer, runs, rest⟩ := ih (moment.merged mergeFn round picked result) fewer
        exact ⟨last, answer, by simpa [result] using runs, rest⟩

theorem merge_round_none (none : merger.mergeRound = none) (i : Nat) :
    (merger.level i).length < merger.maxFanIn := by
  have wide := merger.several
  rw [mergeRound, Option.map_eq_none_iff, fullLevel, min?_eq_none_iff, filter_eq_nil_iff] at none
  cases isLevel : merger.level i with
  | nil => exact Nat.lt_of_lt_of_le Nat.two_pos wide
  | cons file rest =>
    have stored : file ∈ merger.level i := isLevel ▸ mem_cons_self
    obtain ⟨mem, here⟩ := mem_filter.mp stored
    have notFull := none file.1 (mem_map_of_mem mem)
    rw [of_decide_eq_true here, decide_eq_true_eq, isLevel] at notFull
    exact Nat.not_le.mp notFull

theorem spill_files_conserved (moment : Moment order history) :
    (∀ channelId ∈ history.added, ∃! file, file ∈ history.files ∧
      channelId ∈ file.2.holds.map Prod.fst) ∧
    (history.finalMerged = false → ∀ file ∈ history.files,
      (∀ part ∈ file.2.holds, part.2 ≤ file.1) ∧
      file.1 ≤ Nat.log history.maxFanIn history.added.length) ∧
    (∀ {final next}, Round order final next → (∀ {task}, next history.merger = some task →
        2 ≤ task.inputFiles.length ∧ task.inputFiles.length ≤ history.maxFanIn) ∧
      ∀ mergeFn rounds, history.files.length < rounds →
        Returns order final next mergeFn rounds history) ∧
    ∀ merger : SpillFileMerger,
      (merger.mergeRound = none → ∀ i, (merger.level i).length < merger.maxFanIn) ∧
      ∀ targetFileCount, merger.finalRound order targetFileCount = none →
        merger.files.length ≤ targetFileCount := by
  have kept := moment.kept
  refine ⟨?_, ?_, ?_, fun merger => ⟨merge_round_none, fun targetFileCount none => ?_⟩⟩
  · intro channelId isAdded
    have held := kept.held.mem_iff.mpr isAdded
    rw [map_flatMap] at held
    obtain ⟨file, mem, holds⟩ := mem_flatMap.mp held
    exact ⟨file, ⟨mem, holds⟩, fun other found => kept.holders_apart found.1 mem found.2 holds⟩
  · intro noFinal file mem
    exact ⟨(kept.weighted noFinal file mem).2, kept.level_bound noFinal mem⟩
  · intro final next round
    refine ⟨fun picked => ?_, fun mergeFn rounds => merge_loop_returns round mergeFn moment⟩
    obtain ⟨_, selects⟩ := round.selects picked
    exact ⟨selects.several, selects.bounded⟩
  · by_contra above
    rw [finalRound, if_pos (Nat.not_le.mp above)] at none
    cases none

theorem by_size_ascending (files : List LeveledFile) :
    (files.mergeSort fun left right => left.2.fileSize ≤ right.2.fileSize).Pairwise
      (fun left right => left.2.fileSize ≤ right.2.fileSize) := by
  apply (pairwise_mergeSort _ _ files).imp of_decide_eq_true
  · simp only [decide_eq_true_eq]
    omega
  · simp only [Bool.or_eq_true, decide_eq_true_eq]
    omega

def bySize : SizeSort where
  sort files := files.mergeSort fun left right => left.2.fileSize ≤ right.2.fileSize
  perm files := mergeSort_perm files _
  ascending := by_size_ascending

/-- A merge that always writes the file with this id. -/
def mergeInto (channelId : String) (fileSize : Int) : MergeFn where
  merge seen _ := if channelId ∈ seen then .error "file exists" else .ok (channelId, fileSize)
  fresh {seen inputs output} written := by
    split_ifs at written with known
    cases written
    exact known

/-- Two files fill level 0 and become a file of level 1. -/
def twoMerged : History :=
  (((({ merger := ⟨2, Nat.le_refl 2, []⟩ } : History).addFile "a" 8).addFile "b" 4).merged false
    ⟨1, [(0, ⟨"a", 8, [("a", 0)]⟩), (0, ⟨"b", 4, [("b", 0)]⟩)]⟩ ("ab", 12)).addFile "c" 6

/-- The final merge of all files, of levels 0 and 1, into one. -/
def allMerged : History :=
  twoMerged.merged true (twoMerged.pickFinalMergeBatch bySize 1) ("abc", 18)

theorem merged_files_conserved : Moment bySize allMerged ∧
    (∃! file, file ∈ twoMerged.files ∧ "a" ∈ file.2.holds.map Prod.fst) ∧
    (∃! file, file ∈ allMerged.files ∧ "a" ∈ file.2.holds.map Prod.fst) ∧
    ∃! file, file ∈ allMerged.files ∧ "c" ∈ file.2.holds.map Prod.fst := by
  have level : Moment bySize twoMerged :=
    .added 6
      (.merged (mergeInto "ab" 12) (.added 4 (.added 8 (.start _ rfl) not_mem_nil) (by decide))
      .merge rfl rfl) (by decide)
  have all : Moment bySize allMerged :=
    .merged (mergeInto "abc" 18) level (.final 1 (Nat.le_refl 1)) rfl rfl
  exact ⟨all, (spill_files_conserved level).1 "a" (by decide),
    (spill_files_conserved all).1 "a" (by decide),
    (spill_files_conserved all).1 "c" (by decide)⟩

end PaimonCore.Spill
