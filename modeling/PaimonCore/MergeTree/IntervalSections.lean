import Mathlib.Data.List.Perm.Basic
import PaimonCore.Library.Overlaps
import PaimonCore.MergeTree.IntervalPartition

/-!
# The sections and runs of `IntervalPartition` are the best possible

A section is a group of files linked by common keys. The top of the queue is the run that ends
first; a file opens a new run only when its smallest key lies in the last file of every run, so
that key is in as many files as there are runs.
-/

namespace PaimonCore.MergeTree.IntervalPartition

open Std PaimonCore.Fields List
open PaimonCore.Manifest (DataFileMeta)
open Overlaps

def keyRanges (comparator : FieldsComparator) : Ranges DataFileMeta BinaryRow where
  compareKeys := comparator.compareTo
  smallest := DataFileMeta.minKey
  largest := DataFileMeta.maxKey

instance (comparator : FieldsComparator) : TransCmp (keyRanges comparator).compareKeys :=
  inferInstanceAs (TransCmp comparator.compareTo)

def filesOf (runs : List SortedRun) : List DataFileMeta := runs.flatMap SortedRun.files

structure WellPartitioned (comparator : FieldsComparator) (files : List DataFileMeta)
    (sections : List (List SortedRun)) : Prop where
  complete : (sections.flatMap filesOf).Perm files
  occupied : ∀ runs ∈ sections, runs ≠ [] ∧ ∀ run ∈ runs, run.files ≠ []
  sorted : ∀ runs ∈ sections, ∀ run ∈ runs, run.files.Pairwise (EndsBefore comparator)
  ascending : sections.Pairwise (fun earlier later =>
    ∀ left ∈ filesOf earlier, ∀ right ∈ filesOf later, EndsBefore comparator left right)
  component : ∀ runs ∈ sections, ∀ left ∈ filesOf runs, ∀ right,
    right ∈ filesOf runs ↔ (keyRanges comparator).Linked files left right
  deepest : ∀ runs ∈ sections, IsGreatest
    (Set.range (fun key => (filesOf runs).countP ((keyRanges comparator).covers key))) runs.length
  fewest : ∀ runs ∈ sections, ∀ others : List (List DataFileMeta),
    others.flatten.Perm (filesOf runs) →
      (∀ run ∈ others, run.Pairwise (EndsBefore comparator)) → runs.length ≤ others.length

variable {comparator : FieldsComparator}

theorem ends_before_not_meet {left right : DataFileMeta}
    (before : EndsBefore comparator left right) :
    ¬(keyRanges comparator).Meet left right :=
  have apart : (keyRanges comparator).Before left right := before
  apart.not_meet

/-- The section under way is connected, and its bound is the largest key of a member. -/
structure Grown (comparator : FieldsComparator) (running : List DataFileMeta) (bound : BinaryRow) :
    Prop where
  connected : (keyRanges comparator).Connected running
  attained : (running = [] ∧ bound = []) ∨ ∃ file ∈ running, file.maxKey = bound

theorem grown_singleton (file : DataFileMeta) : Grown comparator [file] file.maxKey :=
  ⟨Ranges.connected_singleton file, .inr ⟨file, mem_singleton_self file, rfl⟩⟩

variable {file : DataFileMeta}

theorem Grown.extend {running : List DataFileMeta} {bound : BinaryRow}
    (grown : Grown comparator running bound) (spans : Spans comparator file)
    (later : ∀ other ∈ running, (comparator.compareTo other.minKey file.minKey).isLE = true)
    (inside : running = [] ∨ (comparator.compareTo file.minKey bound).isLE = true) :
    Grown comparator (running ++ [file])
      (if bound = [] ∨
        comparator.compareTo file.maxKey bound = .gt then file.maxKey else bound) := by
  constructor
  case connected =>
    rcases grown.attained with ⟨rfl, -⟩ | ⟨last, mem, isBound⟩
    · exact Ranges.connected_singleton file
    · have reaches : (comparator.compareTo file.minKey last.maxKey).isLE = true := by
        rcases inside with rfl | below
        · cases mem
        · rw [isBound]
          exact below
      have meet : (keyRanges comparator).Meet last file :=
        ⟨file.minKey, Ranges.covers_iff.mpr ⟨later last mem, reaches⟩,
          Ranges.Proper.covers_smallest spans⟩
      exact grown.connected.append_item mem meet
  case attained =>
    right
    split
    · exact ⟨file, by simp, rfl⟩
    · rename_i kept
      rcases grown.attained with ⟨-, isUnset⟩ | ⟨last, mem, isBound⟩
      · exact absurd (.inl isUnset) kept
      · exact ⟨last, mem_append_left _ mem, isBound⟩

theorem sections_from_nonempty (running : List DataFileMeta) (bound : BinaryRow)
    (files : List DataFileMeta) :
    ∀ members ∈ sectionsFrom comparator running bound files, members ≠ [] := by
  induction files generalizing running bound with
  | nil =>
    unfold sectionsFrom
    split
    · simp
    · rename_i filled
      simpa using filled
  | cons file files ih =>
    unfold sectionsFrom
    split
    · rename_i opens
      have filled : running ≠ [] := by
        rintro rfl
        simp at opens
      exact forall_mem_cons.mpr ⟨filled, ih _ _⟩
    · exact ih _ _

theorem sections_from_connected (running : List DataFileMeta) (bound : BinaryRow)
    (files : List DataFileMeta) (grown : Grown comparator running bound)
    (spans : ∀ file ∈ files, Spans comparator file)
    (ascending : (running ++ files).Pairwise (fun left right =>
      (comparator.compareTo left.minKey right.minKey).isLE = true)) :
    ∀ members ∈ sectionsFrom comparator running bound files,
      (keyRanges comparator).Connected members := by
  induction files generalizing running bound with
  | nil =>
    unfold sectionsFrom
    split
    · intro members mem
      cases mem
    · intro members mem
      rw [mem_singleton.mp mem]
      exact grown.connected
  | cons file files ih =>
    have laterSpans : ∀ other ∈ files, Spans comparator other := fun other mem =>
      spans other (mem_cons_of_mem _ mem)
    unfold sectionsFrom
    split
    · exact forall_mem_cons.mpr ⟨grown.connected, ih [file] file.maxKey (grown_singleton file)
        laterSpans (pairwise_append.mp ascending).2.1⟩
    · rename_i stays
      have inside : running = [] ∨ (comparator.compareTo file.minKey bound).isLE = true := by
        by_cases empty : running = []
        · exact .inl empty
        · right
          apply (Comparators.not_gt_iff_isLE _ _).mp
          intro above
          simp [above, empty] at stays
      have later : ∀ other ∈ running,
          (comparator.compareTo other.minKey file.minKey).isLE = true := fun other mem =>
        (pairwise_append.mp ascending).2.2 other mem file mem_cons_self
      apply ih (running ++ [file]) _ _ laterSpans
      · rw [append_assoc]
        exact ascending
      · exact grown.extend (spans file mem_cons_self) later inside

theorem not_comes_after_iff (o1 o2 : OpenRun) : comesAfter comparator o1 o2 = false ↔
    compareLex (fun left right : OpenRun => comparator.compareTo left.2.maxKey right.2.maxKey)
      (fun left right => comparator.compareTo left.2.minKey right.2.minKey) o1 o2 ≠ .gt := by
  unfold comesAfter
  dsimp only [compareLex]
  cases comparator.compareTo o1.2.maxKey o2.2.maxKey <;>
    cases comparator.compareTo o1.2.minKey o2.2.minKey <;> simp

instance last_max_key_comparison : TransCmp (fun left right : OpenRun =>
    comparator.compareTo left.2.maxKey right.2.maxKey) :=
  inferInstanceAs
    (TransCmp (Comparators.along (fun run : OpenRun => run.2.maxKey) comparator.compareTo))

instance last_min_key_comparison : TransCmp (fun left right : OpenRun =>
    comparator.compareTo left.2.minKey right.2.minKey) :=
  inferInstanceAs
    (TransCmp (Comparators.along (fun run : OpenRun => run.2.minKey) comparator.compareTo))

/-- The queue in which a run comes before those it ties with. -/
def RunQueue.inserted (comparator : FieldsComparator) : RunQueue comparator where
  push queue run := queue.orderedInsert (fun o1 o2 => comesAfter comparator o1 o2 = false) run
  perm _ _ := perm_orderedInsert _ _ _
  ordered queue run queued := by
    unfold Queued at *
    simp only [not_comes_after_iff] at *
    exact queued.orderedInsert run _

variable {heap : RunQueue comparator} {queue : List OpenRun}

theorem Queued.place (queued : Queued comparator queue) (file : DataFileMeta) :
    Queued comparator (place heap queue file) := by
  cases queue with
  | nil => exact pairwise_singleton _ _
  | cons top queue =>
    have rest : Queued comparator queue := (pairwise_cons.mp queued).2
    unfold IntervalPartition.place
    dsimp only
    split
    · exact heap.ordered _ _ rest
    · exact heap.ordered _ _ (heap.ordered _ _ rest)

theorem Queued.top_first {top : OpenRun} (queued : Queued comparator (top :: queue)) :
    ∀ run ∈ top :: queue, (comparator.compareTo top.2.maxKey run.2.maxKey).isLE = true := by
  intro run mem
  rcases mem_cons.mp mem with rfl | inQueue
  · exact ReflCmp.isLE_rfl
  · have ordered := (not_comes_after_iff top run).mp ((pairwise_cons.mp queued).1 run inQueue)
    unfold compareLex at ordered
    cases verdict : comparator.compareTo top.2.maxKey run.2.maxKey <;> simp_all

/-- Some key lies in as many of the files placed so far as there are runs. -/
def Deep (comparator : FieldsComparator) (placed : List DataFileMeta) (queue : List OpenRun) :
    Prop :=
  ∃ key, queue.length ≤ placed.countP ((keyRanges comparator).covers key)

theorem last_files_sublist (queue : List OpenRun) :
    (queue.map Prod.snd).Sublist (queue.flatMap OpenRun.files) := by
  induction queue with
  | nil => exact Sublist.slnil
  | cons run queue ih =>
    have last : [run.2].Sublist run.files := sublist_append_right _ _
    exact last.append ih

theorem place_length (top : OpenRun) (queue : List OpenRun) (file : DataFileMeta) :
    (place heap (top :: queue) file).length =
      if comparator.compareTo file.minKey top.2.maxKey = .gt then queue.length + 1
      else queue.length + 2 := by
  unfold place
  dsimp only
  split
  · rw [(heap.perm _ _).length_eq, length_cons]
  · rw [(heap.perm _ _).length_eq, length_cons, (heap.perm _ _).length_eq, length_cons]

/-- The smallest key of a file that opens a run lies in the last file of every run. -/
theorem runs_le_covering {placed : List DataFileMeta} {top : OpenRun}
    (arranged : Arranged comparator placed (top :: queue))
    (queued : Queued comparator (top :: queue))
    (later : ∀ other ∈ placed, (comparator.compareTo other.minKey file.minKey).isLE = true)
    (inside : (comparator.compareTo file.minKey top.2.maxKey).isLE = true) :
    (top :: queue).length ≤ placed.countP ((keyRanges comparator).covers file.minKey) := by
  have covered : ∀ last ∈ (top :: queue).map Prod.snd,
      (keyRanges comparator).covers file.minKey last = true := by
    intro last mem
    obtain ⟨run, inQueue, rfl⟩ := mem_map.mp mem
    have isPlaced : run.2 ∈ placed := arranged.perm.mem_iff.mp ((last_files_sublist _).subset mem)
    exact Ranges.covers_iff.mpr ⟨later run.2 isPlaced,
      TransCmp.isLE_trans inside (queued.top_first run inQueue)⟩
  calc (top :: queue).length
      = ((top :: queue).map Prod.snd).countP ((keyRanges comparator).covers file.minKey) := by
        rw [countP_eq_length.mpr covered, length_map]
    _ ≤ ((top :: queue).flatMap OpenRun.files).countP
          ((keyRanges comparator).covers file.minKey) := (last_files_sublist _).countP_le
    _ = placed.countP ((keyRanges comparator).covers file.minKey) := arranged.perm.countP_eq _

theorem Deep.place {placed : List DataFileMeta} (deep : Deep comparator placed queue)
    (arranged : Arranged comparator placed queue) (queued : Queued comparator queue)
    (spans : Spans comparator file)
    (later : ∀ other ∈ placed, (comparator.compareTo other.minKey file.minKey).isLE = true) :
    Deep comparator (placed ++ [file]) (place heap queue file) := by
  have own : (keyRanges comparator).covers file.minKey file = true :=
    Ranges.Proper.covers_smallest spans
  cases queue with
  | nil =>
    refine ⟨file.minKey, ?_⟩
    rw [countP_append, countP_singleton, if_pos own]
    exact Nat.le_add_left _ _
  | cons top queue =>
    unfold Deep
    rw [place_length]
    split
    · obtain ⟨key, enough⟩ := deep
      refine ⟨key, ?_⟩
      rw [countP_append]
      exact enough.trans (Nat.le_add_right _ _)
    · rename_i opens
      have covering :=
        runs_le_covering arranged queued later ((Comparators.not_gt_iff_isLE _ _).mp opens)
      refine ⟨file.minKey, ?_⟩
      rw [countP_append, countP_singleton, if_pos own]
      exact Nat.succ_le_succ covering

theorem deep_after (files placed : List DataFileMeta) (queue : List OpenRun)
    (arranged : Arranged comparator placed queue) (queued : Queued comparator queue)
    (deep : Deep comparator placed queue) (spans : ∀ file ∈ placed ++ files, Spans comparator file)
    (ascending : (placed ++ files).Pairwise (fun left right =>
      (comparator.compareTo left.minKey right.minKey).isLE = true)) :
    Deep comparator (placed ++ files) (files.foldl (IntervalPartition.place heap) queue) := by
  induction files generalizing placed queue with
  | nil => simpa using deep
  | cons file files ih =>
    have placedSpans : ∀ other ∈ placed, Spans comparator other := fun other mem =>
      spans other (mem_append_left _ mem)
    have fileSpans : Spans comparator file := spans file (by simp)
    have later : ∀ other ∈ placed, (comparator.compareTo other.minKey file.minKey).isLE = true :=
      fun other mem =>
      (pairwise_append.mp ascending).2.2 other mem file mem_cons_self
    have after := ih (placed ++ [file]) (IntervalPartition.place heap queue file)
      (arranged.place placedSpans file) (queued.place file)
      (deep.place arranged queued fileSpans later)
    rw [append_assoc] at after
    exact after spans ascending

theorem partition_section_occupied (files : List DataFileMeta) :
    ∀ run ∈ partitionSection heap files, run.files ≠ [] := by
  intro run mem
  obtain ⟨opened, _, rfl⟩ := mem_map.mp mem
  exact append_ne_nil_of_right_ne_nil _ (cons_ne_nil _ _)

theorem partition_section_files (files : List DataFileMeta) :
    (filesOf (partitionSection heap files)).Perm files :=
  partition_section_perm files

theorem partition_section_deep {files : List DataFileMeta}
    (spans : ∀ file ∈ files, Spans comparator file) (ascending : files.Pairwise (fun left right =>
      (comparator.compareTo left.minKey right.minKey).isLE = true)) :
    ∃ key, (partitionSection heap files).length ≤
      (filesOf (partitionSection heap files)).countP ((keyRanges comparator).covers key) := by
  obtain ⟨key, enough⟩ : Deep comparator files (files.foldl (IntervalPartition.place heap) []) :=
    deep_after files [] [] ⟨.refl _, by simp⟩ Pairwise.nil ⟨[], Nat.zero_le _⟩ spans ascending
  refine ⟨key, ?_⟩
  rw [(partition_section_files files).countP_eq]
  unfold partitionSection
  rw [length_map]
  exact enough

theorem deepest_of_deep {runs : List SortedRun} {key : BinaryRow}
    (deep : runs.length ≤ (filesOf runs).countP ((keyRanges comparator).covers key))
    (sorted : ∀ run ∈ runs, run.files.Pairwise (EndsBefore comparator)) :
    IsGreatest (Set.range (fun key => (filesOf runs).countP ((keyRanges comparator).covers key)))
      runs.length := by
  have atMost : ∀ key, (filesOf runs).countP ((keyRanges comparator).covers key) ≤ runs.length := by
    intro key
    have beforeRuns :
        ∀ run ∈ runs.map SortedRun.files, run.Pairwise (keyRanges comparator).Before := by
      intro run mem
      obtain ⟨sortedRun, isRun, rfl⟩ := mem_map.mp mem
      exact sorted sortedRun isRun
    have bound := Ranges.count_le_runs (.refl _) beforeRuns key
    rwa [length_map] at bound
  constructor
  · exact ⟨key, Nat.le_antisymm (atMost key) deep⟩
  · rintro _ ⟨other, rfl⟩
    exact atMost other

section
variable {files : List DataFileMeta} (spans : ∀ file ∈ files, Spans comparator file)

def members (comparator : FieldsComparator) (files : List DataFileMeta) :
    List (List DataFileMeta) :=
  sectionsFrom comparator [] [] (sortFiles comparator files)

theorem partition_eq : partition heap files =
    (members comparator files).map (partitionSection heap) := rfl

theorem members_flatten : (members comparator files).flatten = sortFiles comparator files :=
  sections_from_flatten [] [] _

theorem members_ascending : (members comparator files).Pairwise (fun earlier later =>
    ∀ left ∈ earlier, ∀ right ∈ later, EndsBefore comparator left right) :=
  sections_from_apart [] [] _ (fun _ mem => nomatch mem) (sort_files_ascending files)

variable {group : List DataFileMeta}

section
variable (isGroup : group ∈ members comparator files)
include isGroup

theorem members_apart {other : List DataFileMeta}
    (isOther : other ∈ members comparator files) (ne : group ≠ other) :
    ∀ left ∈ group, ∀ right ∈ other, ¬(keyRanges comparator).Meet left right := by
  have apart : (members comparator files).Pairwise (fun earlier later =>
      ∀ left ∈ earlier, ∀ right ∈ later, ¬(keyRanges comparator).Meet left right) :=
    members_ascending.imp (fun ordered left inLeft right inRight =>
      ends_before_not_meet (ordered left inLeft right inRight))
  have symmetric : Std.Symm (fun earlier later : List DataFileMeta =>
      ∀ left ∈ earlier, ∀ right ∈ later, ¬(keyRanges comparator).Meet left right) :=
    ⟨fun earlier later ordered left inLater right inEarlier meet =>
      ordered right inEarlier left inLater meet.symm⟩
  exact apart.forall isGroup isOther ne

theorem members_sorted : group.Pairwise (fun left right =>
      (comparator.compareTo left.minKey right.minKey).isLE = true) := by
  have ascending := @sort_files_ascending comparator files
  rw [← members_flatten] at ascending
  exact (pairwise_flatten.mp ascending).1 group isGroup

theorem mem_of_member {file : DataFileMeta} (inGroup : file ∈ group) : file ∈ files := by
  apply (@sort_files_perm comparator files).mem_iff.mp
  rw [← members_flatten]
  exact mem_flatten.mpr ⟨group, isGroup, inGroup⟩

end

theorem mem_runs_iff (group : List DataFileMeta) (file : DataFileMeta) :
    file ∈ filesOf (partitionSection heap group) ↔ file ∈ group :=
  (partition_section_files group).mem_iff

theorem partition_complete (files : List DataFileMeta) :
    ((partition heap files).flatMap filesOf).Perm files := by
  have regrouped : ((members comparator files).flatMap
      (fun group => filesOf (partitionSection heap group))).Perm
        (members comparator files).flatten := by
    rw [← flatMap_id]
    apply Perm.flatMap_left
    intro group _
    exact partition_section_files group
  rw [members_flatten] at regrouped
  rw [partition_eq, flatMap_map]
  exact regrouped.trans (sort_files_perm files)

theorem partition_ascending (files : List DataFileMeta) :
    (partition heap files).Pairwise (fun earlier later =>
      ∀ left ∈ filesOf earlier, ∀ right ∈ filesOf later, EndsBefore comparator left right) := by
  rw [partition_eq, pairwise_map]
  apply members_ascending.imp
  intro earlier later ordered left inEarlier right inLater
  exact ordered left ((mem_runs_iff earlier left).mp inEarlier)
    right ((mem_runs_iff later right).mp inLater)
include spans

theorem sorted_spans : ∀ file ∈ sortFiles comparator files, Spans comparator file :=
  fun file mem => spans file ((sort_files_perm files).mem_iff.mp mem)

theorem members_connected :
    ∀ group ∈ members comparator files, (keyRanges comparator).Connected group :=
  sections_from_connected [] [] _ ⟨fun _ mem => absurd mem not_mem_nil, .inl ⟨rfl, rfl⟩⟩
    (sorted_spans spans) (sort_files_ascending files)

theorem member_spans (isGroup : group ∈ members comparator files) :
    ∀ file ∈ group, Spans comparator file :=
  fun file inGroup => spans file (mem_of_member isGroup inGroup)

theorem member_iff_linked (isGroup : group ∈ members comparator files) {left : DataFileMeta}
    (inGroup : left ∈ group) (right : DataFileMeta) :
    right ∈ group ↔ (keyRanges comparator).Linked files left right := by
  constructor
  · intro inSame
    have included : group ⊆ files := fun file mem => mem_of_member isGroup mem
    exact ((members_connected spans group isGroup) left inGroup right inSame).mono included
  · apply Ranges.Linked.stays _ inGroup
    intro inside insideGroup other inFiles meet
    have inSorted : other ∈ (members comparator files).flatten := by
      rw [members_flatten]
      exact (sort_files_perm files).mem_iff.mpr inFiles
    obtain ⟨home, isHome, inHome⟩ := mem_flatten.mp inSorted
    by_contra outside
    have ne : group ≠ home := by
      intro same
      exact outside (same ▸ inHome)
    exact members_apart isGroup isHome ne inside insideGroup other inHome meet

/-- `Partition` keeps every file, cuts wherever a cut is possible, and opens no run that the
overlaps do not force. -/
theorem partition_well_partitioned : WellPartitioned comparator files (partition heap files) where
  complete := partition_complete files
  ascending := partition_ascending files
  occupied := by
    intro runs isSection
    obtain ⟨group, isGroup, rfl⟩ := mem_map.mp isSection
    refine ⟨?_, partition_section_occupied group⟩
    intro empty
    have noFiles := @partition_section_files comparator heap group
    rw [empty] at noFiles
    exact sections_from_nonempty _ _ _ group isGroup noFiles.nil_eq.symm
  sorted := by
    intro runs isSection
    obtain ⟨group, isGroup, rfl⟩ := mem_map.mp isSection
    exact partition_section_valid (member_spans spans isGroup)
  component := by
    intro runs isSection left inLeft right
    obtain ⟨group, isGroup, rfl⟩ := mem_map.mp isSection
    rw [mem_runs_iff group right]
    exact member_iff_linked spans isGroup ((mem_runs_iff group left).mp inLeft) right
  deepest := by
    intro runs isSection
    obtain ⟨group, isGroup, rfl⟩ := mem_map.mp isSection
    have groupSpans := member_spans spans isGroup
    obtain ⟨key, deep⟩ := partition_section_deep groupSpans (members_sorted isGroup)
    exact deepest_of_deep deep (partition_section_valid groupSpans)
  fewest := by
    intro runs isSection others same ordered
    obtain ⟨group, isGroup, rfl⟩ := mem_map.mp isSection
    obtain ⟨key, deep⟩ :=
      partition_section_deep (member_spans spans isGroup) (members_sorted isGroup)
    have beforeRuns : ∀ run ∈ others, run.Pairwise (keyRanges comparator).Before := ordered
    exact deep.trans (Ranges.count_le_runs same beforeRuns key)

end

def integerKeys : FieldsComparator where
  isAscendingOrder := true
  sortFields := [⟨0, Comparators.along getInteger compare, get_integer_lawful⟩]

def spanning (fileName : String) (first last : Int) : DataFileMeta where
  fileName
  minKey := [some (.integer first)]
  maxKey := [some (.integer last)]

def overlapping : List DataFileMeta :=
  [spanning "touching" 9 9, spanning "wide" 1 5, spanning "nested" 2 3, spanning "after" 4 4,
    spanning "apart" 7 9]

theorem overlapping_well_partitioned :
    ((partition (.inserted integerKeys) overlapping).map (fun runs =>
      runs.map (fun run => run.files.map DataFileMeta.fileName))) =
        [[["nested", "after"], ["wide"]], [["apart"], ["touching"]]] ∧
      WellPartitioned integerKeys overlapping (partition (.inserted integerKeys) overlapping) :=
  ⟨by decide, partition_well_partitioned (by decide)⟩

end PaimonCore.MergeTree.IntervalPartition
