import PaimonCore.Commit.RowTracking
import PaimonCore.Common.Range
import PaimonCore.Library.Programs
import PaimonCore.Library.Sweep

/-!
# Providers of the fields of a merge group

A merge group has normal files with all rows of a range, vector-store files that rewrite some
fields of some rows, and blob files. `PlanVectorReadRanges` sweeps over the ends of the vector-
store files and gives every range the files that provide its fields, newest first.
-/

namespace PaimonCore.VectorRead

open Manifest Programs PaimonCore.Ranges RowTracking Sweep List

abbrev SchemaFields := List (String × Int)

structure Schemas where
  tableSchemaId : Int
  tableFields : SchemaFields
  readSchema : Int → Except String SchemaFields
  isSystemField : String → Bool

def getField (fields : SchemaFields) (name : String) : Except String Int :=
  match fields.lookup name with
  | some id => .ok id
  | none => .error ("Get field " ++ name ++ " failed: not exist in table schema")

/-- `file_to_field_ids`: the ids of the fields that a file was written with. -/
def fileToFieldIds (schemas : Schemas) (file : DataFileMeta) : Except String (List Int) :=
  if isVectorStoreFile file.fileName ∧ file.writeCols = none then
    .error "VECTOR files must declare their write columns"
  else do
    let fields ←
      if file.schemaId = schemas.tableSchemaId then .ok schemas.tableFields
      else schemas.readSchema file.schemaId
    match file.writeCols with
    | none => .ok (fields.map Prod.snd)
    | some columns =>
      (columns.filter (fun name => !schemas.isSystemField name)).mapM (getField fields)

def writes (schemas : Schemas) (field : Int) (file : DataFileMeta) : Bool :=
  match fileToFieldIds schemas file with
  | .ok ids => decide (field ∈ ids)
  | .error _ => false

def nonNullFirstRowId (file : DataFileMeta) : Except String Int :=
  match file.firstRowId with
  | some first => .ok first
  | none => .error ("First row id of " ++ file.fileName ++ " should not be null.")

def maxRowId : Int := 9223372036854775807

def minRowId : Int := -9223372036854775808

/-- The first row id, checked as both planners check it. -/
def checkedFirstRowId (file : DataFileMeta) : Except String Int := do
  let first ← nonNullFirstRowId file
  if first < 0 ∨ file.rowCount = 0 ∨ maxRowId - file.rowCount < first then
    .error "Invalid row id range in VECTOR merge group"
  else .ok first

structure Candidate where
  file : DataFileMeta
  fieldIds : List Int

structure Gathered where
  candidates : List Candidate := []
  otherFiles : List DataFileMeta := []
  boundaries : Boundaries := []
  logicalRange : Option (Int × Int) := none
  firstRowId : Int := maxRowId
  endRowId : Int := minRowId

def gatherFile (schemas : Schemas) (readFieldIds : List Int) (vectorOnly : Bool)
    (gathered : Gathered) (file : DataFileMeta) : Except String Gathered := do
  let first ← checkedFirstRowId file
  let stop := first + file.rowCount
  let gathered := { gathered with
    firstRowId := min gathered.firstRowId first
    endRowId := max gathered.endRowId stop }
  if !isVectorStoreFile file.fileName then
    .ok { gathered with
      otherFiles := gathered.otherFiles ++ [file]
      logicalRange := if isNormalFile file then some (first, stop - 1) else gathered.logicalRange }
  else
    let ids ← fileToFieldIds schemas file
    let read := ids.filter (fun id => decide (id ∈ readFieldIds))
    if read ≠ [] ∨ vectorOnly = true then
      let index := gathered.candidates.length
      .ok { gathered with
        candidates := gathered.candidates ++ [⟨file, read⟩]
        boundaries := push stop index (push first index gathered.boundaries) }
    else .ok gathered

instance : Inhabited Candidate := ⟨⟨{ fileName := "" }, []⟩⟩

/-- The order of the active candidates: the newest first, then by name and index. -/
def newestFirst (candidates : List Candidate) (left right : Nat) : Bool :=
  let lhs := (candidates.getD left default).file
  let rhs := (candidates.getD right default).file
  if lhs.maxSequenceNumber ≠ rhs.maxSequenceNumber then
    decide (rhs.maxSequenceNumber < lhs.maxSequenceNumber)
  else if lhs.fileName ≠ rhs.fileName then decide (lhs.fileName < rhs.fileName)
  else decide (left < right)

/-- The active candidates that have a field which no candidate before them has. -/
def newProviders : List Candidate → List Int → List DataFileMeta
  | [], _ => []
  | candidate :: rest, assigned =>
    let later := newProviders rest (assigned ++ candidate.fieldIds)
    if candidate.fieldIds.any (fun id => decide (id ∉ assigned)) then candidate.file :: later
    else later

/-- Whether a provider comes before another: blob files are last. -/
def providerLess (lhs rhs : DataFileMeta) : Bool :=
  if isBlobFile lhs.fileName ≠ isBlobFile rhs.fileName then !isBlobFile lhs.fileName
  else !isBlobFile lhs.fileName && decide (rhs.maxSequenceNumber < lhs.maxSequenceNumber)

def activeCandidates (gathered : Gathered) (active : List Nat) : List Candidate :=
  active.filterMap (fun index => gathered.candidates[index]?)

/-- Before they are sorted; vector-store files alone keep one for the number of rows. -/
def unsortedProviders (gathered : Gathered) (vectorOnly : Bool) (active : List Nat) :
    List DataFileMeta :=
  let candidates := activeCandidates gathered active
  let providers := gathered.otherFiles ++ newProviders candidates []
  if providers.isEmpty && vectorOnly then (candidates.head?.map Candidate.file).toList
  else providers

def providersOf (gathered : Gathered) (vectorOnly : Bool) (active : List Nat) : List DataFileMeta :=
  (unsortedProviders gathered vectorOnly active).insertionSort (fun lhs rhs =>
    providerLess rhs lhs = false)

structure VectorReadRange where
  range : Range
  files : List DataFileMeta

/-- A range is joined to the last one if that ends right before it with the same files. -/
def appendRange (ranges : List VectorReadRange) (next : VectorReadRange) : List VectorReadRange :=
  match ranges.getLast? with
  | none => [next]
  | some last =>
    if joined : last.range.last + 1 = next.range.first ∧ last.files = next.files then
      ranges.dropLast ++ [⟨⟨last.range.first, next.range.last, by
        have := last.range.ordered
        have := next.range.ordered
        omega⟩, last.files⟩]
    else ranges ++ [next]

structure SweepState where
  start : Int
  active : List Nat := []
  ranges : List VectorReadRange := []

/-- One boundary: the rows since the one before, then the events. -/
def sweepBoundary (gathered : Gathered) (vectorOnly : Bool) (logical : Int × Int)
    (state : SweepState) (boundary : Int × List Nat) : SweepState where
  start := boundary.1
  active := boundary.2.foldl (toggle (newestFirst gathered.candidates)) state.active
  ranges :=
    if ordered : max state.start logical.1 ≤ min (boundary.1 - 1) logical.2 then
      appendRange state.ranges
        ⟨⟨max state.start logical.1, min (boundary.1 - 1) logical.2, ordered⟩,
          providersOf gathered vectorOnly state.active⟩
    else state.ranges

/-- The range of the normal files, or all rows between the ends. -/
def logicalEnds (gathered : Gathered) : Int × Int :=
  gathered.logicalRange.getD (gathered.firstRowId, gathered.endRowId - 1)

def allBoundaries (gathered : Gathered) : Boundaries :=
  touch ((logicalEnds gathered).2 + 1) (touch (logicalEnds gathered).1 gathered.boundaries)

def firstKey (boundaries : Boundaries) : Int := ((keys boundaries).head?).getD 0

def sweepState (gathered : Gathered) (vectorOnly : Bool) : SweepState :=
  (allBoundaries gathered).foldl (sweepBoundary gathered vectorOnly (logicalEnds gathered))
    { start := firstKey (allBoundaries gathered) }

def isVectorOnly (files : List DataFileMeta) : Bool :=
  files.all (fun file => isVectorStoreFile file.fileName)

def planVectorReadRanges (schemas : Schemas) (files : List DataFileMeta) (readFieldIds : List Int) :
    Except String (List VectorReadRange) := do
  let gathered ← files.foldlM (gatherFile schemas readFieldIds (isVectorOnly files)) {}
  if files.isEmpty then .ok []
  else .ok (sweepState gathered (isVectorOnly files)).ranges

def firstOf (file : DataFileMeta) : Int := file.firstRowId.getD 0

def stopOf (file : DataFileMeta) : Int := firstOf file + file.rowCount

def CoversRow (file : DataFileMeta) (id : Int) : Prop := firstOf file ≤ id ∧ id < stopOf file

instance CoversRow.decidable (file : DataFileMeta) (id : Int) : Decidable (CoversRow file id) :=
  inferInstanceAs (Decidable (firstOf file ≤ id ∧ id < stopOf file))

def isDataFile (file : DataFileMeta) : Bool := isNormalFile file || isVectorStoreFile file.fileName

def interval (candidate : Candidate) : Interval := (firstOf candidate.file, stopOf candidate.file)

structure Checked (file : DataFileMeta) : Prop where
  present : file.firstRowId = some (firstOf file)
  proper : firstOf file < stopOf file
  small : firstOf file ≤ maxRowId
  large : minRowId ≤ stopOf file

variable {file : DataFileMeta}

theorem checked_first_ok {first : Int} (checked : checkedFirstRowId file = .ok first) :
    first = firstOf file ∧ Checked file := by
  rw [checkedFirstRowId, nonNullFirstRowId] at checked
  cases found : file.firstRowId with
  | none =>
    rw [found] at checked
    cases checked
  | some id =>
    rw [found] at checked
    obtain ⟨value, same, rest⟩ := bind_eq_ok.mp checked
    cases same
    split at rest
    · cases rest
    · next valid =>
        cases rest
        have isFirst : firstOf file = first := by simp [firstOf, found]
        refine ⟨isFirst.symm, ?_⟩
        simp only [maxRowId, not_or, not_lt] at valid
        constructor
        · rw [isFirst, found]
        · simp only [stopOf]
          omega
        · simp only [isFirst, maxRowId]
          omega
        · simp only [stopOf, isFirst, minRowId]
          omega

structure Bounds (seen : List DataFileMeta) (firstRowId endRowId : Int) : Prop where
  least : ∀ file ∈ seen, firstRowId ≤ firstOf file
  greatest : ∀ file ∈ seen, stopOf file ≤ endRowId
  attained : (seen = [] ∧ firstRowId = maxRowId ∧ endRowId = minRowId) ∨
    ((∃ file ∈ seen, firstOf file = firstRowId) ∧ ∃ file ∈ seen, stopOf file = endRowId)

theorem Bounds.step {seen : List DataFileMeta} {firstRowId endRowId : Int} {file : DataFileMeta}
    (bounds : Bounds seen firstRowId endRowId) (checked : Checked file) :
    Bounds (seen ++ [file]) (min firstRowId (firstOf file)) (max endRowId (stopOf file)) where
  least := by
    rw [forall_mem_append, forall_mem_singleton]
    exact ⟨fun other mem => (min_le_left _ _).trans (bounds.least other mem), min_le_right _ _⟩
  greatest := by
    rw [forall_mem_append, forall_mem_singleton]
    exact ⟨fun other mem => (bounds.greatest other mem).trans (le_max_left _ _), le_max_right _ _⟩
  attained := by
    have small := checked.small
    have large := checked.large
    right
    rcases bounds.attained with ⟨rfl, rfl, rfl⟩ | ⟨⟨low, lowIn, isLow⟩, high, highIn, isHigh⟩
    · exact ⟨⟨file, by simp, by omega⟩, file, by simp, by omega⟩
    · constructor
      · by_cases smaller : firstOf file ≤ firstRowId
        · exact ⟨file, by simp, by omega⟩
        · exact ⟨low, by simp [lowIn], by omega⟩
      · by_cases larger : endRowId ≤ stopOf file
        · exact ⟨file, by simp, by omega⟩
        · exact ⟨high, by simp [highIn], by omega⟩

structure Collected (schemas : Schemas) (readFieldIds : List Int) (seen : List DataFileMeta)
    (gathered : Gathered) : Prop where
  checked : ∀ file ∈ seen, Checked file
  marks : Marks gathered.boundaries (gathered.candidates.map interval)
  candidates : ∀ candidate ∈ gathered.candidates,
    candidate.file ∈ seen ∧ isVectorStoreFile candidate.file.fileName = true ∧
      ∃ ids, fileToFieldIds schemas candidate.file = .ok ids ∧
        candidate.fieldIds = ids.filter (fun id => decide (id ∈ readFieldIds))
  vectors : ∀ file ∈ seen, isVectorStoreFile file.fileName = true →
    ∀ field ∈ readFieldIds, writes schemas field file = true →
      ∃ candidate ∈ gathered.candidates, candidate.file = file ∧ field ∈ candidate.fieldIds
  others : gathered.otherFiles = seen.filter (fun file => !isVectorStoreFile file.fileName)
  noLogical : gathered.logicalRange = none → ∀ file ∈ seen, isNormalFile file = false
  logical : ∀ range, gathered.logicalRange = some range →
    ∃ file ∈ seen, isNormalFile file = true ∧ range = (firstOf file, stopOf file - 1)
  bounds : Bounds seen gathered.firstRowId gathered.endRowId

theorem collected_nil (schemas : Schemas) (readFieldIds : List Int) :
    Collected schemas readFieldIds [] {} where
  checked := by simp
  marks := marks_nil
  candidates := by simp
  vectors := by simp
  others := rfl
  noLogical := by simp
  logical := by simp
  bounds := ⟨by simp, by simp, .inl ⟨rfl, rfl, rfl⟩⟩

variable {schemas : Schemas} {readFieldIds : List Int} {files seen : List DataFileMeta}
  {gathered : Gathered} {vectorOnly : Bool}

theorem checked_step (collected : Collected schemas readFieldIds seen gathered)
    (checked : Checked file) : ∀ other ∈ seen ++ [file], Checked other := by
  rw [forall_mem_append, forall_mem_singleton]
  exact ⟨collected.checked, checked⟩

theorem collect_other (collected : Collected schemas readFieldIds seen gathered)
    (checked : Checked file) (notVector : isVectorStoreFile file.fileName = false) :
    Collected schemas readFieldIds (seen ++ [file])
      { gathered with
        firstRowId := min gathered.firstRowId (firstOf file)
        endRowId := max gathered.endRowId (stopOf file)
        otherFiles := gathered.otherFiles ++ [file]
        logicalRange :=
          if isNormalFile file then some (firstOf file, stopOf file - 1)
          else gathered.logicalRange } where
  checked := checked_step collected checked
  marks := collected.marks
  candidates := by
    intro candidate mem
    obtain ⟨isSeen, rest⟩ := collected.candidates candidate mem
    exact ⟨mem_append_left _ isSeen, rest⟩
  vectors := by
    rw [forall_mem_append, forall_mem_singleton, notVector]
    exact ⟨collected.vectors, fun isVector => by cases isVector⟩
  others := by
    rw [filter_append, ← collected.others]
    simp [notVector]
  noLogical := by
    intro none
    split at none
    · cases none
    · next notNormal =>
        rw [forall_mem_append]
        exact ⟨collected.noLogical none, by simpa using notNormal⟩
  logical := by
    intro range found
    split at found
    · next normal =>
        cases found
        exact ⟨file, by simp, normal, rfl⟩
    · obtain ⟨other, mem, rest⟩ := collected.logical range found
      exact ⟨other, mem_append_left _ mem, rest⟩
  bounds := collected.bounds.step checked

theorem vector_not_normal (isVector : isVectorStoreFile file.fileName = true) :
    isNormalFile file = false := by
  simp [isNormalFile, isVector]

section
variable (collected : Collected schemas readFieldIds seen gathered)
include collected

theorem collect_vector
    (checked : Checked file) (isVector : isVectorStoreFile file.fileName = true) {ids : List Int}
    (fields : fileToFieldIds schemas file = .ok ids) {added : List Candidate}
    {boundaries : Boundaries}
    (marks : Marks boundaries ((gathered.candidates ++ added).map interval))
    (isAdded : ∀ candidate ∈ added, candidate =
      ⟨file, ids.filter (fun id => decide (id ∈ readFieldIds))⟩)
    (read : ids.filter (fun id => decide (id ∈ readFieldIds)) ≠ [] → added ≠ []) :
    Collected schemas readFieldIds (seen ++ [file])
      { gathered with
        firstRowId := min gathered.firstRowId (firstOf file)
        endRowId := max gathered.endRowId (stopOf file)
        candidates := gathered.candidates ++ added
        boundaries := boundaries } where
  checked := checked_step collected checked
  marks := marks
  candidates := by
    intro candidate mem
    rcases mem_append.mp mem with mem | mem
    · obtain ⟨isSeen, rest⟩ := collected.candidates candidate mem
      exact ⟨mem_append_left _ isSeen, rest⟩
    · rw [isAdded candidate mem]
      exact ⟨by simp, isVector, ids, fields, rfl⟩
  vectors := by
    rw [forall_mem_append, forall_mem_singleton]
    constructor
    · intro other mem otherVector field isRead written
      obtain ⟨candidate, found, rest⟩ :=
        collected.vectors other mem otherVector field isRead written
      exact ⟨candidate, mem_append_left _ found, rest⟩
    · intro _ field isRead written
      rw [writes, fields] at written
      have kept : field ∈ ids.filter (fun id => decide (id ∈ readFieldIds)) := by
        simpa [isRead] using written
      obtain ⟨candidate, mem⟩ := exists_mem_of_ne_nil _ (read (ne_nil_of_mem kept))
      refine ⟨candidate, mem_append_right _ mem, ?_⟩
      rw [isAdded candidate mem]
      exact ⟨rfl, kept⟩
  others := by
    rw [filter_append, ← collected.others]
    simp [isVector]
  noLogical := by
    intro none
    rw [forall_mem_append, forall_mem_singleton]
    exact ⟨collected.noLogical none, vector_not_normal isVector⟩
  logical := by
    intro range found
    obtain ⟨other, mem, rest⟩ := collected.logical range found
    exact ⟨other, mem_append_left _ mem, rest⟩
  bounds := collected.bounds.step checked

theorem collect_step {vectorOnly : Bool} {after : Gathered}
    (step : gatherFile schemas readFieldIds vectorOnly gathered file = .ok after) :
    Collected schemas readFieldIds (seen ++ [file]) after := by
  obtain ⟨first, isChecked, rest⟩ := bind_eq_ok.mp step
  obtain ⟨rfl, checked⟩ := checked_first_ok isChecked
  dsimp only at rest
  split at rest
  · next notVector =>
      cases rest
      exact collect_other collected checked (by simpa using notVector)
  · next isVector =>
      have vector : isVectorStoreFile file.fileName = true := by simpa using isVector
      obtain ⟨ids, fields, last⟩ := bind_eq_ok.mp rest
      split at last
      · cases last
        have marked := collected.marks.push (show (interval ⟨file, ids.filter
          (fun id => decide (id ∈ readFieldIds))⟩).1 < _ from checked.proper)
        rw [length_map, ← map_singleton, ← map_append] at marked
        exact collect_vector collected checked vector fields marked (by simp) (by simp)
      · next unread =>
          cases last
          rw [not_or, not_not] at unread
          have marked : Marks gathered.boundaries ((gathered.candidates ++ []).map interval) := by
            simpa using collected.marks
          have kept :=
            collect_vector collected checked vector fields marked (by simp) (absurd unread.1)
          rwa [append_nil] at kept

end

theorem gather_collects {after : Gathered}
    (collected : Collected schemas readFieldIds seen gathered)
    (loop : files.foldlM (gatherFile schemas readFieldIds vectorOnly) gathered = .ok after) :
    Collected schemas readFieldIds (seen ++ files) after := by
  induction files generalizing seen gathered with
  | nil =>
    cases loop
    simpa using collected
  | cons file rest ih =>
    obtain ⟨next, step, later⟩ := bind_eq_ok.mp loop
    have done := ih (collect_step collected step) later
    rwa [append_assoc] at done

/-- What the provider list of a row has to say about the files that have the row. -/
structure PicksNewest (schemas : Schemas) (files : List DataFileMeta) (readFieldIds : List Int)
    (id : Int) (providers : List DataFileMeta) : Prop where
  /-- The first file that writes a field is a newest one of those that have the row. -/
  newest : ∀ field ∈ readFieldIds,
    (∃ file ∈ files, isDataFile file = true ∧ CoversRow file id ∧
      writes schemas field file = true) →
      ∃ file, providers.find? (writes schemas field) = some file ∧ file ∈ files ∧
        isDataFile file = true ∧ CoversRow file id ∧ writes schemas field file = true ∧
        ∀ other ∈ files, isDataFile other = true → CoversRow other id →
          writes schemas field other = true → other.maxSequenceNumber ≤ file.maxSequenceNumber
  members : ∀ file ∈ providers, file ∈ files
  covering : ∀ file ∈ providers, isBlobFile file.fileName = false → CoversRow file id

theorem new_providers_mem {candidates : List Candidate} {assigned : List Int}
    (mem : file ∈ newProviders candidates assigned) :
    ∃ candidate ∈ candidates, candidate.file = file := by
  induction candidates generalizing assigned with
  | nil => cases mem
  | cons candidate rest ih =>
    have later : file ∈ newProviders rest (assigned ++ candidate.fieldIds) →
        ∃ other ∈ candidate :: rest, other.file = file := by
      intro found
      obtain ⟨other, isIn, same⟩ := ih found
      exact ⟨other, mem_cons_of_mem candidate isIn, same⟩
    rw [newProviders] at mem
    split at mem
    · rcases mem_cons.mp mem with rfl | mem
      · exact ⟨candidate, mem_cons_self, rfl⟩
      · exact later mem
    · exact later mem

theorem new_providers_newest {candidates : List Candidate} {assigned : List Int}
    (descending : candidates.Pairwise (fun left right =>
      right.file.maxSequenceNumber ≤ left.file.maxSequenceNumber))
    {candidate : Candidate} (mem : candidate ∈ candidates) {field : Int}
    (has : field ∈ candidate.fieldIds) (unassigned : field ∉ assigned) :
    ∃ provider ∈ candidates, provider.file ∈ newProviders candidates assigned ∧
      field ∈ provider.fieldIds ∧
      candidate.file.maxSequenceNumber ≤ provider.file.maxSequenceNumber := by
  induction candidates generalizing assigned with
  | nil => cases mem
  | cons first rest ih =>
    obtain ⟨above, restDescending⟩ := pairwise_cons.mp descending
    rw [newProviders]
    by_cases firstHas : field ∈ first.fieldIds
    · refine ⟨first, mem_cons_self, ?_, firstHas, ?_⟩
      · rw [if_pos (any_eq_true.mpr ⟨field, firstHas, by simpa using unassigned⟩)]
        exact mem_cons_self
      · rcases mem_cons.mp mem with rfl | mem
        · exact le_refl _
        · exact above candidate mem
    · have inRest : candidate ∈ rest := by
        rcases mem_cons.mp mem with rfl | mem
        · exact absurd has firstHas
        · exact mem
      obtain ⟨provider, isIn, provides, fields, newer⟩ := @ih (assigned ++ first.fieldIds)
        restDescending inRest (by simp [unassigned, firstHas])
      refine ⟨provider, mem_cons_of_mem first isIn, ?_, fields, newer⟩
      split
      · exact mem_cons_of_mem _ provides
      · exact provides

theorem provider_order_iff (lhs rhs : DataFileMeta) : providerLess rhs lhs = false ↔
      (isBlobFile rhs.fileName = false → isBlobFile lhs.fileName = false ∧
        rhs.maxSequenceNumber ≤ lhs.maxSequenceNumber) := by
  rw [providerLess]
  cases isBlobFile lhs.fileName <;> cases isBlobFile rhs.fileName <;> simp

instance provider_order_total :
    Std.Total (fun lhs rhs : DataFileMeta => providerLess rhs lhs = false) where
  total lhs rhs := by
    rw [provider_order_iff, provider_order_iff]
    cases isBlobFile lhs.fileName <;> cases isBlobFile rhs.fileName <;> simp
    exact le_total _ _

instance provider_order_trans :
    IsTrans DataFileMeta (fun lhs rhs => providerLess rhs lhs = false) where
  trans first second third := by
    rw [provider_order_iff, provider_order_iff, provider_order_iff]
    intro firstSecond secondThird isData
    obtain ⟨secondData, secondNewer⟩ := secondThird isData
    obtain ⟨firstData, firstNewer⟩ := firstSecond secondData
    exact ⟨firstData, secondNewer.trans firstNewer⟩

theorem find_first {Item : Type} {related : Item → Item → Prop} {items : List Item}
    (sorted : items.Pairwise related) {test : Item → Bool} {found : Item}
    (isFound : items.find? test = some found) {other : Item} (mem : other ∈ items)
    (passes : test other = true) : other = found ∨ related found other := by
  induction items with
  | nil => cases mem
  | cons first rest ih =>
    obtain ⟨firstRelated, restSorted⟩ := pairwise_cons.mp sorted
    rw [find?_cons] at isFound
    cases firstPasses : test first with
    | true =>
      rw [firstPasses] at isFound
      cases isFound
      rcases mem_cons.mp mem with rfl | mem
      · exact .inl rfl
      · exact .inr (firstRelated other mem)
    | false =>
      rw [firstPasses] at isFound
      rcases mem_cons.mp mem with rfl | mem
      · rw [firstPasses] at passes
        cases passes
      · exact ih restSorted isFound mem

/-- The rank that the order of the active candidates goes down along. -/
def sequenceRank (candidates : List Candidate) (index : Nat) : Int :=
  (candidates.getD index default).file.maxSequenceNumber

theorem newest_first_below (candidates : List Candidate) (left right : Nat)
    (less : newestFirst candidates left right = true) :
    sequenceRank candidates right ≤ sequenceRank candidates left := by
  rw [newestFirst] at less
  rw [sequenceRank, sequenceRank]
  split at less
  · have := of_decide_eq_true less
    omega
  · next same =>
      omega

theorem newest_first_above (candidates : List Candidate) (left right : Nat)
    (less : newestFirst candidates left right = false) :
    sequenceRank candidates left ≤ sequenceRank candidates right := by
  rw [newestFirst] at less
  rw [sequenceRank, sequenceRank]
  split at less
  · have := of_decide_eq_false less
    omega
  · next same =>
      omega

variable {active : List Nat}

theorem active_candidates_descending (descending : active.Pairwise (fun left right =>
      sequenceRank gathered.candidates right ≤ sequenceRank gathered.candidates left)) :
    (activeCandidates gathered active).Pairwise (fun left right =>
      right.file.maxSequenceNumber ≤ left.file.maxSequenceNumber) := by
  rw [activeCandidates, pairwise_filterMap]
  apply descending.imp
  intro left right below leftCandidate leftFound rightCandidate rightFound
  simpa [sequenceRank, getD_eq_getElem?_getD, leftFound, rightFound] using below

theorem mem_providers : file ∈ providersOf gathered vectorOnly active ↔
      file ∈ unsortedProviders gathered vectorOnly active :=
  (perm_insertionSort _ _).mem_iff

theorem unsorted_providers_mem (mem : file ∈ unsortedProviders gathered vectorOnly active) :
    file ∈ gathered.otherFiles ∨ ∃ candidate ∈ activeCandidates gathered active,
      candidate.file = file := by
  rw [unsortedProviders] at mem
  split at mem
  · right
    cases found : (activeCandidates gathered active).head? with
    | none => simp [found] at mem
    | some candidate =>
      refine ⟨candidate, mem_of_head? found, ?_⟩
      simpa [found, eq_comm] using mem
  · rcases mem_append.mp mem with other | new
    · exact .inl other
    · exact .inr (new_providers_mem new)

theorem mem_unsorted_providers
    (mem : file ∈ gathered.otherFiles ++ newProviders (activeCandidates gathered active) []) :
    file ∈ unsortedProviders gathered vectorOnly active := by
  rw [unsortedProviders, if_neg]
  · exact mem
  · intro none
    rw [Bool.and_eq_true, List.isEmpty_iff] at none
    rw [none.1] at mem
    cases mem

theorem data_file_not_blob (kinds : isVectorStoreFile file.fileName = true →
    isBlobFile file.fileName = false) :
    isDataFile file = true ↔ isBlobFile file.fileName = false := by
  rw [isDataFile, isNormalFile]
  cases vector : isVectorStoreFile file.fileName with
  | false => simp
  | true => simp [kinds vector]

section
variable {id : Int} (collected : Collected schemas readFieldIds files gathered)
  (activeIff : ∀ index, index ∈ active ↔ ∃ bounds,
    (gathered.candidates.map interval)[index]? = some bounds ∧ bounds.1 ≤ id ∧ id < bounds.2)
  (descending : active.Pairwise (fun left right =>
    sequenceRank gathered.candidates right ≤ sequenceRank gathered.candidates left))
include activeIff

theorem mem_active_candidates {candidate : Candidate} :
    candidate ∈ activeCandidates gathered active ↔
      candidate ∈ gathered.candidates ∧ CoversRow candidate.file id := by
  rw [activeCandidates, mem_filterMap]
  constructor
  · rintro ⟨index, isActive, found⟩
    obtain ⟨bounds, atIndex, contains⟩ := (activeIff index).mp isActive
    rw [getElem?_map, found] at atIndex
    cases atIndex
    exact ⟨mem_of_getElem? found, contains⟩
  · rintro ⟨mem, contains⟩
    obtain ⟨index, found⟩ := mem_iff_getElem?.mp mem
    refine ⟨index, (activeIff index).mpr ⟨interval candidate, ?_, contains⟩, found⟩
    rw [getElem?_map, found]
    rfl
include collected descending

/-- A provider at least as new as the vector-store file has the row and writes the field. -/
theorem vector_provided {file : DataFileMeta} (mem : file ∈ files)
    (isVector : isVectorStoreFile file.fileName = true) (covers : CoversRow file id)
    {field : Int} (read : field ∈ readFieldIds) (written : writes schemas field file = true) :
    ∃ provider ∈ newProviders (activeCandidates gathered active) [],
      writes schemas field provider = true ∧
        file.maxSequenceNumber ≤ provider.maxSequenceNumber := by
  obtain ⟨candidate, isCandidate, rfl, has⟩ :=
    collected.vectors file mem isVector field read written
  obtain ⟨provider, isActive, provides, fields, newer⟩ :=
    new_providers_newest (active_candidates_descending descending)
      ((mem_active_candidates activeIff).mpr ⟨isCandidate, covers⟩) has not_mem_nil
  obtain ⟨isIn, _⟩ := (mem_active_candidates activeIff).mp isActive
  obtain ⟨_, _, ids, known, same⟩ := collected.candidates provider isIn
  refine ⟨provider.file, provides, ?_, newer⟩
  rw [same, mem_filter] at fields
  rw [writes, known]
  exact decide_eq_true fields.1

theorem providers_pick_newest (kinds : ∀ file ∈ files, isVectorStoreFile file.fileName = true →
      isBlobFile file.fileName = false)
    (normalCovers : ∀ file ∈ files, isNormalFile file = true → CoversRow file id)
    (vectorOnly : Bool) :
    PicksNewest schemas files readFieldIds id (providersOf gathered vectorOnly active) := by
  have covering : ∀ file ∈ providersOf gathered vectorOnly active,
      file ∈ files ∧ (isBlobFile file.fileName = false → CoversRow file id) := by
    intro file mem
    rcases unsorted_providers_mem (mem_providers.mp mem) with other | ⟨candidate, isActive, rfl⟩
    · rw [collected.others, mem_filter] at other
      exact ⟨other.1, fun notBlob =>
        normalCovers file other.1 (by simpa [isNormalFile, notBlob] using other.2)⟩
    · obtain ⟨isIn, covers⟩ := (mem_active_candidates activeIff).mp isActive
      exact ⟨(collected.candidates candidate isIn).1, fun _ => covers⟩
  -- Every data file that has the row and writes the field is matched by a provider.
  have provided : ∀ field ∈ readFieldIds, ∀ file ∈ files, isDataFile file = true →
      CoversRow file id → writes schemas field file = true →
      ∃ provider ∈ providersOf gathered vectorOnly active, isBlobFile provider.fileName = false ∧
        writes schemas field provider = true ∧
        file.maxSequenceNumber ≤ provider.maxSequenceNumber := by
    intro field read file mem isData covers written
    have notBlob := (data_file_not_blob (kinds file mem)).mp isData
    cases isVector : isVectorStoreFile file.fileName with
    | false =>
      refine ⟨file, mem_providers.mpr (mem_unsorted_providers (mem_append_left _ ?_)), notBlob,
        written, le_refl _⟩
      rw [collected.others, mem_filter]
      exact ⟨mem, by simp [isVector]⟩
    | true =>
      obtain ⟨provider, isNew, providerWrites, newer⟩ :=
        vector_provided collected activeIff descending mem isVector covers read written
      refine ⟨provider, mem_providers.mpr (mem_unsorted_providers (mem_append_right _ isNew)),
        ?_, providerWrites, newer⟩
      obtain ⟨candidate, isActive, rfl⟩ := new_providers_mem isNew
      obtain ⟨isIn, _⟩ := (mem_active_candidates activeIff).mp isActive
      obtain ⟨isFile, vector, _⟩ := collected.candidates candidate isIn
      exact kinds candidate.file isFile vector
  refine ⟨?_, fun file mem => (covering file mem).1, fun file mem => (covering file mem).2⟩
  rintro field read ⟨file, mem, isData, covers, written⟩
  obtain ⟨provider, isProvider, providerData, providerWrites, _⟩ :=
    provided field read file mem isData covers written
  obtain ⟨found, isFound⟩ : ∃ found,
      (providersOf gathered vectorOnly active).find? (writes schemas field) = some found := by
    rw [← Option.isSome_iff_exists, find?_isSome]
    exact ⟨provider, isProvider, providerWrites⟩
  have sorted := pairwise_insertionSort (fun lhs rhs => providerLess rhs lhs = false)
    (unsortedProviders gathered vectorOnly active)
  have before : ∀ other ∈ providersOf gathered vectorOnly active,
      isBlobFile other.fileName = false → writes schemas field other = true →
      isBlobFile found.fileName = false ∧ other.maxSequenceNumber ≤ found.maxSequenceNumber := by
    intro other isIn otherData otherWrites
    rcases find_first sorted isFound isIn otherWrites with rfl | related
    · exact ⟨otherData, le_refl _⟩
    · exact (provider_order_iff found other).mp related otherData
  have foundData := (before provider isProvider providerData providerWrites).1
  obtain ⟨foundIn, foundCovers⟩ := covering found (mem_of_find?_eq_some isFound)
  refine ⟨found, isFound, foundIn, (data_file_not_blob (kinds found foundIn)).mpr foundData,
    foundCovers foundData, find?_some isFound, ?_⟩
  intro other otherIn otherData otherCovers otherWrites
  obtain ⟨newer, isNewer, newerData, newerWrites, above⟩ :=
    provided field read other otherIn otherData otherCovers otherWrites
  exact above.trans (before newer isNewer newerData newerWrites).2

end

/-- Every row is read from the files it was read from before, or from those of the new range. -/
theorem append_range_spec {ranges : List VectorReadRange} {next : VectorReadRange}
    (ascending : Ranges.Ascending (ranges.map VectorReadRange.range))
    (earlier : ∀ entry ∈ ranges, entry.range.last < next.range.first) :
    Ranges.Ascending ((appendRange ranges next).map VectorReadRange.range) ∧
      (∀ id, Covers ((appendRange ranges next).map VectorReadRange.range) id ↔
        Covers (ranges.map VectorReadRange.range) id ∨ id ∈ next.range) ∧
      ∀ entry ∈ appendRange ranges next, ∀ id ∈ entry.range,
        (∃ old ∈ ranges, id ∈ old.range ∧ entry.files = old.files) ∨
          (id ∈ next.range ∧ entry.files = next.files) := by
  rw [appendRange]
  rcases eq_nil_or_concat ranges with rfl | ⟨init, last, same⟩
  · simp [Ranges.Ascending, covers_cons, covers_nil]
  · rw [concat_eq_append] at same
    subst same
    simp only [getLast?_append, getLast?_singleton, Option.some_or, dropLast_concat]
    split
    · next joined =>
        have lastOrdered := last.range.ordered
        have nextOrdered := next.range.ordered
        have joinedIff : ∀ id, last.range.first ≤ id ∧ id ≤ next.range.last ↔
            id ∈ last.range ∨ id ∈ next.range := by
          intro id
          rw [Range.mem_iff, Range.mem_iff]
          omega
        refine ⟨?_, ?_, ?_⟩
        · rw [Ranges.Ascending, map_append, pairwise_append] at ascending ⊢
          simpa using ascending
        · intro id
          simp only [map_append, covers_append, map_cons, map_nil, covers_cons,
            covers_nil, or_false]
          rw [Range.mem_iff, joinedIff, or_assoc]
        · intro entry mem id contains
          rcases mem_append.mp mem with mem | mem
          · exact .inl ⟨entry, mem_append_left _ mem, contains, rfl⟩
          · rw [mem_singleton.mp mem] at contains ⊢
            rcases (joinedIff id).mp (Range.mem_iff.mp contains) with isLast | isNext
            · exact .inl ⟨last, by simp, isLast, rfl⟩
            · exact .inr ⟨isNext, joined.2⟩
    · refine ⟨?_, ?_, ?_⟩
      · rw [Ranges.Ascending, map_append, pairwise_append]
        refine ⟨ascending, by simp, ?_⟩
        intro range isOld other isNew
        obtain ⟨entry, mem, rfl⟩ := mem_map.mp isOld
        have isNext : other = next.range := by simpa using isNew
        rw [isNext]
        exact earlier entry mem
      · intro id
        rw [map_append, covers_append]
        simp [covers_cons, covers_nil]
      · intro entry mem id contains
        rcases mem_append.mp mem with mem | mem
        · exact .inl ⟨entry, mem, contains, rfl⟩
        · rw [mem_singleton.mp mem] at contains ⊢
          exact .inr ⟨contains, rfl⟩

structure Swept (schemas : Schemas) (files : List DataFileMeta) (readFieldIds : List Int)
    (gathered : Gathered) (logical : Int × Int) (processed rest : Boundaries)
    (state : SweepState) : Prop where
  reached : ∀ key ∈ keys processed, key ≤ state.start
  ahead : ∀ key ∈ keys rest, state.start ≤ key
  active : ActiveAfter processed (gathered.candidates.map interval) state.active
  descending : state.active.Pairwise (fun left right =>
    sequenceRank gathered.candidates right ≤ sequenceRank gathered.candidates left)
  ascending : Ranges.Ascending (state.ranges.map VectorReadRange.range)
  covers : ∀ id, Covers (state.ranges.map VectorReadRange.range) id ↔
    logical.1 ≤ id ∧ id ≤ logical.2 ∧ id < state.start
  picks : ∀ entry ∈ state.ranges, ∀ id ∈ entry.range,
    PicksNewest schemas files readFieldIds id entry.files

section
variable {logical : Int × Int} {boundaries processed rest : Boundaries} {state : SweepState}
  (collected : Collected schemas readFieldIds files gathered)
  (kinds : ∀ file ∈ files, isVectorStoreFile file.fileName = true →
    isBlobFile file.fileName = false)
  (normalCovers : ∀ id, logical.1 ≤ id → id ≤ logical.2 →
    ∀ file ∈ files, isNormalFile file = true → CoversRow file id)
  (marks : Marks boundaries (gathered.candidates.map interval))
include collected kinds normalCovers marks

theorem sweep_step {boundary : Int × List Nat} (split : boundaries = processed ++ boundary :: rest)
    (swept : Swept schemas files readFieldIds gathered logical processed (boundary :: rest) state) :
    Swept schemas files readFieldIds gathered logical (processed ++ [boundary]) rest
      (sweepBoundary gathered vectorOnly logical state boundary) := by
  have notBefore : state.start ≤ boundary.1 := swept.ahead boundary.1 (by simp [Sweep.keys])
  have laterKeys : ∀ key ∈ keys rest, boundary.1 < key := by
    have ascending := marks.ascending
    rw [Sweep.Ascending, split, Sweep.keys_append, pairwise_append] at ascending
    exact (pairwise_cons.mp ascending.2.1).1
  -- The rows since the boundary before, with their providers.
  have between : ∀ id, state.start ≤ id → id < boundary.1 → logical.1 ≤ id → id ≤ logical.2 →
      PicksNewest schemas files readFieldIds id (providersOf gathered vectorOnly state.active) := by
    intro id after before lower upper
    apply providers_pick_newest collected _ swept.descending kinds (normalCovers id lower upper)
    exact swept.active.between marks split (fun key isKey => (swept.reached key isKey).trans after)
      before
  have ranged :
      Ranges.Ascending ((sweepBoundary gathered vectorOnly logical state boundary).ranges.map
        VectorReadRange.range) ∧
      (∀ id, Covers ((sweepBoundary gathered vectorOnly logical state boundary).ranges.map
          VectorReadRange.range) id ↔ logical.1 ≤ id ∧ id ≤ logical.2 ∧ id < boundary.1) ∧
      ∀ entry ∈ (sweepBoundary gathered vectorOnly logical state boundary).ranges,
        ∀ id ∈ entry.range, PicksNewest schemas files readFieldIds id entry.files := by
    rw [sweepBoundary]
    by_cases ordered : max state.start logical.1 ≤ min (boundary.1 - 1) logical.2
    · rw [dif_pos ordered]
      obtain ⟨ascending, covers, origin⟩ := @append_range_spec state.ranges
        ⟨⟨max state.start logical.1, min (boundary.1 - 1) logical.2, ordered⟩,
          providersOf gathered vectorOnly state.active⟩ swept.ascending (by
        intro entry mem
        have covered := (swept.covers entry.range.last).mp ⟨entry.range,
          mem_map_of_mem mem, Range.mem_iff.mpr ⟨entry.range.ordered, le_refl _⟩⟩
        dsimp only
        omega)
      refine ⟨ascending, ?_, ?_⟩
      · intro id
        rw [covers, swept.covers, Range.mem_iff]
        dsimp only
        omega
      · intro entry mem id contains
        rcases origin entry mem id contains with ⟨old, oldMember, oldContains, same⟩ | ⟨isNew, same⟩
        · rw [same]
          exact swept.picks old oldMember id oldContains
        · rw [same]
          rw [Range.mem_iff] at isNew
          dsimp only at isNew ⊢
          exact between id (by omega) (by omega) (by omega) (by omega)
    · rw [dif_neg ordered]
      refine ⟨swept.ascending, ?_, swept.picks⟩
      intro id
      rw [swept.covers]
      omega
  refine ⟨?_, ?_, swept.active.step marks split _, ?_, ranged.1, ranged.2.1, ranged.2.2⟩
  · intro key isKey
    rw [Sweep.keys_append, keys_singleton, mem_append, mem_singleton] at isKey
    rcases isKey with isKey | rfl
    · exact (swept.reached key isKey).trans notBefore
    · exact le_refl _
  · exact fun key isKey => (laterKeys key isKey).le
  · exact toggle_all_descending (newest_first_below gathered.candidates)
      (newest_first_above gathered.candidates) swept.descending boundary.2

theorem sweep_all (split : boundaries = processed ++ rest)
    (swept : Swept schemas files readFieldIds gathered logical processed rest state) :
    Swept schemas files readFieldIds gathered logical boundaries []
      (rest.foldl (sweepBoundary gathered vectorOnly logical) state) := by
  induction rest generalizing processed state with
  | nil =>
    rw [append_nil] at split
    subst split
    exact swept
  | cons boundary rest ih =>
    have stepped := @sweep_step _ _ _ _ vectorOnly _ _ _ _ _ collected kinds normalCovers marks
      _ split swept
    exact ih (by rw [split, append_assoc]; rfl) stepped

end

/-- The rows of the normal files, or all between the ends of the files if there is none. -/
def LogicalRow (files : List DataFileMeta) (id : Int) : Prop :=
  (∃ file ∈ files, isNormalFile file = true ∧ CoversRow file id) ∨
    ((∀ file ∈ files, isNormalFile file = false) ∧
      (∃ file ∈ files, firstOf file ≤ id) ∧ ∃ file ∈ files, id < stopOf file)

def ShareRange (files : List DataFileMeta) : Prop :=
  ∀ left ∈ files, ∀ right ∈ files, isNormalFile left = true → isNormalFile right = true →
    firstOf left = firstOf right ∧ stopOf left = stopOf right

theorem logical_row_iff (collected : Collected schemas readFieldIds files gathered)
    (shared : ShareRange files) (nonempty : files ≠ []) (id : Int) :
    LogicalRow files id ↔ (logicalEnds gathered).1 ≤ id ∧ id ≤ (logicalEnds gathered).2 := by
  rw [logicalEnds]
  cases found : gathered.logicalRange with
  | some range =>
    obtain ⟨normal, isIn, isNormal, rfl⟩ := collected.logical range found
    rw [Option.getD_some]
    constructor
    · rintro (⟨file, mem, fileNormal, covers⟩ | ⟨noneNormal, _⟩)
      · obtain ⟨sameFirst, sameStop⟩ := shared file mem normal isIn fileNormal isNormal
        rw [CoversRow, sameFirst] at covers
        omega
      · rw [noneNormal normal isIn] at isNormal
        cases isNormal
    · intro contains
      refine .inl ⟨normal, isIn, isNormal, contains.1, ?_⟩
      omega
  | none =>
    have noneNormal := collected.noLogical found
    rw [Option.getD_none]
    rcases collected.bounds.attained with ⟨empty, _⟩ | ⟨⟨low, lowIn, isLow⟩, high, highIn, isHigh⟩
    · exact absurd empty nonempty
    · constructor
      · rintro (⟨file, mem, fileNormal, _⟩ | ⟨_, ⟨first, firstIn, after⟩, last, lastIn, before⟩)
        · rw [noneNormal file mem] at fileNormal
          cases fileNormal
        · have least := collected.bounds.least first firstIn
          have greatest := collected.bounds.greatest last lastIn
          omega
      · intro contains
        exact .inr ⟨noneNormal, ⟨low, lowIn, by omega⟩, high, highIn, by omega⟩

theorem normal_covers_logical (collected : Collected schemas readFieldIds files gathered)
    (shared : ShareRange files) (id : Int) (lower : (logicalEnds gathered).1 ≤ id)
    (upper : id ≤ (logicalEnds gathered).2) :
    ∀ file ∈ files, isNormalFile file = true → CoversRow file id := by
  intro file mem isNormal
  have nonempty : files ≠ [] := ne_nil_of_mem mem
  rcases (logical_row_iff collected shared nonempty id).mpr ⟨lower, upper⟩ with
    ⟨other, otherIn, otherNormal, covers⟩ | ⟨noneNormal, _⟩
  · obtain ⟨sameFirst, sameStop⟩ := shared file mem other otherIn isNormal otherNormal
    rw [CoversRow, sameFirst, sameStop]
    exact covers
  · rw [noneNormal file mem] at isNormal
    cases isNormal

theorem first_key_le {boundaries : Boundaries} (ascending : Sweep.Ascending boundaries) :
    ∀ key ∈ keys boundaries, firstKey boundaries ≤ key := by
  intro key isKey
  rw [firstKey]
  rw [Sweep.Ascending] at ascending
  cases all : keys boundaries with
  | nil =>
    rw [all] at isKey
    cases isKey
  | cons first rest =>
    rw [all] at isKey ascending
    rcases mem_cons.mp isKey with rfl | later
    · exact le_refl _
    · exact ((pairwise_cons.mp ascending).1 key later).le

theorem sweep_state_swept (collected : Collected schemas readFieldIds files gathered)
    (kinds : ∀ file ∈ files, isVectorStoreFile file.fileName = true →
      isBlobFile file.fileName = false) (shared : ShareRange files) (vectorOnly : Bool) :
    Swept schemas files readFieldIds gathered (logicalEnds gathered) (allBoundaries gathered) []
      (sweepState gathered vectorOnly) := by
  have marks : Marks (allBoundaries gathered) (gathered.candidates.map interval) :=
    (collected.marks.touch (logicalEnds gathered).1).touch ((logicalEnds gathered).2 + 1)
  have startLow : firstKey (allBoundaries gathered) ≤ (logicalEnds gathered).1 :=
    first_key_le marks.ascending _ (mem_keys_touch.mpr (.inr (mem_keys_touch.mpr (.inl rfl))))
  apply sweep_all collected kinds (normal_covers_logical collected shared) marks
    (nil_append (allBoundaries gathered)).symm
  refine ⟨by simp [Sweep.keys], first_key_le marks.ascending, ⟨.nil, by simp [Sweep.keys]⟩, .nil,
    .nil, ?_, by simp⟩
  intro id
  simp only [map_nil, covers_nil, false_iff]
  omega

theorem planned_ranges (kinds : ∀ file ∈ files, isVectorStoreFile file.fileName = true →
      isBlobFile file.fileName = false) (shared : ShareRange files) {ranges : List VectorReadRange}
    (planned : planVectorReadRanges schemas files readFieldIds = .ok ranges) :
    Ranges.Ascending (ranges.map VectorReadRange.range) ∧
      (∀ id, Covers (ranges.map VectorReadRange.range) id ↔ LogicalRow files id) ∧
      ∀ entry ∈ ranges, ∀ id ∈ entry.range, PicksNewest schemas files readFieldIds id
        entry.files := by
  obtain ⟨gathered, loop, rest⟩ := bind_eq_ok.mp planned
  have collected := gather_collects (collected_nil schemas readFieldIds) loop
  rw [nil_append] at collected
  split at rest
  · next empty =>
      cases rest
      rw [List.isEmpty_iff] at empty
      subst empty
      exact ⟨.nil, by simp [covers_nil, LogicalRow], by simp⟩
  · next notEmpty =>
      cases rest
      have swept := sweep_state_swept collected kinds shared (isVectorOnly files)
      refine ⟨swept.ascending, ?_, swept.picks⟩
      intro id
      -- The last boundary is past the logical range.
      have past := swept.reached ((logicalEnds gathered).2 + 1) (mem_keys_touch.mpr (.inl rfl))
      rw [swept.covers, logical_row_iff collected shared (by simpa using notEmpty)]
      omega

end PaimonCore.VectorRead
