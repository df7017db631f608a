import PaimonCore.Read.VectorReadRanges

/-!
# Sequential vector-store files

The common group has one normal file and vector-store files of one field that follow each
other over all its rows. `TryPlanSequentialVectorRead` recognises it and reads the files of the
field one after the other, without cutting the rows into ranges.
-/

namespace PaimonCore.VectorRead

open Manifest Programs PaimonCore.Ranges RowTracking List

/-- The bunches that this plan has; blob bunches are not among them. -/
inductive FieldBunch where
  | data (file : DataFileMeta)
  | vector (first : DataFileMeta) (rest : List DataFileMeta) (rowCount : Nat)

def FieldBunch.files : FieldBunch → List DataFileMeta
  | .data file => [file]
  | .vector first rest _ => first :: rest

def FieldBunch.firstFile : FieldBunch → DataFileMeta
  | .data file => file
  | .vector first _ _ => first

/-- One main file and vector-store files; `none` if there is any other file. -/
def splitSequential : List DataFileMeta → Option DataFileMeta → List DataFileMeta →
    Option (Option DataFileMeta × List DataFileMeta)
  | [], mainFile, vectorFiles => some (mainFile, vectorFiles)
  | file :: rest, mainFile, vectorFiles =>
    if isVectorStoreFile file.fileName then splitSequential rest mainFile (vectorFiles ++ [file])
    else if isNormalFile file && mainFile.isNone then splitSequential rest (some file) vectorFiles
    else none

/-- `DataFileMeta::FileFormat`: what stands after the last dot of the name. -/
def fileFormat (file : DataFileMeta) : Except String String :=
  let afterDot := (file.fileName.toList.reverse.takeWhile (fun c => c ≠ '.')).reverse
  if '.' ∉ file.fileName.toList ∨ afterDot = [] then
    .error ("cannot find format from file " ++ file.fileName)
  else .ok (String.ofList afterDot)

/-- The row id after the last of the files if they follow each other and are like the first. -/
def followSequential (firstVector : DataFileMeta) (format : String) :
    List DataFileMeta → Int → Except String (Option Int)
  | [], nextRowId => .ok (some nextRowId)
  | file :: rest, nextRowId => do
    let current ← fileFormat file
    if file.schemaId ≠ firstVector.schemaId ∨ current ≠ format ∨
        file.writeCols ≠ firstVector.writeCols ∨ file.firstRowId ≠ some nextRowId then
      .ok none
    else followSequential firstVector format rest (nextRowId + file.rowCount)

/-- No bunches if the files do not match. -/
def tryPlanSequentialVectorRead (schemas : Schemas) (files : List DataFileMeta) :
    Except String (List FieldBunch) :=
  match splitSequential files none [] with
  | some (some mainFile, vectorFiles) =>
    if vectorFiles.isEmpty then .ok []
    else do
      let _ ← files.mapM checkedFirstRowId
      match vectorFiles.insertionSort (fun left right =>
          left.firstRowId.getD 0 ≤ right.firstRowId.getD 0) with
      | [] => .ok []
      | firstVector :: later =>
        if (firstVector.writeCols.map List.length) ≠ some 1 then .ok []
        else do
          let format ← fileFormat firstVector
          let mainFirst := mainFile.firstRowId.getD 0
          let followed ← followSequential firstVector format (firstVector :: later) mainFirst
          if followed ≠ some (mainFirst + mainFile.rowCount) then .ok []
          else do
            let vectorIds ← fileToFieldIds schemas firstVector
            let mainIds ← fileToFieldIds schemas mainFile
            if vectorIds.length ≠ 1 ∨
              vectorIds.any (fun id => decide (id ∈ mainIds)) = true then .ok []
            else .ok [.data mainFile, .vector firstVector later mainFile.rowCount]
  | _ => .ok []

/-- `CreateFieldUnionReader`: a field gets the reader of the first bunch whose first file was
written with it. -/
def readerOffsets (schemas : Schemas) :
    List FieldBunch → Nat → List (Int × Option Nat) → List (Int × Option Nat)
  | [], _, offsets => offsets
  | bunch :: rest, index, offsets =>
    readerOffsets schemas rest (index + 1) (offsets.map (fun entry =>
      if entry.2.isNone && writes schemas entry.1 bunch.firstFile then (entry.1, some index)
      else entry))

/-- The files of a bunch have the rows one after the other. -/
def assignedFile (schemas : Schemas) (bunches : List FieldBunch) (id field : Int) :
    Option DataFileMeta :=
  ((readerOffsets schemas bunches 0 [(field, none)]).lookup field).join.bind (fun index =>
    bunches[index]?.bind (fun bunch => bunch.files.find? (fun file => decide (CoversRow file id))))

theorem reader_offsets_assigned (schemas : Schemas) (bunches : List FieldBunch)
    (index offset : Nat) (field : Int) :
    readerOffsets schemas bunches index [(field, some offset)] = [(field, some offset)] := by
  induction bunches generalizing index with
  | nil => rfl
  | cons bunch rest ih => simpa [readerOffsets] using ih (index + 1)

theorem reader_offsets_first (schemas : Schemas) (bunches : List FieldBunch) (index : Nat)
    (field : Int) : readerOffsets schemas bunches index [(field, none)] =
      [(field, (bunches.findIdx? (fun bunch => writes schemas field bunch.firstFile)).map
        (· + index))] := by
  induction bunches generalizing index with
  | nil => rfl
  | cons bunch rest ih =>
    rw [readerOffsets, findIdx?_cons]
    cases written : writes schemas field bunch.firstFile with
    | true => simp [written, reader_offsets_assigned]
    | false =>
      simp only [map_cons, map_nil, Option.isNone_none, written, Bool.and_false,
        Bool.false_eq_true, if_false]
      rw [ih, Option.map_map]
      congr 3
      funext offset
      simp only [Function.comp_apply]
      omega

theorem assigned_file_eq (schemas : Schemas) (bunches : List FieldBunch) (id field : Int) :
    assignedFile schemas bunches id field =
      (bunches.find? (fun bunch => writes schemas field bunch.firstFile)).bind
        (fun bunch => bunch.files.find? (fun file => decide (CoversRow file id))) := by
  rw [assignedFile, reader_offsets_first, find?_eq_bind_findIdx?_getElem?]
  simp [Option.bind_assoc]

inductive Follow : List DataFileMeta → Int → Int → Prop
  | nil (start : Int) : Follow [] start start
  | cons {file : DataFileMeta} {rest : List DataFileMeta} {stop : Int}
      (present : file.firstRowId = some (firstOf file)) (later : Follow rest (stopOf file) stop) :
      Follow (file :: rest) (firstOf file) stop

variable {files : List DataFileMeta}

theorem follow_sequential_ok {firstVector : DataFileMeta} {format : String} {start stop : Int}
    (followed : followSequential firstVector format files start = .ok (some stop)) :
    Follow files start stop ∧ ∀ file ∈ files, file.schemaId = firstVector.schemaId ∧
      file.writeCols = firstVector.writeCols := by
  induction files generalizing start with
  | nil =>
    cases followed
    exact ⟨.nil _, by simp⟩
  | cons file rest ih =>
    obtain ⟨current, _, later⟩ := bind_eq_ok.mp followed
    split at later
    · cases later
    · next alike =>
        simp only [not_or, not_not] at alike
        obtain ⟨schema, _, columns, present⟩ := alike
        have isFirst : firstOf file = start := by simp [firstOf, present]
        obtain ⟨follow, rest_alike⟩ := ih later
        subst isFirst
        refine ⟨.cons present follow, ?_⟩
        exact forall_mem_cons.mpr ⟨⟨schema, columns⟩, rest_alike⟩

theorem follow_covers {start stop : Int} (follow : Follow files start stop) {id : Int}
    (lower : start ≤ id) (upper : id < stop) : ∃ file ∈ files, CoversRow file id := by
  induction follow with
  | nil start => omega
  | @cons file rest stop _ _ ih =>
    by_cases here : id < stopOf file
    · exact ⟨file, mem_cons_self, lower, here⟩
    · obtain ⟨other, mem, covers⟩ := ih (by omega) upper
      exact ⟨other, mem_cons_of_mem file mem, covers⟩

theorem follow_starts {start stop : Int} (follow : Follow files start stop)
    (proper : ∀ file ∈ files, firstOf file < stopOf file) : (∀ file ∈ files, start ≤ firstOf file) ∧
      files.Pairwise (fun left right => stopOf left ≤ firstOf right) := by
  induction follow with
  | nil => exact ⟨by simp, .nil⟩
  | @cons first rest stop _ _ ih =>
    rw [forall_mem_cons] at proper ⊢
    obtain ⟨after, apart⟩ := ih proper.2
    refine ⟨⟨le_refl _, ?_⟩, pairwise_cons.mpr ⟨after, apart⟩⟩
    exact fun file mem => proper.1.le.trans (after file mem)

theorem follow_unique {start stop : Int} (follow : Follow files start stop)
    (proper : ∀ file ∈ files, firstOf file < stopOf file) {left right : DataFileMeta}
    (leftIn : left ∈ files) (rightIn : right ∈ files) {id : Int} (leftCovers : CoversRow left id)
    (rightCovers : CoversRow right id) : left = right := by
  have alone : files.Pairwise (fun left right =>
      CoversRow left id → CoversRow right id → left = right) := by
    apply (follow_starts follow proper).2.imp
    intro earlier later apart inEarlier inLater
    have := inEarlier.2
    have := inLater.1
    omega
  have turned : files.Pairwise (flip fun left right =>
      CoversRow left id → CoversRow right id → left = right) :=
    alone.imp (fun same inLater inEarlier => (same inEarlier inLater).symm)
  exact Pairwise.forall_of_forall_of_flip (fun _ _ _ _ => rfl) alone turned leftIn rightIn
    leftCovers rightCovers

theorem split_sequential_some {vectors allVectors : List DataFileMeta}
    {mainFile : Option DataFileMeta} {main : DataFileMeta}
    (done : splitSequential files mainFile vectors = some (some main, allVectors)) :
    allVectors = vectors ++ files.filter (fun file => isVectorStoreFile file.fileName) ∧
      (∀ file ∈ files, isVectorStoreFile file.fileName = false → file = main) ∧
      (mainFile = some main ∨ (mainFile = none ∧ main ∈ files ∧ isNormalFile main = true)) := by
  induction files generalizing mainFile vectors with
  | nil =>
    cases done
    exact ⟨by simp, by simp⟩
  | cons file rest ih =>
    rw [splitSequential] at done
    rw [forall_mem_cons]
    split at done
    · next isVector =>
        obtain ⟨same, others, isMain⟩ := ih done
        refine ⟨by simp [same, isVector], ⟨by simp [isVector], others⟩, ?_⟩
        rcases isMain with before | ⟨before, isIn, normal⟩
        · exact .inl before
        · exact .inr ⟨before, mem_cons_of_mem file isIn, normal⟩
    · next notVector =>
        split at done
        · next isMainFile =>
            rw [Bool.and_eq_true, Option.isNone_iff_eq_none] at isMainFile
            obtain ⟨normal, rfl⟩ := isMainFile
            obtain ⟨same, others, isMain⟩ := ih done
            have mainIs : file = main := by
              rcases isMain with before | ⟨before, _⟩
              · exact Option.some.inj before
              · cases before
            subst mainIs
            exact
              ⟨by simp [same, notVector], ⟨fun _ => rfl, others⟩, .inr ⟨rfl, mem_cons_self, normal⟩⟩
        · cases done

structure Sequential (schemas : Schemas) (files : List DataFileMeta) (main : DataFileMeta)
    (first : DataFileMeta) (later : List DataFileMeta) : Prop where
  vectors : ∀ file, file ∈ first :: later ↔ file ∈ files ∧ isVectorStoreFile file.fileName = true
  others : ∀ file ∈ files, isVectorStoreFile file.fileName = false → file = main
  mainIn : main ∈ files
  normal : isNormalFile main = true
  checked : ∀ file ∈ files, Checked file
  follow : Follow (first :: later) (firstOf main) (stopOf main)
  alike : ∀ file ∈ first :: later, fileToFieldIds schemas file = fileToFieldIds schemas first
  apart : ∀ field, writes schemas field first = true → writes schemas field main = false

theorem map_m_checked {firsts : List Int} (checked : files.mapM checkedFirstRowId = .ok firsts) :
    ∀ file ∈ files, Checked file := by
  intro file mem
  obtain ⟨first, _, isChecked⟩ := (map_m_ok checked).1 file mem
  exact (checked_first_ok isChecked).2

theorem sequential_of_plan {schemas : Schemas} {bunches : List FieldBunch}
    (planned : tryPlanSequentialVectorRead schemas files = .ok bunches)
    (some_bunches : bunches ≠ []) :
    ∃ main first later, bunches = [.data main, .vector first later main.rowCount] ∧
      Sequential schemas files main first later := by
  have refused : (.ok [] : Except String (List FieldBunch)) ≠ .ok bunches :=
    fun same => some_bunches (Except.ok.inj same).symm
  rw [tryPlanSequentialVectorRead] at planned
  split at planned
  · next main vectors isSplit =>
      obtain ⟨rfl, others, isMain⟩ := split_sequential_some isSplit
      obtain ⟨mainIn, normal⟩ : main ∈ files ∧ isNormalFile main = true := by
        rcases isMain with no | ⟨_, isIn, normal⟩
        · cases no
        · exact ⟨isIn, normal⟩
      split at planned
      · exact absurd planned refused
      · obtain ⟨firsts, allChecked, planned⟩ := bind_eq_ok.mp planned
        split at planned
        · exact absurd planned refused
        · next first later sorted =>
            have isVector : ∀ file, file ∈ first :: later ↔
                file ∈ files ∧ isVectorStoreFile file.fileName = true := by
              intro file
              rw [← sorted, (perm_insertionSort _ _).mem_iff, nil_append, mem_filter]
            split at planned
            · exact absurd planned refused
            · obtain ⟨format, _, planned⟩ := bind_eq_ok.mp planned
              obtain ⟨followed, follows, planned⟩ := bind_eq_ok.mp planned
              split at planned
              · exact absurd planned refused
              · next reached =>
                  rw [not_not] at reached
                  subst reached
                  obtain ⟨vectorIds, vectorFields, planned⟩ := bind_eq_ok.mp planned
                  obtain ⟨mainIds, mainFields, planned⟩ := bind_eq_ok.mp planned
                  split at planned
                  · exact absurd planned refused
                  · next apart =>
                      cases planned
                      obtain ⟨follow, alike⟩ := follow_sequential_ok follows
                      rw [not_or, any_eq_true, not_exists] at apart
                      refine ⟨main, first, later, rfl, isVector, others, mainIn, normal,
                        map_m_checked allChecked, follow, ?_, ?_⟩
                      · intro file mem
                        obtain ⟨schema, columns⟩ := alike file mem
                        rw [fileToFieldIds, fileToFieldIds, ((isVector file).mp mem).2,
                          ((isVector first).mp mem_cons_self).2, schema, columns]
                      · intro field written
                        rw [writes, vectorFields] at written
                        rw [writes, mainFields]
                        have notBoth := apart.2 field
                        simp only [not_and, decide_eq_true_eq] at notBoth written
                        exact decide_eq_false (notBoth written)
  · exact absurd planned refused

structure Provides (schemas : Schemas) (files : List DataFileMeta) (id field : Int)
    (file : DataFileMeta) : Prop where
  member : file ∈ files
  data : isDataFile file = true
  covers : CoversRow file id
  writes : writes schemas field file = true

section
variable {schemas : Schemas} {files later : List DataFileMeta} {main first : DataFileMeta}
  {id field : Int}

section
variable (group : Sequential schemas files main first later)
include group

theorem Sequential.file_cases {file : DataFileMeta} (mem : file ∈ files) :
    file = main ∨ file ∈ first :: later := by
  cases isVector : isVectorStoreFile file.fileName with
  | false => exact .inl (group.others file mem isVector)
  | true => exact .inr ((group.vectors file).mpr ⟨mem, isVector⟩)

theorem Sequential.vector_writes {file : DataFileMeta} (mem : file ∈ first :: later) :
    writes schemas field file = writes schemas field first := by
  rw [writes, writes, group.alike file mem]

theorem Sequential.provides_unique {left right : DataFileMeta}
    (leftProvides : Provides schemas files id field left)
    (rightProvides : Provides schemas files id field right) : left = right := by
  have proper : ∀ file ∈ first :: later, firstOf file < stopOf file := fun file mem =>
    (group.checked file ((group.vectors file).mp mem).1).proper
  have notBoth : ∀ vector ∈ first :: later, writes schemas field vector = true →
      writes schemas field main = true → False := by
    intro vector mem vectorWrites mainWrites
    rw [group.vector_writes mem] at vectorWrites
    rw [group.apart field vectorWrites] at mainWrites
    cases mainWrites
  rcases group.file_cases leftProvides.member with rfl | leftVector
  · rcases group.file_cases rightProvides.member with rfl | rightVector
    · rfl
    · exact (notBoth right rightVector rightProvides.writes leftProvides.writes).elim
  · rcases group.file_cases rightProvides.member with rfl | rightVector
    · exact (notBoth left leftVector leftProvides.writes rightProvides.writes).elim
    · exact follow_unique group.follow proper leftVector rightVector leftProvides.covers
        rightProvides.covers

/-- The sequential plan reads from the file that provides the row and the field. -/
theorem Sequential.assigned (mainCovers : CoversRow main id) :
    (∃ file, assignedFile schemas [.data main, .vector first later main.rowCount] id field =
        some file ∧ Provides schemas files id field file) ∨
      (assignedFile schemas [.data main, .vector first later main.rowCount] id field = none ∧
        ∀ file, ¬ Provides schemas files id field file) := by
  cases mainWrites : writes schemas field main with
  | true =>
    left
    refine ⟨main, ?_, group.mainIn, by simp [isDataFile, group.normal], mainCovers, mainWrites⟩
    simp [assigned_file_eq, FieldBunch.firstFile, FieldBunch.files, mainWrites, mainCovers]
  | false =>
    cases firstWrites : writes schemas field first with
    | true =>
      left
      obtain ⟨vector, isVector, covers⟩ := follow_covers group.follow mainCovers.1 mainCovers.2
      obtain ⟨found, isFound⟩ : ∃ found, (first :: later).find?
          (fun file => decide (CoversRow file id)) = some found := by
        rw [← Option.isSome_iff_exists, find?_isSome]
        exact ⟨vector, isVector, decide_eq_true covers⟩
      have foundIn := mem_of_find?_eq_some isFound
      obtain ⟨inFiles, foundVector⟩ := (group.vectors found).mp foundIn
      refine ⟨found, ?_, inFiles, by simp [isDataFile, foundVector], ?_, ?_⟩
      · rw [assigned_file_eq, find?_cons_of_neg (by simp [FieldBunch.firstFile, mainWrites]),
          find?_cons_of_pos (by simp [FieldBunch.firstFile, firstWrites])]
        exact isFound
      · simpa using find?_some isFound
      · rw [group.vector_writes foundIn]
        exact firstWrites
    | false =>
      right
      refine ⟨by simp [assigned_file_eq, FieldBunch.firstFile, mainWrites, firstWrites], ?_⟩
      intro file provides
      have written := provides.writes
      rcases group.file_cases provides.member with rfl | isVector
      · rw [mainWrites] at written
        cases written
      · rw [group.vector_writes isVector, firstWrites] at written
        cases written

theorem Sequential.data_file {file : DataFileMeta} (mem : file ∈ files) :
    isDataFile file = true := by
  rcases group.file_cases mem with rfl | isVector
  · simp [isDataFile, group.normal]
  · simp [isDataFile, ((group.vectors file).mp isVector).2]

theorem Sequential.picks_same (kinds : ∀ file ∈ files, isVectorStoreFile file.fileName = true →
      isBlobFile file.fileName = false) {readFieldIds : List Int} {providers : List DataFileMeta}
    (picks : PicksNewest schemas files readFieldIds id providers) (read : field ∈ readFieldIds)
    (mainCovers : CoversRow main id) :
    assignedFile schemas [.data main, .vector first later main.rowCount] id field =
      providers.find? (writes schemas field) := by
  rcases @Sequential.assigned schemas files later main first id field group mainCovers with
    ⟨file, isAssigned, provides⟩ | ⟨isNone, nobody⟩
  · obtain ⟨found, isFound, foundIn, foundData, foundCovers, foundWrites, _⟩ :=
      picks.newest field read
      ⟨file, provides.member, provides.data, provides.covers, provides.writes⟩
    rw [isAssigned, isFound, group.provides_unique provides ⟨foundIn, foundData,
      foundCovers, foundWrites⟩]
  · rw [isNone, eq_comm, find?_eq_none]
    intro provider mem written
    have inFiles := picks.members provider mem
    have data := group.data_file inFiles
    have notBlob := (data_file_not_blob (kinds provider inFiles)).mp data
    exact nobody provider ⟨inFiles, data, picks.covering provider mem notBlob, written⟩

end

end

/-- The ranges are ascending and have the rows of the group; the first provider of a row that
writes a read field is a newest file that has the row and writes the field; and a sequential
plan reads every row and field from that same file. -/
theorem vector_reads_pick_newest (schemas : Schemas) (files : List DataFileMeta)
    (readFieldIds : List Int) (kinds : ∀ file ∈ files, isVectorStoreFile file.fileName = true →
      isBlobFile file.fileName = false) (shared : ShareRange files) (ranges : List VectorReadRange)
    (planned : planVectorReadRanges schemas files readFieldIds = .ok ranges) :
    Ranges.Ascending (ranges.map VectorReadRange.range) ∧
      (∀ id, Covers (ranges.map VectorReadRange.range) id ↔ LogicalRow files id) ∧
      (∀ entry ∈ ranges, ∀ id ∈ entry.range, PicksNewest schemas files readFieldIds id
        entry.files) ∧
      ∀ bunches, tryPlanSequentialVectorRead schemas files = .ok bunches → bunches ≠ [] →
        ∀ entry ∈ ranges, ∀ id ∈ entry.range, ∀ field ∈ readFieldIds,
          assignedFile schemas bunches id field = entry.files.find? (writes schemas field) := by
  obtain ⟨ascending, covers, picks⟩ := planned_ranges kinds shared planned
  refine ⟨ascending, covers, picks, ?_⟩
  intro bunches sequential someBunches entry isEntry id contains field read
  obtain ⟨main, first, later, rfl, group⟩ := sequential_of_plan sequential someBunches
  have mainCovers : CoversRow main id := by
    rcases (covers id).mp ⟨entry.range, mem_map_of_mem isEntry, contains⟩ with
      ⟨file, member, normal, fileCovers⟩ | ⟨noneNormal, _⟩
    · rcases group.file_cases member with rfl | isVector
      · exact fileCovers
      · rw [vector_not_normal ((group.vectors file).mp isVector).2] at normal
        cases normal
    · have normal := group.normal
      rw [noneNormal main group.mainIn] at normal
      cases normal
  exact group.picks_same kinds (picks entry isEntry id contains) read mainCovers

/-- A newer vector-store file of one field in the middle of a normal file. -/
def rewrittenGroup : List DataFileMeta :=
  [{ fileName := "a.parquet", firstRowId := some 0, rowCount := 4, maxSequenceNumber := 1 },
   { fileName := "b.vector.lance", firstRowId := some 1, rowCount := 2, maxSequenceNumber := 2,
     writeCols := some ["v"] }]

/-- A normal file of one field and the two vector-store files of the other. -/
def dividedGroup : List DataFileMeta :=
  [{ fileName := "a.parquet", firstRowId := some 0, rowCount := 4, maxSequenceNumber := 1,
     writeCols := some ["k"] },
   { fileName := "c.vector.lance", firstRowId := some 1, rowCount := 3, maxSequenceNumber := 1,
     writeCols := some ["v"] },
   { fileName := "b.vector.lance", firstRowId := some 0, rowCount := 1, maxSequenceNumber := 1,
     writeCols := some ["v"] }]

def twoFields : Schemas where
  tableSchemaId := 0
  tableFields := [("k", 1), ("v", 2)]
  readSchema := fun _ => .error ""
  isSystemField := fun _ => false

theorem share_range_of_one {files : List DataFileMeta}
    (one : ∀ left ∈ files, ∀ right ∈ files, isNormalFile left = true → isNormalFile right = true →
      left = right) : ShareRange files := by
  intro left leftIn right rightIn leftNormal rightNormal
  rw [one left leftIn right rightIn leftNormal rightNormal]
  exact ⟨rfl, rfl⟩

/-- The first group has no sequential plan. The second has one with both vector-store files in
one bunch, and it reads each row and field from the file that the ranges give for it. -/
theorem rewritten_group_read :
    (∃ ranges, planVectorReadRanges twoFields rewrittenGroup [1, 2] = .ok ranges ∧
      ranges.map (fun entry => (entry.range.first, entry.range.last)) =
        [(0, 0), (1, 2), (3, 3)] ∧
      Ranges.Ascending (ranges.map VectorReadRange.range)) ∧
    ∃ ranges bunches, planVectorReadRanges twoFields dividedGroup [1, 2] = .ok ranges ∧
      tryPlanSequentialVectorRead twoFields dividedGroup = .ok bunches ∧
      bunches.map (fun bunch => bunch.files.map DataFileMeta.fileName) =
        [["a.parquet"], ["b.vector.lance", "c.vector.lance"]] ∧
      ranges.map (fun entry => (entry.range.first, entry.range.last)) = [(0, 0), (1, 3)] ∧
      ∀ entry ∈ ranges, ∀ id ∈ entry.range, ∀ field ∈ [1, 2],
        assignedFile twoFields bunches id field = entry.files.find? (writes twoFields field) := by
  constructor
  · refine ⟨_, rfl, rfl, (vector_reads_pick_newest twoFields rewrittenGroup [1, 2] ?_ ?_ _ rfl).1⟩
    · decide
    · apply share_range_of_one
      decide
  · refine ⟨_, _, rfl, rfl, rfl, rfl, ?_⟩
    apply (vector_reads_pick_newest twoFields dividedGroup [1, 2] ?_ ?_ _ rfl).2.2.2 _ rfl
    · exact cons_ne_nil _ _
    · decide
    · apply share_range_of_one
      decide

end PaimonCore.VectorRead
