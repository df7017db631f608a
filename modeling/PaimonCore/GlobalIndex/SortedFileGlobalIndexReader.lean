import PaimonCore.Predicate.LeafStatistics

/-!
# `SortedFileGlobalIndexReader`

An index of several sorted files. The selector picks the files whose bounds admit a match, and
the answers of their readers are united; `none` is an answer that is not known. Literals are
serialized keys of the column's type, `none` for null; readers do not fail here.
-/

namespace PaimonCore.SortedIndex

open Std Predicates List

structure SortedIndexFileMeta where
  firstKey : Option Bytes
  lastKey : Option Bytes
  hasNulls : Bool

/-- The functions of the index; a comparison is one of the six. -/
inductive Query where
  | isNull
  | isNotNull
  | comparison (function : LeafFunction) (literal : Option Bytes)
  | isIn (literals : List (Option Bytes))
  | notIn (literals : List (Option Bytes))
  | startsWith (literal : Option Bytes)

structure IndexFile where
  fileMeta : SortedIndexFileMeta
  fileSize : Int
  visit : Query → Option (Finset Nat)
  rows : Finset Nat

structure SortedFileGlobalIndexReader where
  compareKeys : Bytes → Bytes → Ordering
  isString : Bool
  files : List IndexFile
  fallbackScanMaxSize : Int
  totalRowCount : Nat

namespace SortedIndexFileMeta

def onlyNulls (fileMeta : SortedIndexFileMeta) : Bool :=
  fileMeta.firstKey.isNone && fileMeta.lastKey.isNone

variable (compareKeys : Bytes → Bytes → Ordering) (fileMeta : SortedIndexFileMeta)

def compareFirstKey (literal : Bytes) : Ordering :=
  fileMeta.firstKey.elim .lt (compareKeys · literal)

def compareLastKey (literal : Bytes) : Ordering :=
  fileMeta.lastKey.elim .gt (compareKeys · literal)

/-- `Overlaps` with the literal as both ends. -/
def overlaps (literal : Bytes) : Bool :=
  fileMeta.firstKey.all (fun first => compareKeys literal first != .lt) &&
    fileMeta.lastKey.all (fun last => compareKeys literal last != .gt)

def prefixUpperBound : Bytes → Option Bytes
  | [] => none
  | byte :: rest =>
    match prefixUpperBound rest with
    | some upper => some (byte :: upper)
    | none => if next : byte.val + 1 < 256 then some [⟨byte.val + 1, next⟩] else none

/-- The filter of `SortedFileMetaSelector` for a query. -/
def selected : Query → Bool
  | .isNull => fileMeta.hasNulls
  | .isNotNull => !fileMeta.onlyNulls
  | .comparison function (some literal) => !fileMeta.onlyNulls &&
    match function with
    | .equal => fileMeta.overlaps compareKeys literal
    | .lessThan => fileMeta.compareFirstKey compareKeys literal == .lt
    | .lessOrEqual => fileMeta.compareFirstKey compareKeys literal != .gt
    | .greaterThan => fileMeta.compareLastKey compareKeys literal == .gt
    | .greaterOrEqual => fileMeta.compareLastKey compareKeys literal != .lt
    | _ => true
  | .isIn literals => !fileMeta.onlyNulls &&
    literals.any (fun literal => literal.any (fileMeta.overlaps compareKeys))
  | .notIn literals => literals.all Option.isSome && !fileMeta.onlyNulls
  | .startsWith (some literal) => !fileMeta.onlyNulls &&
    (literal.isEmpty || fileMeta.compareLastKey compareKeys literal != .lt &&
      (prefixUpperBound literal).all (fileMeta.compareFirstKey compareKeys · == .lt))
  | .comparison _ none | .startsWith none => false

end SortedIndexFileMeta

namespace SortedFileGlobalIndexReader

variable (reader : SortedFileGlobalIndexReader)

def select (query : Query) : List IndexFile :=
  reader.files.filter (fun file => file.fileMeta.selected reader.compareKeys query)

/-- The loop over the results: one that is not known is passed over. -/
def mergeResults : Option (Finset Nat) → List (Option (Finset Nat)) → Option (Finset Nat)
  | merged, [] => merged
  | merged, none :: rest => mergeResults merged rest
  | none, some result :: rest => mergeResults (some result) rest
  | some merged, some result :: rest => mergeResults (some (merged ∪ result)) rest

def visitSelectedFiles (files : List IndexFile) (query : Query) : Option (Finset Nat) :=
  if files.isEmpty then some ∅ else mergeResults none (files.map (fun file => file.visit query))

def visitParallel (query : Query) : Option (Finset Nat) :=
  visitSelectedFiles (reader.select query) query

/-- The loop of `FallbackScanEnabled`. -/
def fitsFrom (maxSize : Int) : Int → List IndexFile → Bool
  | _, [] => true
  | totalSize, file :: rest =>
    if file.fileSize < 0 ∨ 9223372036854775807 - totalSize < file.fileSize then false
    else if maxSize < totalSize + file.fileSize then false
    else fitsFrom maxSize (totalSize + file.fileSize) rest

def fallbackScanEnabled (files : List IndexFile) : Bool :=
  decide (0 < reader.fallbackScanMaxSize) && fitsFrom reader.fallbackScanMaxSize 0 files

def visitFallbackParallel (query : Query) : Option (Finset Nat) :=
  if (reader.select query).isEmpty then some ∅
  else if reader.fallbackScanEnabled (reader.select query) then reader.visitParallel query
  else none

def complement (excluded : List (Finset Nat)) : Finset Nat :=
  excluded.foldl (· \ ·) (Finset.range reader.totalRowCount)

def visitOthers (matching : Query) : Option (Finset Nat) :=
  match reader.visitParallel .isNull, reader.visitParallel matching with
  | some nulls, some found => some (reader.complement [nulls, found])
  | _, _ => none

def visit : Query → Option (Finset Nat)
  | .isNull => reader.visitParallel .isNull
  | .isNotNull => (reader.visitParallel .isNull).map (fun nulls => reader.complement [nulls])
  | .comparison .equal literal => reader.visitParallel (.comparison .equal literal)
  | .comparison .notEqual none => some ∅
  | .comparison .notEqual literal => reader.visitOthers (.comparison .equal literal)
  | .comparison _ none => none
  | .comparison function literal =>
    if reader.fallbackScanMaxSize ≤ 0 then none
    else reader.visitFallbackParallel (.comparison function literal)
  | .isIn literals => reader.visitParallel (.isIn literals)
  | .notIn literals =>
    if literals.any Option.isNone then some ∅ else reader.visitOthers (.isIn literals)
  | .startsWith none => none
  | .startsWith literal =>
    if reader.isString then reader.visitParallel (.startsWith literal) else none

/-- The scan is small enough, the prefix is one of a string. -/
def admits : Query → Bool
  | .comparison .equal _ => true
  | .comparison function literal =>
    reader.fallbackScanEnabled (reader.select (.comparison function literal))
  | .startsWith _ => reader.isString
  | _ => true

def visited (query : Query) : List IndexFile :=
  if reader.admits query then reader.select query else []

end SortedFileGlobalIndexReader

def Query.holds (compareKeys : Bytes → Bytes → Ordering) : Query → Option Bytes → Bool
  | .isNull, value => value.isNone
  | .isNotNull, value => value.isSome
  | .comparison function (some literal), some key => function.accepts (compareKeys key literal)
  | .isIn literals, some key => literals.any (Option.any (compareKeys key · == .eq))
  | .notIn literals, some key => literals.all (Option.any (compareKeys key · != .eq))
  | .startsWith (some literal), some key => Predicates.startsWith key literal
  | _, _ => false

def asked : Query → List Query
  -- the complement of the nulls alone: no file is selected for an empty list
  | .isNotNull => [.isNull, .isIn []]
  | .comparison .notEqual literal =>
    if literal.isNone then [] else [.isNull, .comparison .equal literal]
  | .notIn literals => if literals.any Option.isNone then [] else [.isNull, .isIn literals]
  | query => [query]

def Unanswered (files : List IndexFile) (query : Query) : Prop :=
  files ≠ [] ∧ ∀ file ∈ files, file.visit query = none

section
variable (reader : SortedFileGlobalIndexReader) (value : Nat → Option Bytes)

/-- The files hold the rows below the total, with correct metadata and exact readers. -/
structure Indexes : Prop where
  order : TransCmp reader.compareKeys
  string : reader.isString = true → reader.compareKeys = compare
  total : ∀ id, (∃ file ∈ reader.files, id ∈ file.rows) ↔ id < reader.totalRowCount
  apart : ∀ file ∈ reader.files, ∀ other ∈ reader.files, ∀ id ∈ file.rows,
    id ∈ other.rows → file = other
  nulls : ∀ file ∈ reader.files, ∀ id ∈ file.rows, value id = none → file.fileMeta.hasNulls = true
  keys : ∀ file ∈ reader.files, ∀ id ∈ file.rows, ∀ key, value id = some key → ∃ first last,
    file.fileMeta.firstKey = some first ∧ file.fileMeta.lastKey = some last ∧
      (reader.compareKeys first key).isLE = true ∧ (reader.compareKeys key last).isLE = true
  readers : ∀ file ∈ reader.files, ∀ query ids, file.visit query = some ids → ∀ id,
    id ∈ ids ↔ id ∈ file.rows ∧ query.holds reader.compareKeys (value id) = true

def Unknown (files : List IndexFile) (query : Query) : Prop :=
  ∃ file ∈ files, file.visit query = none ∧ ∃ id ∈ file.rows,
    query.holds reader.compareKeys (value id) = true

/-- No answer is used in which a file with a matching row was passed over. -/
def Guarded (query : Query) : Prop :=
  (∃ base ∈ asked query, Unanswered (reader.visited base) base) ∨
    ∀ base ∈ asked query, ¬Unknown reader value (reader.visited base) base

def Found (query : Query) (id : Nat) : Prop :=
  id < reader.totalRowCount ∧ query.holds reader.compareKeys (value id) = true

def Exact (query : Query) : Prop :=
  ∀ ids, reader.visit query = some ids → ∀ id, id ∈ ids ↔ Found reader value query id

end

open SortedIndexFileMeta SortedFileGlobalIndexReader

theorem lt_prefix_upper_bound {literal upper key : Bytes} (isPrefix : literal <+: key)
    (isUpper : prefixUpperBound literal = some upper) : compare key upper = .lt := by
  induction literal generalizing upper key with
  | nil => cases isUpper
  | cons byte rest ih =>
    obtain ⟨suffix, rfl⟩ := isPrefix
    rw [prefixUpperBound] at isUpper
    split at isUpper
    · case h_1 later isLater =>
      cases isUpper
      rw [List.cons_append, List.compare_cons_cons, ReflOrd.compare_self]
      exact ih ⟨suffix, rfl⟩ isLater
    · split at isUpper
      · case isTrue next =>
        cases isUpper
        have larger : compare byte ⟨byte.val + 1, next⟩ = .lt := by
          rw [compare_lt_iff_lt]
          exact Nat.lt_succ_self byte.val
        rw [List.cons_append, List.compare_cons_cons, larger]
        rfl
      · cases isUpper

section
variable {reader : SortedFileGlobalIndexReader} {value : Nat → Option Bytes}

theorem Indexes.selects (indexes : Indexes reader value) {query : Query}
    (admitted : reader.admits query = true) {file : IndexFile} (isFile : file ∈ reader.files)
    {id : Nat} (inFile : id ∈ file.rows)
    (holds : query.holds reader.compareKeys (value id) = true) : file ∈ reader.select query := by
  have order := indexes.order
  refine mem_filter.mpr ⟨isFile, ?_⟩
  cases isValue : value id with
  | none =>
    have hasNulls := indexes.nulls file isFile id inFile isValue
    cases query <;> simp_all [Query.holds, selected]
  | some key =>
    obtain ⟨first, last, isFirst, isLast, lower, upper⟩ :=
      indexes.keys file isFile id inFile key isValue
    rw [isValue] at holds
    have notOnly : file.fileMeta.onlyNulls = false := by simp [onlyNulls, isFirst]
    have overlaps : ∀ literal, reader.compareKeys key literal = .eq →
        file.fileMeta.overlaps reader.compareKeys literal = true := by
      intro literal same
      have inRange := LeafFunction.accepts_range_of_accepts lower upper
        (show LeafFunction.equal.accepts (reader.compareKeys key literal) = true by
          simp [LeafFunction.accepts, same])
      simpa [overlaps, isFirst, isLast, LeafFunction.acceptsRange] using inRange
    cases query with
    | isNull => cases holds
    | isNotNull => simp [selected, notOnly]
    | isIn literals =>
      simp only [Query.holds, any_eq_true, Option.any_eq_true, beq_iff_eq] at holds
      obtain ⟨_, mem, literal, rfl, same⟩ := holds
      simp only [selected, notOnly, Bool.not_false, Bool.true_and, any_eq_true]
      exact ⟨some literal, mem, overlaps literal same⟩
    | notIn literals =>
      simp only [Query.holds, all_eq_true, Option.any_eq_true] at holds
      simp only [selected, notOnly, Bool.not_false, Bool.and_true, all_eq_true]
      intro literal mem
      obtain ⟨present, rfl, _⟩ := holds literal mem
      rfl
    | startsWith literal =>
      cases literal with
      | none => cases holds
      | some literal =>
        rw [indexes.string admitted] at lower upper ⊢
        have isPrefix : literal <+: key := by
          simpa [Query.holds, Predicates.startsWith] using holds
        have notBelow :=
          (Comparators.not_lt_iff_isLE _ _).mpr (TransCmp.isLE_trans (prefix_le isPrefix) upper)
        have notAbove : ∀ bound, prefixUpperBound literal = some bound →
            compare first bound = .lt := fun bound isBound =>
          TransCmp.lt_of_isLE_of_lt lower (lt_prefix_upper_bound isPrefix isBound)
        cases isBound : prefixUpperBound literal <;>
          simp_all [selected, compareFirstKey, compareLastKey]
    | comparison function literal =>
      cases literal with
      | none => cases holds
      | some literal =>
        have inRange := LeafFunction.accepts_range_of_accepts lower upper holds
        have first : reader.compareKeys first literal = (reader.compareKeys literal first).swap :=
          OrientedCmp.eq_swap
        have last : reader.compareKeys last literal = (reader.compareKeys literal last).swap :=
          OrientedCmp.eq_swap
        cases function <;>
          simp_all [LeafFunction.acceptsRange, selected, SortedIndexFileMeta.overlaps,
            compareFirstKey, compareLastKey, Ordering.swap_eq_lt, Ordering.swap_eq_gt]

section
variable {merged : Option (Finset Nat)} {results : List (Option (Finset Nat))}
  {files : List IndexFile} {query : Query} {ids : Finset Nat}

theorem merge_results_none :
    mergeResults merged results = none ↔ merged = none ∧ ∀ result ∈ results, result = none := by
  fun_induction mergeResults merged results <;> simp_all

theorem mem_merge_results (isMerged : mergeResults merged results = some ids) (id : Nat) :
    id ∈ ids ↔ (∃ found, merged = some found ∧ id ∈ found) ∨ ∃ found, some found ∈ results ∧
      id ∈ found := by
  fun_induction mergeResults merged results <;> simp_all [or_assoc]

theorem visit_selected_none : visitSelectedFiles files query = none ↔ Unanswered files query := by
  unfold visitSelectedFiles Unanswered
  split
  · simp_all
  · simp_all [merge_results_none]

variable (isAnswer : visitSelectedFiles files query = some ids)
include isAnswer

theorem not_unanswered : ¬Unanswered files query := by
  rw [← visit_selected_none, isAnswer]
  exact Option.some_ne_none ids

theorem mem_visit_selected (id : Nat) :
    id ∈ ids ↔ ∃ file ∈ files, ∃ found, file.visit query = some found ∧ id ∈ found := by
  unfold visitSelectedFiles at isAnswer
  split at isAnswer
  · case isTrue empty =>
    cases isAnswer
    simp [isEmpty_iff.mp empty]
  · rw [mem_merge_results isAnswer]
    simp only [mem_map, reduceCtorEq, false_and, exists_false, false_or]
    constructor
    · rintro ⟨found, ⟨file, isFile, answers⟩, inFound⟩
      exact ⟨file, isFile, found, answers, inFound⟩
    · rintro ⟨file, isFile, found, answers, inFound⟩
      exact ⟨found, ⟨file, isFile, answers⟩, inFound⟩

end

section
variable (indexes : Indexes reader value) {query : Query} {ids : Finset Nat}
include indexes

theorem Indexes.visit_found (isAnswer : reader.visitParallel query = some ids) {id : Nat}
    (mem : id ∈ ids) : Found reader value query id := by
  obtain ⟨file, isSelected, found, answers, inFound⟩ := (mem_visit_selected isAnswer id).mp mem
  have isFile := mem_of_mem_filter isSelected
  obtain ⟨inFile, holds⟩ := (indexes.readers file isFile query found answers id).mp inFound
  exact ⟨(indexes.total id).mp ⟨file, isFile, inFile⟩, holds⟩

theorem Indexes.visit_complete (admitted : reader.admits query = true)
    (isAnswer : reader.visitParallel query = some ids) :
    (∀ id, Found reader value query id → id ∈ ids) ↔
      ¬Unknown reader value (reader.select query) query := by
  constructor
  · rintro complete ⟨file, isSelected, unknown, id, inFile, holds⟩
    have isFile := mem_of_mem_filter isSelected
    have mem := complete id ⟨(indexes.total id).mp ⟨file, isFile, inFile⟩, holds⟩
    obtain ⟨other, isOther, found, answers, inFound⟩ := (mem_visit_selected isAnswer id).mp mem
    have otherFile := mem_of_mem_filter isOther
    have inOther := ((indexes.readers other otherFile query found answers id).mp inFound).1
    rw [← indexes.apart file isFile other otherFile id inFile inOther, unknown] at answers
    cases answers
  · intro known id isFound
    obtain ⟨file, isFile, inFile⟩ := (indexes.total id).mpr isFound.1
    have isSelected := indexes.selects admitted isFile inFile isFound.2
    rw [mem_visit_selected isAnswer]
    cases answers : file.visit query with
    | none => exact absurd ⟨file, isSelected, answers, id, inFile, isFound.2⟩ known
    | some found =>
      exact ⟨file, isSelected, found, answers,
        (indexes.readers file isFile query found answers id).mpr ⟨inFile, isFound.2⟩⟩

/-- An answer of the files that are asked is right unless one of them is passed over. -/
theorem Indexes.single_iff (query : Query) (isAsked : asked query = [query])
    (isVisit : reader.visit query =
      if reader.admits query then reader.visitParallel query else none) :
    Exact reader value query ↔ Guarded reader value query := by
  simp only [Exact, Guarded, isVisit, isAsked, visited, mem_singleton, exists_eq_left, forall_eq]
  cases admitted : reader.admits query with
  | false => simp [Unknown]
  | true =>
    rw [if_pos rfl, if_pos rfl]
    cases isAnswer : reader.visitParallel query with
    | none => simp [visit_selected_none.mp isAnswer]
    | some ids =>
      rw [← indexes.visit_complete admitted isAnswer, or_iff_right (not_unanswered isAnswer)]
      constructor
      · exact fun right id => (right ids rfl id).mpr
      · rintro complete _ ⟨⟩ id
        exact ⟨indexes.visit_found isAnswer, complete id⟩

theorem Indexes.others_iff (query other : Query) (isAsked : asked query = [.isNull, other])
    (isVisit : reader.visit query = reader.visitOthers other)
    (admitted : reader.admits other = true) (absent : query.holds reader.compareKeys none = false)
    (otherAbsent : other.holds reader.compareKeys none = false)
    (splits : ∀ key, query.holds reader.compareKeys (some key) =
      !other.holds reader.compareKeys (some key)) :
    Exact reader value query ↔ Guarded reader value query := by
  have allNulls : reader.admits .isNull = true := rfl
  simp only [Exact, Guarded, isVisit, isAsked, visitOthers, visited, mem_cons,
    not_mem_nil, or_false, exists_eq_or_imp, exists_eq_left, forall_eq_or_imp, forall_eq,
    admitted, allNulls, if_true]
  cases isNulls : reader.visitParallel .isNull with
  | none => simp [visit_selected_none.mp isNulls]
  | some nulls =>
    cases isFound : reader.visitParallel other with
    | none => simp [visit_selected_none.mp isFound]
    | some found =>
      have areNulls : ∀ id ∈ nulls, Found reader value .isNull id :=
        fun _ => indexes.visit_found isNulls
      have areFound : ∀ id ∈ found, Found reader value other id :=
        fun _ => indexes.visit_found isFound
      have answered := not_or.mpr ⟨not_unanswered isNulls, not_unanswered isFound⟩
      rw [← indexes.visit_complete rfl isNulls, ← indexes.visit_complete admitted isFound]
      simp only [Option.some.injEq, forall_eq', complement, foldl_cons, foldl_nil,
        Finset.mem_sdiff, Finset.mem_range]
      have isNull : ∀ entry, Query.isNull.holds reader.compareKeys entry = entry.isNone :=
        fun _ => rfl
      have nullOrKey := fun id => Option.eq_none_or_eq_some (value id)
      unfold Found at *
      grind

end

theorem visit_is_not_null : reader.visit .isNotNull = reader.visitOthers (.isIn []) := by
  have none : reader.visitParallel (.isIn []) = some ∅ := by
    simp [visitParallel, select, visitSelectedFiles, selected]
  unfold visit visitOthers
  rw [none]
  cases reader.visitParallel .isNull <;> simp [complement]

theorem visit_scan (query : Query) :
    (if reader.fallbackScanMaxSize ≤ 0 then none else reader.visitFallbackParallel query) =
      if reader.fallbackScanEnabled (reader.select query) then reader.visitParallel query
        else none := by
  unfold visitFallbackParallel visitParallel visitSelectedFiles fallbackScanEnabled
  by_cases pos : reader.fallbackScanMaxSize ≤ 0
  · simp [pos, Int.not_lt.mpr pos]
  · cases reader.select query <;> simp [pos, Int.not_le.mp pos, fitsFrom]

/-- The answer of the index is unknown or exact, for every query, just if no answer is used in
which a file with a matching row was passed over. -/
theorem sorted_index_exact_iff_guarded (indexes : Indexes reader value) (query : Query) :
    Exact reader value query ↔ Guarded reader value query := by
  have single := indexes.single_iff query
  have others := indexes.others_iff query
  have refused : reader.select query = [] → ¬Unknown reader value (reader.visited query) query := by
    intro isEmpty
    simp [visited, isEmpty, Unknown]
  cases query with
  | isNull | isIn => exact single rfl rfl
  | isNotNull => exact others _ rfl visit_is_not_null rfl rfl rfl (fun _ => rfl)
  | notIn literals =>
    by_cases nullLiteral : none ∈ literals
    · have never : ∀ entry, (Query.notIn literals).holds reader.compareKeys entry = false := by
        intro entry
        cases entry with
        | none => rfl
        | some key => exact all_eq_false.mpr ⟨none, nullLiteral, by simp⟩
      simp [Exact, Guarded, visit, asked, nullLiteral, Found, never]
    · have splits : ∀ key, (Query.notIn literals).holds reader.compareKeys (some key) =
          !(Query.isIn literals).holds reader.compareKeys (some key) := by
        intro key
        rw [Bool.eq_iff_iff]
        simp only [Query.holds, not_any_eq_all_not, all_eq_true]
        refine forall₂_congr (fun literal member => ?_)
        cases literal with
        | none => exact absurd member nullLiteral
        | some literal => rfl
      exact others (.isIn literals) (by simp [asked, nullLiteral]) (by simp [visit, nullLiteral])
        rfl rfl rfl splits
  | startsWith literal =>
    cases literal with
    | none => simp [Exact, Guarded, visit, asked, refused, select, selected]
    | some literal => exact single rfl rfl
  | comparison function literal =>
    cases literal with
    | none =>
      cases function
      case equal => exact single rfl rfl
      case notEqual => simp [Exact, Guarded, visit, asked, Found, Query.holds]
      all_goals simp [Exact, Guarded, visit, asked, refused, select, selected]
    | some literal =>
      cases function
      case equal => exact single rfl rfl
      case notEqual => exact others _ rfl rfl rfl rfl rfl (fun _ => rfl)
      all_goals exact single rfl (visit_scan _)

end

section
variable (second : Bytes)

/-- Row 0 has the empty key. -/
def rowKey (id : Nat) : Option Bytes := if id = 0 then some [] else some second

/-- The reader of the first file knows no answer, that of the second knows each. -/
def twoFiles : SortedFileGlobalIndexReader where
  compareKeys := compare
  isString := true
  files :=
    [⟨⟨some [], some [], false⟩, 10, fun _ => none, {0}⟩,
      ⟨⟨some second, some second, false⟩, 10,
        fun query => some (if query.holds compare (some second) then {1} else ∅), {1}⟩]
  fallbackScanMaxSize := 0
  totalRowCount := 2

theorem two_files_indexed : Indexes (twoFiles second) (rowKey second) where
  order := inferInstanceAs (TransCmp (compare : Bytes → Bytes → Ordering))
  string := fun _ => rfl
  total := by
    intro id
    simp [twoFiles]
    omega
  apart := by simp [twoFiles]
  nulls := by simp [twoFiles, rowKey]
  keys := by simp [twoFiles, rowKey]
  readers := by
    simp only [twoFiles, rowKey, mem_cons, not_mem_nil, or_false, forall_eq_or_imp,
      forall_eq, reduceCtorEq, false_imp_iff, implies_true, true_and, Option.some.injEq]
    rintro query _ rfl id
    split <;> simp_all

end

/-- The row of the file that is passed over is lost. -/
theorem passed_over_row_lost : Indexes (twoFiles []) (rowKey []) ∧
    (twoFiles []).visit (.comparison .equal (some [])) = some {1} ∧
      Found (twoFiles []) (rowKey []) (.comparison .equal (some [])) 0 ∧
        ¬Exact (twoFiles []) (rowKey []) (.comparison .equal (some [])) := by
  have answer : (twoFiles []).visit (.comparison .equal (some [])) = some {1} := by decide
  have isFound : Found (twoFiles []) (rowKey []) (.comparison .equal (some [])) 0 :=
    ⟨by decide, by decide⟩
  refine ⟨two_files_indexed [], answer, isFound, fun exact => ?_⟩
  exact absurd ((exact _ answer 0).mpr isFound) (by decide)

/-- A query that selects no file is answered from the metadata alone. Of two files with different
keys only the one with the key is asked, and it answers. -/
theorem other_key_exact :
    (Exact (twoFiles []) (rowKey []) (.comparison .notEqual (some [Fin.last 255])) ∧
      (twoFiles []).visit (.comparison .notEqual (some [Fin.last 255])) = some {0, 1}) ∧
    Exact (twoFiles [1]) (rowKey [1]) (.comparison .equal (some [1])) ∧
      ((twoFiles [1]).visited (.comparison .equal (some [1]))).map IndexFile.rows = [{1}] ∧
      (twoFiles [1]).visit (.comparison .equal (some [1])) = some {1} := by
  constructor
  · refine ⟨(sorted_index_exact_iff_guarded (two_files_indexed []) _).mpr (Or.inr ?_), by decide⟩
    intro base isAsked
    have unselected : ∀ base ∈ asked (.comparison .notEqual (some [Fin.last 255])),
        (twoFiles []).visited base = [] := by decide
    simp [Unknown, unselected base isAsked]
  · refine ⟨(sorted_index_exact_iff_guarded (two_files_indexed [1]) _).mpr (Or.inr ?_),
      by decide, by decide⟩
    intro base isAsked
    rw [mem_singleton.mp isAsked]
    rintro ⟨file, isVisited, unknown, -⟩
    have answers : ∀ file ∈ (twoFiles [1]).visited (.comparison .equal (some [1])),
        (file.visit (.comparison .equal (some [1]))).isSome := by decide
    have answer := answers file isVisited
    rw [unknown] at answer
    cases answer

end PaimonCore.SortedIndex
