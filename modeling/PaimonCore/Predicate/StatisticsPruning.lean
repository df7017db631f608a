import PaimonCore.Predicate.LeafStatistics
import PaimonCore.Predicate.Predicate

/-!
# Pruning by statistics

A file is skipped when the predicate is false on its statistics. Over any tree of AND and OR
this loses no row, and the test has a verdict, as long as no comparison with a null literal
meets bounds without a null count.
-/

namespace PaimonCore.Predicates

open Std List Predicate

/-- A predicate as the builder makes it over columns of the given types. -/
inductive WellTyped (types : List FieldType) : Predicate → Prop where
  | leaf {function : LeafFunction} {fieldIndex : Nat} {fieldType : FieldType}
      {literals : List Literal} (column : types[fieldIndex]? = some fieldType)
      (supported : fieldType.comparison.isSome = true)
      (built : LeafFunction.Built function fieldType literals) :
      WellTyped types (.leaf function fieldIndex fieldType literals)
  | compound {function : CompoundFunction} {children : List Predicate}
      (typed : ∀ child ∈ children, WellTyped types child) :
      WellTyped types (.compound function children)

def Stats.column (stats : Stats) (fieldIndex : Nat) (fieldType : FieldType) : FieldStats where
  rowCount := stats.rowCount
  minValue := ⟨fieldType, stats.minValues[fieldIndex]?.join⟩
  maxValue := ⟨fieldType, stats.maxValues[fieldIndex]?.join⟩
  nullCount := stats.nullCounts[fieldIndex]?.join

structure Stats.Describe (stats : Stats) (types : List FieldType) (rows : List Row) : Prop where
  widths : ∀ row ∈ rows, row.length = types.length
  columns : ∀ fieldIndex fieldType comparison, types[fieldIndex]? = some fieldType →
    fieldType.comparison = some comparison →
    (stats.column fieldIndex fieldType).Describes fieldType comparison
      (rows.map (fun row => row[fieldIndex]?.join))

/-- The leaves asked by the children of AND or OR, up to the first child that decides or fails. -/
def askedChildren (decisive : Bool) : List (Except String Bool × List Predicate) → List Predicate
  | [] => []
  | (.error _, leaves) :: _ => leaves
  | (.ok verdict, leaves) :: rest =>
    leaves ++ if verdict = decisive then [] else askedChildren decisive rest

/-- The leaves that the test of the statistics asks. -/
def Predicate.asked (stats : Stats) : Predicate → List Predicate
  | leaf function fieldIndex fieldType literals => [leaf function fieldIndex fieldType literals]
  | compound function children => askedChildren function.decisive
    (children.map fun child => (child.testStats stats, asked stats child))

/-- A null literal, on a column with known bounds and an unknown null count. -/
def UnguardedOn (stats : Stats) : Predicate → Prop
  | .leaf function fieldIndex fieldType literals =>
    LeafFunction.Unguarded function (stats.column fieldIndex fieldType) literals
  | .compound _ _ => False

/-- A verdict that is true if a row satisfies the predicate, and an excluding negation. -/
structure Prunes (types : List FieldType) (stats : Stats) (rows : List Row)
    (predicate : Predicate) : Prop where
  answers : ∃ verdict, predicate.testStats stats = .ok verdict
  keeps : ∀ row ∈ rows, predicate.test row = .ok true → predicate.testStats stats = .ok true
  excludes : ∀ negated, predicate.negate = some negated → ∀ row, row.length = types.length →
    negated.test row = .ok true → predicate.test row = .ok false

theorem test_children_ok (decisive : Bool) (verdicts : List Bool) :
    testChildren decisive (verdicts.map Except.ok) =
      .ok (if decisive ∈ verdicts then decisive else !decisive) := by
  induction verdicts with
  | nil => simp [testChildren]
  | cons verdict verdicts ih =>
    rw [map_cons, testChildren, ih]
    by_cases same : verdict = decisive
    · simp [same, bind, Except.bind, pure, Except.pure]
    · have other : decisive ≠ verdict := fun isSame => same isSame.symm
      simp [same, other, bind, Except.bind]

theorem test_children_decisive {decisive : Bool} {verdicts : List (Except String Bool)}
    (decided : testChildren decisive verdicts = .ok decisive) : .ok decisive ∈ verdicts := by
  induction verdicts with
  | nil => cases decisive <;> simp [testChildren] at decided
  | cons verdict verdicts ih =>
    rw [testChildren] at decided
    cases verdict with
    | error message => simp [bind, Except.bind] at decided
    | ok verdict =>
      by_cases same : verdict = decisive
      · simp [same]
      · simp only [bind, Except.bind, same, if_false] at decided
        exact mem_cons_of_mem _ (ih decided)

theorem test_children_passed {decisive : Bool} {verdicts : List (Except String Bool)}
    (passed : testChildren decisive verdicts = .ok !decisive) :
    ∀ verdict ∈ verdicts, verdict = .ok !decisive := by
  induction verdicts with
  | nil => simp
  | cons verdict verdicts ih =>
    rw [testChildren] at passed
    cases verdict with
    | error message => simp [bind, Except.bind] at passed
    | ok verdict =>
      by_cases same : verdict = decisive
      · cases decisive <;> simp [same, bind, Except.bind, pure, Except.pure] at passed
      · simp only [bind, Except.bind, same, if_false] at passed
        refine forall_mem_cons.mpr ⟨?_, ih passed⟩
        cases verdict <;> cases decisive <;> simp_all

section
variable {types : List FieldType} {stats : Stats} {rows : List Row} {predicate : Predicate}

variable {fieldType : FieldType}

theorem convert_literal_eq (supported : fieldType.comparison.isSome = true) (row : Row)
    (fieldIndex : Nat) :
    convertLiteralFromRow row fieldIndex fieldType = .ok ⟨fieldType, row[fieldIndex]?.join⟩ := by
  unfold convertLiteralFromRow
  cases row[fieldIndex]?.join with
  | none => rfl
  | some value => simp [supported]

variable {literals : List Literal} {function : LeafFunction}

theorem test_leaf_stats_eq {fieldIndex : Nat} (supported : fieldType.comparison.isSome = true) :
    (Predicate.leaf function fieldIndex fieldType literals).testStats stats =
      function.testFieldStats (stats.column fieldIndex fieldType) literals := by
  rw [testStats, testLeafStats, Stats.field, convert_literal_eq supported,
    convert_literal_eq supported]
  rfl

theorem test_leaf_eq {fieldIndex : Nat} (supported : fieldType.comparison.isSome = true)
    {row : Row} (inside : fieldIndex < row.length) :
    (Predicate.leaf function fieldIndex fieldType literals).test row =
      function.test ⟨fieldType, row[fieldIndex]?.join⟩ literals := by
  rw [test, testLeaf, if_neg (by omega), convert_literal_eq supported]
  rfl

theorem column_inside {fieldIndex : Nat} (column : types[fieldIndex]? = some fieldType) :
    fieldIndex < types.length :=
  (List.getElem?_eq_some_iff.mp column).1

/-- All children have answered, or one decided, exactly if no leaf was asked that fails. -/
theorem children_answer_iff {children : List Predicate} {decisive : Bool} {fails : Predicate → Prop}
    (each : ∀ child ∈ children, (∃ verdict, child.testStats stats = .ok verdict) ↔
      ∀ leaf ∈ child.asked stats, ¬fails leaf) :
    (∃ verdict, testChildren decisive (children.map (testStats stats)) = .ok verdict) ↔
      ∀ leaf ∈ askedChildren decisive
        (children.map fun child => (child.testStats stats, child.asked stats)), ¬fails leaf := by
  induction children with
  | nil => simp [testChildren, askedChildren]
  | cons child children ih =>
    obtain ⟨here, later⟩ := forall_mem_cons.mp each
    rw [map_cons, map_cons, testChildren]
    cases isVerdict : child.testStats stats with
    | error message =>
      rw [isVerdict] at here
      simpa [askedChildren, bind, Except.bind] using here
    | ok verdict =>
      have guarded := here.mp ⟨verdict, isVerdict⟩
      by_cases decides : verdict = decisive
      · simpa [askedChildren, decides, bind, Except.bind, pure, Except.pure] using guarded
      · simp only [askedChildren, decides, if_false, bind, Except.bind, forall_mem_append]
        exact (ih later).trans (and_iff_right guarded).symm

theorem LeafFunction.negate_built {negated : LeafFunction}
    (isNegated : function.negate = some negated) (built : Built function fieldType literals) :
    Built negated fieldType literals := by
  refine ⟨built.typed, ?_, ?_⟩
  · intro isBinary
    apply built.single
    cases function <;> cases isNegated <;> first | rfl | cases isBinary
  · intro isString
    cases function <;> cases isNegated <;> cases isString

theorem hit_of_found {hits : LiteralValue → Bool}
    (found : literals.any (fun literal => literal.value.any hits) = true) :
    literals.any (fun literal => literal.value.all hits) = true := by
  rw [any_eq_true] at found ⊢
  obtain ⟨literal, mem, hit⟩ := found
  obtain ⟨value, isValue, valueHit⟩ := (Option.any_eq_true _ _).mp hit
  exact ⟨literal, mem, by rw [isValue]; exact valueHit⟩

theorem LeafFunction.negate_excludes {negated : LeafFunction}
    {comparison : LiteralValue → LiteralValue → Ordering}
    (supported : fieldType.comparison = some comparison)
    (isNegated : function.negate = some negated) (built : Built function fieldType literals)
    (value : Option LiteralValue) :
    ∃ verdict other, function.test ⟨fieldType, value⟩ literals = .ok verdict ∧
      negated.test ⟨fieldType, value⟩ literals = .ok other ∧ (other = true → verdict = false) := by
  have negatedBuilt := negate_built isNegated built
  cases value with
  | none =>
    refine ⟨_, _, test_null built, test_null negatedBuilt, ?_⟩
    cases function <;> cases isNegated <;> decide
  | some value =>
    cases isBinary : function.isBinary with
    | true =>
      cases literals with
      | nil => exact absurd rfl (built.single isBinary)
      | cons literal literals =>
        have negatedBinary : negated.isBinary = true := by
          cases function <;> cases isNegated <;> first | rfl | cases isBinary
        rw [test_binary isBinary, test_binary negatedBinary]
        obtain ⟨literalType, literalValue⟩ := literal
        cases built.typed _ mem_cons_self
        cases literalValue with
        | none => exact ⟨false, false, rfl, rfl, by decide⟩
        | some literal =>
          have notString : function.isString = false := by
            cases function <;> first | rfl | cases isNegated
          have negatedNotString : negated.isString = false := by
            cases function <;> cases isNegated <;> rfl
          refine ⟨_, _, test_field_eq supported notString value literal,
            test_field_eq supported negatedNotString value literal, ?_⟩
          cases comparison value literal <;> cases function <;> cases isNegated <;> decide
    | false =>
      cases function <;> cases isNegated <;> cases isBinary
      · refine ⟨_, _, test_in_eq supported built.typed value,
          test_not_in_eq supported built.typed value, ?_⟩
        intro notFound
        cases found : literals.any _ with
        | false => rfl
        | true => simp [hit_of_found found] at notFound
      · refine ⟨_, _, test_not_in_eq supported built.typed value,
          test_in_eq supported built.typed value, ?_⟩
        intro found
        rw [hit_of_found found]
        rfl
      · exact ⟨false, true, rfl, rfl, fun _ => rfl⟩
      · exact ⟨true, false, rfl, rfl, by decide⟩

theorem excluding_children {children negatedChildren : List Predicate} {row : Row}
    (excluding : ∀ child ∈ children, ∀ negated, child.negate = some negated →
      ∃ verdict other, child.test row = .ok verdict ∧ negated.test row = .ok other ∧
        (other = true → verdict = false))
    (areNegated : (children.map Predicate.negate).mapM id = some negatedChildren) :
    ∃ verdicts others : List Bool, children.map (Predicate.test row) = verdicts.map Except.ok ∧
      negatedChildren.map (Predicate.test row) = others.map Except.ok ∧
      List.Forall₂ (fun verdict other => other = true → verdict = false) verdicts others := by
  induction children generalizing negatedChildren with
  | nil =>
    cases areNegated
    exact ⟨[], [], rfl, rfl, .nil⟩
  | cons child children ih =>
    rw [map_cons, mapM_cons] at areNegated
    cases isNegated : child.negate with
    | none => simp [isNegated] at areNegated
    | some negated =>
      cases laterNegated : (children.map negate).mapM id with
      | none => simp [isNegated, laterNegated] at areNegated
      | some laterChildren =>
        simp only [isNegated, laterNegated, id, Option.bind_eq_bind, Option.bind_some,
          Option.pure_def, Option.some.injEq] at areNegated
        subst areNegated
        obtain ⟨verdict, other, isVerdict, isOther, exclude⟩ :=
          excluding child mem_cons_self negated isNegated
        obtain ⟨verdicts, others, areVerdicts, areOthers, excludeLater⟩ :=
          ih (forall_mem_cons.mp excluding).2
            laterNegated
        refine ⟨verdict :: verdicts, other :: others, ?_, ?_, .cons exclude excludeLater⟩
        · rw [map_cons, map_cons, isVerdict, areVerdicts]
        · rw [map_cons, map_cons, isOther, areOthers]

theorem excluded_verdicts {verdicts others : List Bool}
    (exclude : List.Forall₂ (fun verdict other => other = true → verdict = false) verdicts others) :
    (true ∈ others → false ∈ verdicts) ∧ (false ∉ others → true ∉ verdicts) := by
  induction exclude with
  | nil => simp
  | @cons verdict other _ _ excludes _ ih => cases verdict <;> cases other <;> simp_all

theorem negate_excludes {negated : Predicate} (typed : WellTyped types predicate)
    (isNegated : predicate.negate = some negated) {row : Row} (width : row.length = types.length) :
    ∃ verdict other, predicate.test row = .ok verdict ∧ negated.test row = .ok other ∧
      (other = true → verdict = false) := by
  induction typed generalizing negated with
  | @leaf function fieldIndex fieldType literals column supported built =>
    rw [negate] at isNegated
    cases isFunction : function.negate with
    | none => simp [isFunction] at isNegated
    | some negatedFunction =>
      simp only [isFunction, Option.bind_eq_bind, Option.bind_some, Option.pure_def,
        Option.some.injEq] at isNegated
      subst isNegated
      have inside : fieldIndex < row.length := by
        rw [width]
        exact column_inside column
      obtain ⟨comparison, isComparison⟩ := Option.isSome_iff_exists.mp supported
      rw [test_leaf_eq supported inside, test_leaf_eq supported inside]
      exact LeafFunction.negate_excludes isComparison isFunction built _
  | @compound function children _ ih =>
    rw [negate] at isNegated
    cases areNegated : (children.map negate).mapM id with
    | none => simp [areNegated] at isNegated
    | some negatedChildren =>
      simp only [areNegated, Option.bind_eq_bind, Option.bind_some, Option.pure_def,
        Option.some.injEq] at isNegated
      subst isNegated
      obtain ⟨verdicts, others, areVerdicts, areOthers, exclude⟩ := excluding_children
        (fun child mem negated isChild => ih child mem isChild) areNegated
      refine ⟨_, _, by rw [test, areVerdicts, test_children_ok],
        by rw [test, areOthers, test_children_ok], ?_⟩
      intro accepted
      cases function with
      | and =>
        have someTrue : true ∈ others := by
          simpa [CompoundFunction.negate, CompoundFunction.decisive] using accepted
        simp [CompoundFunction.decisive, (excluded_verdicts exclude).1 someTrue]
      | or =>
        have allTrue : false ∉ others := by
          simpa [CompoundFunction.negate, CompoundFunction.decisive] using accepted
        simp [CompoundFunction.decisive, (excluded_verdicts exclude).2 allTrue]

section
variable (typed : WellTyped types predicate)
include typed

theorem unguarded_fails (unguarded : UnguardedOn stats predicate) :
    predicate.testStats stats = .error "cannot compare with null" := by
  cases typed with
  | leaf _ supported built =>
    rw [test_leaf_stats_eq supported]
    exact LeafFunction.test_field_stats_fails built rfl rfl unguarded
  | compound _ => cases unguarded

theorem answers_iff_guarded (describe : stats.Describe types rows) :
    (∃ verdict, predicate.testStats stats = .ok verdict) ↔
      ∀ leaf ∈ predicate.asked stats, ¬UnguardedOn stats leaf := by
  induction typed with
  | @leaf function fieldIndex fieldType literals column supported built =>
    obtain ⟨comparison, isComparison⟩ := Option.isSome_iff_exists.mp supported
    rw [asked, forall_mem_singleton]
    constructor
    · rintro ⟨verdict, isVerdict⟩ unguarded
      rw [unguarded_fails (.leaf column supported built) unguarded] at isVerdict
      cases isVerdict
    · intro guarded
      obtain ⟨verdict, isVerdict, _⟩ := LeafFunction.test_field_stats_sound isComparison
        (describe.columns fieldIndex fieldType comparison column isComparison) built guarded
      exact ⟨verdict, (test_leaf_stats_eq supported).trans isVerdict⟩
  | @compound function children _ ih =>
    rw [testStats, asked]
    exact children_answer_iff ih

/-- Whatever the verdict rests on, a row that satisfies the predicate makes it true. -/
theorem verdict_keeps (describe : stats.Describe types rows)
    {verdict : Bool} (tests : predicate.testStats stats = .ok verdict) {row : Row}
    (mem : row ∈ rows) (accepted : predicate.test row = .ok true) : verdict = true := by
  induction typed generalizing verdict with
  | @leaf function fieldIndex fieldType literals column supported built =>
    obtain ⟨comparison, isComparison⟩ := Option.isSome_iff_exists.mp supported
    have guarded : ¬UnguardedOn stats (.leaf function fieldIndex fieldType literals) := by
      intro unguarded
      rw [unguarded_fails (.leaf column supported built) unguarded] at tests
      cases tests
    obtain ⟨other, isOther, sound⟩ := LeafFunction.test_field_stats_sound isComparison
      (describe.columns fieldIndex fieldType comparison column isComparison) built guarded
    have inside : fieldIndex < row.length := by
      rw [describe.widths row mem]
      exact column_inside column
    rw [test_leaf_stats_eq supported, isOther, Except.ok.injEq] at tests
    rw [test_leaf_eq supported inside] at accepted
    rw [← tests]
    exact sound _ (mem_map_of_mem mem) accepted
  | @compound function children _ ih =>
    rw [testStats] at tests
    rw [test] at accepted
    by_contra isFalse
    rw [Bool.not_eq_true] at isFalse
    subst isFalse
    cases function with
    | and =>
      obtain ⟨child, isChild, childFalse⟩ := mem_map.mp (test_children_decisive tests)
      have childTrue := test_children_passed accepted _ (mem_map_of_mem isChild)
      cases ih child isChild childFalse childTrue
    | or =>
      obtain ⟨child, isChild, childTrue⟩ := mem_map.mp (test_children_decisive accepted)
      have childFalse := test_children_passed tests _ (mem_map_of_mem isChild)
      cases ih child isChild childFalse childTrue

end

/-- Statistics prune soundly exactly when the test asks no comparison with a null literal on
bounds without a null count. -/
theorem statistics_prune_iff_guarded (typed : WellTyped types predicate)
    (describe : stats.Describe types rows) : Prunes types stats rows predicate ↔
      ∀ leaf ∈ predicate.asked stats, ¬UnguardedOn stats leaf := by
  rw [← answers_iff_guarded typed describe]
  constructor
  · exact Prunes.answers
  · rintro ⟨verdict, isVerdict⟩
    refine ⟨⟨verdict, isVerdict⟩, ?_, ?_⟩
    · intro row mem accepted
      rw [isVerdict, verdict_keeps typed describe isVerdict mem accepted]
    · intro negated isNegated row width accepted
      obtain ⟨verdict, other, isVerdict, isOther, exclude⟩ := negate_excludes typed isNegated width
      rw [isOther, Except.ok.injEq] at accepted
      rw [isVerdict, exclude accepted]

end

def twoRows : List Row := [[some (.integer 1), none], [some (.integer 3), some (.integer 5)]]

/-- The null count of the second column only is known. -/
def halfCounted : Stats where
  rowCount := 2
  minValues := [some (.integer 1), some (.integer 5)]
  maxValues := [some (.integer 3), some (.integer 5)]
  nullCounts := [none, some 1]

theorem half_counted_describes : halfCounted.Describe [.int, .int] twoRows where
  widths := by decide
  columns := by
    intro fieldIndex fieldType comparison column supported
    match fieldIndex, column with
    | 0, rfl =>
      cases supported
      refine ⟨rfl, rfl, rfl, ?_, ?_, ?_, ?_⟩ <;>
        simp [halfCounted, twoRows, Stats.column] <;> decide
    | 1, rfl =>
      cases supported
      refine ⟨rfl, rfl, rfl, ?_, ?_, ?_, ?_⟩ <;>
        simp [halfCounted, twoRows, Stats.column] <;> decide

def equalTo (value : Option LiteralValue) : Predicate := .leaf .equal 0 .int [⟨.int, value⟩]

theorem equal_to_typed (value : Option LiteralValue) : WellTyped [.int, .int] (equalTo value) :=
  .leaf rfl rfl ⟨by simp, by simp, by decide⟩

theorem null_literal_fails_on_statistics :
    WellTyped [.int, .int] (equalTo none) ∧ halfCounted.Describe [.int, .int] twoRows ∧
      (equalTo none).testStats halfCounted = .error "cannot compare with null" := by
  refine ⟨equal_to_typed none, half_counted_describes, ?_⟩
  rw [equalTo, testStats]
  rfl

/-- OR stops before the comparison with null. -/
def nullUnasked : Predicate :=
  .compound .and [.compound .or [equalTo (some (.integer 1)), equalTo none],
    .leaf .isNull 1 .int []]

theorem null_unasked_pruned : Prunes [.int, .int] halfCounted twoRows nullUnasked ∧
    ¬Prunes [.int, .int] halfCounted twoRows (equalTo none) := by
  have typed : WellTyped [.int, .int] nullUnasked := by
    refine .compound (forall_mem_cons.mpr ⟨.compound ?_, forall_mem_singleton.mpr ?_⟩)
    · exact forall_mem_cons.mpr ⟨equal_to_typed _, forall_mem_singleton.mpr (equal_to_typed none)⟩
    · exact .leaf rfl rfl ⟨by simp, nofun, nofun⟩
  have first : testLeafStats halfCounted .equal 0 .int [⟨.int, some (.integer 1)⟩] = .ok true := rfl
  have second : testLeafStats halfCounted .isNull 1 .int [] = .ok true := rfl
  have asked : nullUnasked.asked halfCounted =
      [equalTo (some (.integer 1)), .leaf .isNull 1 .int []] := by
    simp [nullUnasked, Predicate.asked, askedChildren, testStats, testChildren, first, second,
      equalTo, CompoundFunction.decisive, bind, Except.bind, pure, Except.pure]
  constructor
  · apply (statistics_prune_iff_guarded typed half_counted_describes).mpr
    rw [asked]
    simp [UnguardedOn, LeafFunction.Unguarded, LeafFunction.isBinary, equalTo, Literal.isNull]
  · rw [statistics_prune_iff_guarded (equal_to_typed none) half_counted_describes, equalTo,
      Predicate.asked]
    simp [UnguardedOn, LeafFunction.Unguarded, LeafFunction.isBinary, LeafFunction.isString,
      Literal.isNull, halfCounted, Stats.column]

end PaimonCore.Predicates
