import PaimonCore.Predicate.LeafFunction

/-!
# Statistics of one field

The statistics of a field describe its values. A leaf function that is true on one of the
values is true on the statistics, and its test fails only where a null literal meets bounds
without a null count.
-/

namespace PaimonCore.Predicates

open Std List

/-- The known bounds hold, a known null count is exact, and a column of nulls has no bounds. -/
structure FieldStats.Describes (stats : FieldStats) (fieldType : FieldType)
    (comparison : LiteralValue → LiteralValue → Ordering)
    (values : List (Option LiteralValue)) : Prop where
  rowCount : stats.rowCount = values.length
  minType : stats.minValue.fieldType = fieldType
  maxType : stats.maxValue.fieldType = fieldType
  lower : ∀ low, stats.minValue.value = some low → ∀ value, some value ∈ values →
    (comparison low value).isLE = true
  upper : ∀ high, stats.maxValue.value = some high → ∀ value, some value ∈ values →
    (comparison value high).isLE = true
  nulls : ∀ count, stats.nullCount = some count → count = (values.countP Option.isNone : Nat)
  bare : (∀ value ∈ values, value = none) →
    stats.minValue.value = none ∧ stats.maxValue.value = none

theorem prefix_le {pattern field : Bytes} (isPrefix : pattern <+: field) :
    (compare pattern field).isLE = true := by
  induction pattern generalizing field with
  | nil => cases field <;> simp
  | cons byte pattern ih =>
    obtain ⟨suffix, rfl⟩ := isPrefix
    rw [List.cons_append, List.compare_cons_cons, ReflOrd.compare_self]
    exact ih ⟨suffix, rfl⟩

theorem below_prefixed {pattern low field : Bytes} (isPrefix : pattern <+: field)
    (below : (compare low field).isLE = true) : pattern <+: low ∨ compare low pattern ≠ .gt := by
  induction pattern generalizing low field with
  | nil => exact Or.inl nil_prefix
  | cons byte pattern ih =>
    obtain ⟨suffix, rfl⟩ := isPrefix
    cases low with
    | nil => exact Or.inr (by simp)
    | cons first low =>
      rw [List.cons_append, List.compare_cons_cons] at below
      rw [List.compare_cons_cons]
      cases verdict : compare first byte with
      | lt => exact Or.inr (by simp)
      | gt => simp [verdict] at below
      | eq =>
        have same : first = byte := LawfulEqOrd.eq_of_compare verdict
        subst same
        rw [verdict] at below
        rcases ih ⟨suffix, rfl⟩ below with inner | inner
        · exact Or.inl (cons_prefix_cons.mpr ⟨rfl, inner⟩)
        · exact Or.inr (by simpa using inner)

theorem starts_with_range {pattern low field high : Bytes} (isPrefix : pattern <+: field)
    (lower : (compare low field).isLE = true) (upper : (compare field high).isLE = true) :
    ((startsWith low pattern || compare low pattern != .gt) &&
      (startsWith high pattern || compare high pattern != .lt)) = true := by
  have maxHolds : compare high pattern ≠ .lt := by
    rw [Comparators.not_lt_iff_isLE]
    exact TransCmp.isLE_trans (prefix_le isPrefix) upper
  rcases below_prefixed isPrefix lower with inner | inner
  · simp [startsWith, inner, maxHolds]
  · simp [inner, maxHolds]

theorem compare_to_of_type {fieldType : FieldType}
    {comparison : LiteralValue → LiteralValue → Ordering}
    (supported : fieldType.comparison = some comparison) (left right : LiteralValue) :
    Literal.compareTo ⟨fieldType, some left⟩ ⟨fieldType, some right⟩ =
      .ok (comparison left right) := by
  simp [Literal.compareTo, supported]

namespace LeafFunction

/-- What the statistics test of a comparison function asks of the literal's position. -/
def acceptsRange : LeafFunction → Ordering → Ordering → Bool
  | equal, minRes, maxRes => minRes != .lt && maxRes != .gt
  | notEqual, minRes, maxRes => minRes != .eq || maxRes != .eq
  | lessThan, minRes, _ => minRes == .gt
  | lessOrEqual, minRes, _ => minRes != .lt
  | greaterThan, _, maxRes => maxRes == .lt
  | greaterOrEqual, _, maxRes => maxRes != .gt
  | _, _, _ => true

section
variable {Value : Type} {comparison : Value → Value → Ordering} [TransCmp comparison]
  {low value high literal : Value}

theorem accepts_range_of_accepts {function : LeafFunction}
    (lower : (comparison low value).isLE = true) (upper : (comparison value high).isLE = true)
    (accepted : function.accepts (comparison value literal) = true) :
    function.acceptsRange (comparison literal low) (comparison literal high) = true := by
  have belowMin : comparison value literal ≠ .gt → comparison literal low ≠ .lt := by
    rw [Comparators.not_lt_iff_isLE, Comparators.not_gt_iff_isLE]
    exact TransCmp.isLE_trans lower
  have aboveMin : comparison value literal = .lt → comparison literal low = .gt :=
    fun below => OrientedCmp.gt_of_lt (TransCmp.lt_of_isLE_of_lt lower below)
  have aboveMax : comparison value literal ≠ .lt → comparison literal high ≠ .gt := by
    rw [Comparators.not_gt_iff_isLE, Comparators.not_lt_iff_isLE]
    exact fun above => TransCmp.isLE_trans above upper
  have belowMax : comparison value literal = .gt → comparison literal high = .lt :=
    fun above => TransCmp.lt_of_lt_of_isLE (OrientedCmp.lt_of_gt above) upper
  cases function <;> cases verdict : comparison value literal <;>
    simp_all [accepts, acceptsRange]

end

section
variable {fieldType : FieldType} {comparison : LiteralValue → LiteralValue → Ordering}
  {stats : FieldStats} {values : List (Option LiteralValue)} {function : LeafFunction}
  {literals : List Literal}

/-- Literals of the field's type, at least one for a binary function, strings for string
functions. -/
structure Built (function : LeafFunction) (fieldType : FieldType) (literals : List Literal) :
    Prop where
  typed : ∀ literal ∈ literals, literal.fieldType = fieldType
  single : function.isBinary = true → literals ≠ []
  onString : function.isString = true → fieldType = .string

/-- A comparison with a null literal, on bounds that come without a null count. -/
def Unguarded (function : LeafFunction) (stats : FieldStats) (literals : List Literal) : Prop :=
  function.isBinary = true ∧ function.isString = false ∧
    (∃ literal, literals.head? = some literal ∧ literal.isNull = true) ∧
    stats.nullCount = none ∧ stats.minValue.isNull = false ∧ stats.maxValue.isNull = false

theorem all_null_of_count (describes : stats.Describes fieldType comparison values)
    (allNull : stats.nullCount = some stats.rowCount) : ∀ value ∈ values, value = none := by
  have counted := describes.nulls _ allNull
  rw [describes.rowCount, Int.natCast_inj, eq_comm, countP_eq_length] at counted
  intro value mem
  exact Option.isNone_iff_eq_none.mp (counted value mem)

theorem test_null (built : Built function fieldType literals) :
    function.test ⟨fieldType, none⟩ literals = .ok (decide (function = .isNull)) := by
  cases literals with
  | nil =>
    have notBinary : function.isBinary = false := by
      cases isBinary : function.isBinary with
      | false => rfl
      | true => exact absurd rfl (built.single isBinary)
    cases function <;> simp_all [isBinary, test, Literal.isNull]
  | cons literal literals => cases function <;> simp [test, Literal.isNull]

theorem test_field_stats_all_null (built : Built function fieldType literals)
    (allNull : stats.nullCount = some stats.rowCount) : testFieldStats function stats literals =
      .ok (decide (function = .isNull) && decide (0 < stats.rowCount)) := by
  unfold testFieldStats
  cases literals with
  | nil =>
    have notBinary : function.isBinary = false := by
      cases isBinary : function.isBinary with
      | false => rfl
      | true => exact absurd rfl (built.single isBinary)
    cases function <;> simp_all [isBinary, testStats]
  | cons literal literals => cases function <;> simp [testStats, allNull]

section
variable (supported : fieldType.comparison = some comparison)
  (typed : ∀ literal ∈ literals, literal.fieldType = fieldType)
include typed

theorem first_verdict_eq (otherwise : Bool) {verdictOf : Literal → Except String (Option Bool)}
    (hits : Option LiteralValue → Bool)
    (decided : ∀ value, verdictOf ⟨fieldType, value⟩ =
      .ok (if hits value then some (!otherwise) else none)) :
    firstVerdict otherwise verdictOf literals =
      .ok (literals.any (fun literal => hits literal.value) ^^ otherwise) := by
  induction literals with
  | nil => simp [firstVerdict]
  | cons literal literals ih =>
    have later := ih (forall_mem_cons.mp typed).2
    obtain ⟨literalType, value⟩ := literal
    cases typed _ mem_cons_self
    simp only [firstVerdict, decided, later, bind, Except.bind]
    cases hit : hits value <;> simp [hit, pure, Except.pure]
include supported

theorem test_in_eq (value : LiteralValue) : testIn ⟨fieldType, some value⟩ literals =
    .ok (literals.any (fun literal =>
      literal.value.any (fun other => comparison value other == .eq))) := by
  rw [testIn, first_verdict_eq typed false (·.any (fun other => comparison value other == .eq)),
    Bool.xor_false]
  rintro (_ | other)
  · rfl
  · simp [Literal.isNull, compare_to_of_type supported, bind, Except.bind, pure, Except.pure]

theorem test_in_range_eq (low high : LiteralValue) :
    testInRange ⟨fieldType, some low⟩ ⟨fieldType, some high⟩ literals =
      .ok (literals.any (fun literal => literal.value.any (fun value =>
        comparison value low != .lt && comparison value high != .gt))) := by
  rw [testInRange, first_verdict_eq typed false (·.any (fun value =>
    comparison value low != .lt && comparison value high != .gt)), Bool.xor_false]
  rintro (_ | other)
  · rfl
  · simp [Literal.isNull, compare_to_of_type supported, bind, Except.bind, pure, Except.pure]

theorem test_not_in_eq (value : LiteralValue) : testNotIn ⟨fieldType, some value⟩ literals =
    .ok !(literals.any (fun literal =>
      literal.value.all (fun other => comparison value other == .eq))) := by
  rw [testNotIn, first_verdict_eq typed true (·.all (fun other => comparison value other == .eq)),
    Bool.xor_true]
  rintro (_ | other)
  · rfl
  · simp [Literal.isNull, compare_to_of_type supported, bind, Except.bind, pure, Except.pure]

theorem test_not_in_range_eq (low high : LiteralValue) :
    testNotInRange ⟨fieldType, some low⟩ ⟨fieldType, some high⟩ literals =
      .ok !(literals.any (fun literal => literal.value.all (fun value =>
        comparison value low == .eq && comparison value high == .eq))) := by
  rw [testNotInRange, first_verdict_eq typed true (·.all (fun value =>
    comparison value low == .eq && comparison value high == .eq)), Bool.xor_true]
  rintro (_ | other)
  · rfl
  · simp [Literal.isNull, compare_to_of_type supported, bind, Except.bind, pure, Except.pure]

end

section
variable {low high : LiteralValue} (supported : fieldType.comparison = some comparison)
include supported

theorem test_field_eq (notString : function.isString = false) (value literal : LiteralValue) :
    function.testField ⟨fieldType, some value⟩ ⟨fieldType, some literal⟩ =
      .ok (function.accepts (comparison value literal)) := by
  simp [testField, notString, compare_to_of_type supported, bind, Except.bind, pure, Except.pure]

theorem test_range_eq (notString : function.isString = false) (literal : LiteralValue) :
    function.testRange ⟨fieldType, some low⟩ ⟨fieldType, some high⟩ ⟨fieldType, some literal⟩ =
      .ok (function.acceptsRange (comparison literal low) (comparison literal high)) := by
  cases function <;>
    simp_all [isString, testRange, acceptsRange, compare_to_of_type, bind, Except.bind,
      pure, Except.pure]

theorem test_range_sound [TransCmp comparison] {literal : Literal}
    (isBinary : function.isBinary = true) (typed : literal.fieldType = fieldType)
    (onString : function.isString = true → fieldType = .string)
    (guarded : function.isString = false → literal.isNull = false) : ∃ verdict,
      function.testRange ⟨fieldType, some low⟩ ⟨fieldType, some high⟩ literal = .ok verdict ∧
        ∀ value, (comparison low value).isLE = true → (comparison value high).isLE = true →
          literal.isNull = false →
          function.testField ⟨fieldType, some value⟩ literal = .ok true → verdict = true := by
  obtain ⟨literalType, literalValue⟩ := literal
  subst typed
  cases isString : function.isString with
  | false =>
    cases literalValue with
    | none => simp [Literal.isNull, isString] at guarded
    | some literal =>
      refine ⟨_, test_range_eq supported isString literal, ?_⟩
      intro value lower upper _ accepted
      rw [test_field_eq supported isString, Except.ok.injEq] at accepted
      exact accepts_range_of_accepts lower upper accepted
  | true =>
    cases onString isString
    simp only [FieldType.comparison, Option.some.injEq] at supported
    subst supported
    cases function <;> simp only [LeafFunction.isString, Bool.false_eq_true] at isString
    case startsWith =>
      refine ⟨_, rfl, ?_⟩
      intro value lower upper present accepted
      have isPrefix := accepted
      simp only [testField, LeafFunction.isString, testString, if_true, Except.ok.injEq,
        Predicates.startsWith, isPrefixOf_iff_prefix] at isPrefix
      exact starts_with_range isPrefix lower upper
    all_goals exact ⟨true, rfl, fun _ _ _ _ _ => rfl⟩

omit supported in
theorem is_null_stats_sound (describes : stats.Describes fieldType comparison values)
    (mem : none ∈ values) : stats.nullCount.all (0 < ·) = true := by
  cases count : stats.nullCount with
  | none => rfl
  | some count =>
    have found : 0 < values.countP Option.isNone := by
      rw [countP_pos_iff]
      exact ⟨none, mem, rfl⟩
    have exact := describes.nulls _ count
    simp only [Option.all_some, decide_eq_true_eq]
    omega

omit supported in
theorem is_not_null_stats_sound (describes : stats.Describes fieldType comparison values)
    (someValue : stats.nullCount ≠ some stats.rowCount) :
    stats.nullCount.all (· < stats.rowCount) = true := by
  cases count : stats.nullCount with
  | none => rfl
  | some count =>
    have most : values.countP Option.isNone ≤ values.length := countP_le_length
    have exact := describes.nulls _ count
    have rows := describes.rowCount
    rw [count, ne_eq, Option.some.injEq] at someValue
    simp only [Option.all_some, decide_eq_true_eq]
    omega

section
variable [TransCmp comparison] (typed : ∀ literal ∈ literals, literal.fieldType = fieldType)
  {value : LiteralValue} (lower : (comparison low value).isLE = true)
  (upper : (comparison value high).isLE = true)
include typed lower upper

theorem in_range_of_in (accepted : testIn ⟨fieldType, some value⟩ literals = .ok true) :
    testInRange ⟨fieldType, some low⟩ ⟨fieldType, some high⟩ literals = .ok true := by
  rw [test_in_eq supported typed, Except.ok.injEq, any_eq_true] at accepted
  rw [test_in_range_eq supported typed, Except.ok.injEq, any_eq_true]
  obtain ⟨literal, mem, found⟩ := accepted
  obtain ⟨other, isOther, same⟩ := (Option.any_eq_true _ _).mp found
  have between : LeafFunction.equal.acceptsRange (comparison other low) (comparison other high) =
      true := accepts_range_of_accepts lower upper same
  exact ⟨literal, mem, (Option.any_eq_true _ _).mpr ⟨other, isOther, between⟩⟩

theorem not_in_range_of_not_in (accepted : testNotIn ⟨fieldType, some value⟩ literals = .ok true) :
    testNotInRange ⟨fieldType, some low⟩ ⟨fieldType, some high⟩ literals = .ok true := by
  rw [test_not_in_eq supported typed, Except.ok.injEq, Bool.not_eq_true', any_eq_false] at accepted
  rw [test_not_in_range_eq supported typed, Except.ok.injEq, Bool.not_eq_true', any_eq_false]
  intro literal mem single
  apply accepted literal mem
  cases isLiteral : literal.value with
  | none => rfl
  | some other =>
    -- the bounds meet in the literal, so the value between them is the literal
    rw [isLiteral, Option.all_some] at single
    by_contra differ
    have apart :
        LeafFunction.notEqual.acceptsRange (comparison other low) (comparison other high) = true :=
      accepts_range_of_accepts lower upper (by simpa [accepts] using differ)
    simp only [acceptsRange, Bool.and_eq_true, beq_iff_eq] at apart single
    simp [single] at apart

end

omit supported in
theorem test_binary (isBinary : function.isBinary = true) (value literal : Literal) :
    function.test value (literal :: literals) =
      if literal.isNull || value.isNull then .ok false else function.testField value literal := by
  cases function <;> first | rfl | cases isBinary

omit supported in
theorem test_stats_binary (isBinary : function.isBinary = true) (literal : Literal) :
    function.testStats stats (literal :: literals) =
      if stats.nullCount.any (fun count => count = stats.rowCount || literal.isNull) then .ok false
      else function.testRange stats.minValue stats.maxValue literal := by
  cases function <;> first | rfl | cases isBinary

theorem test_stats_bounded [TransCmp comparison]
    (describes : stats.Describes fieldType comparison values)
    (built : Built function fieldType literals) (someValue : stats.nullCount ≠ some stats.rowCount)
    (minKnown : stats.minValue = ⟨fieldType, some low⟩)
    (maxKnown : stats.maxValue = ⟨fieldType, some high⟩)
    (guarded : ¬Unguarded function stats literals) :
    ∃ verdict, function.testStats stats literals = .ok verdict ∧
      ∀ value ∈ values, function.test ⟨fieldType, value⟩ literals = .ok true → verdict = true := by
  have lower := describes.lower low (by rw [minKnown])
  have upper := describes.upper high (by rw [maxKnown])
  have nullTest := test_null built
  cases isBinary : function.isBinary with
  | false =>
    cases function <;> simp only [LeafFunction.isBinary, Bool.true_eq_false] at isBinary
    case isNull =>
      refine ⟨_, rfl, ?_⟩
      intro value mem isNull
      cases value with
      | none => exact is_null_stats_sound describes mem
      | some value => simp [test, Literal.isNull] at isNull
    case isNotNull =>
      exact ⟨_, rfl, fun _ _ _ => is_not_null_stats_sound describes someValue⟩
    case inLiterals =>
      refine ⟨_, (if_neg someValue).trans (by
        rw [minKnown, maxKnown, test_in_range_eq supported built.typed]), ?_⟩
      intro value mem accepted
      cases value with
      | none => simp [nullTest] at accepted
      | some value =>
        have inRange :=
          in_range_of_in supported built.typed (lower value mem) (upper value mem) accepted
        rwa [test_in_range_eq supported built.typed, Except.ok.injEq] at inRange
    case notInLiterals =>
      refine ⟨_, (if_neg someValue).trans (by
        rw [minKnown, maxKnown, test_not_in_range_eq supported built.typed]), ?_⟩
      intro value mem accepted
      cases value with
      | none => simp [nullTest] at accepted
      | some value =>
        have inRange :=
          not_in_range_of_not_in supported built.typed (lower value mem) (upper value mem) accepted
        rwa [test_not_in_range_eq supported built.typed, Except.ok.injEq] at inRange
  | true =>
    cases literals with
    | nil => exact absurd rfl (built.single isBinary)
    | cons literal literals =>
      rw [test_stats_binary isBinary, minKnown, maxKnown]
      by_cases shortcut : stats.nullCount.any (fun count =>
          count = stats.rowCount || literal.isNull) = true
      · -- a known count is not the row count, so the literal is null
        have isNull : literal.isNull = true := by
          obtain ⟨count, isCount, either⟩ := (Option.any_eq_true _ _).mp shortcut
          rw [isCount, ne_eq, Option.some.injEq] at someValue
          simpa [someValue] using either
        refine ⟨false, if_pos shortcut, ?_⟩
        intro value _ accepted
        simp [test_binary isBinary, isNull] at accepted
      · have present : function.isString = false → literal.isNull = false := by
          intro notString
          cases isNull : literal.isNull with
          | false => rfl
          | true =>
            apply absurd _ guarded
            refine ⟨isBinary, notString, ⟨literal, rfl, isNull⟩,
              ?_, by rw [minKnown]; rfl, by rw [maxKnown]; rfl⟩
            cases unknown : stats.nullCount with
            | none => rfl
            | some count => simp [unknown, isNull] at shortcut
        obtain ⟨verdict, isVerdict, sound⟩ := test_range_sound supported isBinary
          (built.typed literal mem_cons_self) built.onString present
        refine ⟨verdict, (if_neg shortcut).trans isVerdict, ?_⟩
        intro value mem accepted
        rw [test_binary isBinary] at accepted
        split at accepted
        · cases accepted
        · rename_i bothPresent
          cases value with
          | none => simp [Literal.isNull] at bothPresent
          | some value =>
            apply sound value (lower value mem) (upper value mem) _ accepted
            simp only [Bool.or_eq_true, not_or, Bool.not_eq_true] at bothPresent
            exact bothPresent.1

/-- A guarded leaf has a verdict, and it is true if the leaf is true on one of the values. -/
theorem test_field_stats_sound (describes : stats.Describes fieldType comparison values)
    (built : Built function fieldType literals) (guarded : ¬Unguarded function stats literals) :
    ∃ verdict, testFieldStats function stats literals = .ok verdict ∧
      ∀ value ∈ values, function.test ⟨fieldType, value⟩ literals = .ok true → verdict = true := by
  have lawful := comparison_lawful supported
  by_cases allNull : stats.nullCount = some stats.rowCount
  · refine ⟨_, test_field_stats_all_null built allNull, ?_⟩
    intro value mem accepted
    rw [all_null_of_count describes allNull value mem, test_null built, Except.ok.injEq] at accepted
    have rows : 0 < stats.rowCount := by
      rw [describes.rowCount]
      exact_mod_cast length_pos_of_mem mem
    rw [accepted]
    simpa using rows
  · unfold testFieldStats
    by_cases unknown : (stats.minValue.isNull || stats.maxValue.isNull) = true
    · rw [if_pos ⟨allNull, unknown⟩]
      exact ⟨true, rfl, fun _ _ _ => rfl⟩
    · rw [if_neg (fun both => unknown both.2)]
      have minType := describes.minType
      have maxType := describes.maxType
      obtain ⟨rowCount, ⟨minFieldType, minValue⟩, ⟨maxFieldType, maxValue⟩, nullCount⟩ := stats
      subst minType
      cases maxType
      cases minValue with
      | none => exact absurd rfl unknown
      | some low =>
        cases maxValue with
        | none => exact absurd rfl unknown
        | some high => exact test_stats_bounded supported describes built allNull rfl rfl guarded

omit supported in
theorem compare_to_null {literal bound : Literal} (sameType : literal.fieldType = bound.fieldType)
    (isNull : literal.isNull = true) (known : bound.isNull = false) :
    literal.compareTo bound = .error "cannot compare with null" := by
  obtain ⟨literalType, literalValue⟩ := literal
  obtain ⟨boundType, boundValue⟩ := bound
  cases literalValue <;> cases boundValue <;> simp_all [Literal.compareTo, Literal.isNull]

omit supported in
theorem test_field_stats_fails (built : Built function fieldType literals)
    (minType : stats.minValue.fieldType = fieldType)
    (maxType : stats.maxValue.fieldType = fieldType)
    (unguarded : Unguarded function stats literals) :
    testFieldStats function stats literals = .error "cannot compare with null" := by
  obtain ⟨isBinary, notString, ⟨literal, isHead, isNull⟩, unknown, minKnown, maxKnown⟩ := unguarded
  obtain ⟨rest, rfl⟩ := head?_eq_some_iff.mp isHead
  have literalType := built.typed literal mem_cons_self
  have minFails := compare_to_null (literalType.trans minType.symm) isNull minKnown
  have maxFails := compare_to_null (literalType.trans maxType.symm) isNull maxKnown
  unfold testFieldStats
  rw [if_neg (by simp [minKnown, maxKnown]), test_stats_binary isBinary, unknown]
  cases function <;>
    simp_all [LeafFunction.isBinary, isString, testRange, bind, Except.bind]

end

end

end LeafFunction

end PaimonCore.Predicates
