import PaimonCore.Library.Regrouping
import PaimonCore.MergeTree.FieldAggregators

/-!
# Aggregators and groups of values

For every aggregator a group of values can be replaced by its aggregate. The values that occur as
accumulators are *settled*: a distinct collection has no duplicates, a string is not blank.
-/

namespace PaimonCore.Aggregate

open Std Comparators MergeTree Programs Regrouping

def valueOf (accumulator : Accumulator) : Except String Variant := .ok accumulator.value

/-- A group of allowed values of the column can be replaced by its aggregate. -/
def Lawful (aggregator : FieldAggregator) (allowed : Variant → Prop) : Prop :=
  Regroups aggregator.agg emptyAccumulator valueOf allowed

structure Groups (merge : Variant → Variant → Except String Variant)
    (settled allowed : Variant → Prop) : Prop where
  null : settled .null
  allows : ∀ value, settled value → allowed value
  keeps : ∀ accumulator inputField merged, settled accumulator → allowed inputField →
    merge accumulator inputField = .ok merged → settled merged
  first : ∀ accumulator inputField merged, settled accumulator → allowed inputField →
    merge accumulator inputField = .ok merged →
      ∃ own, merge .null inputField = .ok own ∧ merge accumulator own = .ok merged
  next : ∀ accumulator group middle inputField merged, settled accumulator → settled group →
    allowed inputField → merge accumulator group = .ok middle →
    merge middle inputField = .ok merged →
      ∃ grown, merge group inputField = .ok grown ∧ merge accumulator grown = .ok merged

section
variable {merge : Variant → Variant → Except String Variant} {settled allowed : Variant → Prop}

theorem stateless_ok {acc after : Accumulator} {input : Variant} :
    stateless merge acc input = .ok after ↔
      ∃ merged, merge acc.value input = .ok merged ∧
        { acc with value := merged } = after := by
  rw [stateless, bind_eq_ok]
  simp only [pure, Except.pure, Except.ok.injEq]

theorem stands_for_stateless {state merged final : Accumulator} :
    StandsFor (stateless merge) valueOf allowed state merged final ↔
      allowed merged.value ∧ stateless merge state merged.value = .ok final := by
  simp [StandsFor, valueOf]

theorem Groups.steps (groups : Groups merge settled allowed) :
    Steps (stateless merge) emptyAccumulator valueOf allowed
      (fun acc => settled acc.value) (fun acc => settled acc.value) where
  start_reached := groups.null
  reached := by
    intro state input after isSettled isAllowed adds
    obtain ⟨merged, merges, rfl⟩ := stateless_ok.mp adds
    exact groups.keeps _ _ _ isSettled isAllowed merges
  first := by
    intro state input after isSettled isAllowed adds
    obtain ⟨merged, merges, rfl⟩ := stateless_ok.mp adds
    obtain ⟨own, ownMerges, stands⟩ := groups.first _ _ _ isSettled isAllowed merges
    have ownSettled := groups.keeps _ _ _ groups.null isAllowed ownMerges
    refine ⟨⟨own, false⟩, stateless_ok.mpr ⟨own, ownMerges, rfl⟩, ownSettled, ?_⟩
    exact stands_for_stateless.mpr ⟨groups.allows _ ownSettled,
      stateless_ok.mpr ⟨merged, stands, rfl⟩⟩
  next := by
    intro state group middle input after isSettled groupSettled isAllowed stands adds
    obtain ⟨_, groupAdds⟩ := stands_for_stateless.mp stands
    obtain ⟨between, betweenMerges, rfl⟩ := stateless_ok.mp groupAdds
    obtain ⟨merged, merges, rfl⟩ := stateless_ok.mp adds
    obtain ⟨grown, grows, grownStands⟩ :=
      groups.next _ _ _ _ _ isSettled groupSettled isAllowed betweenMerges merges
    have grownSettled := groups.keeps _ _ _ groupSettled isAllowed grows
    refine ⟨{ group with value := grown }, stateless_ok.mpr ⟨grown, grows, rfl⟩, grownSettled, ?_⟩
    exact stands_for_stateless.mpr ⟨groups.allows _ grownSettled,
      stateless_ok.mpr ⟨merged, grownStands, rfl⟩⟩

end

structure Associates (merge : Variant → Variant → Variant) (settled allowed : Variant → Prop) :
    Prop where
  null : settled .null
  allows : ∀ value, settled value → allowed value
  keeps : ∀ accumulator inputField, settled accumulator → allowed inputField →
    settled (merge accumulator inputField)
  first : ∀ accumulator inputField, settled accumulator → allowed inputField →
    merge accumulator (merge .null inputField) = merge accumulator inputField
  assoc : ∀ accumulator group inputField, settled accumulator → settled group → allowed inputField →
    merge (merge accumulator group) inputField = merge accumulator (merge group inputField)

variable {merge : Variant → Variant → Variant} {settled : Variant → Prop}

theorem Associates.groups {allowed : Variant → Prop}
    (associates : Associates merge settled allowed) :
    Groups (fun acc input => .ok (merge acc input)) settled allowed where
  null := associates.null
  allows := associates.allows
  keeps := by
    intro acc input merged isSettled isAllowed merges
    cases merges
    exact associates.keeps _ _ isSettled isAllowed
  first := by
    intro acc input merged isSettled isAllowed merges
    cases merges
    exact ⟨_, rfl, congrArg Except.ok (associates.first _ _ isSettled isAllowed)⟩
  next := by
    intro acc group middle input merged isSettled groupSettled isAllowed merges later
    cases merges
    cases later
    exact ⟨_, rfl,
      congrArg Except.ok (associates.assoc _ _ _ isSettled groupSettled isAllowed).symm⟩

theorem Associates.lawful {allowed : Variant → Prop} (associates : Associates merge settled allowed)
    {aggregator : FieldAggregator} (isPlain : aggregator.agg = plain merge) :
    Lawful aggregator allowed := by
  unfold Lawful
  rw [isPlain]
  exact associates.groups.steps.regroups

def anyValue (_ : Variant) : Prop := True

theorem null_of_is_null {value : Variant} (isNull : value.isNull = true) : value = .null := by
  cases value <;> first | rfl | cases isNull

theorem unless_null_left (merge : Variant → Variant → Variant) (input : Variant) :
    unlessNull merge .null input = input := rfl

theorem unless_null_right (merge : Variant → Variant → Variant) (acc : Variant) :
    unlessNull merge acc .null = acc := by
  cases acc <;> rfl

theorem unless_null_of_values (merge : Variant → Variant → Variant) {acc input : Variant}
    (accumulated : acc.isNull = false) (given : input.isNull = false) :
    unlessNull merge acc input = merge acc input := by
  simp [unlessNull, accumulated, given]

theorem unless_null_associates (null : settled .null)
    (values : ∀ left right, left.isNull = false → right.isNull = false →
      (merge left right).isNull = false)
    (keeps : ∀ left right, settled left → settled right → settled (merge left right))
    (assoc : ∀ first second third, settled first → settled second → settled third →
      merge (merge first second) third = merge first (merge second third)) :
    Associates (unlessNull merge) settled settled where
  null := null
  allows := fun _ isSettled => isSettled
  keeps := by
    intro acc input isSettled isAllowed
    rw [unlessNull]
    split
    · split
      · exact isAllowed
      · exact isSettled
    · exact keeps _ _ isSettled isAllowed
  first := fun _ _ _ _ => rfl
  assoc := by
    intro acc group input isSettled groupSettled isAllowed
    cases isFirst : acc.isNull with
    | true => rw [null_of_is_null isFirst, unless_null_left, unless_null_left]
    | false =>
      cases isGroup : group.isNull with
      | true => rw [null_of_is_null isGroup, unless_null_right, unless_null_left]
      | false =>
        cases isInput : input.isNull with
        | true => rw [null_of_is_null isInput, unless_null_right, unless_null_right]
        | false =>
          rw [unless_null_of_values merge isFirst isGroup,
            unless_null_of_values merge isGroup isInput,
            unless_null_of_values merge (values _ _ isFirst isGroup) isInput,
            unless_null_of_values merge isFirst (values _ _ isGroup isInput)]
          exact assoc _ _ _ isSettled groupSettled isAllowed

theorem last_associates : Associates (fun _ input => input) anyValue anyValue where
  null := trivial
  allows := fun _ _ => trivial
  keeps := fun _ _ _ _ => trivial
  first := fun _ _ _ _ => rfl
  assoc := fun _ _ _ _ _ _ => rfl

theorem last_non_null_associates : Associates (fun acc input => if input.isNull then acc else input)
      anyValue anyValue where
  null := trivial
  allows := fun _ _ => trivial
  keeps := fun _ _ _ _ => trivial
  first := by
    intro acc input _ _
    cases input <;> rfl
  assoc := by
    intro acc group input _ _ _
    cases input <;> cases group <;> rfl

theorem first_value_lawful : Lawful firstValueAgg anyValue := by
  have steps : Steps firstValueAgg.agg emptyAccumulator valueOf anyValue (fun _ => True)
      (fun acc => acc.initialized = true) := by
    refine ⟨trivial, fun _ _ _ _ _ _ => trivial, ?_, ?_⟩
    · intro state input after _ _ adds
      exact ⟨⟨input, true⟩, rfl, rfl, input, rfl, trivial, adds⟩
    · intro state group middle input after _ isGrown _ stands adds
      obtain ⟨value, isValue, _, groupAdds⟩ := stands
      have stays : firstValueAgg.agg group input = .ok group := by
        simp [firstValueAgg, isGrown]
      have middleStays : firstValueAgg.agg middle input = .ok middle := by
        have initialized : middle.initialized = true := by
          simp only [firstValueAgg] at groupAdds
          split at groupAdds
          · cases groupAdds
            rfl
          · next isInitialized =>
              cases groupAdds
              simpa using isInitialized
        simp [firstValueAgg, initialized]
      rw [middleStays] at adds
      cases adds
      exact ⟨group, stays, isGrown, value, isValue, trivial, groupAdds⟩
  exact steps.regroups

/-- A state without a value is the empty one, and a group of nulls has none either. -/
def FirstNonNull (accumulator : Accumulator) : Prop :=
  accumulator.initialized = !accumulator.value.isNull

theorem first_non_null_add {acc : Accumulator} (sound : FirstNonNull acc) (input : Variant) :
    firstNonNullValueAgg.agg acc input =
      .ok (if acc.value.isNull then ⟨input, !input.isNull⟩ else acc) := by
  obtain ⟨value, initialized⟩ := acc
  change initialized = !value.isNull at sound
  subst sound
  cases value <;> cases input <;> rfl

theorem first_non_null_sound {acc : Accumulator} (sound : FirstNonNull acc) (input : Variant) :
    FirstNonNull (if acc.value.isNull then ⟨input, !input.isNull⟩ else acc) := by
  split
  · rfl
  · exact sound

theorem first_non_null_value_lawful : Lawful firstNonNullValueAgg anyValue := by
  have steps : Steps firstNonNullValueAgg.agg emptyAccumulator valueOf anyValue FirstNonNull
      FirstNonNull := by
    refine ⟨rfl, ?_, ?_, ?_⟩
    · intro state input after sound _ adds
      rw [first_non_null_add sound] at adds
      cases adds
      exact first_non_null_sound sound input
    · intro state input after sound _ adds
      have alone := first_non_null_add (rfl : FirstNonNull emptyAccumulator) input
      exact ⟨⟨input, !input.isNull⟩, alone, rfl, input, rfl, trivial, adds⟩
    · intro state group middle input after sound groupSound _ stands adds
      obtain ⟨value, isValue, _, groupAdds⟩ := stands
      cases isValue
      rw [first_non_null_add sound] at groupAdds
      cases groupAdds
      have middleSound := first_non_null_sound sound group.value
      rw [first_non_null_add middleSound] at adds
      refine ⟨_, first_non_null_add groupSound input, first_non_null_sound groupSound input, _,
        rfl, trivial, ?_⟩
      rw [first_non_null_add sound, ← adds]
      cases isFirst : state.value.isNull <;> cases isGroup : group.value.isNull <;>
        simp [isFirst, isGroup]
  exact steps.regroups

theorem bmod_add_assoc (first second third : Int) (modulus : Nat) :
    ((first + second).bmod modulus + third).bmod modulus =
      (first + (second + third).bmod modulus).bmod modulus := by
  rw [Int.bmod_add_bmod, Int.add_bmod_bmod, Int.add_assoc]

theorem add_integers_associates (modulus : Nat) :
    Associates (unlessNull (addIntegers modulus)) anyValue anyValue := by
  refine unless_null_associates trivial (fun _ _ _ _ => rfl) (fun _ _ _ _ => trivial) ?_
  intro first second third _ _ _
  exact congrArg (fun sum => Variant.scalar (.integer sum)) (bmod_add_assoc _ _ _ modulus)

theorem add_decimals_associates : Associates (unlessNull addDecimals) anyValue anyValue := by
  refine unless_null_associates trivial (fun _ _ _ _ => rfl) (fun _ _ _ _ => trivial) ?_
  intro first second third _ _ _
  exact congrArg (fun sum => Variant.scalar (.decimal sum)) (bmod_add_assoc _ _ _ decimalModulus)

variable {order : Variant → Variant → Ordering}

theorem lesser_of_lt {left right : Variant} (lower : order left right = .lt) :
    lesser order left right = left := if_pos lower

theorem lesser_of_not_lt {left right : Variant} (notLower : ¬order left right = .lt) :
    lesser order left right = right := if_neg notLower

variable (order)

theorem lesser_assoc [TransCmp order] (first second third : Variant) :
    lesser order (lesser order first second) third =
      lesser order first (lesser order second third) := by
  by_cases firstSecond : order first second = .lt
  · rw [lesser_of_lt firstSecond]
    by_cases secondThird : order second third = .lt
    · rw [lesser_of_lt secondThird, lesser_of_lt firstSecond,
        lesser_of_lt (TransCmp.lt_trans firstSecond secondThird)]
    · rw [lesser_of_not_lt secondThird]
  · rw [lesser_of_not_lt firstSecond]
    by_cases secondThird : order second third = .lt
    · rw [lesser_of_lt secondThird, lesser_of_not_lt firstSecond]
    · rw [lesser_of_not_lt secondThird]
      have firstThird : ¬order first third = .lt := TransCmp.ge_trans firstSecond secondThird
      rw [lesser_of_not_lt firstThird]

theorem greater_eq_lesser (left right : Variant) :
    greater order left right = lesser (fun first second => order second first) right left := rfl

theorem greater_assoc [TransCmp order] (first second third : Variant) :
    greater order (greater order first second) third =
      greater order first (greater order second third) := by
  simp only [greater_eq_lesser]
  exact (lesser_assoc _ third second first).symm

theorem lesser_choice (left right : Variant) :
    lesser order left right = left ∨ lesser order left right = right := by
  rw [lesser]
  split
  · exact .inl rfl
  · exact .inr rfl

theorem lesser_associates [TransCmp order] :
    Associates (unlessNull (lesser order)) anyValue anyValue := by
  refine unless_null_associates trivial ?_ (fun _ _ _ _ => trivial)
    (fun first second third _ _ _ => lesser_assoc order first second third)
  intro left right leftValue rightValue
  rcases lesser_choice order left right with chosen | chosen
  · rwa [chosen]
  · rwa [chosen]

theorem greater_associates [TransCmp order] :
    Associates (unlessNull (greater order)) anyValue anyValue := by
  refine unless_null_associates trivial ?_ (fun _ _ _ _ => trivial)
    (fun first second third _ _ _ => greater_assoc order first second third)
  intro left right leftValue rightValue
  rw [greater_eq_lesser]
  rcases lesser_choice (fun first second => order second first) right left with chosen | chosen
  · rwa [chosen]
  · rwa [chosen]

variable {order}

theorem compare_variants_lawful {fieldType : DataType}
    (supported : compareVariants fieldType = some order) : TransCmp order := by
  have textLawful : TransCmp compareText :=
    inferInstanceAs (TransCmp (along (fun text : List Char => text.map Char.toNat) compare))
  rw [compareVariants.eq_def] at supported
  split at supported
  · cases supported
    infer_instance
  · obtain ⟨cmp, isComparator, rfl⟩ := Option.map_eq_some_iff.mp supported
    have lawful := Fields.compare_field_lawful _ cmp isComparator
    infer_instance
  · cases supported

theorem create_order_lawful {env : Environment} {name : String} {fieldType : DataType}
    (created : createOrder env name fieldType = .ok order) : TransCmp order := by
  rw [createOrder.eq_def] at created
  split at created
  · cases created
  · split at created
    · cases created
    · next supported =>
        cases created
        exact compare_variants_lawful supported

theorem bool_associates {merge : Bool → Bool → Bool}
    (assoc : ∀ first second third, merge (merge first second) third =
      merge first (merge second third)) :
    Associates (unlessNull (fun acc input =>
      .scalar (.boolean (merge (booleanOf acc) (booleanOf input))))) anyValue anyValue := by
  refine unless_null_associates trivial (fun _ _ _ _ => rfl) (fun _ _ _ _ => trivial) ?_
  intro first second third _ _ _
  exact congrArg (fun value => Variant.scalar (.boolean value)) (assoc _ _ _)

end PaimonCore.Aggregate
