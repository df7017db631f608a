import PaimonCore.MergeTree.AggregateLaws

/-!
# Groups of collections, maps and nested rows

Distinct collections, maps and rows with nested keys are keyed lists, into which values are put one
after another: a group may be gathered on its own.
-/

namespace PaimonCore.Aggregate

open Std Comparators Matchings MergeTree Programs Upserts List

theorem equals_combines : Combines equals (fun present _ => present) where
  refl := fun value => (equals_central value).refl
  symm := fun left right => ((equals_central left).symm right).mp
  trans := fun left middle right => (equals_central left).trans middle right
  combined := fun left _ _ => (equals_central left).refl
  assoc := fun _ _ _ _ _ => rfl

def Collected (value : Variant) : Prop :=
  value = .null ∨ ∃ elements, value = .array elements ∧ Distinct equals elements

theorem Collected.distinct {value : Variant} (collected : Collected value) :
    Distinct equals (getArray value) := by
  rcases collected with rfl | ⟨elements, rfl, nodup⟩
  · exact Pairwise.nil
  · exact nodup

theorem upsert_all_nil_of_distinct {Item : Type} {same : Item → Item → Bool}
    {combine : Item → Item → Item} {items : List Item} (nodup : Distinct same items) :
    upsertAll same combine [] items = items :=
  upsert_all_of_distinct nodup

variable {input acc : Variant}

theorem collect_distinct_eq (collected : Collected acc)
    (values : (acc.isNull && input.isNull) = false) :
    collectMerge true acc input = .array (appendDistinct (getArray acc) (getArray input)) := by
  have settled : appendDistinct [] (getArray acc) = getArray acc :=
    upsert_all_nil_of_distinct collected.distinct
  simp [collectMerge, values, settled]

theorem collect_distinct_null (collected : Collected acc) : collectMerge true acc .null = acc := by
  rcases collected with rfl | ⟨elements, rfl, nodup⟩
  · rfl
  · exact collect_distinct_eq (.inr ⟨elements, rfl, nodup⟩) rfl

theorem collect_distinct_gathered {group : Variant} (collected : Collected acc)
    (groupCollected : Collected group)
    (given : input.isNull = false) :
    collectMerge true acc (collectMerge true group input) =
      .array (appendDistinct (appendDistinct (getArray acc) (getArray group))
        (getArray input)) := by
  rw [collect_distinct_eq groupCollected (by rw [given, Bool.and_false]),
    collect_distinct_eq collected (by simp [Variant.isNull])]
  exact congrArg Variant.array (upsert_all_gathered equals_combines _ groupCollected.distinct _)

theorem collect_distinct_keeps (collected : Collected acc) :
    Collected (collectMerge true acc input) := by
  cases values : acc.isNull && input.isNull with
  | true =>
    rw [Bool.and_eq_true] at values
    rw [null_of_is_null values.1, null_of_is_null values.2]
    exact .inl rfl
  | false =>
    rw [collect_distinct_eq collected values]
    exact .inr ⟨_, rfl, upsert_all_distinct equals_combines collected.distinct _⟩

theorem collect_distinct_associates : Associates (collectMerge true) Collected anyValue where
  null := .inl rfl
  allows := fun _ _ => trivial
  keeps := fun _ _ collected _ => collect_distinct_keeps collected
  first := by
    intro acc input collected _
    cases given : input.isNull with
    | true =>
      rw [null_of_is_null given]
      rfl
    | false =>
      rw [collect_distinct_gathered collected (.inl rfl) given,
        collect_distinct_eq collected (by rw [given, Bool.and_false])]
      rfl
  assoc := by
    intro acc group input collected groupCollected _
    have middle : Collected (collectMerge true acc group) := collect_distinct_keeps collected
    cases given : input.isNull with
    | true =>
      rw [null_of_is_null given, collect_distinct_null middle, collect_distinct_null groupCollected]
    | false =>
      rw [collect_distinct_gathered collected groupCollected given,
        collect_distinct_eq middle (by rw [given, Bool.and_false])]
      rcases groupCollected with rfl | ⟨elements, rfl, _⟩
      · rw [collect_distinct_null collected]
        rfl
      · rw [collect_distinct_eq collected (by simp [Variant.isNull])]
        rfl

theorem collect_plain_eq : collectMerge false = unlessNull (fun acc input =>
      .array (getArray acc ++ getArray input)) := by
  funext acc input
  cases acc <;> cases input <;> rfl

theorem collect_plain_associates : Associates (collectMerge false) anyValue anyValue := by
  rw [collect_plain_eq]
  refine unless_null_associates trivial (fun _ _ _ _ => rfl) (fun _ _ _ _ => trivial) ?_
  intro first second third _ _ _
  exact congrArg Variant.array (append_assoc _ _ _)

def sameKey (present entry : Variant × Variant) : Bool := equals present.1 entry.1

theorem put_map_combines : Combines sameKey (fun present entry => (present.1, entry.2)) where
  refl := fun entry => (equals_central entry.1).refl
  symm := fun left right => ((equals_central left.1).symm right.1).mp
  trans := fun left middle right => (equals_central left.1).trans middle.1 right.1
  combined := fun left _ _ => (equals_central left.1).refl
  assoc := fun _ _ _ _ _ => rfl

def DistinctKeys (value : Variant) : Prop := Distinct sameKey (getMap value)

theorem merge_map_associates : Associates mergeMapMerge DistinctKeys DistinctKeys := by
  have taken : ∀ value, DistinctKeys value → putMap [] (getMap value) = getMap value :=
    fun value nodup => upsert_all_nil_of_distinct nodup
  have kept : ∀ left right, DistinctKeys left → DistinctKeys right →
      DistinctKeys (.map (putMap (putMap [] (getMap left)) (getMap right))) := by
    intro left right leftDistinct _
    rw [taken left leftDistinct]
    exact upsert_all_distinct put_map_combines leftDistinct _
  refine unless_null_associates Pairwise.nil (fun _ _ _ _ => rfl) kept ?_
  intro first second third firstDistinct secondDistinct thirdDistinct
  have left := taken _ (kept first second firstDistinct secondDistinct)
  rw [taken first firstDistinct] at left ⊢
  rw [taken second secondDistinct, left]
  exact congrArg Variant.map
    (upsert_all_gathered put_map_combines (getMap first) secondDistinct (getMap third)).symm

namespace NestedUpdate

variable {nested : NestedUpdate}

def Appended (value : Variant) : Prop :=
  value = .null ∨ ∃ rows, value = .array rows ∧ nonNullRows rows = rows

theorem non_null_rows_twice (array : List Variant) :
    nonNullRows (nonNullRows array) = nonNullRows array := by
  simp [nonNullRows, filter_filter]

def appendRows (accumulator inputField : Variant) : Variant :=
  if inputField.isNull then accumulator
  else .array (nonNullRows (getArray accumulator) ++ nonNullRows (getArray inputField))

theorem agg_impl_append (unlimited : nested.countLimit = none) (keyless : nested.keyFields = []) :
    nested.aggImpl = fun acc input => .ok (appendRows acc input) := by
  funext acc input
  cases given : input.isNull <;>
    simp [aggImpl, appendRows, given, keyless, hasRoom, fitting, unlimited]

theorem append_rows_null (acc : Variant) : appendRows acc .null = acc := rfl

theorem append_rows_of_value (given : input.isNull = false) (acc : Variant) : appendRows acc input =
      .array (nonNullRows (getArray acc) ++ nonNullRows (getArray input)) := by
  rw [appendRows, given]
  rfl

theorem append_rows_array (acc : Variant) (rows : List Variant) : appendRows acc (.array rows) =
      .array (nonNullRows (getArray acc) ++ nonNullRows rows) := rfl

theorem non_null_rows_append (first second : List Variant) :
    nonNullRows (first ++ second) = nonNullRows first ++ nonNullRows second := by
  simp [nonNullRows]

theorem append_rows_gathered (given : input.isNull = false)
    (acc group : Variant) : appendRows acc (appendRows group input) =
      .array (nonNullRows (getArray acc) ++ nonNullRows (getArray group) ++
        nonNullRows (getArray input)) := by
  rw [append_rows_of_value given, append_rows_array, non_null_rows_append, non_null_rows_twice,
    non_null_rows_twice, append_assoc]

theorem append_rows_associates : Associates appendRows Appended anyValue where
  null := .inl rfl
  allows := fun _ _ => trivial
  keeps := by
    intro acc input appended _
    cases given : input.isNull with
    | true =>
      rw [null_of_is_null given]
      exact appended
    | false =>
      rw [append_rows_of_value given]
      refine .inr ⟨_, rfl, ?_⟩
      rw [non_null_rows_append, non_null_rows_twice, non_null_rows_twice]
  first := by
    intro acc input _ _
    cases given : input.isNull with
    | true => rw [null_of_is_null given, append_rows_null]
    | false =>
      rw [append_rows_gathered given, append_rows_of_value given]
      exact congrArg (fun rows => Variant.array (rows ++ _)) (append_nil _)
  assoc := by
    intro acc group input appended groupAppended _
    cases given : input.isNull with
    | true => rw [null_of_is_null given, append_rows_null, append_rows_null]
    | false =>
      rw [append_rows_gathered given, append_rows_of_value given]
      congr 2
      rcases groupAppended with rfl | ⟨rows, rfl, _⟩
      · exact (append_nil _).symm
      · rw [append_rows_array]
        change nonNullRows (_ ++ _) = _ ++ nonNullRows rows
        rw [non_null_rows_append, non_null_rows_twice, non_null_rows_twice]

def Ordered (nested : NestedUpdate) : Prop :=
  ∀ compareTo, nested.sequenceComparator = some compareTo → TransCmp compareTo

theorem keys_equal_iff (left right : Variant) : nested.keysEqual left right = true ↔
      ∀ field ∈ nested.keyFields, equals (rowField left field) (rowField right field) = true := by
  rw [keysEqual, all_eq_true]

theorem supersede_choice (existing row : Variant) :
    nested.supersede existing row = existing ∨ nested.supersede existing row = row := by
  rw [supersede]
  split
  · exact .inr rfl
  · split
    · exact .inl rfl
    · exact .inr rfl

theorem supersede_assoc (ordered : nested.Ordered) (first second third : Variant) :
    nested.supersede (nested.supersede first second) third =
      nested.supersede first (nested.supersede second third) := by
  cases hasComparator : nested.sequenceComparator with
  | none => simp [supersede, hasComparator]
  | some compareTo =>
    have lawful := ordered compareTo hasComparator
    have chosen : nested.supersede = lesser (fun left right => compareTo right left) := by
      funext existing row
      simp only [supersede, hasComparator, lesser]
    rw [chosen]
    exact lesser_assoc _ first second third

theorem supersede_combines (ordered : nested.Ordered) :
    Combines nested.keysEqual nested.supersede where
  refl := by
    intro row
    exact (keys_equal_iff row row).mpr fun field _ => (equals_central _).refl
  symm := by
    intro left right alike
    rw [keys_equal_iff] at alike ⊢
    exact fun field mem => ((equals_central _).symm _).mp (alike field mem)
  trans := by
    intro left middle right first second
    rw [keys_equal_iff] at first second ⊢
    exact fun field mem => (equals_central _).trans _ _ (first field mem) (second field mem)
  combined := by
    intro left right alike
    rcases nested.supersede_choice left right with chosen | chosen
    · rw [chosen]
      exact (keys_equal_iff left left).mpr fun field _ => (equals_central _).refl
    · rwa [chosen]
  assoc := fun first second third _ _ => supersede_assoc ordered first second third

theorem put_row_eq (unlimited : nested.countLimit = none) (limitNewKeys : Bool)
    (rows : List Variant)
    (row : Variant) :
    nested.putRow limitNewKeys rows row = upsert nested.keysEqual nested.supersede rows row := by
  have room : nested.hasRoom = fun _ => true := by
    funext size
    simp [hasRoom, unlimited]
  induction rows with
  | nil => simp [putRow, upsert, room]
  | cons head rest ih =>
    rw [upsert, ← ih, putRow, putRow, findIdx?_cons]
    by_cases isSame : nested.keysEqual head row = true
    · simp [isSame]
    · simp only [isSame, Bool.false_eq_true, if_false]
      cases rest.findIdx? (fun existing => nested.keysEqual existing row) with
      | none => simp [room]
      | some index => rfl

def Accepted (nested : NestedUpdate) (row : Variant) : Prop :=
  row.isNull = false ∧ nested.acceptKey row = .ok true

theorem accepted_rows_accepted {array accepted : List Variant}
    (accepts : nested.acceptedRows array = .ok accepted) :
    ∀ row ∈ accepted, nested.Accepted row := by
  induction array generalizing accepted with
  | nil =>
    cases accepts
    simp
  | cons head rest ih =>
    rw [acceptedRows] at accepts
    split at accepts
    · exact ih accepts
    · next isRow =>
        obtain ⟨accept, acceptsHead, later⟩ := bind_eq_ok.mp accepts
        obtain ⟨laterRows, acceptsLater, isAccepted⟩ := bind_eq_ok.mp later
        cases isAccepted
        cases accept with
        | false => exact ih acceptsLater
        | true =>
          exact forall_mem_cons.mpr ⟨⟨Bool.eq_false_iff.mpr isRow, acceptsHead⟩, ih acceptsLater⟩

theorem accepted_rows_of_accepted {rows : List Variant}
    (accepted : ∀ row ∈ rows, nested.Accepted row) :
    nested.acceptedRows rows = .ok rows := by
  induction rows with
  | nil => rfl
  | cons head rest ih =>
    obtain ⟨⟨isRow, accepts⟩, later⟩ := forall_mem_cons.mp accepted
    rw [acceptedRows, isRow, accepts, ih later]
    rfl

theorem upsert_all_accepted {rows added : List Variant}
    (accepted : ∀ row ∈ rows, nested.Accepted row)
    (addedAccepted : ∀ row ∈ added, nested.Accepted row) :
    ∀ row ∈ upsertAll nested.keysEqual nested.supersede rows added, nested.Accepted row := by
  induction added generalizing rows with
  | nil => exact accepted
  | cons item rest ih =>
    obtain ⟨itemAccepted, restAccepted⟩ := forall_mem_cons.mp addedAccepted
    refine ih ?_ restAccepted
    intro row mem
    rcases mem_upsert mem with before | rfl | ⟨head, inRows, _, rfl⟩
    · exact accepted row before
    · exact itemAccepted
    · rcases nested.supersede_choice head item with chosen | chosen
      · rw [chosen]
        exact accepted head inRows
      · rwa [chosen]

def Keyed (nested : NestedUpdate) (value : Variant) : Prop :=
  value = .null ∨ ∃ rows, value = .array rows ∧ (∀ row ∈ rows, nested.Accepted row) ∧
    Distinct nested.keysEqual rows

theorem Keyed.rows {value : Variant} (keyed : nested.Keyed value) :
    (∀ row ∈ getArray value, nested.Accepted row) ∧ Distinct nested.keysEqual (getArray value) := by
  rcases keyed with rfl | ⟨rows, rfl, accepted, nodup⟩
  · exact ⟨by simp [getArray], Pairwise.nil⟩
  · exact ⟨accepted, nodup⟩

variable (unlimited : nested.countLimit = none)
include unlimited

theorem agg_impl_keyed (hasKeys : nested.keyFields ≠ [])
    {merged : Variant} (keyed : nested.Keyed acc)
    (given : input.isNull = false) : nested.aggImpl acc input = .ok merged ↔
      ∃ accepted, nested.acceptedRows (getArray input) = .ok accepted ∧
        .array (upsertAll nested.keysEqual nested.supersede (getArray acc) accepted) = merged := by
  have puts : ∀ limitNewKeys, nested.putRow limitNewKeys =
      upsert nested.keysEqual nested.supersede := by
    intro limitNewKeys
    funext rows row
    exact put_row_eq unlimited limitNewKeys rows row
  have own : nested.addRows false [] (getArray acc) = .ok (getArray acc) := by
    rw [addRows, accepted_rows_of_accepted keyed.rows.1, puts]
    exact congrArg Except.ok (upsert_all_nil_of_distinct keyed.rows.2)
  have keysGiven : nested.keyFields.isEmpty = false := by simpa using hasKeys
  have unfolds :
      nested.aggImpl acc input = (nested.acceptedRows (getArray input)).bind fun accepted =>
        .ok (.array (upsertAll nested.keysEqual nested.supersede (getArray acc) accepted)) := by
    rw [aggImpl, given, keysGiven, own]
    simp only [addRows, puts, Bool.false_eq_true, if_false]
    cases nested.acceptedRows (getArray input) <;> rfl
  rw [unfolds]
  exact bind_eq_ok.trans (by simp only [Except.ok.injEq])

theorem keyed_groups (hasKeys : nested.keyFields ≠ [])
    (ordered : nested.Ordered) : Groups nested.aggImpl nested.Keyed anyValue := by
  have combines := supersede_combines ordered
  have keeps : ∀ acc inputField merged, nested.Keyed acc → anyValue inputField →
      nested.aggImpl acc inputField = .ok merged → nested.Keyed merged := by
    intro acc inputField merged keyed _ merges
    cases given : inputField.isNull with
    | true =>
      rw [null_of_is_null given] at merges
      cases merges
      exact keyed
    | false =>
      obtain ⟨accepted, accepts, rfl⟩ := (agg_impl_keyed unlimited hasKeys keyed given).mp merges
      exact .inr ⟨_, rfl, upsert_all_accepted keyed.rows.1 (accepted_rows_accepted accepts),
        upsert_all_distinct combines keyed.rows.2 _⟩
  -- The rows of the input may first go to the group and then to the acc.
  have gathered : ∀ acc group inputField accepted, nested.Keyed acc →
      nested.Keyed group → inputField.isNull = false →
      nested.acceptedRows (getArray inputField) = .ok accepted →
        ∃ grown, nested.aggImpl group inputField = .ok grown ∧
          nested.aggImpl acc grown = .ok (.array (upsertAll nested.keysEqual nested.supersede
            (upsertAll nested.keysEqual nested.supersede (getArray acc) (getArray group))
            accepted)) := by
    intro acc group inputField accepted keyed groupKeyed given accepts
    have grows := (agg_impl_keyed unlimited hasKeys groupKeyed given).mpr ⟨accepted, accepts, rfl⟩
    have grownAccepted := upsert_all_accepted groupKeyed.rows.1 (accepted_rows_accepted accepts)
    refine ⟨_, grows, (agg_impl_keyed unlimited hasKeys keyed rfl).mpr
      ⟨_, accepted_rows_of_accepted grownAccepted, ?_⟩⟩
    exact congrArg Variant.array (upsert_all_gathered combines _ groupKeyed.rows.2 accepted)
  refine ⟨.inl rfl, fun _ _ => trivial, keeps, ?_, ?_⟩
  · intro acc inputField merged keyed _ merges
    cases given : inputField.isNull with
    | true =>
      rw [null_of_is_null given] at merges ⊢
      exact ⟨.null, rfl, merges⟩
    | false =>
      obtain ⟨accepted, accepts, rfl⟩ := (agg_impl_keyed unlimited hasKeys keyed given).mp merges
      exact gathered acc .null inputField accepted keyed (.inl rfl) given accepts
  · intro acc group middle inputField merged keyed groupKeyed _ groupMerges merges
    cases given : inputField.isNull with
    | true =>
      rw [null_of_is_null given] at merges ⊢
      cases merges
      exact ⟨group, rfl, groupMerges⟩
    | false =>
      have middleKeyed := keeps _ _ _ keyed trivial groupMerges
      obtain ⟨accepted, accepts, rfl⟩ :=
        (agg_impl_keyed unlimited hasKeys middleKeyed given).mp merges
      obtain ⟨grown, grows, stands⟩ :=
        gathered acc group inputField accepted keyed groupKeyed given accepts
      have middleRows : getArray middle =
          upsertAll nested.keysEqual nested.supersede (getArray acc) (getArray group) := by
        rcases groupKeyed with rfl | ⟨rows, rfl, rowsAccepted, _⟩
        · cases groupMerges
          rfl
        · obtain ⟨taken, takes, rfl⟩ :=
            (agg_impl_keyed unlimited hasKeys keyed rfl).mp groupMerges
          rw [show nested.acceptedRows (getArray (.array rows)) = .ok rows from
            accepted_rows_of_accepted rowsAccepted] at takes
          cases takes
          rfl
      rw [middleRows]
      exact ⟨grown, grows, stands⟩

theorem agg_impl_lawful (ordered : nested.Ordered) :
    Lawful { agg := stateless nested.aggImpl, retract := nested.retractImpl } anyValue := by
  by_cases keyless : nested.keyFields = []
  · rw [agg_impl_append unlimited keyless]
    exact append_rows_associates.groups.steps.regroups
  · exact (keyed_groups unlimited keyless ordered).steps.regroups

end NestedUpdate

theorem create_sequence_fields_lawful {env : Environment} {fields : List (String × DataType)}
    {indexes : List Nat} {sortFields : List SequenceField}
    (created : createSequenceFields env fields indexes = .ok sortFields) :
    ∀ field ∈ sortFields, TransCmp field.compareRows := by
  induction indexes generalizing sortFields with
  | nil =>
    cases created
    simp
  | cons index rest ih =>
    rw [createSequenceFields] at created
    split at created
    · exact ih created
    · split at created
      · cases created
      · next supported =>
          obtain ⟨later, createsLater, isFields⟩ := bind_eq_ok.mp created
          cases isFields
          refine forall_mem_cons.mpr ⟨?_, ih createsLater⟩
          have lawful := compare_variants_lawful supported
          unfold SequenceField.compareRows
          infer_instance

theorem create_nested_update_ordered {env : Environment} {options : FieldOptions}
    {fields : List (String × DataType)} {nested : NestedUpdate}
    (created : createNestedUpdate env options fields = .ok nested) :
    nested.countLimit = options.countLimit ∧ nested.Ordered := by
  rw [createNestedUpdate] at created
  split at created
  · cases created
  · split at created
    · cases created
    · obtain ⟨keyFields, _, later⟩ := bind_eq_ok.mp created
      obtain ⟨sequenceFields, _, later⟩ := bind_eq_ok.mp later
      obtain ⟨cmp, createsComparator, isNested⟩ := bind_eq_ok.mp later
      cases isNested
      refine ⟨rfl, ?_⟩
      rintro compareTo rfl
      rw [createSequenceComparator] at createsComparator
      split at createsComparator
      · cases createsComparator
      · obtain ⟨sortFields, createsFields, isComparator⟩ := bind_eq_ok.mp createsComparator
        cases isComparator
        apply first_difference_lawful
        intro cmp mem
        obtain ⟨field, isField, rfl⟩ := mem_map.mp mem
        exact create_sequence_fields_lawful createsFields field isField

end PaimonCore.Aggregate
