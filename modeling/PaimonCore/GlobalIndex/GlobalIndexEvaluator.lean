import PaimonCore.Common.Range
import PaimonCore.Library.Programs
import PaimonCore.Predicate.StatisticsPruning

/-!
# `GlobalIndexEvaluatorImpl`

A predicate is normalised and then evaluated on the global indexes of its fields. A result is a
set of row ids, or nothing if the indexes cannot answer. Without an answer an AND is not
restricted, and an OR or a union of shards has no answer either.
-/

namespace PaimonCore.GlobalIndex

open Predicates Programs PaimonCore.Ranges List

def isNullRejecting : LeafFunction → Bool
  | .equal | .notEqual | .greaterThan | .greaterOrEqual | .lessThan | .lessOrEqual => true
  | .inLiterals | .notInLiterals | .startsWith | .endsWith | .contains | .like => true
  | .isNull | .isNotNull => false

/-- What `FlattenChildren` pushes for one child. -/
def flattenChild (function : CompoundFunction) : Predicate → List Predicate
  | .leaf leafFunction fieldIndex fieldType literals =>
    [.leaf leafFunction fieldIndex fieldType literals]
  | .compound inner children =>
    if inner = function then (children.map (flattenChild function)).flatten
    else [.compound inner children]

def flattenChildren (function : CompoundFunction) (children : List Predicate) : List Predicate :=
  (children.map (flattenChild function)).flatten

def constrainedField : Predicate → Option Nat
  | .leaf function fieldIndex _ _ => if isNullRejecting function then some fieldIndex else none
  | .compound _ _ => none

def isRedundant (constrainedFields : List Nat) : Predicate → Bool
  | .leaf function fieldIndex _ _ => function = .isNotNull && constrainedFields.contains fieldIndex
  | .compound _ _ => false

/-- IS NOT NULL says nothing beside a child that rejects nulls of the field. -/
def pruneChildren (function : CompoundFunction) (children : List Predicate) : List Predicate :=
  match function with
  | .and => children.filter (fun child => !isRedundant (children.filterMap constrainedField) child)
  | .or => children

/-- `PredicateBuilder::And` and `PredicateBuilder::Or`. -/
def buildCompound (function : CompoundFunction) (children : List Predicate) :
    Except String Predicate :=
  match children with
  | [] =>
    match function with
    | .and => .error "There must be at least 1 inner predicate to construct an AND predicate"
    | .or => .error "There must be at least 1 inner predicate to construct an OR predicate"
  | [child] => .ok child
  | _ => .ok (.compound function children)

inductive Below (function : CompoundFunction) : Predicate → Predicate → Prop where
  | refl (predicate : Predicate) : Below function predicate predicate
  | child {children : List Predicate} {inner part : Predicate} (member : inner ∈ children)
      (below : Below function inner part) : Below function (.compound function children) part

variable {function : CompoundFunction} {predicate part : Predicate}

theorem below_of_flattened (mem : part ∈ flattenChild function predicate) :
    Below function predicate part := by
  induction predicate using flattenChild.induct function with
  | case1 leafFunction fieldIndex fieldType literals =>
    rw [flattenChild, mem_singleton] at mem
    rw [mem]
    exact .refl _
  | case2 children ih =>
    rw [flattenChild, if_pos rfl, mem_flatten] at mem
    obtain ⟨parts, isPart, inPart⟩ := mem
    obtain ⟨inner, isInner, rfl⟩ := mem_map.mp isPart
    exact .child isInner (ih inner isInner inPart)
  | case3 inner children differs =>
    rw [flattenChild, if_neg differs, mem_singleton] at mem
    rw [mem]
    exact .refl _

theorem Below.size (below : Below function predicate part) : sizeOf part ≤ sizeOf predicate := by
  induction below with
  | refl predicate => exact Nat.le_refl _
  | child mem _ ih =>
    have inside := sizeOf_lt_of_mem mem
    simp only [Predicate.compound.sizeOf_spec]
    omega

variable {children : List Predicate}

theorem mem_flatten_children (mem : part ∈ flattenChildren function children) :
    ∃ child ∈ children, Below function child part := by
  obtain ⟨parts, isPart, inPart⟩ := mem_flatten.mp mem
  obtain ⟨child, isChild, rfl⟩ := mem_map.mp isPart
  exact ⟨child, isChild, below_of_flattened inPart⟩

theorem mem_pruned {child : Predicate} (mem : child ∈ pruneChildren function children) :
    child ∈ children := by
  cases function with
  | and => exact mem_of_mem_filter mem
  | or => exact mem

theorem normal_child_size {child : Predicate}
    (mem : child ∈ pruneChildren function (flattenChildren function children)) :
    sizeOf child < sizeOf (Predicate.compound function children) := by
  obtain ⟨outer, isOuter, below⟩ := mem_flatten_children (mem_pruned mem)
  have smaller := below.size
  have inside := sizeOf_lt_of_mem isOuter
  simp only [Predicate.compound.sizeOf_spec]
  omega

def normalizePredicate : Predicate → Except String Predicate
  | .leaf function fieldIndex fieldType literals =>
    .ok (.leaf function fieldIndex fieldType literals)
  | .compound function children => do
    let normalizedChildren ←
      (pruneChildren function (flattenChildren function children)).attach.mapM
        (fun child => normalizePredicate child.1)
    buildCompound function normalizedChildren
termination_by predicate => sizeOf predicate
decreasing_by exact normal_child_size child.2

/-- The reader of the rows of one range, which are numbered from zero. -/
structure Shard where
  range : Range
  answer : LeafFunction → List Literal → Option (Finset Int)

structure TypeIndex where
  indexType : String
  hasIndexer : Bool
  shards : List Shard

abbrev IndexMetas := Nat → List TypeIndex

/-- `OffsetGlobalIndexReader`. -/
def Shard.visit (shard : Shard) (function : LeafFunction) (literals : List Literal) :
    Option (Finset Int) :=
  (shard.answer function literals).map (fun ids => ids.image (· + shard.range.first))

/-- The loop of `UnionGlobalIndexReader::Union`, which is also that of an OR. -/
def unionFrom : Option (Finset Int) → List (Option (Finset Int)) → Option (Finset Int)
  | merged, [] => merged
  | _, none :: _ => none
  | none, some result :: rest => unionFrom (some result) rest
  | some merged, some result :: rest => unionFrom (some (merged ∪ result)) rest

def visitUnion (shards : List Shard) (function : LeafFunction) (literals : List Literal) :
    Option (Finset Int) :=
  unionFrom none (shards.map (fun shard => shard.visit function literals))

/-- `GlobalIndexScanImpl::CreateReaders` for all index types of a field. -/
def createReaders (metas : IndexMetas) (fieldIndex : Nat) : List (List Shard) :=
  (metas fieldIndex).filterMap (fun index =>
    if index.hasIndexer && !index.shards.isEmpty then some index.shards else none)

def restrict (compound sub : Option (Finset Int)) : Option (Finset Int) :=
  match compound, sub with
  | none, sub => sub
  | some compound, none => some compound
  | some compound, some sub => some (compound ∩ sub)

/-- The loop over the readers of a field and the children of an AND. -/
def intersectFrom (compound : Option (Finset Int)) :
    List (Option (Finset Int)) → Option (Finset Int)
  | [] => compound
  | sub :: rest =>
    if restrict compound sub = some ∅ then some ∅ else intersectFrom (restrict compound sub) rest

def evaluatePredicate (metas : IndexMetas) : Predicate → Option (Finset Int)
  | .leaf function fieldIndex _ literals =>
    intersectFrom none ((createReaders metas fieldIndex).map (fun shards =>
      visitUnion shards function literals))
  | .compound .or children => unionFrom none (children.map (evaluatePredicate metas))
  | .compound .and children => intersectFrom none (children.map (evaluatePredicate metas))

def evaluate (metas : IndexMetas) (predicate : Predicate) :
    Except String (Option (Finset Int)) := do
  let normalizedPredicate ← normalizePredicate predicate
  return evaluatePredicate metas normalizedPredicate

inductive Holds (row : Row) : Predicate → Prop where
  | leaf {function : LeafFunction} {fieldIndex : Nat} {fieldType : FieldType}
      {literals : List Literal}
      (accepted : testLeaf row function fieldIndex fieldType literals = .ok true) :
      Holds row (.leaf function fieldIndex fieldType literals)
  | and {children : List Predicate} (all : ∀ child ∈ children, Holds row child) :
      Holds row (.compound .and children)
  | or {children : List Predicate} (child : Predicate) (member : child ∈ children)
      (holds : Holds row child) : Holds row (.compound .or children)

theorem holds_of_test {row : Row} (accepted : predicate.test row = .ok true) :
    Holds row predicate := by
  induction predicate using Predicate.test.induct with
  | case1 function fieldIndex fieldType literals =>
    rw [Predicate.test] at accepted
    exact .leaf accepted
  | case2 function children ih =>
    rw [Predicate.test] at accepted
    cases function with
    | and =>
      have passed := test_children_passed accepted
      exact .and (fun child mem => ih child mem (passed _ (mem_map_of_mem mem)))
    | or =>
      obtain ⟨child, mem, childAccepted⟩ := mem_map.mp (test_children_decisive accepted)
      exact .or child mem (ih child mem childAccepted)

def Uses (predicate : Predicate) (field : Nat) : Prop :=
  ∃ function fieldType literals, Predicate.leaf function field fieldType literals ∈ predicate.parts

theorem uses_of_child {child : Predicate} (mem : child ∈ children) {field : Nat}
    (uses : Uses child field) : Uses (.compound function children) field := by
  obtain ⟨leafFunction, fieldType, literals, inParts⟩ := uses
  refine ⟨leafFunction, fieldType, literals, ?_⟩
  rw [Predicate.parts]
  exact mem_cons_of_mem _ (mem_flatten.mpr ⟨child.parts, mem_map_of_mem mem, inParts⟩)

/-- What one predicate says about rows, another one that is weaker says as well. -/
structure Weaker (types : List FieldType) (predicate normal : Predicate) : Prop where
  holds : ∀ row, Holds row predicate → Holds row normal
  typed : WellTyped types predicate → WellTyped types normal
  uses : ∀ field, Uses normal field → Uses predicate field

theorem Weaker.refl (types : List FieldType) (predicate : Predicate) :
    Weaker types predicate predicate :=
  ⟨fun _ => id, id, fun _ => id⟩

theorem Below.typed {types : List FieldType} (below : Below function predicate part)
    (typed : WellTyped types predicate) : WellTyped types part := by
  induction below with
  | refl predicate => exact typed
  | child mem _ ih =>
    cases typed with
    | compound typedChildren => exact ih (typedChildren _ mem)

theorem Below.uses (below : Below function predicate part) {field : Nat} (uses : Uses part field) :
    Uses predicate field := by
  induction below with
  | refl predicate => exact uses
  | child mem _ ih => exact uses_of_child mem (ih uses)

theorem Below.holds {row : Row} (below : Below .and predicate part) (holds : Holds row predicate) :
    Holds row part := by
  induction below with
  | refl predicate => exact holds
  | child mem _ ih =>
    cases holds with
    | and all => exact ih (all _ mem)

theorem flatten_child_or {row : Row} (holds : Holds row predicate) :
    ∃ child ∈ flattenChild .or predicate, Holds row child := by
  induction predicate using flattenChild.induct CompoundFunction.or with
  | case1 leafFunction fieldIndex fieldType literals =>
    exact ⟨_, by rw [flattenChild]; exact mem_singleton_self _, holds⟩
  | case2 children ih =>
    cases holds with
    | or inner isInner innerHolds =>
      obtain ⟨child, inPart, childHolds⟩ := ih inner isInner innerHolds
      refine ⟨child, ?_, childHolds⟩
      rw [flattenChild]
      exact mem_flatten.mpr ⟨_, mem_map_of_mem isInner, inPart⟩
  | case3 inner children differs =>
    refine ⟨.compound inner children, ?_, holds⟩
    rw [flattenChild, if_neg differs]
    exact mem_singleton_self _

variable {normal : Predicate}

section
variable (built : buildCompound function children = .ok normal)
include built

theorem built_uses {field : Nat} (uses : Uses normal field) :
    ∃ child ∈ children, Uses child field := by
  rw [buildCompound.eq_def] at built
  split at built
  · split at built <;> cases built
  · next child =>
      cases built
      exact ⟨normal, mem_singleton_self _, uses⟩
  · cases built
    obtain ⟨leafFunction, fieldType, literals, inParts⟩ := uses
    rw [Predicate.parts] at inParts
    rcases mem_cons.mp inParts with no | inParts
    · cases no
    · obtain ⟨parts, isParts, inParts⟩ := mem_flatten.mp inParts
      obtain ⟨child, mem, rfl⟩ := mem_map.mp isParts
      exact ⟨child, mem, leafFunction, fieldType, literals, inParts⟩

theorem built_typed {types : List FieldType}
    (typed : ∀ child ∈ children, WellTyped types child) : WellTyped types normal := by
  rw [buildCompound.eq_def] at built
  split at built
  · split at built <;> cases built
  · cases built
    exact typed normal (mem_singleton_self _)
  · cases built
    exact .compound typed

theorem built_holds {row : Row} (holds : Holds row (.compound function children)) :
    Holds row normal := by
  rw [buildCompound.eq_def] at built
  split at built
  · split at built <;> cases built
  · cases built
    cases holds with
    | and all => exact all normal (mem_singleton_self _)
    | or child mem childHolds => exact mem_singleton.mp mem ▸ childHolds
  · cases built
    exact holds

end

theorem pruned_holds {row : Row} (holds : Holds row (.compound function children)) :
    Holds row
      (.compound function (pruneChildren function (flattenChildren function children))) := by
  cases holds with
  | and all =>
    apply Holds.and
    intro part mem
    obtain ⟨child, isChild, below⟩ := mem_flatten_children (mem_pruned mem)
    exact below.holds (all child isChild)
  | or child mem childHolds =>
    obtain ⟨part, inPart, partHolds⟩ := flatten_child_or childHolds
    exact .or part (mem_flatten.mpr ⟨_, mem_map_of_mem mem, inPart⟩) partHolds

theorem normalize_weaker (types : List FieldType)
    (normalizes : normalizePredicate predicate = .ok normal) : Weaker types predicate normal := by
  induction predicate using normalizePredicate.induct generalizing normal with
  | case1 function fieldIndex fieldType literals =>
    rw [normalizePredicate] at normalizes
    cases normalizes
    exact .refl types _
  | case2 function children ih =>
    rw [normalizePredicate] at normalizes
    obtain ⟨normalChildren, traversed, built⟩ := bind_eq_ok.mp normalizes
    obtain ⟨forward, backward⟩ := map_m_ok traversed
    have weaker : ∀ normalChild ∈ normalChildren,
        ∃ child ∈ pruneChildren function (flattenChildren function children),
          Weaker types child normalChild := by
      intro normalChild mem
      obtain ⟨child, _, normalizesChild⟩ := backward normalChild mem
      exact ⟨child.1, child.2, ih child normalizesChild⟩
    constructor
    · intro row holds
      apply built_holds built
      cases pruned_holds holds with
      | and all =>
        apply Holds.and
        intro normalChild mem
        obtain ⟨child, isChild, childWeaker⟩ := weaker normalChild mem
        exact childWeaker.holds row (all child isChild)
      | or child mem childHolds =>
        obtain ⟨normalChild, isNormal, normalizesChild⟩ := forward ⟨child, mem⟩ (mem_attach _ _)
        exact .or normalChild isNormal ((ih ⟨child, mem⟩ normalizesChild).holds row childHolds)
    · intro typed
      apply built_typed built
      intro normalChild mem
      obtain ⟨child, isChild, childWeaker⟩ := weaker normalChild mem
      obtain ⟨outer, isOuter, below⟩ := mem_flatten_children (mem_pruned isChild)
      cases typed with
      | compound typedChildren =>
        exact childWeaker.typed (below.typed (typedChildren outer isOuter))
    · intro field uses
      obtain ⟨normalChild, mem, childUses⟩ := built_uses built uses
      obtain ⟨child, isChild, childWeaker⟩ := weaker normalChild mem
      obtain ⟨outer, isOuter, below⟩ := mem_flatten_children (mem_pruned isChild)
      exact uses_of_child isOuter (below.uses (childWeaker.uses field childUses))

section
variable {types : List FieldType} {rows : Int → Row} {live : Int → Prop} {metas : IndexMetas}
  {id : Int}

/-- The answers are right at the live ids; an index may still hold rows of no live file. -/
def Shard.Exact (types : List FieldType) (rows : Int → Row) (live : Int → Prop)
    (fieldIndex : Nat) (shard : Shard) : Prop :=
  ∀ function fieldType literals ids, types[fieldIndex]? = some fieldType →
    shard.answer function literals = some ids → ∀ position, live (shard.range.first + position) →
      (position ∈ ids ↔ 0 ≤ position ∧ position < shard.range.count ∧
        testLeaf (rows (shard.range.first + position)) function fieldIndex fieldType literals =
          .ok true)

def TypeIndex.CoversRow (index : TypeIndex) (id : Int) : Prop :=
  Covers (index.shards.map Shard.range) id

def Indexed (metas : IndexMetas) (predicate : Predicate) (id : Int) : Prop :=
  ∀ field, Uses predicate field → ∀ index ∈ metas field, index.hasIndexer = true →
    index.CoversRow id

theorem union_from_subset {merged : Option (Finset Int)} {results : List (Option (Finset Int))}
    {ids : Finset Int} (union : unionFrom merged results = some ids) :
    (∀ found, merged = some found → found ⊆ ids) ∧
      ∀ result ∈ results, ∃ found, result = some found ∧ found ⊆ ids := by
  induction results generalizing merged with
  | nil =>
    rw [unionFrom.eq_def] at union
    refine ⟨?_, nofun⟩
    intro found isFound
    rw [isFound, Option.some.injEq] at union
    exact union.subset
  | cons result rest ih =>
    cases result with
    | none =>
      cases merged <;> cases union
    | some found =>
      cases merged with
      | none =>
        obtain ⟨first, later⟩ := ih union
        refine ⟨nofun, ?_⟩
        exact forall_mem_cons.mpr ⟨⟨found, rfl, first found rfl⟩, later⟩
      | some merged =>
        obtain ⟨first, later⟩ := ih union
        have both := Finset.union_subset_iff.mp (first _ rfl)
        constructor
        · intro other isOther
          cases isOther
          exact both.1
        · exact forall_mem_cons.mpr ⟨⟨found, rfl, both.2⟩, later⟩

theorem intersect_from_mem {compound : Option (Finset Int)} {results : List (Option (Finset Int))}
    (inCompound : ∀ ids, compound = some ids → id ∈ ids)
    (inResults : ∀ result ∈ results, ∀ ids, result = some ids → id ∈ ids) :
    ∀ ids, intersectFrom compound results = some ids → id ∈ ids := by
  induction results generalizing compound with
  | nil =>
    intro ids isResult
    exact inCompound ids isResult
  | cons result rest ih =>
    have inRestricted : ∀ ids, restrict compound result = some ids → id ∈ ids := by
      intro ids isResult
      have inResult := inResults result mem_cons_self
      cases compound with
      | none => exact inResult ids isResult
      | some compound =>
        cases result with
        | none => exact inCompound ids isResult
        | some found =>
          cases isResult
          exact Finset.mem_inter.mpr ⟨inCompound _ rfl, inResult _ rfl⟩
    intro ids isResult
    rw [intersectFrom] at isResult
    split at isResult
    · next empty => exact absurd (inRestricted ∅ empty) (Finset.notMem_empty id)
    · exact ih inRestricted (fun other mem =>
        inResults other (mem_cons_of_mem _ mem)) ids isResult

theorem visit_union_mem {function : LeafFunction} {fieldIndex : Nat} {fieldType : FieldType}
    {literals : List Literal} {shards : List Shard} (column : types[fieldIndex]? = some fieldType)
    (exact_ : ∀ shard ∈ shards, shard.Exact types rows live fieldIndex) (isLive : live id)
    (covered : Covers (shards.map Shard.range) id)
    (accepted : testLeaf (rows id) function fieldIndex fieldType literals = .ok true) :
    ∀ ids, visitUnion shards function literals = some ids → id ∈ ids := by
  intro ids isResult
  obtain ⟨range, isRange, inside⟩ := covered
  obtain ⟨shard, mem, rfl⟩ := mem_map.mp isRange
  obtain ⟨found, visits, subset⟩ := (union_from_subset isResult).2 _ (mem_map_of_mem mem)
  obtain ⟨answer, answers, rfl⟩ := Option.map_eq_some_iff.mp visits
  apply subset
  rw [Finset.mem_image]
  rw [Range.mem_iff] at inside
  refine ⟨id - shard.range.first, ?_, by omega⟩
  have atId : shard.range.first + (id - shard.range.first) = id := by omega
  have right := exact_ shard mem function fieldType literals answer column answers
    (id - shard.range.first)
  rw [atId] at right
  rw [right isLive, Range.count]
  exact ⟨by omega, by omega, accepted⟩

section
variable {predicate : Predicate}
  (shardsExact : ∀ field, ∀ index ∈ metas field, ∀ shard ∈ index.shards,
    shard.Exact types rows live field)
  (typed : WellTyped types predicate) (isLive : live id) (indexed : Indexed metas predicate id)
include shardsExact typed isLive indexed

theorem evaluate_predicate_mem (holds : Holds (rows id) predicate) :
    ∀ ids, evaluatePredicate metas predicate = some ids → id ∈ ids := by
  induction holds with
  | @leaf function fieldIndex fieldType literals accepted =>
    intro ids isResult
    rw [evaluatePredicate] at isResult
    refine intersect_from_mem (by simp) ?_ ids isResult
    intro result mem
    obtain ⟨shards, isReader, rfl⟩ := mem_map.mp mem
    obtain ⟨index, isIndex, isShards⟩ := mem_filterMap.mp isReader
    split at isShards
    · next usable =>
        cases isShards
        cases typed with
        | leaf column =>
          have uses : Uses (.leaf function fieldIndex fieldType literals) fieldIndex :=
            ⟨function, fieldType, literals, by simp [Predicate.parts]⟩
          rw [Bool.and_eq_true] at usable
          exact visit_union_mem column (shardsExact fieldIndex index isIndex) isLive
            (indexed fieldIndex uses index isIndex usable.1) accepted
    · cases isShards
  | @and children all ih =>
    intro ids isResult
    rw [evaluatePredicate] at isResult
    refine intersect_from_mem (by simp) ?_ ids isResult
    intro result mem
    obtain ⟨child, isChild, rfl⟩ := mem_map.mp mem
    cases typed with
    | compound typedChildren =>
      exact ih child isChild (typedChildren child isChild)
        (fun field uses => indexed field (uses_of_child isChild uses))
  | @or children child isChild childHolds ih =>
    intro ids isResult
    rw [evaluatePredicate] at isResult
    obtain ⟨found, evaluates, subset⟩ := (union_from_subset isResult).2 _ (mem_map_of_mem isChild)
    apply subset
    cases typed with
    | compound typedChildren =>
      exact ih (typedChildren child isChild)
        (fun field uses => indexed field (uses_of_child isChild uses)) found evaluates

theorem evaluate_mem (accepted : predicate.test (rows id) = .ok true) {ids : Finset Int}
    (evaluates : evaluate metas predicate = .ok (some ids)) : id ∈ ids := by
  obtain ⟨normal, normalizes, evaluates⟩ := bind_eq_ok.mp evaluates
  have weaker := normalize_weaker types normalizes
  exact evaluate_predicate_mem shardsExact (weaker.typed typed) isLive
    (fun field uses => indexed field (weaker.uses field uses))
    (weaker.holds _ (holds_of_test accepted)) ids (Except.ok.inj evaluates)

end

end

end PaimonCore.GlobalIndex
