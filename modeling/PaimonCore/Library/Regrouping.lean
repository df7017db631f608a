import PaimonCore.Library.Programs

/-!
# Merging in groups

Records are merged one after another into a state, whose outcome is a record again. If a group of
records can be replaced by its outcome wherever it stands, merging in groups of any depth gives
the outcome of one pass.
-/

namespace PaimonCore.Regrouping

open Programs List

/-- Records that are passed on as they are, and groups that are merged. -/
inductive GroupTree (Record : Type) where
  | single (record : Record)
  | group (first : GroupTree Record) (rest : List (GroupTree Record))

namespace GroupTree

variable {Record : Type}

mutual

def records : GroupTree Record → List Record
  | .single record => [record]
  | .group first rest => records first ++ recordsOf rest
termination_by structural tree => tree

def recordsOf : List (GroupTree Record) → List Record
  | [] => []
  | tree :: rest => records tree ++ recordsOf rest
termination_by structural trees => trees

end

mutual

def eval (merge : List Record → Except String Record) : GroupTree Record → Except String Record
  | .single record => .ok record
  | .group first rest => do
    let head ← eval merge first
    let later ← evalAll merge rest
    merge (head :: later)
termination_by structural tree => tree

def evalAll (merge : List Record → Except String Record) :
    List (GroupTree Record) → Except String (List Record)
  | [] => .ok []
  | tree :: rest => do
    let head ← eval merge tree
    let later ← evalAll merge rest
    return head :: later
termination_by structural trees => trees

end

theorem records_ne_nil : ∀ tree : GroupTree Record, tree.records ≠ []
  | .single record => by simp [records]
  | .group first rest => by
    exact List.append_ne_nil_of_left_ne_nil (records_ne_nil first) _

end GroupTree

section
variable {Record State : Type} (add : State → Record → Except String State) (start : State)
  (outcome : State → Except String Record)

def mergeOnce (records : List Record) : Except String Record := do
  let final ← records.foldlM add start
  outcome final

/-- The state after a group has an allowed outcome that takes its place. -/
def StandsFor (allowed : Record → Prop) (state merged final : State) : Prop :=
  ∃ record, outcome merged = .ok record ∧ allowed record ∧ add state record = .ok final

/-- Instead of a group of records its outcome can be added. -/
def Regroups (allowed : Record → Prop) : Prop :=
  ∀ (before group : List Record) (state final : State),
    (∀ record ∈ before ++ group, allowed record) →
    group ≠ [] → before.foldlM add start = .ok state → group.foldlM add state = .ok final →
      ∃ merged, group.foldlM add start = .ok merged ∧
        StandsFor add outcome allowed state merged final

variable {add start outcome} {allowed : Record → Prop}

theorem foldlM_append_ok {before after : List Record} {state final : State}
    (adds : (before ++ after).foldlM add state = .ok final) :
    ∃ middle, before.foldlM add state = .ok middle ∧ after.foldlM add middle = .ok final := by
  rw [foldlM_append] at adds
  exact bind_eq_ok.mp adds

theorem foldlM_invariant {Inv : State → Prop} {records : List Record} {state final : State}
    (step : ∀ record ∈ records, ∀ before after, Inv before →
      add before record = .ok after → Inv after)
    (holds : Inv state) (adds : records.foldlM add state = .ok final) : Inv final := by
  induction records generalizing state with
  | nil =>
    cases adds
    exact holds
  | cons record rest ih =>
    obtain ⟨middle, isMiddle, laterAdds⟩ := bind_eq_ok.mp adds
    have middleHolds := step record mem_cons_self state middle holds isMiddle
    exact ih (forall_mem_cons.mp step).2 middleHolds laterAdds

/-- For one record: it can be replaced by its outcome, and taken into the group before it. `Reached`
holds of all states, `Grown` after a record. -/
structure Steps (add : State → Record → Except String State) (start : State)
    (outcome : State → Except String Record) (allowed : Record → Prop)
    (Reached Grown : State → Prop) : Prop where
  start_reached : Reached start
  reached : ∀ state record after, Reached state → allowed record →
    add state record = .ok after → Reached after
  first : ∀ state record after, Reached state → allowed record → add state record = .ok after →
    ∃ merged, add start record = .ok merged ∧ Grown merged ∧
      StandsFor add outcome allowed state merged after
  next : ∀ state merged middle record after, Reached state → Grown merged → allowed record →
    StandsFor add outcome allowed state merged middle → add middle record = .ok after →
      ∃ grown, add merged record = .ok grown ∧ Grown grown ∧
        StandsFor add outcome allowed state grown after

variable {Reached Grown : State → Prop}

theorem Steps.extend (steps : Steps add start outcome allowed Reached Grown) {group : List Record}
    {state merged middle final : State} (areAllowed : ∀ record ∈ group, allowed record)
    (isReached : Reached state) (isGrown : Grown merged)
    (stands : StandsFor add outcome allowed state merged middle)
    (adds : group.foldlM add middle = .ok final) : ∃ grown, group.foldlM add merged = .ok grown ∧
      StandsFor add outcome allowed state grown final := by
  induction group generalizing merged middle with
  | nil =>
    cases adds
    exact ⟨merged, rfl, stands⟩
  | cons record rest ih =>
    obtain ⟨after, isAfter, laterAdds⟩ := bind_eq_ok.mp adds
    obtain ⟨grown, grows, nextGrown, nextStands⟩ := steps.next state merged middle record after
      isReached isGrown (areAllowed record mem_cons_self) stands isAfter
    obtain ⟨last, lastAdds, lastStands⟩ :=
      ih (forall_mem_cons.mp areAllowed).2 nextGrown
        nextStands laterAdds
    refine ⟨last, ?_, lastStands⟩
    exact bind_eq_ok.mpr ⟨grown, grows, lastAdds⟩

theorem Steps.regroups (steps : Steps add start outcome allowed Reached Grown) :
    Regroups add start outcome allowed := by
  intro before group state final areAllowed nonempty reaches adds
  have isReached : Reached state := by
    refine foldlM_invariant ?_ steps.start_reached reaches
    intro record mem earlier after holds isAfter
    exact steps.reached earlier record after holds
      (areAllowed record (mem_append_left _ mem)) isAfter
  cases group with
  | nil => exact absurd rfl nonempty
  | cons record rest =>
    have groupAllowed : ∀ mem ∈ record :: rest, allowed mem :=
      fun mem isMember => areAllowed mem (mem_append_right _ isMember)
    obtain ⟨after, isAfter, laterAdds⟩ := bind_eq_ok.mp adds
    obtain ⟨merged, merges, isGrown, stands⟩ := steps.first state record after isReached
      (groupAllowed record mem_cons_self) isAfter
    obtain ⟨last, lastAdds, lastStands⟩ :=
      steps.extend (forall_mem_cons.mp groupAllowed).2 isReached isGrown
      stands laterAdds
    refine ⟨last, ?_, lastStands⟩
    exact bind_eq_ok.mpr ⟨merged, merges, lastAdds⟩

/-- `merge` is the one pass on the lists that occur. -/
def Passes (merge : List Record → Except String Record) (add : State → Record → Except String State)
    (start : State) (outcome : State → Except String Record) (allowed : Record → Prop) : Prop :=
  ∀ records, records ≠ [] → (∀ record ∈ records, allowed record) →
    merge records = mergeOnce add start outcome records

variable {merge : List Record → Except String Record}

theorem eval_group_of (passes : Passes merge add start outcome allowed) {first : GroupTree Record}
    {rest : List (GroupTree Record)} {head record : Record} {later : List Record}
    {middle final : State}
    (evalsHead : first.eval merge = .ok head)
    (evalsLater : GroupTree.evalAll merge rest = .ok later)
    (areAllowed : ∀ mem ∈ head :: later, allowed mem)
    (headAdds : add start head = .ok middle) (laterAdds : later.foldlM add middle = .ok final)
    (isOutcome : outcome final = .ok record) :
    (GroupTree.group first rest).eval merge = .ok record := by
  refine bind_eq_ok.mpr ⟨head, evalsHead, bind_eq_ok.mpr ⟨later, evalsLater, ?_⟩⟩
  rw [passes _ (cons_ne_nil _ _) areAllowed, mergeOnce]
  exact bind_eq_ok.mpr ⟨final, bind_eq_ok.mpr ⟨middle, headAdds, laterAdds⟩, isOutcome⟩

mutual

/-- What a tree evaluates to stands for its records, whatever was added before. -/
theorem eval_stands (regroups : Regroups add start outcome allowed)
    (passes : Passes merge add start outcome allowed) :
    ∀ (tree : GroupTree Record) (before : List Record) (state final : State),
      (∀ record ∈ before ++ tree.records, allowed record) →
      before.foldlM add start = .ok state → tree.records.foldlM add state = .ok final →
        ∃ record, tree.eval merge = .ok record ∧ allowed record ∧ add state record = .ok final
  | .single record, before, state, final, areAllowed, _, adds => by
    rw [GroupTree.records, List.foldlM_cons] at adds
    obtain ⟨after, isAfter, isFinal⟩ := bind_eq_ok.mp adds
    cases isFinal
    exact ⟨record, rfl, areAllowed record (by simp [GroupTree.records]), isAfter⟩
  | .group first rest, before, state, final, areAllowed, reached, adds => by
    have nonempty := GroupTree.records_ne_nil (.group first rest)
    obtain ⟨merged, merges, record, isOutcome, isAllowed, stands⟩ :=
      regroups before _ state final areAllowed nonempty reached adds
    refine ⟨record, ?_, isAllowed, stands⟩
    rw [GroupTree.records] at merges
    obtain ⟨middle, firstAdds, restAdds⟩ := foldlM_append_ok merges
    have ownAllowed : ∀ mem ∈ first.records ++ GroupTree.recordsOf rest, allowed mem := by
      intro mem isMember
      exact areAllowed mem (mem_append_right _ (by rwa [GroupTree.records]))
    obtain ⟨head, evalsHead, headAllowed, headStands⟩ :=
      eval_stands regroups passes first [] start middle
        (forall_mem_append.mp ownAllowed).1 rfl firstAdds
    obtain ⟨later, evalsLater, laterAllowed, laterStands⟩ :=
      eval_all_stand regroups passes rest first.records middle merged ownAllowed firstAdds restAdds
    exact eval_group_of passes evalsHead evalsLater
      (forall_mem_cons.mpr ⟨headAllowed, laterAllowed⟩) headStands laterStands isOutcome
termination_by structural tree => tree

theorem eval_all_stand (regroups : Regroups add start outcome allowed)
    (passes : Passes merge add start outcome allowed) :
    ∀ (trees : List (GroupTree Record)) (before : List Record) (state final : State),
      (∀ record ∈ before ++ GroupTree.recordsOf trees, allowed record) →
      before.foldlM add start = .ok state →
        (GroupTree.recordsOf trees).foldlM add state = .ok final →
        ∃ outcomes, GroupTree.evalAll merge trees = .ok outcomes ∧
          (∀ record ∈ outcomes, allowed record) ∧ outcomes.foldlM add state = .ok final
  | [], before, state, final, _, _, adds => ⟨[], rfl, by simp, adds⟩
  | tree :: rest, before, state, final, areAllowed, reached, adds => by
    rw [GroupTree.recordsOf] at adds areAllowed
    obtain ⟨middle, treeAdds, restAdds⟩ := foldlM_append_ok adds
    rw [← append_assoc] at areAllowed
    obtain ⟨head, evalsHead, headAllowed, headStands⟩ :=
      eval_stands regroups passes tree before state middle (forall_mem_append.mp areAllowed).1
        reached treeAdds
    have reachedMiddle : (before ++ tree.records).foldlM add start = .ok middle := by
      rw [foldlM_append, reached]
      exact treeAdds
    obtain ⟨later, evalsLater, laterAllowed, laterStands⟩ := eval_all_stand regroups passes rest
      (before ++ tree.records) middle final areAllowed reachedMiddle restAdds
    refine ⟨head :: later, ?_, forall_mem_cons.mpr ⟨headAllowed, laterAllowed⟩, ?_⟩
    · rw [GroupTree.evalAll]
      exact bind_eq_ok.mpr ⟨head, evalsHead, bind_eq_ok.mpr ⟨later, evalsLater, rfl⟩⟩
    · rw [foldlM_cons]
      exact bind_eq_ok.mpr ⟨middle, headStands, laterStands⟩
termination_by structural trees => trees

end

theorem eval_group (regroups : Regroups add start outcome allowed)
    (passes : Passes merge add start outcome allowed) {first : GroupTree Record}
    {rest : List (GroupTree Record)} {record : Record}
    (areAllowed : ∀ mem ∈ (GroupTree.group first rest).records, allowed mem)
    (once : merge (GroupTree.group first rest).records = .ok record) :
    (GroupTree.group first rest).eval merge = .ok record := by
  rw [passes _ (GroupTree.records_ne_nil _) areAllowed] at once
  obtain ⟨final, adds, isOutcome⟩ := bind_eq_ok.mp once
  obtain ⟨middle, firstAdds, restAdds⟩ := foldlM_append_ok adds
  obtain ⟨head, evalsHead, headAllowed, headStands⟩ :=
    eval_stands regroups passes first [] start middle
      (forall_mem_append.mp areAllowed).1 rfl firstAdds
  obtain ⟨later, evalsLater, laterAllowed, laterStands⟩ :=
    eval_all_stand regroups passes rest first.records middle final areAllowed firstAdds restAdds
  exact eval_group_of passes evalsHead evalsLater
    (forall_mem_cons.mpr ⟨headAllowed, laterAllowed⟩) headStands laterStands isOutcome

end

end PaimonCore.Regrouping
