import PaimonCore.MergeTree.MergeFunction

/-!
# `ReducerMergeFunctionWrapper`

The wrapper keeps the first record back. A key with one record never reaches the merge
function; a second record hands over the first one and then itself.
-/

namespace PaimonCore.MergeTree

open PaimonCore.Fields

structure Merger (Record State : Type) where
  reset : State → State
  add : Record → State → Except String State
  getResult : State → Except String (Option Record × State)

def MergeFunction.merger {State : Type} (mergeFunction : MergeFunction State) :
    Merger KeyValue State where
  reset := mergeFunction.reset
  add := mergeFunction.add
  getResult := mergeFunction.getResult

namespace Merger

variable {Record State : Type} (merger : Merger Record State)

/-- `Reset`, one `Add` for each record, `GetResult`. -/
def merge (records : List Record) (state : State) : Except String (Option Record × State) := do
  let state ← records.foldlM (fun state record => merger.add record state) (merger.reset state)
  merger.getResult state

end Merger

structure ReducerState (Record State : Type) where
  mergeFunction : State
  initialKv : Option Record := none
  isInitialized : Bool := false

def reducer {Record State : Type} (merger : Merger Record State) :
    Merger Record (ReducerState Record State) where
  reset state := { mergeFunction := merger.reset state.mergeFunction }
  add kv state :=
    match state.initialKv with
    | none => .ok { state with initialKv := some kv }
    | some initialKv => do
      let state ←
        if state.isInitialized then .ok state
        else do
          let merged ← merger.add initialKv state.mergeFunction
          .ok { state with mergeFunction := merged, isInitialized := true }
      let merged ← merger.add kv state.mergeFunction
      .ok { state with mergeFunction := merged }
  getResult state := do
    let (result, merged) ←
      if state.isInitialized then merger.getResult state.mergeFunction
      else .ok (state.initialKv, state.mergeFunction)
    .ok (result, { mergeFunction := merger.reset merged })

variable {Record State : Type} (merger : Merger Record State)

theorem reducer_merge_single (record : Record) (state : ReducerState Record State) :
    (reducer merger).merge [record] state = .ok (some record,
        { mergeFunction := merger.reset (merger.reset state.mergeFunction) }) := rfl

def mergeGroups : List (List Record) → State → Except String (List Record)
  | [], _ => .ok []
  | group :: groups, state => do
    let (result, state) ← merger.merge group state
    let results ← mergeGroups groups state
    .ok (result.toList ++ results)

theorem merge_groups_singletons {groups : List (List Record)}
    (singletons : ∀ group ∈ groups, ∃ record, group = [record])
    (state : ReducerState Record State) :
    mergeGroups (reducer merger) groups state = .ok groups.flatten := by
  induction groups generalizing state with
  | nil => rfl
  | cons group groups ih =>
    obtain ⟨record, rfl⟩ := singletons group List.mem_cons_self
    have rest := ih (List.forall_mem_cons.mp singletons).2
      { mergeFunction := merger.reset (merger.reset state.mergeFunction) }
    rw [mergeGroups, reducer_merge_single]
    dsimp only [Bind.bind, Except.bind]
    rw [rest]
    rfl

end PaimonCore.MergeTree
