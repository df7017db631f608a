import PaimonCore.MergeTree.FullChangelog
import PaimonCore.MergeTree.LookupChangelog

/-!
# The changelogs of both producers

A full compaction drops retracts, so the top level has none. Where it has one beside other
records, the full producer takes it for a row that was there.
-/

namespace PaimonCore.MergeTree

open PaimonCore.Fields
open FullChangelogMergeFunctionWrapper (AtMostOneTopLevel RetractOnTop topLevelRecord)

/-- Both producers, with every merge function and every lookup. -/
structure ChangelogsSound (valueEqualizer : ValueEqualizer) (maxLevel : Int)
    (records : List KeyValue) : Prop where
  full : ∀ (State : Type) (mergeFunction : MergeFunction State),
    (FullChangelogMergeFunctionWrapper.mk mergeFunction maxLevel valueEqualizer).Sound records
  lookup : ∀ (State : Type) (wrapper : LookupChangelogMergeFunctionWrapper State),
    wrapper.valueEqualizer = valueEqualizer → wrapper.shouldProduceChangelog = true →
      (∃ kv ∈ records, kv.level = 0) → wrapper.Sound records

def fullRow (kind : RowKind) (level value : Int) : KeyValue where
  valueKind := kind
  sequenceNumber := 1 - level
  level := level
  key := [some (.integer 1)]
  value := [some (.integer value)]

def rowsEqual : ValueEqualizer :=
  some (fun left right => if left = right then .eq else .gt)

end PaimonCore.MergeTree
