import PaimonCore.Manifest.ManifestEntry

/-!
# `FileEntry::MergeEntries`

The loop over a list of entries with the insertion-ordered map of the entries
still open. The template is generic in the entry; an entry offers its kind and
its identifier.
-/

namespace PaimonCore.Manifest

open ChangeLog List

section
variable {Entry Key : Type} [DecidableEq Key]
variable (kind : Entry → FileKind) (createIdentifier : Entry → Key) (describe : Key → String)

def mergeEntry (merged : LinkedHashMap Key Entry) (entry : Entry) :
    Except String (LinkedHashMap Key Entry) :=
  let identifier := createIdentifier entry
  match kind entry with
  | .add =>
    if identifier ∈ merged.keys then
      .error ("Trying to add file " ++ describe identifier ++ " which is already added.")
    else .ok (merged.insert identifier entry)
  | .delete =>
    if identifier ∈ merged.keys then .ok (merged.erase identifier)
    else .ok (merged.insert identifier entry)

def mergeEntriesInto (merged : LinkedHashMap Key Entry) (unmerged : List Entry) :
    Except String (LinkedHashMap Key Entry) :=
  unmerged.foldlM (mergeEntry kind createIdentifier describe) merged

/-- The map after a prefix of the log: its entries are the net of that prefix. -/
structure Represents (merged : LinkedHashMap Key Entry) (log : List Entry) : Prop where
  keyed : ∀ pair ∈ merged.order, pair.1 = createIdentifier pair.2
  net : IsNet kind createIdentifier merged.values log

variable {kind createIdentifier} {merged : LinkedHashMap Key Entry} {log : List Entry}

theorem Represents.mem_keys_iff (represents : Represents kind createIdentifier merged log)
    (identifier : Key) :
    identifier ∈ merged.keys ↔ entriesOf createIdentifier identifier merged.values ≠ [] := by
  constructor
  · intro mem
    obtain ⟨pair, pairMember, rfl⟩ := mem_map.mp mem
    apply ne_nil_of_mem (a := pair.2)
    rw [mem_entries_of]
    exact ⟨mem_map_of_mem pairMember, (represents.keyed pair pairMember).symm⟩
  · intro nonempty
    obtain ⟨entry, mem⟩ := exists_mem_of_ne_nil _ nonempty
    obtain ⟨value, identified⟩ := mem_entries_of.mp mem
    obtain ⟨pair, pairMember, rfl⟩ := mem_map.mp value
    rw [← identified, ← represents.keyed pair pairMember]
    exact mem_map_of_mem pairMember

variable {entry : Entry}

theorem values_insert_fresh {identifier : Key} (fresh : identifier ∉ merged.keys) :
    (merged.insert identifier entry).values = merged.values ++ [entry] := by
  simp [LinkedHashMap.values, LinkedHashMap.order_insert_fresh _ _ _ fresh]

section
variable (represents : Represents kind createIdentifier merged log)
include represents

theorem entries_of_erase (erased identifier : Key) :
    entriesOf createIdentifier identifier (merged.erase erased).values =
      if identifier = erased then [] else entriesOf createIdentifier identifier merged.values := by
  have byKey : ∀ order : List (Key × Entry), (∀ pair ∈ order, pair.1 = createIdentifier pair.2) →
      entriesOf createIdentifier identifier ((order.filter (fun pair =>
        pair.1 ≠ erased)).map Prod.snd) =
        if identifier = erased then []
        else entriesOf createIdentifier identifier (order.map Prod.snd) := by
    intro order keyed
    induction order with
    | nil => simp [entriesOf]
    | cons pair rest ih =>
      have restKeyed := ih (fun other mem => keyed other (by simp [mem]))
      simp only [entriesOf, filter_cons, map_cons, filter_map] at restKeyed ⊢
      grind
  exact byKey merged.order represents.keyed

theorem Represents.insert (fresh : createIdentifier entry ∉ merged.keys)
    (unseen : entriesOf createIdentifier (createIdentifier entry) log = []) :
    Represents kind createIdentifier (merged.insert (createIdentifier entry) entry)
      (log ++ [entry]) where
  keyed := by
    intro pair mem
    rw [LinkedHashMap.order_insert_fresh _ _ _ fresh, mem_append, mem_singleton] at mem
    rcases mem with old | rfl
    · exact represents.keyed pair old
    · rfl
  net := by
    intro identifier
    rw [values_insert_fresh fresh, entries_of_append, entries_of_append, represents.net,
      entries_of_singleton]
    by_cases same : createIdentifier entry = identifier
    · subst same
      simp [unseen, cancel]
    · simp [same]

theorem Represents.erase {added : Entry}
    (pending : entriesOf createIdentifier (createIdentifier entry) log = [added])
    (isAdd : kind added = .add) (isDelete : kind entry = .delete) :
    Represents kind createIdentifier (merged.erase (createIdentifier entry)) (log ++ [entry]) where
  keyed := by
    intro pair mem
    exact represents.keyed pair (mem_of_mem_filter mem)
  net := by
    intro identifier
    rw [entries_of_erase represents, entries_of_append, entries_of_singleton]
    by_cases same : createIdentifier entry = identifier
    · subst same
      simp [pending, cancel, isAdd, isDelete]
    · simp [same, Ne.symm same, represents.net identifier]

/-- One round on a log that stays valid: no error, and the map represents the longer log. -/
theorem merge_entry_represents (valid : Valid kind createIdentifier (log ++ [entry])) :
    ∃ merged', mergeEntry kind createIdentifier describe merged entry = .ok merged' ∧
      Represents kind createIdentifier merged' (log ++ [entry]) := by
  have run := valid (createIdentifier entry)
  have present := represents.mem_keys_iff (createIdentifier entry)
  rw [represents.net] at present
  simp only [entries_of_append, entries_of_singleton, if_true] at run
  rcases valid_run_append run with unseen | ⟨added, single, isAdd⟩
  · have fresh : createIdentifier entry ∉ merged.keys := by simp [present, unseen, cancel]
    refine ⟨merged.insert (createIdentifier entry) entry, ?_, represents.insert fresh unseen⟩
    cases isKind : kind entry <;> simp [mergeEntry, isKind, fresh]
  · have found : createIdentifier entry ∈ merged.keys := by simp [present, single, cancel]
    have isDelete : kind entry = .delete := by
      cases isKind : kind entry with
      | add =>
        have none := valid_run_append_add isKind run
        simp [none] at single
      | delete => rfl
    refine ⟨merged.erase (createIdentifier entry), ?_, represents.erase single isAdd isDelete⟩
    simp [mergeEntry, isDelete, found]

end

theorem merge_entries_into_represents {handled unmerged : List Entry}
    (represents : Represents kind createIdentifier merged handled)
    (valid : Valid kind createIdentifier (handled ++ unmerged)) :
    ∃ merged', mergeEntriesInto kind createIdentifier describe merged unmerged = .ok merged' ∧
      Represents kind createIdentifier merged' (handled ++ unmerged) := by
  induction unmerged generalizing merged handled with
  | nil => exact ⟨merged, rfl, by simpa using represents⟩
  | cons entry rest ih =>
    rw [← singleton_append, ← append_assoc] at valid ⊢
    obtain ⟨next, step, nextRepresents⟩ := merge_entry_represents describe
      represents (valid_sublist valid (sublist_append_left _ _))
    obtain ⟨merged', loop, finalRepresents⟩ := ih nextRepresents valid
    refine ⟨merged', ?_, finalRepresents⟩
    rw [mergeEntriesInto, singleton_append, foldlM_cons, step]
    exact loop

end

def mergeEntries (unmerged : List ManifestEntry) : Except String (List ManifestEntry) := do
  let merged ← mergeEntriesInto ManifestEntry.kind ManifestEntry.createIdentifier
    Identifier.toString LinkedHashMap.empty unmerged
  .ok merged.values

abbrev ValidHistory (history : List ManifestEntry) : Prop :=
  Valid ManifestEntry.kind ManifestEntry.createIdentifier history

abbrev IsMerged (merged history : List ManifestEntry) : Prop :=
  IsNet ManifestEntry.kind ManifestEntry.createIdentifier merged history

/-- The live files of a merged list, and the deletions whose additions lie further back. -/
def liveFiles (merged : List ManifestEntry) : List ManifestEntry :=
  merged.filter (fun entry => entry.kind = .add)

def pendingDeletes (merged : List ManifestEntry) : List ManifestEntry :=
  merged.filter (fun entry => entry.kind = .delete)

/-- On a valid history the merge succeeds and gives its net. -/
theorem merge_entries_is_net {history : List ManifestEntry} (valid : ValidHistory history) :
    ∃ merged, mergeEntries history = .ok merged ∧ IsMerged merged history := by
  have start : Represents ManifestEntry.kind ManifestEntry.createIdentifier
      LinkedHashMap.empty [] := by
    constructor
    · intro pair mem
      cases mem
    · intro identifier
      simp [entriesOf, cancel]
  obtain ⟨map, loop, represents⟩ := merge_entries_into_represents Identifier.toString start
    (show ValidHistory ([] ++ history) from valid)
  refine ⟨map.values, ?_, represents.net⟩
  rw [mergeEntries, loop]
  rfl

end PaimonCore.Manifest
