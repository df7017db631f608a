import PaimonCore.Append.AppendOnlyWriter

/-!
# Committing an increment

What the merge of the entries leaves, for the entries that an increment makes: new files are
added, the inputs of compactions deleted and their outputs added. A file that one increment
names as input and as output cannot be committed.
-/

namespace PaimonCore.Append

open ChangeLog Manifest Programs List LinkedHashMap

variable {Row : Type}

def names (files : List (AppendFile Row)) : List Nat := files.map AppendFile.name

variable {files : List (AppendFile Row)}

theorem mem_names {name : Nat} : name ∈ names files ↔ ∃ file ∈ files, file.name = name := by
  simp [names]

theorem names_append (left right : List (AppendFile Row)) :
    names (left ++ right) = names left ++ names right :=
  map_append

theorem mem_names_of_mem {file : AppendFile Row} (mem : file ∈ files) : file.name ∈ names files :=
  mem_map_of_mem mem

def adds (files : List (AppendFile Row)) : List (FileChange Row) :=
  files.map (fun file => (.add, file))

def deletes (files : List (AppendFile Row)) : List (FileChange Row) :=
  files.map (fun file => (.delete, file))

abbrev Merged (Row : Type) := LinkedHashMap Nat (FileChange Row)

def keyed (change : FileChange Row) : Nat × FileChange Row := (change.2.name, change)

def mergeInto (merged : Merged Row) (changes : List (FileChange Row)) :
    Except String (Merged Row) :=
  mergeEntriesInto Prod.fst (fun change => change.2.name) toString merged changes

theorem merge_into_cons (merged : Merged Row) (change : FileChange Row)
    (rest : List (FileChange Row)) : mergeInto merged (change :: rest) =
      mergeEntry Prod.fst (fun change => change.2.name) toString merged change >>=
        fun next => mergeInto next rest := by
  rfl

theorem merge_into_append (merged : Merged Row) (first second : List (FileChange Row)) :
    mergeInto merged (first ++ second) = mergeInto merged first >>= fun next =>
      mergeInto next second := by
  rw [mergeInto, mergeEntriesInto, foldlM_append]
  rfl

theorem merge_fresh {changes : List (FileChange Row)} {merged : Merged Row}
    (nodup : (changes.map (fun change => change.2.name)).Nodup)
    (fresh : ∀ change ∈ changes, change.2.name ∉ merged.keys) :
    ∃ after, mergeInto merged changes = .ok after ∧
      after.order = merged.order ++ changes.map keyed := by
  induction changes generalizing merged with
  | nil => exact ⟨merged, rfl, by simp⟩
  | cons change rest ih =>
    rw [map_cons, nodup_cons] at nodup
    have isFresh := fresh change mem_cons_self
    have inserted : mergeEntry Prod.fst (fun change => change.2.name) toString merged change =
        .ok (merged.insert change.2.name change) := by
      rw [mergeEntry]
      cases change.1 <;> simp [isFresh]
    obtain ⟨after, merges, order⟩ := @ih (merged.insert change.2.name change) nodup.2 (by
      intro other mem known
      rw [mem_keys_insert] at known
      rcases known with known | same
      · exact fresh other (mem_cons_of_mem change mem) known
      · exact nodup.1 (same ▸ mem_map_of_mem mem))
    refine ⟨after, ?_, ?_⟩
    · rw [merge_into_cons, inserted]
      exact merges
    · rw [order, order_insert_fresh _ _ _ isFresh, append_assoc]
      rfl

theorem merge_deletes {files : List (AppendFile Row)} {merged : Merged Row}
    (nodup : (names files).Nodup) (present : ∀ file ∈ files, file.name ∈ merged.keys) :
    ∃ after, mergeInto merged (deletes files) = .ok after ∧
      after.order = merged.order.filter (fun entry => decide (entry.1 ∉ names files)) := by
  induction files generalizing merged with
  | nil => exact ⟨merged, rfl, by simp [names]⟩
  | cons file rest ih =>
    rw [names, map_cons, nodup_cons] at nodup
    have isPresent := present file mem_cons_self
    have erased :
        mergeEntry Prod.fst (fun change => change.2.name) toString merged (.delete, file) =
        .ok (merged.erase file.name) := by
      simp [mergeEntry, isPresent]
    obtain ⟨after, merges, order⟩ := @ih (merged.erase file.name) nodup.2 (by
      intro other mem
      have known := present other (mem_cons_of_mem file mem)
      have differs : other.name ≠ file.name := fun same =>
        nodup.1 (same ▸ mem_map_of_mem mem)
      obtain ⟨entry, isEntry, same⟩ := mem_map.mp known
      exact mem_map.mpr ⟨entry, mem_filter.mpr ⟨isEntry, by simpa [same] using differs⟩, same⟩)
    refine ⟨after, ?_, ?_⟩
    · rw [deletes, map_cons, merge_into_cons, erased]
      exact merges
    · rw [order, erase, filter_filter]
      apply filter_congr
      intro entry _
      rw [Bool.eq_iff_iff]
      simp only [names, map_cons, mem_cons, Bool.and_eq_true, decide_eq_true_eq, ne_eq,
        not_or, and_comm]
      exact and_congr_right fun _ => decide_eq_true_iff

theorem merge_adds_present {files : List (AppendFile Row)} {merged : Merged Row}
    {file : AppendFile Row} (mem : file ∈ files) (present : file.name ∈ merged.keys) :
    ∃ error, mergeInto merged (adds files) = .error error := by
  induction files generalizing merged with
  | nil => cases mem
  | cons first rest ih =>
    rw [adds, map_cons, merge_into_cons]
    by_cases known : first.name ∈ merged.keys
    · exact ⟨_, by simp [mergeEntry, known, Bind.bind, Except.bind]; rfl⟩
    · have inRest : file ∈ rest := by
        rcases mem_cons.mp mem with rfl | inRest
        · exact absurd present known
        · exact inRest
      obtain ⟨error, fails⟩ := @ih (merged.insert first.name (.add, first)) inRest
        ((mem_keys_insert _ _ _ _).mpr (.inl present))
      refine ⟨error, ?_⟩
      simp only [mergeEntry, known, if_false, Bind.bind, Except.bind]
      exact fails

theorem names_adds (files : List (AppendFile Row)) :
    (adds files).map (fun change => change.2.name) = names files := by
  simp [adds, names]

theorem names_deletes (files : List (AppendFile Row)) :
    (deletes files).map (fun change => change.2.name) = names files := by
  simp [deletes, names]

variable {changes : List (FileChange Row)}

theorem keys_of_order {merged : Merged Row} (order : merged.order = changes.map keyed) :
    merged.keys = changes.map (fun change => change.2.name) := by
  rw [LinkedHashMap.keys, order, map_map]
  rfl

theorem values_of_order {merged : Merged Row} (order : merged.order = changes.map keyed) :
    merged.values = changes := by
  rw [values, order, map_map]
  exact map_id _

theorem merge_changes_fresh {changes : List (FileChange Row)}
    (nodup : (changes.map (fun change => change.2.name)).Nodup) :
    ∃ after, mergeChanges changes = .ok after ∧ after.order = changes.map keyed := by
  obtain ⟨after, merges, order⟩ := merge_fresh nodup
    (show ∀ change ∈ changes, change.2.name ∉ (empty : Merged Row).keys by simp)
  exact ⟨after, merges, by simpa [empty] using order⟩

theorem no_deletes_in_adds (files : List (AppendFile Row)) :
    (adds files).find? (fun change => decide (change.1 = .delete)) = none := by
  simp [adds, List.find?_eq_none]

theorem map_snd_adds (files : List (AppendFile Row)) : (adds files).map Prod.snd = files := by
  rw [adds, map_map]
  exact map_id _

variable {live : List (AppendFile Row)}

theorem commit_changes_ok {delta merged : Merged Row}
    (deltaMerges : mergeChanges changes = .ok delta)
    (merges : mergeChanges (adds live ++ changes) = .ok merged)
    (noDeletes : merged.values.find? (fun change => decide (change.1 = .delete)) = none) :
    commitChanges live changes = .ok (merged.values.map Prod.snd) := by
  rw [adds] at merges
  simp only [commitChanges, deltaMerges, merges, Bind.bind, Except.bind, noDeletes]

theorem commit_appends (nodup : (names (live ++ files)).Nodup) :
    commitChanges live (adds files) = .ok (live ++ files) := by
  have filesDistinct : (names files).Nodup := by
    rw [names_append, nodup_append] at nodup
    exact nodup.2.1
  obtain ⟨delta, deltaMerges, _⟩ := merge_changes_fresh (names_adds files ▸ filesDistinct)
  have together : adds live ++ adds files = adds (live ++ files) := by simp [adds]
  obtain ⟨all, allMerges, order⟩ := merge_changes_fresh (names_adds (live ++ files) ▸ nodup)
  rw [commit_changes_ok deltaMerges (together ▸ allMerges), values_of_order order, map_snd_adds]
  rw [values_of_order order, no_deletes_in_adds]

theorem commit_compacts {before after : List (AppendFile Row)}
    (nodup : (names (live ++ after)).Nodup) (beforeDistinct : (names before).Nodup)
    (present : ∀ file ∈ before, file.name ∈ names live)
    (apart : ∀ file ∈ before, file.name ∉ names after) :
    commitChanges live (deletes before ++ adds after) =
      .ok (live.filter (fun file => decide (file.name ∉ names before)) ++ after) := by
  rw [names_append, nodup_append] at nodup
  obtain ⟨liveDistinct, afterDistinct, liveApart⟩ := nodup
  obtain ⟨delta, deltaMerges, _⟩ := @merge_changes_fresh Row (deletes before ++ adds after) (by
    rw [map_append, names_deletes, names_adds, nodup_append]
    refine ⟨beforeDistinct, afterDistinct, ?_⟩
    intro name isBefore other isAfter same
    obtain ⟨file, mem, rfl⟩ := mem_names.mp isBefore
    exact apart file mem (same ▸ isAfter))
  obtain ⟨base, baseMerges, baseOrder⟩ := merge_changes_fresh (names_adds live ▸ liveDistinct)
  have baseKeys : base.keys = names live := by rw [keys_of_order baseOrder, names_adds]
  obtain ⟨deleted, deletedMerges, deletedOrder⟩ := @merge_deletes Row before base beforeDistinct
    (fun file mem => baseKeys ▸ present file mem)
  have leftOrder : deleted.order =
      (adds (live.filter (fun file => decide (file.name ∉ names before)))).map keyed := by
    rw [deletedOrder, baseOrder]
    simp only [adds, map_map, filter_map]
    rfl
  obtain ⟨all, allMerges, allOrder⟩ :=
    @merge_fresh Row (adds after) deleted (names_adds after ▸ afterDistinct) (by
      intro change mem
      rw [keys_of_order leftOrder, names_adds]
      obtain ⟨file, isAfter, rfl⟩ := mem_map.mp mem
      intro known
      obtain ⟨other, isLeft, same⟩ := mem_names.mp known
      exact liveApart other.name (mem_names_of_mem (mem_of_mem_filter isLeft)) file.name
        (mem_names_of_mem isAfter) same)
  rw [leftOrder, ← map_append] at allOrder
  have merges : mergeChanges (adds live ++ (deletes before ++ adds after)) = .ok all := by
    change mergeInto _ _ = _
    rw [merge_into_append]
    change (mergeChanges (adds live) >>= _) = _
    rw [baseMerges]
    change mergeInto base (deletes before ++ adds after) = _
    rw [merge_into_append, deletedMerges]
    exact allMerges
  have together : ∀ left right : List (AppendFile Row), adds left ++ adds right =
      adds (left ++ right) := by
    simp [adds]
  rw [commit_changes_ok deltaMerges merges, values_of_order allOrder, together, map_snd_adds]
  rw [values_of_order allOrder, together, no_deletes_in_adds]

theorem commit_reuse_fails {before after : List (AppendFile Row)} {input output : AppendFile Row}
    (beforeDistinct : (names before).Nodup) (isInput : input ∈ before) (isOutput : output ∈ after)
    (same : input.name = output.name) :
    ∃ error, commitChanges live (deletes before ++ adds after) = .error error := by
  obtain ⟨deleted, deletedMerges, order⟩ :=
    merge_changes_fresh (names_deletes before ▸ beforeDistinct)
  obtain ⟨error, fails⟩ := @merge_adds_present Row after deleted output isOutput (by
    rw [keys_of_order order, names_deletes, ← same]
    exact mem_names_of_mem isInput)
  refine ⟨error, ?_⟩
  have merges : mergeChanges (deletes before ++ adds after) = .error error := by
    change mergeInto _ _ = _
    rw [merge_into_append]
    change (mergeChanges (deletes before) >>= _) = _
    rw [deletedMerges]
    exact fails
  rw [commitChanges, merges]
  rfl

end PaimonCore.Append
