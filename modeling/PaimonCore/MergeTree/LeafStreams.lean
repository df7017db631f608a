import PaimonCore.MergeTree.LoserTreeOperations

/-!
# The records that the leaves still hold

A leaf holds its current record, unless it was popped, the rest of its batch and the
batches its reader has yet to return. How the records are cut into batches does not
matter to what it hands out.
-/

namespace PaimonCore.MergeTree

open Std List

namespace LeafIterator

variable {order : RecordOrder} {leaf : LeafIterator}

def upcoming (leaf : LeafIterator) : List KeyValue :=
  leaf.iterator.getD [] ++ leaf.reader.flatten

def pending (leaf : LeafIterator) : List KeyValue :=
  (if leaf.IsPopped then [] else leaf.kv.toList) ++ leaf.upcoming

theorem pending_of_popped (popped : leaf.IsPopped) : leaf.pending = leaf.upcoming := by
  rw [pending, if_pos popped, nil_append]

theorem pending_of_unpopped (unpopped : ¬leaf.IsPopped) :
    leaf.pending = leaf.kv.toList ++ leaf.upcoming := by
  rw [pending, if_neg unpopped]

def Ended (leaf : LeafIterator) : Prop :=
  leaf.endOfInput = true → leaf.kv = none ∧ leaf.upcoming = []

theorem read_batches (leaf : LeafIterator) (reader : List (List KeyValue)) :
    (leaf.readBatches reader).kv = reader.flatten.head? ∧
      (leaf.readBatches reader).upcoming = reader.flatten.tail ∧
      (leaf.readBatches reader).state = leaf.state ∧
      (leaf.readBatches reader).firstSameKeyIndex = leaf.firstSameKeyIndex := by
  induction reader with
  | nil => exact ⟨rfl, rfl, rfl, rfl⟩
  | cons batch later ih =>
    cases batch with
    | nil => exact ih
    | cons first more => exact ⟨rfl, rfl, rfl, rfl⟩

theorem read_batches_ended (running : leaf.endOfInput = false) (reader : List (List KeyValue)) :
    (leaf.readBatches reader).Ended := by
  induction reader with
  | nil =>
    intro _
    exact ⟨rfl, rfl⟩
  | cons batch later ih =>
    cases batch with
    | nil => exact ih
    | cons first more =>
      intro ended
      have still : leaf.endOfInput = true := ended
      rw [running] at still
      cases still

/-- `AdvanceIfAvailable` makes the next record the current one. -/
structure Advanced (before after : LeafIterator) : Prop where
  state : after.state = .winnerWithNewKey
  index : after.firstSameKeyIndex = none
  kv : after.kv = before.upcoming.head?
  upcoming : after.upcoming = before.upcoming.tail
  ended : after.Ended

theorem advance_if_available (ended : leaf.Ended) : Advanced leaf leaf.advanceIfAvailable := by
  have reads : leaf.iterator.getD [] = [] → leaf.advanceIfAvailable = (if leaf.endOfInput then
        { leaf with firstSameKeyIndex := none, state := .winnerWithNewKey }
      else readBatches { leaf with firstSameKeyIndex := none, state := .winnerWithNewKey }
        leaf.reader) := by
    intro drained
    unfold advanceIfAvailable
    cases isIterator : leaf.iterator with
    | none => rfl
    | some batch =>
      cases batch with
      | nil => rfl
      | cons first more =>
        rw [isIterator] at drained
        cases drained
  cases rest : leaf.iterator.getD [] with
  | nil =>
    have batches : leaf.upcoming = leaf.reader.flatten := by
      rw [LeafIterator.upcoming, rest, nil_append]
    rw [reads rest]
    by_cases atEnd : leaf.endOfInput = true
    · rcases ended atEnd with ⟨noKv, nothing⟩
      rw [if_pos atEnd]
      refine ⟨rfl, rfl, ?_, ?_, fun _ => ⟨noKv, nothing⟩⟩
      · rw [nothing]
        exact noKv
      · rw [nothing]
        exact nothing
    · rw [if_neg atEnd]
      obtain ⟨kv, upcoming, state, index⟩ := read_batches { leaf with
        firstSameKeyIndex := none, state := .winnerWithNewKey } leaf.reader
      rw [← batches] at kv upcoming
      refine ⟨state, index, kv, upcoming, ?_⟩
      apply read_batches_ended
      exact Bool.eq_false_iff.mpr atEnd
  | cons first more =>
    cases isIterator : leaf.iterator with
    | none =>
      rw [isIterator] at rest
      cases rest
    | some batch =>
      rw [isIterator] at rest
      subst rest
      have result : leaf.advanceIfAvailable = { leaf with
          firstSameKeyIndex := none, state := .winnerWithNewKey,
          iterator := some more, kv := some first } := by
        unfold advanceIfAvailable
        rw [isIterator]
      rw [result]
      have records : leaf.upcoming = first :: (more ++ leaf.reader.flatten) := by
        rw [LeafIterator.upcoming, isIterator]
        rfl
      refine ⟨rfl, rfl, ?_, ?_, ?_⟩
      · rw [records]
        rfl
      · rw [records]
        rfl
      · intro atEnd
        have nothing := (ended atEnd).2
        rw [records] at nothing
        cases nothing

theorem Advanced.unpopped {after : LeafIterator} (advanced : Advanced leaf after) :
    ¬after.IsPopped :=
  LoserTree.new_state_not_popped (Or.inl advanced.state)

theorem Advanced.pending {after : LeafIterator} (advanced : Advanced leaf after) :
    after.pending = leaf.upcoming := by
  rw [pending_of_unpopped advanced.unpopped, advanced.kv, advanced.upcoming]
  cases leaf.upcoming <;> rfl

/-- A leaf that was advanced at least once, over sorted records. -/
structure InOrder (order : RecordOrder) (leaf : LeafIterator) : Prop where
  ended : leaf.Ended
  filled : ¬leaf.IsPopped → leaf.kv = none → leaf.upcoming = []
  sorted : leaf.pending.Pairwise (fun first second => order.compareKey first second = .lt)

theorem Advanced.in_order {after : LeafIterator} (advanced : Advanced leaf after)
    (sorted : leaf.upcoming.Pairwise (fun first second => order.compareKey first second = .lt)) :
    InOrder order after where
  ended := advanced.ended
  filled := by
    intro _ noKv
    rw [advanced.kv, head?_eq_none_iff] at noKv
    rw [advanced.upcoming, noKv, tail_nil]
  sorted := by
    rw [advanced.pending]
    exact sorted

end LeafIterator

section
variable {before after : LeafIterator} (same : SameRecords before after)
include same

theorem SameRecords.upcoming : after.upcoming = before.upcoming := by
  rw [LeafIterator.upcoming, same.iterator, same.reader]
  rfl

theorem SameRecords.pending : after.pending = before.pending := by
  simp only [LeafIterator.pending, same.upcoming, same.kv, same.popped]

theorem SameRecords.ended (ended : before.Ended) : after.Ended := by
  intro atEnd
  rw [same.endOfInput] at atEnd
  rw [same.kv, same.upcoming]
  exact ended atEnd

theorem SameRecords.in_order {order : RecordOrder} (inOrder : before.InOrder order) :
    after.InOrder order where
  ended := same.ended inOrder.ended
  filled := by
    intro unpopped noKv
    rw [same.kv] at noKv
    rw [same.upcoming]
    exact inOrder.filled (fun popped => unpopped (same.popped.mpr popped)) noKv
  sorted := by
    rw [same.pending]
    exact inOrder.sorted

end

theorem in_order_of_taken {order : RecordOrder} {leaf : LeafIterator}
    (inOrder : leaf.InOrder order) (unpopped : ¬leaf.IsPopped) :
    (leaf.withState .winnerPopped).InOrder order where
  ended := inOrder.ended
  filled := by
    intro stillUnpopped
    exact absurd (Or.inl rfl) stillUnpopped
  sorted := by
    rw [LeafIterator.pending_of_popped (Or.inl rfl)]
    have sorted := inOrder.sorted
    rw [LeafIterator.pending_of_unpopped unpopped] at sorted
    exact (pairwise_append.mp sorted).2.1

namespace LoserTree

variable {order : RecordOrder} {loserTree after : LoserTree} {current : Option KeyValue}
  {top : Nat}

def remaining (loserTree : LoserTree) : List KeyValue :=
  (List.range loserTree.size).flatMap (fun leaf => (loserTree.leaves leaf).pending)

structure Streams (order : RecordOrder) (loserTree : LoserTree) : Prop where
  inOrder : ∀ leaf < loserTree.size, (loserTree.leaves leaf).InOrder order
  apart : ∀ left < loserTree.size, ∀ right < loserTree.size, left ≠ right →
    ∀ first ∈ (loserTree.leaves left).pending, ∀ second ∈ (loserTree.leaves right).pending,
      order.compareKey first second = .eq → order.compareSequence first second ≠ .eq

theorem kv_mem_pending {leaf : LeafIterator} {record : KeyValue} (unpopped : ¬leaf.IsPopped)
    (isKv : leaf.kv = some record) : record ∈ leaf.pending := by
  rw [LeafIterator.pending_of_unpopped unpopped, isKv]
  exact mem_cons_self

section
variable (streams : Streams order loserTree)
include streams

theorem Streams.no_ties : NoTies order loserTree := by
  intro left right first second ne leftSmall rightSmall leftUnpopped rightUnpopped leftKv
    rightKv
  exact streams.apart left leftSmall right rightSmall ne first
    (kv_mem_pending leftUnpopped leftKv) second (kv_mem_pending rightUnpopped rightKv)

theorem Streams.of_fewer (size : after.size = loserTree.size)
    (inOrder : ∀ leaf < loserTree.size, (after.leaves leaf).InOrder order)
    (fewer : ∀ leaf < loserTree.size,
      (after.leaves leaf).pending ⊆ (loserTree.leaves leaf).pending) : Streams order after where
  inOrder := by
    rw [size]
    exact inOrder
  apart := by
    rw [size]
    intro left leftSmall right rightSmall ne first isFirst second isSecond
    exact streams.apart left leftSmall right rightSmall ne first
      (fewer left leftSmall isFirst) second (fewer right rightSmall isSecond)

theorem Streams.congr (size : after.size = loserTree.size)
    (same : ∀ leaf, SameRecords (loserTree.leaves leaf) (after.leaves leaf)) :
    Streams order after := by
  apply streams.of_fewer size
  · intro leaf small
    exact (same leaf).in_order (streams.inOrder leaf small)
  · intro leaf _
    rw [(same leaf).pending]
    exact Subset.refl _

end

theorem remaining_congr (size : after.size = loserTree.size) (same : ∀ leaf < loserTree.size,
      (after.leaves leaf).pending = (loserTree.leaves leaf).pending) :
    after.remaining = loserTree.remaining := by
  unfold remaining
  rw [size]
  apply flatMap_congr
  intro leaf isLeaf
  exact same leaf (mem_range.mp isLeaf)

theorem flat_map_taken {Record : Type} {indices : List Nat} {longer shorter : Nat → List Record}
    {record : Record} {index : Nat} (nodup : indices.Nodup) (mem : index ∈ indices)
    (taken : longer index = record :: shorter index)
    (others : ∀ other, other ≠ index → longer other = shorter other) :
    (indices.flatMap longer).Perm (record :: indices.flatMap shorter) := by
  induction indices with
  | nil => cases mem
  | cons head tail ih =>
    rw [flatMap_cons, flatMap_cons]
    rw [nodup_cons] at nodup
    rcases mem_cons.mp mem with here | later
    · subst here
      have same : tail.flatMap longer = tail.flatMap shorter := by
        apply flatMap_congr
        intro other isOther
        apply others
        rintro rfl
        exact nodup.1 isOther
      rw [taken, same]
      exact Perm.refl _
    · have ne : head ≠ index := by
        rintro rfl
        exact nodup.1 later
      rw [others head ne]
      exact ((ih nodup.2 later).append_left _).trans perm_middle

end LoserTree

end PaimonCore.MergeTree
