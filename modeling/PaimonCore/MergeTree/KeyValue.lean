import PaimonCore.Common.FieldsComparator
import PaimonCore.Library.SortedGroups

/-!
# Key values and their order

Records of a primary-key table. Readers merge them by user key; records of one key
come in the order of the user-defined sequence fields, if there are any, and then of
their sequence numbers.
-/

namespace PaimonCore.MergeTree

open Std PaimonCore.Fields

inductive RowKind where
  | insert
  | updateBefore
  | updateAfter
  | delete
  deriving DecidableEq, Repr

def RowKind.isAdd : RowKind → Bool
  | .insert | .updateAfter => true
  | .updateBefore | .delete => false

def RowKind.isRetract : RowKind → Bool
  | .updateBefore | .delete => true
  | .insert | .updateAfter => false

/-- A record whose fields are values of type `Cell`. -/
structure KeyValueOf (Cell : Type) where
  valueKind : RowKind := .insert
  sequenceNumber : Int := -1
  level : Int := -1
  key : BinaryRow
  value : List Cell := []
  deriving DecidableEq, Repr

abbrev KeyValue := KeyValueOf (Option Value)

/-- `user_key_comparator` and `user_defined_seq_comparator`. -/
structure RecordOrder where
  userKeyComparator : FieldsComparator
  userDefinedSeqComparator : Option FieldsComparator := none

namespace RecordOrder

variable (order : RecordOrder)

def compareKey (left right : KeyValue) : Ordering :=
  order.userKeyComparator.compareTo left.key right.key

def compareUserSequence (left right : KeyValue) : Ordering :=
  match order.userDefinedSeqComparator with
  | some comparator => comparator.compareTo left.value right.value
  | none => .eq

def compareSequence : KeyValue → KeyValue → Ordering :=
  compareLex order.compareUserSequence (compareOn KeyValueOf.sequenceNumber)

instance : TransCmp order.compareKey :=
  inferInstanceAs (TransCmp (Comparators.along KeyValueOf.key order.userKeyComparator.compareTo))

instance : TransCmp order.compareUserSequence := by
  unfold compareUserSequence
  cases order.userDefinedSeqComparator with
  | some comparator =>
    exact inferInstanceAs (TransCmp (Comparators.along KeyValueOf.value comparator.compareTo))
  | none =>
    exact
      { eq_swap := rfl
        isLE_trans := fun _ _ => rfl }

instance : TransCmp order.compareSequence :=
  inferInstanceAs
    (TransCmp (compareLex order.compareUserSequence (compareOn KeyValueOf.sequenceNumber)))

end RecordOrder

end PaimonCore.MergeTree
