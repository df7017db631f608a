import Mathlib.Tactic.NormNum

/-!
# Implicit binary trees

Nodes of a binary tree kept in an array: node `1` is the root, node `n` has the
children `2 * n` and `2 * n + 1`. The ancestors of a node are its halvings, the node
itself included.
-/

namespace PaimonCore.TreeIndex

open Function

def Ancestor (node descendant : Nat) : Prop :=
  ∃ height, descendant / 2 ^ height = node

def sibling (node : Nat) : Nat :=
  if node % 2 = 0 then node + 1 else node - 1

namespace Ancestor

variable {node other descendant : Nat}

theorem refl (node : Nat) : Ancestor node node := ⟨0, by simp⟩

theorem parent (ancestor : Ancestor node descendant) : Ancestor (node / 2) descendant := by
  rcases ancestor with ⟨height, rfl⟩
  exact ⟨height + 1, by rw [Nat.pow_succ, Nat.div_div_eq_div_mul]⟩

theorem of_parent (ancestor : Ancestor node (descendant / 2)) : Ancestor node descendant := by
  rcases ancestor with ⟨height, rfl⟩
  exact ⟨height + 1, by rw [Nat.pow_succ, Nat.mul_comm, Nat.div_div_eq_div_mul]⟩

theorem le (ancestor : Ancestor node descendant) : node ≤ descendant := by
  rcases ancestor with ⟨height, rfl⟩
  exact Nat.div_le_self _ _

theorem to_parent (ancestor : Ancestor node descendant) (proper : node ≠ descendant) :
    Ancestor node (descendant / 2) := by
  rcases ancestor with ⟨height, rfl⟩
  cases height with
  | zero =>
    simp at proper
  | succ height =>
    exact ⟨height, by rw [Nat.pow_succ, Nat.mul_comm, Nat.div_div_eq_div_mul]⟩

theorem lt_of_parent (ancestor : Ancestor node (descendant / 2)) (pos : 0 < descendant) :
    node < descendant := by
  have bound := ancestor.le
  omega

theorem of_le (low : Ancestor node descendant) (high : Ancestor other descendant)
    (order : node ≤ other) : Ancestor node other := by
  rcases low with ⟨lowHeight, rfl⟩
  rcases high with ⟨highHeight, rfl⟩
  by_cases heights : highHeight ≤ lowHeight
  · refine ⟨lowHeight - highHeight, ?_⟩
    rw [Nat.div_div_eq_div_mul, ← Nat.pow_add]
    congr 2
    omega
  · have further :
        descendant / 2 ^ highHeight =
        descendant / 2 ^ lowHeight / 2 ^ (highHeight - lowHeight) := by
      rw [Nat.div_div_eq_div_mul, ← Nat.pow_add]
      congr 2
      omega
    have bound : descendant / 2 ^ highHeight ≤ descendant / 2 ^ lowHeight := by
      rw [further]
      exact Nat.div_le_self _ _
    have same : descendant / 2 ^ lowHeight = descendant / 2 ^ highHeight := by omega
    rw [same]
    exact refl _

theorem child (ancestor : Ancestor node (descendant / 2)) :
    ∃ child, child / 2 = node ∧ Ancestor child descendant := by
  rcases ancestor with ⟨height, rfl⟩
  refine ⟨descendant / 2 ^ height, ?_, height, rfl⟩
  rw [Nat.div_div_eq_div_mul, Nat.div_div_eq_div_mul, Nat.mul_comm]

theorem root (pos : 1 ≤ node) : Ancestor 1 node := by
  induction node using Nat.strongRecOn with
  | ind node ih =>
    by_cases isRoot : node = 1
    · rw [isRoot]
      exact refl 1
    · exact (ih (node / 2) (by omega) (by omega)).of_parent

theorem trans {low middle high : Nat} (lower : Ancestor low middle)
    (upper : Ancestor middle high) : Ancestor low high := by
  rcases lower with ⟨lowHeight, rfl⟩
  rcases upper with ⟨highHeight, rfl⟩
  exact ⟨highHeight + lowHeight, by rw [Nat.pow_add, Nat.div_div_eq_div_mul]⟩

/-- From a node up: what each inner node hands on to its parent holds at all ancestors. -/
theorem climb {holds : Nat → Prop} (start : holds descendant)
    (step : ∀ inner, 2 ≤ inner → Ancestor inner descendant → holds inner → holds (inner / 2))
    (pos : 1 ≤ node) (ancestor : Ancestor node descendant) : holds node := by
  rcases ancestor with ⟨height, rfl⟩
  induction height with
  | zero => rwa [Nat.pow_zero, Nat.div_one]
  | succ height ih =>
    rw [Nat.pow_succ, ← Nat.div_div_eq_div_mul] at pos ⊢
    exact step _ (by omega) ⟨height, rfl⟩ (ih (by omega))

end Ancestor

theorem sibling_half {node : Nat} (inner : 2 ≤ node) : sibling node / 2 = node / 2 := by
  unfold sibling
  split <;> omega

theorem two_le_sibling {node : Nat} (inner : 2 ≤ node) : 2 ≤ sibling node := by
  unfold sibling
  split <;> omega

theorem sibling_ne {node : Nat} (inner : 2 ≤ node) : sibling node ≠ node := by
  unfold sibling
  split <;> omega

theorem children_cases {node : Nat} (inner : 2 ≤ node) :
    (node = 2 * (node / 2) ∧ sibling node = 2 * (node / 2) + 1) ∨
      (node = 2 * (node / 2) + 1 ∧ sibling node = 2 * (node / 2)) := by
  unfold sibling
  split
  · left
    omega
  · right
    omega

theorem children_of_child {Value : Type} {value : Nat → Value} {first second : Value}
    {node child : Nat} (half : child / 2 = node) (inner : 2 ≤ child) (atChild : value child = first)
    (atSibling : value (sibling child) = second) :
    (value (2 * node) = first ∧ value (2 * node + 1) = second) ∨
      (value (2 * node + 1) = first ∧ value (2 * node) = second) := by
  rw [← half]
  rcases children_cases inner with ⟨isLeft, isRight⟩ | ⟨isRight, isLeft⟩
  · rw [← isRight, ← isLeft]
    exact Or.inl ⟨atChild, atSibling⟩
  · rw [← isRight, ← isLeft]
    exact Or.inr ⟨atChild, atSibling⟩

theorem distinct_update {tree updated : Nat → Option Nat} {size parent stored : Nat}
    (isUpdated : updated = Function.update tree parent (some stored))
    (nodup : ∀ node other, 1 ≤ node → node < size → 1 ≤ other → other < size →
      ∀ leaf, tree node = some leaf → tree other = some leaf → node = other)
    (free : ∀ node, 1 ≤ node → node < size → node ≠ parent → tree node ≠ some stored) :
    ∀ node other, 1 ≤ node → node < size → 1 ≤ other → other < size →
      ∀ leaf, updated node = some leaf → updated other = some leaf → node = other := by
  subst isUpdated
  intro node other pos small otherPositive otherSmall leaf atNode atOther
  by_cases here : node = parent
  · by_cases there : other = parent
    · rw [here, there]
    · rw [here, update_self] at atNode
      rw [update_of_ne there, ← atNode] at atOther
      exact absurd atOther (free other otherPositive otherSmall there)
  · rw [update_of_ne here] at atNode
    by_cases there : other = parent
    · rw [there, update_self] at atOther
      exact absurd (atNode.trans atOther.symm) (free node pos small here)
    · rw [update_of_ne there] at atOther
      exact nodup node other pos small otherPositive otherSmall leaf atNode atOther

theorem not_ancestor_sibling {node descendant : Nat} (inner : 2 ≤ node)
    (ancestor : Ancestor node descendant) : ¬Ancestor (sibling node) descendant := by
  intro other
  have half := sibling_half inner
  have ne := sibling_ne inner
  by_cases order : sibling node ≤ node
  · have up := (other.of_le ancestor order).to_parent ne
    have bound := up.le
    omega
  · have up := (ancestor.of_le other (by omega)).to_parent (Ne.symm ne)
    have bound := up.le
    omega

end PaimonCore.TreeIndex
