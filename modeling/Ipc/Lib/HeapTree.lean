/-
**Binary trees in heap layout.**

A complete binary tree can be kept in an array: the root at `0` and the children of node `i` at
`2 i + 1` and `2 i + 2`. The parent of a node `j > 0` is then `(j - 1) / 2`, and its sibling is
the other child of that parent (`parent`, `sibling`). A tree over a pair function `node` is
`Valid` when three things hold: it is not empty; every node with a left child also has a right
one; and every node with children holds `node` of them.

* `Valid.parent_eq` — with a commutative `node`, a node and its sibling give back their parent,
  whichever of them is the left child;
* `Valid.leaf_of_foldl` — a value that a fold of `node` along any list brings to the root is a
  leaf of the tree. This needs `node` injective on unordered pairs and never equal to a leaf: it
  is the binding of Merkle proofs;
* `HashedAbove` — the invariant of a construction from the leaves up: every node from an index on
  holds `node` of its children. `HashedAbove.set` says that one more node written keeps it.
* `Frontier` — the shape of the queue of a bottom-up pass over some of the nodes: strictly
  decreasing, every node above the first one's parent. Taking the first node (with its sibling,
  when that is next) and appending its parent keeps it (`Frontier.pop_pair`,
  `Frontier.pop_single`), and a queue of that shape that reaches the root holds the root alone.
-/

import Mathlib

namespace Ipc.Lib.HeapTree

variable {α : Type}

/-- The parent of a node `j > 0`. -/
def parent (j : Nat) : Nat := (j - 1) / 2

/-- The sibling of a node `j > 0`: the right child after a left one (odd `j`), the left child
before a right one. -/
def sibling (j : Nat) : Nat := if j % 2 = 1 then j + 1 else j - 1

theorem parent_lt {j : Nat} (pos : 0 < j) : parent j < j := by
  unfold parent
  omega

/-- A node below the root is the left child of its parent, with its sibling on the right, or the
right child, with its sibling on the left. -/
theorem child_cases {j : Nat} (pos : 0 < j) :
    (j = 2 * parent j + 1 ∧ sibling j = 2 * parent j + 2) ∨
      (j = 2 * parent j + 2 ∧ sibling j = 2 * parent j + 1) := by
  unfold parent sibling
  split <;> omega

/-- A valid tree: not empty, a right child wherever there is a left one, and every node with
children the pair of them. -/
structure Valid (node : α → α → α) (t : List α) : Prop where
  nonempty : 0 < t.length
  complete : ∀ i, 2 * i + 1 < t.length → 2 * i + 2 < t.length
  hashed : ∀ i (inTree : i < t.length) (left : 2 * i + 1 < t.length)
    (right : 2 * i + 2 < t.length), t[i] = node t[2 * i + 1] t[2 * i + 2]

variable {node : α → α → α} {t : List α}

namespace Valid

/-- The sibling of a node below the root is in the tree. -/
theorem sibling_lt (valid : Valid node t) {j : Nat} (pos : 0 < j) (inTree : j < t.length) :
    sibling j < t.length := by
  rcases child_cases pos with ⟨left, sibling⟩ | ⟨_, sibling⟩
  · rw [sibling]
    exact valid.complete _ (left ▸ inTree)
  · omega

/-- **One step up.** With a commutative `node`, a node below the root and its sibling give back
their parent. -/
theorem parent_eq (valid : Valid node t) (comm : ∀ a b, node a b = node b a) {j : Nat}
    (pos : 0 < j) (inTree : j < t.length) (siblingIn : sibling j < t.length)
    (parentIn : parent j < t.length) : t[parent j] = node t[j] t[sibling j] := by
  rcases child_cases pos with ⟨left, sibling⟩ | ⟨right, sibling⟩
  · have leftIn : 2 * parent j + 1 < t.length := by omega
    have rightIn : 2 * parent j + 2 < t.length := by omega
    rw [valid.hashed _ parentIn leftIn rightIn]
    simp only [← left, ← sibling]
  · have leftIn : 2 * parent j + 1 < t.length := by omega
    have rightIn : 2 * parent j + 2 < t.length := by omega
    rw [valid.hashed _ parentIn leftIn rightIn, comm]
    simp only [← right, ← sibling]

/-- A node that is not a leaf holds `node` of its children. -/
theorem internal_eq (valid : Valid node t) {i : Nat} (inTree : i < t.length)
    (internal : ¬ t.length ≤ 2 * i + 1) :
    ∃ (left : 2 * i + 1 < t.length) (right : 2 * i + 2 < t.length),
      t[i] = node t[2 * i + 1] t[2 * i + 2] := by
  have left : 2 * i + 1 < t.length := by omega
  have right := valid.complete i left
  exact ⟨left, right, valid.hashed i inTree left right⟩

section Binding

variable (injective : ∀ a b c d, node a b = node c d → (a = c ∧ b = d) ∨ (a = d ∧ b = c))
  (leafNotNode : ∀ i (inTree : i < t.length), t.length ≤ 2 * i + 1 → ∀ a b, node a b ≠ t[i])

include injective leafNotNode in
/-- **Binding.** A value that is not a pair, folded with `node` along any list to the value of a
node, is a leaf below that node. The fold is taken apart from its last step: the pair that gives
a node's value is the pair of its children, so the rest of the fold gives one of them. -/
theorem leaf_of_foldl (valid : Valid node t) {x : α} (xNotNode : ∀ a b, node a b ≠ x)
    (proof : List α) :
    ∀ i (inTree : i < t.length), proof.foldl node x = t[i] →
      ∃ k, ∃ inTree : k < t.length, t.length ≤ 2 * k + 1 ∧ x = t[k] := by
  induction proof using List.reverseRecOn with
  | nil =>
    intro i inTree rebuilt
    by_cases leaf : t.length ≤ 2 * i + 1
    · exact ⟨i, inTree, leaf, rebuilt⟩
    · obtain ⟨_, _, paired⟩ := valid.internal_eq inTree leaf
      exact absurd (paired ▸ rebuilt).symm (xNotNode _ _)
  | append_singleton proof last ih =>
    intro i inTree rebuilt
    rw [List.foldl_append, List.foldl_cons, List.foldl_nil] at rebuilt
    by_cases leaf : t.length ≤ 2 * i + 1
    · exact absurd rebuilt (leafNotNode i inTree leaf _ _)
    obtain ⟨left, right, paired⟩ := valid.internal_eq inTree leaf
    rcases injective _ _ _ _ (rebuilt.trans paired) with ⟨fromLeft, -⟩ | ⟨fromRight, -⟩
    · exact ih _ left fromLeft
    · exact ih _ right fromRight

end Binding

end Valid

/-! ### Building a tree from its leaves up -/

/-- Every node from `j` on that has children holds `node` of them. -/
def HashedAbove (node : α → α → α) (t : List α) (j : Nat) : Prop :=
  ∀ i (inTree : i < t.length) (left : 2 * i + 1 < t.length) (right : 2 * i + 2 < t.length),
    j ≤ i → t[i] = node t[2 * i + 1] t[2 * i + 2]

/-- Past the last node with children there is nothing to check. -/
theorem hashedAbove_of_le {j : Nat} (beyond : t.length ≤ 2 * j + 2) : HashedAbove node t j := by
  intro i _ _ right above
  omega

/-- **One node written.** Writing `node` of its children into node `j` keeps every node from `j`
on hashed: the children of a node from `j + 1` on lie past `j`, so the write does not touch
them. -/
theorem HashedAbove.set {j : Nat} (hashed : HashedAbove node t (j + 1))
    (left : 2 * j + 1 < t.length) (right : 2 * j + 2 < t.length) :
    HashedAbove node (t.set j (node t[2 * j + 1] t[2 * j + 2])) j := by
  intro i inTree left' right' above
  simp only [List.length_set] at inTree left' right'
  simp only [List.getElem_set]
  by_cases here : j = i
  · subst here
    rw [if_pos rfl, if_neg (by omega), if_neg (by omega)]
  · rw [if_neg here, if_neg (by omega), if_neg (by omega)]
    exact hashed i inTree left' right' (by omega)

/-- A tree hashed from `0` on, not empty, and with a right child wherever there is a left one, is
valid. -/
theorem HashedAbove.valid (hashed : HashedAbove node t 0) (nonempty : 0 < t.length)
    (complete : ∀ i, 2 * i + 1 < t.length → 2 * i + 2 < t.length) : Valid node t :=
  ⟨nonempty, complete, fun i inTree left right => hashed i inTree left right (Nat.zero_le i)⟩

/-! ### Queues of nodes in level order -/

/-- A queue of nodes in level order: strictly decreasing, and every node after the first above the
first one's parent. A bottom-up pass that takes the first node, with its sibling when that comes
next, and appends the parent, keeps this shape; so the nodes it meets come level by level, and the
root comes last, alone. -/
def Frontier : List Nat → Prop
  | [] => True
  | j :: rest => (∀ x ∈ rest, parent j < x) ∧ (j :: rest).Pairwise (· > ·)

/-- Appending the parent of a node `j` after nodes strictly between its parent and itself, the
first of them not its sibling, gives a queue in level order: the parent of that first node is
below the parent of `j`. -/
theorem Frontier.snoc_parent {j : Nat} {rest : List Nat}
    (between : ∀ x ∈ rest, parent j < x ∧ x < j) (ordered : rest.Pairwise (· > ·))
    (notSibling : ∀ k more, rest = k :: more → k ≠ sibling j) :
    Frontier (rest ++ [parent j]) := by
  cases rest with
  | nil => simp [Frontier]
  | cons k more =>
    have kBetween := between k List.mem_cons_self
    have kNotSibling := notSibling k more rfl
    -- `k` is below `j` and not its sibling, so the parent of `k` is below that of `j`
    have parentBelow : parent k < parent j := by
      unfold parent sibling at *
      split at kNotSibling <;> omega
    refine ⟨fun x member => ?_, ?_⟩
    · rcases List.mem_append.mp member with inMore | last
      · have := between x (List.mem_cons_of_mem k inMore)
        omega
      · rw [List.mem_singleton.mp last]
        exact parentBelow
    · show ((k :: more) ++ [parent j]).Pairwise (· > ·)
      rw [List.pairwise_append]
      refine ⟨ordered, List.pairwise_singleton _ _, fun x member y last => ?_⟩
      rw [List.mem_singleton.mp last]
      exact (between x member).1

/-- The first node leaves with its sibling, next in the queue. -/
theorem Frontier.pop_pair {j : Nat} {rest : List Nat} (front : Frontier (j :: sibling j :: rest)) :
    Frontier (rest ++ [parent j]) := by
  obtain ⟨above, ordered⟩ := front
  rw [List.pairwise_cons, List.pairwise_cons] at ordered
  refine Frontier.snoc_parent (fun x member => ⟨above x (List.mem_cons_of_mem _ member),
      ordered.1 x (List.mem_cons_of_mem _ member)⟩) ordered.2.2 ?_
  rintro k more rfl same
  exact Nat.lt_irrefl k (same ▸ ordered.2.1 k List.mem_cons_self)

/-- The first node leaves alone, its sibling not next in the queue. -/
theorem Frontier.pop_single {j : Nat} {rest : List Nat} (front : Frontier (j :: rest))
    (notSibling : ∀ k more, rest = k :: more → k ≠ sibling j) :
    Frontier (rest ++ [parent j]) := by
  obtain ⟨above, ordered⟩ := front
  rw [List.pairwise_cons] at ordered
  exact Frontier.snoc_parent (fun x member => ⟨above x member, ordered.1 x member⟩) ordered.2
    notSibling

/-- A queue in level order that starts at the root holds the root alone. -/
theorem Frontier.eq_nil_of_root {rest : List Nat} (front : Frontier (0 :: rest)) : rest = [] := by
  obtain ⟨-, ordered⟩ := front
  rw [List.pairwise_cons] at ordered
  exact List.eq_nil_iff_forall_not_mem.mpr fun x member => Nat.not_lt_zero x (ordered.1 x member)

end Ipc.Lib.HeapTree
