/-
**Binary Merkle trees.**

A `Tree α` holds values at its leaves; its hash combines a hash of each leaf value with a hash of
each pair of child hashes. A tree is perfect when every path from the root to a leaf has the same
length, its `height`.

* `length_leaves` — a perfect tree of height `h` has `2 ^ h` leaves;
* `getElem?_leaves_node` — in a perfect tree, leaf `i` lies in the left half when bit `h` of `i`
  is clear and in the right half when it is set, at index `i % 2 ^ h` there;
* `hash_injective` — when the leaf hash and the pair hash are injective and never agree, the hash
  of a tree determines the tree, and so its leaves;
* `graft` — trees hung one below the other onto a carry from the right, as a binary counter's carry
  merges them; `perfect_graft` says when the result is perfect.
-/

import Mathlib

namespace Ipc.Lib

/-- A binary tree with values at its leaves. -/
inductive Tree (α : Type)
  | leaf (value : α)
  | node (left right : Tree α)
  deriving DecidableEq, Repr

namespace Tree

variable {α H : Type}

/-- The leaf values, left to right. -/
def leaves : Tree α → List α
  | leaf value => [value]
  | node left right => left.leaves ++ right.leaves

/-- The height along the leftmost path. -/
def height : Tree α → Nat
  | leaf _ => 0
  | node left _ => left.height + 1

/-- Both halves of every node are perfect trees of the same height. -/
def Perfect : Tree α → Prop
  | leaf _ => True
  | node left right => left.Perfect ∧ right.Perfect ∧ left.height = right.height

/-- The hash of a tree: the leaf hash at a leaf, the pair hash of the children's hashes at a
node. -/
def hash (leafHash : α → H) (pairHash : H → H → H) : Tree α → H
  | leaf value => leafHash value
  | node left right => pairHash (left.hash leafHash pairHash) (right.hash leafHash pairHash)

@[simp]
theorem leaves_leaf (value : α) : (leaf value).leaves = [value] := rfl

@[simp]
theorem leaves_node (left right : Tree α) :
    (node left right).leaves = left.leaves ++ right.leaves := rfl

@[simp]
theorem height_node (left right : Tree α) : (node left right).height = left.height + 1 := rfl

theorem leaves_ne_nil (t : Tree α) : t.leaves ≠ [] := by
  induction t with
  | leaf value => exact List.cons_ne_nil value []
  | node left right ihLeft _ => simp [ihLeft]

theorem length_leaves {t : Tree α} (perfect : t.Perfect) : t.leaves.length = 2 ^ t.height := by
  induction t with
  | leaf value => rfl
  | node left right ihLeft ihRight =>
    obtain ⟨leftPerfect, rightPerfect, same⟩ := perfect
    simp only [leaves_node, List.length_append, ihLeft leftPerfect, ihRight rightPerfect,
      height_node, ← same, Nat.pow_succ]
    omega

/-- Leaf `i` of a perfect node: in the left half when bit `h` of `i` is clear, in the right half
when it is set, at index `i % 2 ^ h` there (`h` the height of the halves). -/
theorem getElem?_leaves_node {left right : Tree α} (perfect : (node left right).Perfect) {i : Nat}
    (inside : i < 2 ^ (left.height + 1)) :
    (node left right).leaves[i]? =
      if i.testBit left.height then right.leaves[i % 2 ^ left.height]?
      else left.leaves[i % 2 ^ left.height]? := by
  obtain ⟨leftPerfect, rightPerfect, same⟩ := perfect
  have leftLength := length_leaves leftPerfect
  rw [leaves_node]
  by_cases high : i.testBit left.height
  · -- the index is past the left half
    have atLeast : 2 ^ left.height ≤ i := Nat.ge_two_pow_of_testBit high
    have shifted : i % 2 ^ left.height = i - 2 ^ left.height := by
      rw [Nat.pow_succ] at inside
      rw [Nat.mod_eq_sub_mod atLeast, Nat.mod_eq_of_lt (by omega)]
    rw [if_pos high, List.getElem?_append_right (by omega), leftLength, shifted]
  · have below : i < 2 ^ left.height := by
      by_contra atLeast
      exact high (Nat.testBit_of_two_pow_le_and_two_pow_add_one_gt (by omega) inside)
    rw [if_neg high, List.getElem?_append_left (by omega), Nat.mod_eq_of_lt below]

/-- Reading a perfect node at the low bits of a path: bit `h` of the path picks the half, and the
bits below `h` the leaf in it. -/
theorem getElem?_leaves_node_mod {left right : Tree α} (perfect : (node left right).Perfect)
    (path : Nat) :
    (node left right).leaves[path % 2 ^ (left.height + 1)]? =
      (if path.testBit left.height then right else left).leaves[path % 2 ^ left.height]? := by
  have low : path % 2 ^ (left.height + 1) % 2 ^ left.height = path % 2 ^ left.height :=
    Nat.mod_mod_of_dvd path (Nat.pow_dvd_pow 2 (Nat.le_succ _))
  rw [getElem?_leaves_node perfect (Nat.mod_lt _ (Nat.two_pow_pos _)), Nat.testBit_mod_two_pow,
    decide_eq_true (Nat.lt_succ_self _), Bool.true_and, low]
  split <;> rfl

theorem exists_leaf_of_height_eq_zero {t : Tree α} (low : t.height = 0) : ∃ value, t = leaf value := by
  cases t with
  | leaf value => exact ⟨value, rfl⟩
  | node left right => exact absurd low (Nat.succ_ne_zero _)

theorem exists_node_of_height_eq_succ {t : Tree α} {m : Nat} (tall : t.height = m + 1) :
    ∃ left right, t = node left right ∧ left.height = m := by
  cases t with
  | leaf value => exact absurd tall (Nat.succ_ne_zero m).symm
  | node left right => exact ⟨left, right, rfl, Nat.succ.inj tall⟩

/-- The trees grafted onto a carry from the right: `node t₀ (node t₁ (… (node tₖ carry)))`. -/
def graft (trees : List (Tree α)) (carry : Tree α) : Tree α := trees.foldr node carry

@[simp]
theorem graft_nil (carry : Tree α) : graft [] carry = carry := rfl

@[simp]
theorem graft_cons (t : Tree α) (trees : List (Tree α)) (carry : Tree α) :
    graft (t :: trees) carry = node t (graft trees carry) := rfl

theorem graft_append_singleton (trees : List (Tree α)) (t carry : Tree α) :
    graft (trees ++ [t]) carry = graft trees (node t carry) := by
  simp [graft, List.foldr_append]

theorem leaves_graft (trees : List (Tree α)) (carry : Tree α) :
    (graft trees carry).leaves = (trees.map leaves).flatten ++ carry.leaves := by
  induction trees with
  | nil => simp
  | cons t trees ih => simp [ih]

theorem hash_graft (leafHash : α → H) (pairHash : H → H → H) (trees : List (Tree α))
    (carry : Tree α) :
    (graft trees carry).hash leafHash pairHash =
      (trees.map (hash leafHash pairHash)).foldr pairHash (carry.hash leafHash pairHash) := by
  induction trees with
  | nil => rfl
  | cons t trees ih => simp only [graft_cons, hash, ih, List.map_cons, List.foldr_cons]

/-- Perfect trees of heights `h + k - 1, …, h + 1, h` grafted onto a perfect carry of height `h`
make a perfect tree of height `h + k`: each graft doubles the carry. -/
theorem perfect_graft {carry : Tree α} (perfect : carry.Perfect) {trees : List (Tree α)}
    (heights : trees.map height = (List.range' carry.height trees.length).reverse)
    (perfects : ∀ t ∈ trees, t.Perfect) :
    (graft trees carry).Perfect ∧ (graft trees carry).height = carry.height + trees.length := by
  induction trees with
  | nil => exact ⟨perfect, rfl⟩
  | cons t trees ih =>
    -- the first tree is the highest, `h + k - 1`; the rest are `h + k - 2, …, h`
    rw [List.length_cons, List.range'_concat, List.reverse_append, List.reverse_singleton,
      List.singleton_append, List.map_cons, Nat.one_mul] at heights
    obtain ⟨first, rest⟩ := List.cons.inj heights
    obtain ⟨restPerfect, restHeight⟩ :=
      ih rest fun t' member => perfects t' (List.mem_cons_of_mem t member)
    refine ⟨⟨perfects t List.mem_cons_self, restPerfect, ?_⟩, ?_⟩
    · show t.height = (graft trees carry).height
      rw [first, restHeight]
    · rw [graft_cons, height_node, first, List.length_cons, Nat.add_assoc]

/-- With an injective leaf hash, an injective pair hash, and no leaf hash equal to a pair hash, the
hash of a tree determines the tree. -/
theorem hash_injective {leafHash : α → H} {pairHash : H → H → H}
    (leafInjective : Function.Injective leafHash)
    (pairInjective : ∀ a b c d, pairHash a b = pairHash c d → a = c ∧ b = d)
    (separated : ∀ value a b, leafHash value ≠ pairHash a b) :
    Function.Injective (hash leafHash pairHash) := by
  intro s t same
  induction s generalizing t with
  | leaf value =>
    cases t with
    | leaf other => rw [leafInjective same]
    | node left right => exact absurd same (separated value _ _)
  | node left right ihLeft ihRight =>
    cases t with
    | leaf other => exact absurd same.symm (separated other _ _)
    | node left' right' =>
      obtain ⟨sameLeft, sameRight⟩ := pairInjective _ _ _ _ same
      rw [ihLeft sameLeft, ihRight sameRight]

end Tree

end Ipc.Lib
