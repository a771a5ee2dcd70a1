/-
**Merkle mountain ranges.**

A mountain range of `n` leaves, counted in a `w`-bit word, is a list of perfect trees, one for each
set bit of `n` and of that bit's height, highest first (`MountainRange`). Read left to right, its
leaves are the leaves in the order they came.

* `MountainRange.push` — the trees of the trailing ones of `n` grafted onto a new leaf (what the
  carry of `n + 1` merges) leave the mountain range of `n + 1`;
* `MountainRange.locate` — leaf `i < n` lies in the tree of the highest bit where `i` and `n`
  differ, after the trees of the set bits of `n` above that bit, at the index that `i`'s lower bits
  give.
-/

import Ipc.Lib.Bits
import Ipc.Lib.MerkleTree

namespace Ipc.Lib

open Ipc.Lib.Tree

variable {α : Type}

/-- The leaves of perfect trees number the powers of two of their heights. -/
theorem length_flatten_leaves {trees : List (Tree α)} (perfect : ∀ t ∈ trees, t.Perfect) :
    (trees.map leaves).flatten.length = ((trees.map height).map (2 ^ ·)).sum := by
  induction trees with
  | nil => rfl
  | cons t trees ih =>
    have rest := ih fun t' member => perfect t' (List.mem_cons_of_mem t member)
    simp only [List.map_cons, List.flatten_cons, List.length_append, List.sum_cons,
      length_leaves (perfect t List.mem_cons_self), rest]

/-- The trees of a mountain range of `n` leaves in a `w`-bit count: perfect, one per set bit of
`n` and of that bit's height, highest first. -/
structure MountainRange (w n : Nat) (trees : List (Tree α)) : Prop where
  heights : trees.map height = setBits w n
  perfect : ∀ t ∈ trees, t.Perfect

namespace MountainRange

variable {w n : Nat} {trees : List (Tree α)}

theorem empty (w : Nat) : MountainRange w 0 ([] : List (Tree α)) :=
  ⟨(setBits_of_zeros fun i _ => Nat.zero_testBit i).symm,
    fun _ member => absurd member List.not_mem_nil⟩

/-- A mountain range has a tree for each trailing one of its count. -/
theorem trailing_le_length (range : MountainRange w n trees) (lt : n < 2 ^ w) :
    trailingZeros w (complement w n) ≤ trees.length := by
  have heights := congrArg List.length range.heights
  rw [List.length_map, setBits_of_trailing lt, List.length_append, List.length_reverse,
    List.length_range] at heights
  omega

/-- **Push.** The last trees of a mountain range of `n`, as many as `n` has trailing ones, grafted
onto a new leaf leave the mountain range of `n + 1`: the carry of `n + 1` merges them. -/
theorem push {A B : List (Tree α)} (range : MountainRange w n (A ++ B)) (lt : n + 1 < 2 ^ w)
    (trailing : B.length = trailingZeros w (complement w n)) (x : α) :
    MountainRange w (n + 1) (A ++ [graft B (leaf x)]) := by
  have short : n < 2 ^ w := by omega
  have heights := range.heights
  rw [List.map_append, setBits_of_trailing short] at heights
  obtain ⟨above, trailingHeights⟩ := List.append_inj' heights (by simp [trailing])
  -- the count is not all ones, so the carry stops inside the word
  have room : trailingZeros w (complement w n) < w :=
    trailingZeros_lt (by unfold complement; omega) (by unfold complement; omega)
  have graftHeights : B.map height = (List.range' (leaf x).height B.length).reverse := by
    rw [trailingHeights, List.range_eq_range', trailing]
    rfl
  obtain ⟨graftPerfect, graftHeight⟩ :=
    perfect_graft (show (leaf x).Perfect from trivial) graftHeights
      fun t member => range.perfect t (List.mem_append_right A member)
  constructor
  · rw [List.map_append, above, List.map_singleton, graftHeight, setBits_succ short room, trailing,
      show (leaf x).height = 0 from rfl, Nat.zero_add]
  · intro t member
    rcases List.mem_append.mp member with old | new
    · exact range.perfect t (List.mem_append_left B old)
    · rw [List.mem_singleton.mp new]
      exact graftPerfect

/-- **Locate.** Leaf `i < n` of a mountain range lies in the tree of the highest bit `e` where `i`
and `n` differ, which follows the trees of the set bits of `n` above `e`, at index `i % 2 ^ e` in
that tree. -/
theorem locate (range : MountainRange w n trees) {i : Nat} (lt : i < n) (short : n < 2 ^ w) :
    ∃ A T B, trees = A ++ T :: B ∧
      A.length = ((setBits w n).filter (fun b => decide ((i ^^^ n).log2 < b))).length ∧
      T.height = (i ^^^ n).log2 ∧ T.Perfect ∧
      (trees.map leaves).flatten[i]? = T.leaves[i % 2 ^ (i ^^^ n).log2]? := by
  obtain ⟨nSet, iClear, agree⟩ := highestDifference lt
  generalize (i ^^^ n).log2 = e at nSet iClear agree ⊢
  have inside : e < w := by
    by_contra outside
    have := Nat.testBit_lt_two_pow (lt_of_lt_of_le short (Nat.pow_le_pow_right (by omega)
      (Nat.le_of_not_lt outside)))
    rw [nSet] at this
    exact Bool.noConfusion this
  have heights := range.heights
  rw [setBits_split_at nSet inside] at heights
  obtain ⟨A, R, rfl, aHeights, rHeights⟩ := List.map_eq_append_iff.mp heights
  obtain ⟨T, B, rfl, tHeight, -⟩ := List.map_eq_cons_iff.mp rHeights
  have tPerfect : T.Perfect := range.perfect T (by simp)
  refine ⟨A, T, B, rfl, by rw [← aHeights, List.length_map], tHeight, tPerfect, ?_⟩
  -- the leaves before `T` are `i` with its bits below `e` cleared: `n` and `i` agree above `e`
  have before : (A.map leaves).flatten.length = i - i % 2 ^ e := by
    have aPerfect : ∀ t ∈ A, t.Perfect := fun t member => range.perfect t (by simp [member])
    have roundDown := Nat.div_add_mod i (2 ^ (e + 1))
    rw [mod_two_pow_succ_of_testBit iClear] at roundDown
    rw [length_flatten_leaves aPerfect, aHeights]
    change (((setBits w n).filter (fun b => decide (e + 1 ≤ b))).map (2 ^ ·)).sum = _
    rw [sum_filter_setBits short (show e + 1 ≤ w by omega), ← div_two_pow_eq agree]
    omega
  have within : i % 2 ^ e < T.leaves.length := by
    rw [Tree.length_leaves tPerfect, tHeight]
    exact Nat.mod_lt i (Nat.two_pow_pos e)
  have offset : i - (A.map leaves).flatten.length = i % 2 ^ e := by
    have := Nat.mod_le i (2 ^ e)
    omega
  rw [List.map_append, List.flatten_append, List.map_cons, List.flatten_cons,
    List.getElem?_append_right (by omega), offset, List.getElem?_append_left within]

end MountainRange

end Ipc.Lib
