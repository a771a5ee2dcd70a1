/-
**Binary heaps on the positions `1..n`.**

A binary heap keeps its entries at the positions `1..n` of an array: the parent of a position
`i ≥ 2` is `i / 2`, so the children of `k` are `2 k` and `2 k + 1`. The values are a function
`v : Nat → α` of the position, and a relation `r`, transitive and total, says which value may stand
above which (`≤` for a min heap, `≥` for a max heap).

* `Ordered r v n` — every entry may stand above its children; the entry at `1` may then stand above
  every entry (`Ordered.root`).
* `LooseAt r v n k` — ordered except maybe between `k` and its parent or its children, with `k`'s
  parent able to stand above `k`'s children. `SwimReady` adds that `k` may stand above its
  children, `SinkReady` that `k`'s parent may stand above `k`: a heap ready to move the entry at
  `k` up, or down.
* The moves: swapping `k` with its parent when the two are out of order leaves a heap ready to
  swim at the parent (`LooseAt.swap_up`); swapping `k` with its best child when the two are out of
  order leaves a heap ready to sink at the child (`LooseAt.swap_down`); where no move is due, the
  heap is ordered (`SwimReady.finish`, `SinkReady.finish`).
* The starts: an entry appended after an ordered heap is ready to swim
  (`Ordered.swimReady_append`); an ordered heap with the value at `k` changed is loose at `k`
  (`Ordered.looseAt_of_agree`), ready to swim when the value moved up and to sink when it moved
  down.
-/

import Mathlib

namespace Ipc.Lib.BinaryHeap

variable {α : Type} (r : α → α → Prop)

/-- Every entry of `1..n` may stand above its children. -/
def Ordered (v : Nat → α) (n : Nat) : Prop :=
  ∀ i, 2 ≤ i → i ≤ n → r (v (i / 2)) (v i)

/-- Ordered except maybe between `k` and its parent or its children; `k`'s parent may stand above
`k`'s children. -/
structure LooseAt (v : Nat → α) (n k : Nat) : Prop where
  ordered : ∀ i, 2 ≤ i → i ≤ n → i ≠ k → i / 2 ≠ k → r (v (i / 2)) (v i)
  bridge : 2 ≤ k → ∀ c, c ≤ n → c / 2 = k → r (v (k / 2)) (v c)

/-- Loose at `k`, whose entry may stand above its children: ready to move it up. -/
structure SwimReady (v : Nat → α) (n k : Nat) : Prop extends LooseAt r v n k where
  below : ∀ c, 2 ≤ c → c ≤ n → c / 2 = k → r (v k) (v c)

/-- Loose at `k`, whose parent may stand above it: ready to move it down. -/
structure SinkReady (v : Nat → α) (n k : Nat) : Prop extends LooseAt r v n k where
  above : 2 ≤ k → k ≤ n → r (v (k / 2)) (v k)

variable {r} {v w : Nat → α} {n k : Nat}

/-- Where `k` is in order with its parent and with its children, a heap loose at `k` is
ordered. -/
theorem LooseAt.ordered_of (loose : LooseAt r v n k) (above : 2 ≤ k → k ≤ n → r (v (k / 2)) (v k))
    (below : ∀ c, 2 ≤ c → c ≤ n → c / 2 = k → r (v k) (v c)) : Ordered r v n := by
  intro i two inside
  by_cases atK : i = k
  · subst atK
    exact above two inside
  by_cases child : i / 2 = k
  · rw [child]
    exact below i two inside child
  · exact loose.ordered i two inside atK child

theorem SwimReady.finish (ready : SwimReady r v n k)
    (above : 2 ≤ k → k ≤ n → r (v (k / 2)) (v k)) : Ordered r v n :=
  ready.ordered_of above ready.below

theorem SinkReady.finish (ready : SinkReady r v n k)
    (below : ∀ c, 2 ≤ c → c ≤ n → c / 2 = k → r (v k) (v c)) : Ordered r v n :=
  ready.ordered_of ready.above below

theorem Ordered.mono {m : Nat} (ordered : Ordered r v n) (le : m ≤ n) : Ordered r v m :=
  fun i two inside => ordered i two (Nat.le_trans inside le)

/-- Only the values at the positions `1..n` matter. -/
theorem Ordered.congr (ordered : Ordered r v n) (agree : ∀ i, 1 ≤ i → i ≤ n → w i = v i) :
    Ordered r w n := by
  intro i two inside
  rw [agree i (by omega) inside, agree (i / 2) (by omega) (by omega)]
  exact ordered i two inside

/-- An entry appended after an ordered heap is ready to swim. -/
theorem Ordered.swimReady_append (ordered : Ordered r v n)
    (agree : ∀ i, 1 ≤ i → i ≤ n → w i = v i) : SwimReady r w (n + 1) (n + 1) where
  ordered i two inside last _ := ordered.congr agree i two (by omega)
  bridge _ c inside child := absurd child (by omega)
  below c _ inside child := absurd child (by omega)

/-! ### Moves -/

section Moves

variable [IsTrans α r]

/-- An ordered heap with the values off `k` kept is loose at `k`: `k`'s parent stood above the old
value at `k`, which stood above `k`'s children. -/
theorem Ordered.looseAt_of_agree (ordered : Ordered r v n)
    (agree : ∀ i, 1 ≤ i → i ≤ n → i ≠ k → w i = v i) : LooseAt r w n k where
  ordered i two inside atK child := by
    rw [agree i (by omega) inside atK, agree (i / 2) (by omega) (by omega) child]
    exact ordered i two inside
  bridge two c inside child := by
    have parent := ordered k two (by omega)
    have kid := ordered c (by omega) inside
    rw [child] at kid
    rw [agree (k / 2) (by omega) (by omega) (by omega), agree c (by omega) inside (by omega)]
    exact trans_of r parent kid

/-- A value at `k` moved up is ready to swim. -/
theorem Ordered.swimReady_of_agree (ordered : Ordered r v n)
    (agree : ∀ i, 1 ≤ i → i ≤ n → i ≠ k → w i = v i) (toward : r (w k) (v k)) :
    SwimReady r w n k where
  toLooseAt := ordered.looseAt_of_agree agree
  below c two inside child := by
    have kid := ordered c two inside
    rw [child] at kid
    rw [agree c (by omega) inside (by omega)]
    exact trans_of r toward kid

/-- A value at `k` moved down is ready to sink. -/
theorem Ordered.sinkReady_of_agree (ordered : Ordered r v n)
    (agree : ∀ i, 1 ≤ i → i ≤ n → i ≠ k → w i = v i) (away : r (v k) (w k)) :
    SinkReady r w n k where
  toLooseAt := ordered.looseAt_of_agree agree
  above two inside := by
    rw [agree (k / 2) (by omega) (by omega) (by omega)]
    exact trans_of r (ordered k two inside) away

variable [Std.Total r]

/-- **Root.** The entry at `1` of an ordered heap may stand above every entry: by induction on
the position, through its parent. -/
theorem Ordered.root (ordered : Ordered r v n) (i : Nat) : 1 ≤ i → i ≤ n → r (v 1) (v i) := by
  induction i using Nat.strongRecOn with
  | ind i ih =>
    intro positive inside
    by_cases top : i = 1
    · subst top
      exact refl_of r (v 1)
    · have parent := ih (i / 2) (by omega) (by omega) (by omega)
      exact trans_of r parent (ordered i (by omega) inside)

/-- An ordered heap is ready to sink anywhere. -/
theorem Ordered.sinkReady (ordered : Ordered r v n) (k : Nat) : SinkReady r v n k :=
  ordered.sinkReady_of_agree (fun _ _ _ _ => rfl) (refl_of r (v k))

/-- **Up.** Swapping `k` with its parent when the two are out of order leaves a heap ready to swim
at the parent: the parent's new value is `k`'s, which the old parent could not stand above. -/
theorem LooseAt.swap_up (loose : LooseAt r v n k) (two : 2 ≤ k) (inside : k ≤ n)
    (out : ¬ r (v (k / 2)) (v k)) : SwimReady r (v ∘ Equiv.swap (k / 2) k) n (k / 2) := by
  have flip : r (v k) (v (k / 2)) := (total_of r _ _).resolve_right out
  -- a sibling of `k` was in order below the parent
  have sibling : ∀ c, 2 ≤ c → c ≤ n → c / 2 = k / 2 → c ≠ k → r (v (k / 2)) (v c) := by
    intro c cTwo cInside child other
    have kid := loose.ordered c cTwo cInside other (by omega)
    rwa [child] at kid
  have keep : ∀ i, i ≠ k / 2 → i ≠ k → (v ∘ Equiv.swap (k / 2) k) i = v i :=
    fun i ne1 ne2 => by rw [Function.comp_apply, Equiv.swap_apply_of_ne_of_ne ne1 ne2]
  have atParent : (v ∘ Equiv.swap (k / 2) k) (k / 2) = v k := by
    rw [Function.comp_apply, Equiv.swap_apply_left]
  have atK : (v ∘ Equiv.swap (k / 2) k) k = v (k / 2) := by
    rw [Function.comp_apply, Equiv.swap_apply_right]
  refine ⟨⟨fun i iTwo iInside notParent grand => ?_, fun parentTwo c cInside child => ?_⟩,
    fun c cTwo cInside child => ?_⟩
  · -- a pair off the parent: below `k` it now hangs from the old parent's value
    have notK : i ≠ k := fun same => grand (by rw [same])
    rw [keep i notParent notK]
    by_cases below : i / 2 = k
    · rw [below, atK]
      exact loose.bridge two i iInside below
    · rw [keep (i / 2) grand below]
      exact loose.ordered i iTwo iInside notK below
  · -- the grandparent stood above the parent, which stood above both children
    have upper := loose.ordered (k / 2) parentTwo (by omega) (by omega) (by omega)
    rw [keep (k / 2 / 2) (by omega) (by omega)]
    by_cases same : c = k
    · rw [same, atK]
      exact upper
    · rw [keep c (by omega) same]
      exact trans_of r upper (sibling c (by omega) cInside child same)
  · rw [atParent]
    by_cases same : c = k
    · rw [same, atK]
      exact flip
    · rw [keep c (by omega) same]
      exact trans_of r flip (sibling c cTwo cInside child same)

omit [IsTrans α r] in
/-- **Down.** Swapping `k` with its best child `c` when the two are out of order leaves a heap
ready to sink at `c`: `c`'s value now stands above its sibling, and below `k`'s parent. -/
theorem LooseAt.swap_down {c : Nat} (loose : LooseAt r v n k) (positive : 1 ≤ k)
    (child : c / 2 = k) (inside : c ≤ n)
    (best : ∀ c', 2 ≤ c' → c' ≤ n → c' / 2 = k → r (v c) (v c')) (out : ¬ r (v k) (v c)) :
    SinkReady r (v ∘ Equiv.swap c k) n c := by
  have keep : ∀ i, i ≠ c → i ≠ k → (v ∘ Equiv.swap c k) i = v i :=
    fun i ne1 ne2 => by rw [Function.comp_apply, Equiv.swap_apply_of_ne_of_ne ne1 ne2]
  have atC : (v ∘ Equiv.swap c k) c = v k := by
    rw [Function.comp_apply, Equiv.swap_apply_left]
  have atK : (v ∘ Equiv.swap c k) k = v c := by
    rw [Function.comp_apply, Equiv.swap_apply_right]
  refine ⟨⟨fun i iTwo iInside notC notBelow => ?_, fun cTwo g gInside grand => ?_⟩,
    fun _ _ => ?_⟩
  · by_cases isK : i = k
    · -- `k`'s parent stood above `k`'s children
      subst isK
      rw [atK, keep (i / 2) (by omega) (by omega)]
      exact loose.bridge iTwo c inside child
    by_cases sibling : i / 2 = k
    · rw [sibling, atK, keep i notC isK]
      exact best i iTwo iInside sibling
    · rw [keep i notC isK, keep (i / 2) notBelow sibling]
      exact loose.ordered i iTwo iInside isK sibling
  · -- `c`'s children stood below `c`'s old value, now at `k`
    have kid := loose.ordered g (by omega) gInside (by omega) (by omega)
    rw [grand] at kid
    rw [child, atK, keep g (by omega) (by omega)]
    exact kid
  · rw [child, atK, atC]
    exact (total_of r _ _).resolve_left out

end Moves

end Ipc.Lib.BinaryHeap
