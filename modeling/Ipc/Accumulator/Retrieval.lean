/-
**Retrieval from the accumulator.**

A state pushed from `State::new` keeps, with its blockstore, a stored mountain range of the pushed
objects (`Accumulates`): its peaks are the CIDs of perfect trees, one per set bit of the leaf count,
whose leaves read left to right are the objects in push order.

* `Accumulates.push` — **one push** succeeds, returns the index of its object, and keeps the
  invariant while the `u64` leaf count does not wrap: the merge loop grafts the trees of the
  count's trailing ones onto the new leaf (`mergePeaks_graft`, `MountainRange.push`);
* `Accumulates.getLeafAt` — **retrieval**: `get_leaf_at(i)` is `xs[i]`, found in the peak of the
  highest bit where `i` and the count differ (`MountainRange.locate`, `pathForEigenRoot_eq`,
  `getInPeak_stored`);
* `pushAll_getLeafAt` — fewer than `2 ^ 64` objects pushed onto `State::new` are each found at
  their index and nothing past them, and each push returns its object's index;
* `getLeafAt_wraps` — the `2 ^ 64`-th push wraps the leaf count to zero, after which `get_leaf_at`
  finds nothing, not even the first object.

The blockstore may hold other blocks, each under its own CID, and `cid` is injective, so the store
returns what `put_cbor` stored under a CID.
-/

import Ipc.Accumulator.Peaks
import Mathlib

namespace Ipc.Accumulator

open Ipc.Lib Ipc.Lib.Tree

variable {Cid S : Type} {cid : Block Cid S → Cid}

/-- The state and its store after pushing `xs` onto `State::new`, with `trees` the mountain range
its peaks name: every block of the store under its own CID, the leaf count `|xs|` below `2 ^ 64`,
and the peaks the CIDs of a stored mountain range of `|xs|` leaves whose leaves are `xs`. -/
structure Accumulates (cid : Block Cid S → Cid) (store : Blockstore Cid S) (st : State Cid)
    (xs : List S) (trees : List (Lib.Tree S)) : Prop where
  addressed : Addressed cid store
  leafCount : st.leafCount = xs.length
  short : xs.length < 2 ^ 64
  range : MountainRange 64 xs.length trees
  leaves : (trees.map Lib.Tree.leaves).flatten = xs
  peaks : st.peaks = trees.map (treeCid cid)
  stored : ∀ t ∈ trees, Stored cid store t

namespace Accumulates

theorem new {store : Blockstore Cid S} (addressed : Addressed cid store) :
    Accumulates cid store State.new [] [] :=
  ⟨addressed, rfl, Nat.two_pow_pos 64, MountainRange.empty 64, rfl, rfl,
    fun _ member => absurd member List.not_mem_nil⟩

/-- **Retrieval.** From a state that accumulates `xs`, `get_leaf_at(i)` is `xs[i]`: the object
pushed `i`-th below the count, and nothing from the count on. -/
theorem getLeafAt {store : Blockstore Cid S} {st : State Cid} {xs : List S}
    {trees : List (Lib.Tree S)} (holds : Accumulates cid store st xs trees) (i : Nat) :
    st.getLeafAt store i = xs[i]? := by
  by_cases lt : i < xs.length
  · obtain ⟨A, T, B, split, index, height, perfect, leafAt⟩ := holds.range.locate lt holds.short
    have storedT : Stored cid store T := holds.stored T (by rw [split]; simp)
    have low : T.height < 64 := by
      rw [height, Nat.log2_lt (xor_ne_zero (Nat.ne_of_lt lt))]
      exact Nat.xor_lt_two_pow (by have := holds.short; omega) holds.short
    have peak : st.peaks[A.length]? = some (treeCid cid T) := by
      rw [holds.peaks, split]
      simp
    rw [holds.leaves, List.getElem?_eq_getElem lt] at leafAt
    -- `path_for_eigen_root` names the peak of `T` and the path of leaf `i` in it
    have found : getAt store i st.leafCount st.peaks = .ok xs[i] := by
      rw [getAt, holds.leafCount, pathForEigenRoot_eq lt holds.short, ok_bind, ← height]
      rw [← height] at index leafAt
      simp only [← index, peak]
      exact getInPeak_stored perfect storedT low leafAt.symm
    rw [State.getLeafAt, found, List.getElem?_eq_getElem lt]
  · have beyond : getAt store i st.leafCount st.peaks =
        .error "leaf_index must less than leaf_count" := by
      rw [getAt, holds.leafCount, pathForEigenRoot, if_pos (Nat.le_of_not_lt lt)]
      rfl
    rw [State.getLeafAt, beyond, List.getElem?_eq_none (Nat.le_of_not_lt lt)]

variable [DecidableEq Cid]

/-- **One push.** Onto a state that accumulates `xs`, a push succeeds and returns the index `|xs|`;
the leaf count becomes `|xs| + 1` modulo `2 ^ 64`, and below `2 ^ 64` the new state accumulates
`xs ++ [x]`. -/
theorem push (injective : Function.Injective cid) (default : Cid) {store : Blockstore Cid S}
    {st : State Cid} {xs : List S} {trees : List (Lib.Tree S)}
    (holds : Accumulates cid store st xs trees) (x : S) :
    ∃ root st' store', st.push cid default store x = .ok (⟨root, xs.length⟩, st', store') ∧
      st'.leafCount = (xs.length + 1) % 2 ^ 64 ∧
      (xs.length + 1 < 2 ^ 64 → ∃ trees', Accumulates cid store' st' (xs ++ [x]) trees') := by
  -- the last trees, one per trailing one of the count, are the ones the merge loop grafts
  have enough := holds.range.trailing_le_length holds.short
  obtain ⟨before, trailing, split, trailingLength⟩ : ∃ before trailing, trees = before ++ trailing ∧
      trailing.length = trailingZeros 64 (complement 64 xs.length) :=
    ⟨_, _, (List.take_append_drop (trees.length - trailingZeros 64 (complement 64 xs.length))
      trees).symm, by rw [List.length_drop]; omega⟩
  subst split
  have grown := putCbor_extends injective holds.addressed (.object x)
  obtain ⟨store', merged, addressed', grown', graftStored⟩ :=
    mergePeaks_graft injective before trailing (putCbor_addressed holds.addressed (.object x))
      (fun t member => (holds.stored t (List.mem_append_right before member)).mono grown)
      (show Stored cid (putCbor cid store (.object x)).2 (leaf x) from putCbor_get store (.object x))
  have pushed : Accumulator.push cid store st.leafCount st.peaks x =
      .ok ((before ++ [graft trailing (leaf x)]).map (treeCid cid), store') := by
    rw [← merged, holds.leafCount, holds.peaks, trailingLength]
    rfl
  have index : ((xs.length + 1) % 2 ^ 64 + 2 ^ 64 - 1) % 2 ^ 64 = xs.length := by
    have := holds.short
    omega
  refine ⟨(before.map (treeCid cid)).foldr (fun peak root => cid (.pair peak root))
      (treeCid cid (graft trailing (leaf x))),
    ⟨(before ++ [graft trailing (leaf x)]).map (treeCid cid), (xs.length + 1) % 2 ^ 64⟩, store',
    ?_, rfl, ?_⟩
  · rw [State.push, pushed, ok_bind]
    simp only [List.map_append, List.map_singleton, bagPeaks_append, ok_bind, holds.leafCount,
      index]
    rfl
  · intro room
    refine ⟨before ++ [graft trailing (leaf x)], addressed', ?_, by simpa using room, ?_, ?_, rfl,
      ?_⟩
    · rw [List.length_append, List.length_singleton, Nat.mod_eq_of_lt room]
    · rw [List.length_append, List.length_singleton]
      exact holds.range.push room trailingLength x
    · -- grafting keeps the leaves in order, the new one last
      rw [← holds.leaves, List.map_append, List.map_append, List.flatten_append,
        List.flatten_append, List.map_singleton, List.flatten_singleton, leaves_graft,
        List.append_assoc]
      rfl
    · intro t member
      rcases List.mem_append.mp member with old | new
      · exact ((holds.stored t (List.mem_append_left trailing old)).mono grown).mono grown'
      · rw [List.mem_singleton.mp new]
        exact graftStored

/-- **A run of pushes.** Onto a state that accumulates `ys`, pushing `xs`, with at most `2 ^ 64`
objects in all, succeeds and returns the indices `|ys|, |ys| + 1, …`; the leaf count becomes
`|ys| + |xs|` modulo `2 ^ 64`, and below `2 ^ 64` the state accumulates `ys ++ xs`. -/
theorem pushAll (injective : Function.Injective cid) (default : Cid) (xs : List S) :
    ∀ {store : Blockstore Cid S} {st : State Cid} {ys : List S} {trees : List (Lib.Tree S)},
      Accumulates cid store st ys trees → ys.length + xs.length ≤ 2 ^ 64 →
      ∃ returns st' store', State.pushAll cid default store st xs = .ok (returns, st', store') ∧
        returns.map PushReturn.index = List.range' ys.length xs.length ∧
        st'.leafCount = (ys.length + xs.length) % 2 ^ 64 ∧
        (ys.length + xs.length < 2 ^ 64 → ∃ trees', Accumulates cid store' st' (ys ++ xs) trees') := by
  induction xs with
  | nil =>
    intro store st ys trees holds _
    refine ⟨[], st, store, rfl, rfl, ?_, fun _ => ⟨trees, by simpa using holds⟩⟩
    rw [holds.leafCount, List.length_nil, Nat.add_zero, Nat.mod_eq_of_lt holds.short]
  | cons x rest ih =>
    intro store st ys trees holds room
    obtain ⟨root, st₁, store₁, pushed, count₁, next⟩ := holds.push injective default x
    by_cases more : ys.length + 1 < 2 ^ 64
    · obtain ⟨trees₁, holds₁⟩ := next more
      obtain ⟨returns, st', store', run, indices, count, final⟩ :=
        ih holds₁ (by simp only [List.length_append, List.length_cons, List.length_nil] at room ⊢; omega)
      have lengths : (ys ++ [x]).length + rest.length = ys.length + (x :: rest).length := by
        simp only [List.length_append, List.length_cons, List.length_nil]
        omega
      refine ⟨⟨root, ys.length⟩ :: returns, st', store', ?_, ?_, ?_, ?_⟩
      · rw [State.pushAll, pushed, ok_bind]
        simp only [run, ok_bind]
        rfl
      · rw [List.map_cons, indices, List.length_append, List.length_singleton, List.length_cons,
          List.range'_succ]
      · rw [count, lengths]
      · intro short
        rw [← lengths] at short
        simpa using final short
    · -- the count wraps at this push, which is the last one
      obtain rfl : rest = [] := List.eq_nil_of_length_eq_zero (by
        simp only [List.length_cons] at room
        omega)
      refine ⟨[⟨root, ys.length⟩], st₁, store₁, ?_, rfl, count₁, fun short => absurd short ?_⟩
      · rw [State.pushAll, pushed, ok_bind]
        rfl
      · simpa using more

end Accumulates

/-- **Retrieval after pushes.** Pushing fewer than `2 ^ 64` objects onto `State::new` succeeds,
the `i`-th push returns index `i`, and `get_leaf_at(i)` then returns the `i`-th object for every
`i` below their number and nothing from it on. -/
theorem pushAll_getLeafAt [DecidableEq Cid] (injective : Function.Injective cid) (default : Cid)
    {store : Blockstore Cid S} (addressed : Addressed cid store) (xs : List S)
    (short : xs.length < 2 ^ 64) :
    ∃ returns st store', State.pushAll cid default store State.new xs = .ok (returns, st, store') ∧
      returns.map PushReturn.index = List.range xs.length ∧
      (∀ i (lt : i < xs.length), st.getLeafAt store' i = some xs[i]) ∧
      ∀ i, xs.length ≤ i → st.getLeafAt store' i = none := by
  obtain ⟨returns, st, store', run, indices, -, final⟩ :=
    (Accumulates.new addressed).pushAll injective default xs (by simp only [List.length_nil]; omega)
  obtain ⟨trees, holds⟩ := final (by simpa using short)
  rw [List.nil_append] at holds
  refine ⟨returns, st, store', run, by rw [indices, List.length_nil, List.range_eq_range'],
    fun i lt => ?_,
    fun i beyond => ?_⟩
  · rw [holds.getLeafAt i, List.getElem?_eq_getElem lt]
  · rw [holds.getLeafAt i, List.getElem?_eq_none beyond]

/-! ### A blockstore of numbers -/

/-- CIDs for blocks of numbers: an object's is even, a pair's odd, through the pairing function. -/
def natCid : Block Nat Nat → Nat
  | .object obj => 2 * obj + 2
  | .pair left right => 2 * Nat.pair left right + 3

theorem natCid_injective : Function.Injective natCid := by
  intro a b same
  cases a with
  | object obj =>
    cases b with
    | object obj' =>
      simp only [natCid] at same
      rw [show obj = obj' by omega]
    | pair left right =>
      simp only [natCid] at same
      omega
  | pair left right =>
    cases b with
    | object obj =>
      simp only [natCid] at same
      omega
    | pair left' right' =>
      simp only [natCid] at same
      obtain ⟨rfl, rfl⟩ := Nat.pair_eq_pair.mp (show Nat.pair left right = Nat.pair left' right' by omega)
      rfl

theorem addressed_empty : Addressed natCid (fun _ => none) := fun _ _ held => by simp at held

theorem pushAll_getLeafAt_three :
    ∃ returns st store', State.pushAll natCid 0 (fun _ => none) State.new [7, 8, 9] =
        .ok (returns, st, store') ∧
      returns.map PushReturn.index = List.range 3 ∧
      (∀ i (lt : i < 3), st.getLeafAt store' i = some [7, 8, 9][i]) ∧
      ∀ i, 3 ≤ i → st.getLeafAt store' i = none :=
  pushAll_getLeafAt natCid_injective 0 addressed_empty [7, 8, 9] (by decide)

/-- **The wrap.** After `2 ^ 64` pushes the `u64` leaf count is zero again, and `get_leaf_at(0)`
finds nothing, although the first object was pushed. -/
theorem getLeafAt_wraps :
    ∃ returns st store', State.pushAll natCid 0 (fun _ => none) State.new (List.replicate (2 ^ 64) 0) =
        .ok (returns, st, store') ∧ st.getLeafAt store' 0 = none := by
  obtain ⟨returns, st, store', run, -, count, -⟩ :=
    (Accumulates.new addressed_empty).pushAll natCid_injective 0 (List.replicate (2 ^ 64) 0)
      (by rw [List.length_nil, List.length_replicate, Nat.zero_add])
  refine ⟨returns, st, store', run, ?_⟩
  have zero : st.leafCount = 0 := by
    rw [count, List.length_nil, List.length_replicate, Nat.zero_add, Nat.mod_self]
  rw [State.getLeafAt, getAt, zero, pathForEigenRoot, if_pos (Nat.le_refl 0)]
  rfl

end Ipc.Accumulator
