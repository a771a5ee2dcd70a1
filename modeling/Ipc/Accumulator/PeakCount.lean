/-
**The peaks of the accumulator after any number of pushes.**

The peaks after `n` pushes from `State::new` are the mountain range of `n`: one perfect tree per
set bit of `n`, highest first, over the leaves in push order. The merge loop of a push runs once
per trailing one of the `u64` leaf count, which the release build keeps modulo `2 ^ 64`; short of
`2 ^ 65 - 1` that count ends in as many ones as `n` itself counted in 65 bits
(`trailingZeros_complement_mod`), so the peaks stay the mountain range of `n` in 65 bits
(`PeakRange.push`).

* `State.push_root`, `State.pushAll_root` — every push returns the root of the state it leaves;
* `PeakRange.pushAll` — **a run of pushes** keeps the peaks the mountain range of the count, below
  `2 ^ 65` pushes;
* `pushAll_peaks` — after `n < 2 ^ 65` pushes the peaks are as many as the set bits of `n`, name
  perfect trees of those heights over the leaves in push order, and the root folds them from the
  right;
* `pushAll_peaks_wraps` — the `2 ^ 65`-th push merges 64 times, one fewer than the carry of `n`
  asks: two peaks of height 64 remain where `2 ^ 65` has one set bit.

No property of the CIDs or of the blockstore is needed: the merge loop only reads the peaks.
-/

import Mathlib
import Ipc.Accumulator.Commitment

namespace Ipc.Accumulator

open Ipc.Lib Ipc.Lib.Tree

variable {Cid S : Type} [DecidableEq Cid] (cid : Block Cid S → Cid) (default : Cid)

/-! ### The root a push returns -/

/-- The root a push returns is the root of the state it leaves. -/
theorem State.push_root {store store' : Blockstore Cid S} {st st' : State Cid} {x : S}
    {pushed : PushReturn Cid} (ran : st.push cid default store x = .ok (pushed, st', store')) :
    st'.getRoot cid default = .ok pushed.root := by
  obtain ⟨⟨peaks, store₁⟩, -, rest⟩ := bind_eq_ok.mp ran
  obtain ⟨root, bagged, final⟩ := bind_eq_ok.mp rest
  simp only [pure, Except.pure, Except.ok.injEq, Prod.mk.injEq] at final
  obtain ⟨rfl, rfl, rfl⟩ := final
  exact bagged

/-- Each push of a run returns one result. -/
theorem State.pushAll_length (xs : List S) :
    ∀ {store store' : Blockstore Cid S} {st st' : State Cid} {returns : List (PushReturn Cid)},
      State.pushAll cid default store st xs = .ok (returns, st', store') →
      returns.length = xs.length := by
  induction xs with
  | nil =>
    intro store store' st st' returns ran
    rw [State.pushAll, Except.ok.injEq] at ran
    rw [← (Prod.mk.inj ran).1]
    rfl
  | cons x rest ih =>
    intro store store' st st' returns ran
    obtain ⟨⟨first, st₁, store₁⟩, -, others⟩ := bind_eq_ok.mp ran
    obtain ⟨⟨returns', st₂, store₂⟩, run, final⟩ := bind_eq_ok.mp others
    simp only [pure, Except.pure, Except.ok.injEq, Prod.mk.injEq] at final
    obtain ⟨rfl, rfl, rfl⟩ := final
    rw [List.length_cons, List.length_cons, ih run]

/-- After a run of pushes, the root is the one the last push returned. -/
theorem State.pushAll_root (xs : List S) :
    ∀ {store store' : Blockstore Cid S} {st st' : State Cid} {returns : List (PushReturn Cid)},
      State.pushAll cid default store st xs = .ok (returns, st', store') →
      ∀ pushed ∈ returns.getLast?, st'.getRoot cid default = .ok pushed.root := by
  induction xs with
  | nil =>
    intro store store' st st' returns ran pushed last
    rw [State.pushAll, Except.ok.injEq] at ran
    rw [← (Prod.mk.inj ran).1] at last
    cases last
  | cons x rest ih =>
    intro store store' st st' returns ran pushed last
    obtain ⟨⟨first, st₁, store₁⟩, pushedFirst, others⟩ := bind_eq_ok.mp ran
    obtain ⟨⟨returns', st₂, store₂⟩, run, final⟩ := bind_eq_ok.mp others
    simp only [pure, Except.pure, Except.ok.injEq, Prod.mk.injEq] at final
    obtain ⟨rfl, rfl, rfl⟩ := final
    cases rest with
    | nil =>
      -- the first push is the last one
      rw [State.pushAll, Except.ok.injEq] at run
      simp only [Prod.mk.injEq] at run
      obtain ⟨rfl, rfl, rfl⟩ := run
      obtain rfl : first = pushed := by simpa using last
      exact State.push_root cid default pushedFirst
    | cons y ys =>
      -- a later push is the last one
      obtain ⟨r, rs, rfl⟩ := List.exists_cons_of_length_eq_add_one (State.pushAll_length cid default _ run)
      exact ih run pushed (by simpa using last)

/-- Pushing `xs` and then `ys` is pushing `xs ++ ys`. -/
theorem State.pushAll_append (xs ys : List S) :
    ∀ {store store₁ store₂ : Blockstore Cid S} {st st₁ st₂ : State Cid}
      {first second : List (PushReturn Cid)},
      State.pushAll cid default store st xs = .ok (first, st₁, store₁) →
      State.pushAll cid default store₁ st₁ ys = .ok (second, st₂, store₂) →
      State.pushAll cid default store st (xs ++ ys) = .ok (first ++ second, st₂, store₂) := by
  induction xs with
  | nil =>
    intro store store₁ store₂ st st₁ st₂ first second ran rest
    rw [State.pushAll, Except.ok.injEq] at ran
    obtain ⟨rfl, rfl, rfl⟩ : [] = first ∧ st = st₁ ∧ store = store₁ := by simpa using ran
    exact rest
  | cons x xs ih =>
    intro store store₁ store₂ st st₁ st₂ first second ran rest
    obtain ⟨⟨pushed, st', store'⟩, pushedX, others⟩ := bind_eq_ok.mp ran
    obtain ⟨⟨returns, st'', store''⟩, run, final⟩ := bind_eq_ok.mp others
    simp only [pure, Except.pure, Except.ok.injEq, Prod.mk.injEq] at final
    obtain ⟨rfl, rfl, rfl⟩ := final
    rw [List.cons_append, State.pushAll, pushedX, ok_bind]
    simp only [ih run rest, ok_bind]
    rfl

/-! ### The merge loop over trees -/

/-- **The merge loop**, over any blockstore: one round per tree of `trees` grafts them onto the last
peak `carry`. -/
theorem mergePeaks_trees (before trees : List (Lib.Tree S)) :
    ∀ (store : Blockstore Cid S) (carry : Lib.Tree S), ∃ store',
      mergePeaks cid store trees.length
          ((before ++ trees).map (treeCid cid) ++ [treeCid cid carry]) =
        .ok ((before ++ [graft trees carry]).map (treeCid cid), store') := by
  -- the loop merges from the right: induction on `trees` from its last tree
  induction trees using List.reverseRecOn with
  | nil =>
    intro store carry
    exact ⟨store, by simp [mergePeaks]⟩
  | append_singleton trees t ih =>
    intro store carry
    obtain ⟨store', loop⟩ :=
      ih (putCbor cid store (.pair (treeCid cid t) (treeCid cid carry))).2 (node t carry)
    refine ⟨store', ?_⟩
    rw [List.length_append, List.length_singleton, ← List.append_assoc, List.map_append,
      List.map_singleton, List.append_assoc, List.singleton_append, mergePeaks_succ,
      graft_append_singleton]
    exact loop

/-! ### The peaks are the mountain range of the count -/

/-- The state after pushing `xs`, with `trees` the trees its peaks name: the `u64` leaf count is
`|xs|` modulo `2 ^ 64`, and the peaks are the CIDs of the mountain range of `|xs|` leaves counted
in 65 bits, whose leaves are `xs`. -/
structure PeakRange (st : State Cid) (xs : List S) (trees : List (Lib.Tree S)) : Prop where
  leafCount : st.leafCount = xs.length % 2 ^ 64
  short : xs.length < 2 ^ 65
  range : MountainRange 65 xs.length trees
  leaves : (trees.map Lib.Tree.leaves).flatten = xs
  peaks : st.peaks = trees.map (treeCid cid)

namespace PeakRange

variable {cid}

omit [DecidableEq Cid] in
theorem new : PeakRange cid State.new ([] : List S) [] :=
  ⟨rfl, Nat.two_pow_pos 65, MountainRange.empty 65, rfl, rfl⟩

variable {st : State Cid} {xs : List S} {trees : List (Lib.Tree S)}

omit [DecidableEq Cid] in
/-- The merge loop has as many trees to merge as the wrapped count has trailing ones. -/
theorem trailing_le_length (holds : PeakRange cid st xs trees) :
    trailingZeros 64 (complement 64 (xs.length % 2 ^ 64)) ≤ trees.length := by
  by_cases room : xs.length + 1 < 2 ^ 65
  · rw [trailingZeros_complement_mod (w := 64) room]
    exact holds.range.trailing_le_length holds.short
  · -- the count is all ones in 65 bits: one tree per bit
    have full : xs.length = 2 ^ 65 - 1 := by have := holds.short; omega
    have ones : ∀ i < 65, xs.length.testBit i = true := fun i below => by
      rw [full, Nat.testBit_two_pow_sub_one, decide_eq_true below]
    have count := congrArg List.length holds.range.heights
    rw [List.length_map, setBits_of_ones ones, List.length_reverse, List.length_range] at count
    rw [count]
    exact (trailingZeros_le 64 _).trans (by norm_num)

/-- **One push**: the last trees, one per trailing one of the wrapped count, are grafted onto the
new leaf. -/
theorem push_eq (holds : PeakRange cid st xs trees) (store : Blockstore Cid S) (x : S) :
    ∃ before trailing, trees = before ++ trailing ∧
      trailing.length = trailingZeros 64 (complement 64 (xs.length % 2 ^ 64)) ∧
      ∃ pushed st' store', st.push cid default store x = .ok (pushed, st', store') ∧
        st'.peaks = (before ++ [graft trailing (leaf x)]).map (treeCid cid) ∧
        st'.leafCount = (xs.length + 1) % 2 ^ 64 := by
  have enough := holds.trailing_le_length
  set merges := trailingZeros 64 (complement 64 (xs.length % 2 ^ 64))
  obtain ⟨before, trailing, split, trailingLength⟩ : ∃ before trailing,
      trees = before ++ trailing ∧ trailing.length = merges :=
    ⟨_, _, (List.take_append_drop (trees.length - merges) trees).symm,
      by rw [List.length_drop]; omega⟩
  subst split
  obtain ⟨store', merged⟩ :=
    mergePeaks_trees cid before trailing (putCbor cid store (.object x)).2 (leaf x)
  have pushed : Accumulator.push cid store st.leafCount st.peaks x =
      .ok ((before ++ [graft trailing (leaf x)]).map (treeCid cid), store') := by
    rw [← merged, holds.leafCount, holds.peaks, trailingLength]
    rfl
  refine ⟨before, trailing, rfl, trailingLength, ?_⟩
  rw [State.push, pushed, ok_bind]
  simp only [List.map_append, List.map_singleton, bagPeaks_append, ok_bind, holds.leafCount,
    Nat.mod_add_mod]
  exact ⟨_, _, _, rfl, rfl, rfl⟩

/-- **One push keeps the range** below `2 ^ 65` pushes: the wrapped count has the carry of the
count itself. -/
theorem push (holds : PeakRange cid st xs trees) (store : Blockstore Cid S) (x : S)
    (room : xs.length + 1 < 2 ^ 65) :
    ∃ pushed st' store' trees', st.push cid default store x = .ok (pushed, st', store') ∧
      PeakRange cid st' (xs ++ [x]) trees' := by
  obtain ⟨before, trailing, rfl, trailingLength, pushed, st', store', ran, peaks, count⟩ :=
    holds.push_eq default store x
  rw [trailingZeros_complement_mod (w := 64) room] at trailingLength
  refine ⟨pushed, st', store', before ++ [graft trailing (leaf x)], ran, ?_, by simpa using room,
    ?_, ?_, peaks⟩
  · rw [count, List.length_append, List.length_singleton]
  · rw [List.length_append, List.length_singleton]
    exact holds.range.push room trailingLength x
  · -- grafting keeps the leaves in order, the new one last
    rw [← holds.leaves, List.map_append, List.map_append, List.flatten_append,
      List.flatten_append, List.map_singleton, List.flatten_singleton, leaves_graft,
      List.append_assoc]
    rfl

/-- **A run of pushes** keeps the range, below `2 ^ 65` pushes in all. -/
theorem pushAll (xs : List S) :
    ∀ {store : Blockstore Cid S} {st : State Cid} {ys : List S} {trees : List (Lib.Tree S)},
      PeakRange cid st ys trees → ys.length + xs.length < 2 ^ 65 →
      ∃ returns st' store' trees', State.pushAll cid default store st xs =
        .ok (returns, st', store') ∧ PeakRange cid st' (ys ++ xs) trees' := by
  induction xs with
  | nil =>
    intro store st ys trees holds _
    exact ⟨[], st, store, trees, rfl, by simpa using holds⟩
  | cons x rest ih =>
    intro store st ys trees holds room
    simp only [List.length_cons] at room
    obtain ⟨pushed, st₁, store₁, trees₁, first, holds₁⟩ :=
      holds.push default store x (by omega)
    obtain ⟨returns, st', store', trees', run, final⟩ :=
      @ih store₁ _ _ _ holds₁ (by simp only [List.length_append, List.length_singleton]; omega)
    refine ⟨pushed :: returns, st', store', trees', ?_, by simpa using final⟩
    rw [State.pushAll, first, ok_bind]
    simp only [run, ok_bind]
    rfl

omit [DecidableEq Cid] in
/-- The peaks number the set bits of the count and carry its heights, highest first. -/
theorem heights (holds : PeakRange cid st xs trees) :
    trees.map Lib.Tree.height = xs.length.bitIndices.reverse := by
  rw [holds.range.heights, setBits_eq_reverse_bitIndices holds.short]

omit [DecidableEq Cid] in
/-- Below `2 ^ 64`, `peak_count` of the wrapped count is the number of peaks. -/
theorem peakCount (holds : PeakRange cid st xs trees) (short : xs.length < 2 ^ 64) :
    st.peakCount = st.peaks.length := by
  rw [State.peakCount, countOnes, holds.leafCount, Nat.mod_eq_of_lt short, holds.peaks,
    List.length_map, ← List.length_map (f := Lib.Tree.height), holds.range.heights,
    setBits_eq_reverse_bitIndices short, setBits_eq_reverse_bitIndices holds.short]

end PeakRange

/-- **The peaks after `n < 2 ^ 65` pushes.** Pushing `xs` from `State::new` succeeds; the peaks are
as many as the set bits of `|xs|`, and are the CIDs of perfect trees, one per set bit and of its
height, highest first, whose leaves are `xs` in push order; the root folds the peaks from the
right, and is the root the last push returned; below `2 ^ 64`, `peak_count` counts the peaks. -/
theorem pushAll_peaks (store : Blockstore Cid S) (xs : List S) (short : xs.length < 2 ^ 65) :
    ∃ returns st store', State.pushAll cid default store State.new xs = .ok (returns, st, store') ∧
      st.peaks.length = xs.length.bitIndices.length ∧
      (∃ trees : List (Lib.Tree S), st.peaks = trees.map (treeCid cid) ∧
        trees.map Lib.Tree.height = xs.length.bitIndices.reverse ∧ (∀ t ∈ trees, t.Perfect) ∧
        (trees.map Lib.Tree.leaves).flatten = xs) ∧
      (∀ init last, st.peaks = init ++ [last] →
        st.getRoot cid default = .ok (init.foldr (fun peak root => cid (.pair peak root)) last)) ∧
      (∀ pushed ∈ returns.getLast?, st.getRoot cid default = .ok pushed.root) ∧
      (xs.length < 2 ^ 64 → st.peakCount = st.peaks.length) := by
  obtain ⟨returns, st, store', trees, run, holds⟩ :=
    PeakRange.pushAll default xs (@PeakRange.new _ _ cid) (by simpa using short)
  rw [List.nil_append] at holds
  have count : st.peaks.length = xs.length.bitIndices.length := by
    rw [holds.peaks, List.length_map, ← List.length_map (f := Lib.Tree.height), holds.heights,
      List.length_reverse]
  refine ⟨returns, st, store', run, count,
    ⟨trees, holds.peaks, holds.heights, holds.range.perfect, holds.leaves⟩, ?_,
    State.pushAll_root cid default xs run, holds.peakCount⟩
  intro init last split
  rw [State.getRoot, split, bagPeaks_append]

/-- The eleven pushes of the test `test_bag_peaks`. -/
theorem pushAll_peaks_eleven :
    (List.range' 1 11).length < 2 ^ 65 ∧
    ∃ returns st store', State.pushAll natCid 0 (fun _ => none) State.new (List.range' 1 11) =
        .ok (returns, st, store') ∧
      st.peaks.length = (List.range' 1 11).length.bitIndices.length ∧
      (∃ trees : List (Lib.Tree Nat), st.peaks = trees.map (treeCid natCid) ∧
        trees.map Lib.Tree.height = (List.range' 1 11).length.bitIndices.reverse ∧
        (∀ t ∈ trees, t.Perfect) ∧ (trees.map Lib.Tree.leaves).flatten = List.range' 1 11) ∧
      (∀ init last, st.peaks = init ++ [last] →
        st.getRoot natCid 0 = .ok (init.foldr (fun peak root => natCid (.pair peak root)) last)) ∧
      (∀ pushed ∈ returns.getLast?, st.getRoot natCid 0 = .ok pushed.root) ∧
      ((List.range' 1 11).length < 2 ^ 64 → st.peakCount = st.peaks.length) :=
  ⟨by decide, pushAll_peaks natCid 0 (fun _ => none) (List.range' 1 11) (by decide)⟩

/-- **The wrap at `2 ^ 65`.** After `2 ^ 65 - 1` pushes the wrapped count is `2 ^ 64 - 1`, whose
complement has 64 trailing zeros: the next push merges 64 times where the carry of the count asks
for 65, and two peaks of height 64 remain, although `2 ^ 65` has a single set bit. -/
theorem pushAll_peaks_wraps :
    ∃ returns st store', State.pushAll natCid 0 (fun _ => none) State.new
        (List.replicate (2 ^ 65) 0) = .ok (returns, st, store') ∧
      st.peaks.length = 2 ∧ (2 ^ 65).bitIndices.length = 1 := by
  obtain ⟨returns, st, store', trees, run, holds⟩ :=
    PeakRange.pushAll 0 (List.replicate (2 ^ 65 - 1) 0) (@PeakRange.new _ _ natCid)
      (by rw [List.length_nil, List.length_replicate]; norm_num)
  rw [List.nil_append] at holds
  have full : (List.replicate (2 ^ 65 - 1) 0).length = 2 ^ 65 - 1 := List.length_replicate
  -- 65 trees, of which the push merges the last 64
  obtain ⟨before, trailing, rfl, trailingLength, pushed, st', store'', last, peaks, -⟩ :=
    holds.push_eq 0 store' 0
  have merges : trailing.length = 64 := by
    have allOnes : complement 64 ((2 ^ 65 - 1) % 2 ^ 64) = 0 := by norm_num [complement]
    rw [trailingLength, full, allOnes]
    exact trailingZeros_eq (le_refl 64) (fun i _ => Nat.zero_testBit i)
      (fun inside => absurd inside (lt_irrefl 64))
  have total : (before ++ trailing).length = 65 := by
    have ones : ∀ i < 65, (List.replicate (2 ^ 65 - 1) 0).length.testBit i = true :=
      fun i below => by rw [full, Nat.testBit_two_pow_sub_one, decide_eq_true below]
    have count := congrArg List.length holds.range.heights
    rwa [List.length_map, setBits_of_ones ones, List.length_reverse, List.length_range] at count
  have once : State.pushAll natCid 0 store' st [0] = .ok ([pushed], st', store'') := by
    rw [State.pushAll, last, ok_bind]
    rfl
  refine ⟨returns ++ [pushed], st', store'', ?_, ?_, by rw [Nat.bitIndices_two_pow]; rfl⟩
  · rw [show 2 ^ 65 = 2 ^ 65 - 1 + 1 by norm_num, List.replicate_succ']
    exact State.pushAll_append natCid 0 _ _ run once
  · rw [peaks, List.length_map, List.length_append, List.length_singleton]
    rw [List.length_append, merges] at total
    omega

end Ipc.Accumulator
