/-
**The peaks of the accumulator as Merkle trees.**

The CIDs the accumulator keeps name Merkle trees of the pushed objects: a leaf is the CID of a
stored object, a node the CID of a stored pair of its children's CIDs (`treeCid`). Each function of
`Ipc.Accumulator.Shared` gets one spec lemma over these trees:

* `mergePeaks_graft` — the merge loop of `push` grafts the last peaks onto the new leaf, storing
  every pair it builds;
* `bagPeaks_append` — `bag_peaks` is the pair CIDs of the peaks folded from the right;
* `pathForEigenRoot_eq` — the path and the peak index of `path_for_eigen_root`, from the highest
  bit `e` where the leaf index and the leaf count differ: the index counts the set bits of the leaf
  count above `e`, and the path is the index's bits below `e` under a leading one;
  `pathForEigenRootChecked_eq` — on `u64` words a debug build computes the same, without a panic;
  `pathForEigenRoot_peak` — the index is that of the peak whose leaves hold the leaf index;
* `getInPeak_stored` — the walk of `get_at` down a stored perfect tree returns the leaf at the
  path's offset.

The blockstore keeps each block under its own CID (`Addressed`); with an injective `cid` a put
never replaces a block by another (`putCbor_extends`), so a tree once stored stays stored.
-/

import Ipc.Accumulator.Shared
import Ipc.Lib.MountainRange
import Ipc.Lib.System

namespace Ipc.Accumulator

open Ipc.Lib Ipc.Lib.Tree

variable {Cid S : Type} (cid : Block Cid S → Cid)

/-! ### Trees in the blockstore -/

/-- The CID of a tree of pushed objects: the CID of the object at a leaf, of the pair of the
children's CIDs at a node. -/
def treeCid : Lib.Tree S → Cid :=
  hash (fun obj => cid (.object obj)) (fun left right => cid (.pair left right))

@[simp]
theorem treeCid_leaf (obj : S) : treeCid cid (leaf obj) = cid (.object obj) := rfl

@[simp]
theorem treeCid_node (left right : Lib.Tree S) :
    treeCid cid (node left right) = cid (.pair (treeCid cid left) (treeCid cid right)) := rfl

/-- Every block of the store sits under its own CID. -/
def Addressed (store : Blockstore Cid S) : Prop :=
  ∀ key block, store key = some block → key = cid block

/-- Every block of a tree is in the store, under its CID. -/
def Stored (store : Blockstore Cid S) : Lib.Tree S → Prop
  | leaf obj => store (cid (.object obj)) = some (.object obj)
  | node left right =>
    store (cid (.pair (treeCid cid left) (treeCid cid right))) =
        some (.pair (treeCid cid left) (treeCid cid right)) ∧
      Stored store left ∧ Stored store right

/-- The second store still holds every block of the first. -/
def Extends (store store' : Blockstore Cid S) : Prop :=
  ∀ key block, store key = some block → store' key = some block

theorem Extends.refl (store : Blockstore Cid S) : Extends store store := fun _ _ held => held

theorem Extends.trans {store store' store'' : Blockstore Cid S} (first : Extends store store')
    (second : Extends store' store'') : Extends store store'' :=
  fun key block held => second key block (first key block held)

section Reading

variable {cid}

theorem Stored.mono {store store' : Blockstore Cid S} (grown : Extends store store') {t : Lib.Tree S}
    (stored : Stored cid store t) : Stored cid store' t := by
  induction t with
  | leaf obj => exact grown _ _ stored
  | node left right ihLeft ihRight =>
    exact ⟨grown _ _ stored.1, ihLeft stored.2.1, ihRight stored.2.2⟩

theorem getLeaf_stored {store : Blockstore Cid S} {obj : S} (stored : Stored cid store (leaf obj)) :
    getLeaf store (treeCid cid (leaf obj)) = .ok obj := by
  simp only [Stored] at stored
  simp [getLeaf, getObject, stored, pure, Except.pure]

theorem getNode_stored {store : Blockstore Cid S} {left right : Lib.Tree S}
    (stored : Stored cid store (node left right)) :
    getNode store (treeCid cid (node left right)) = .ok (treeCid cid left, treeCid cid right) := by
  simp [getNode, getPair, stored.1, pure, Except.pure]

end Reading

/-! ### Bagging -/

theorem bagPeaks_nil (default : Cid) : bagPeaks cid default [] = .ok default := rfl

/-- The loop of `bag_peaks` after `k` rounds: the pairs of the last `k + 1` peaks before `last`
folded from the right. -/
theorem bagPeaks_loop (peaks : List Cid) (last : Cid) :
    ∀ k, k < peaks.length →
      (List.range' 2 k).foldlM
          (fun root i => hashPair cid (peaks ++ [last])[(peaks ++ [last]).length - 1 - i]? (some root))
          ((peaks.drop (peaks.length - 1)).foldr (fun peak root => cid (.pair peak root)) last) =
        .ok ((peaks.drop (peaks.length - 1 - k)).foldr (fun peak root => cid (.pair peak root)) last)
  | 0, _ => rfl
  | k + 1, room => by
    -- round `k + 2` pairs the peak `k + 2` from the end with the root so far
    have inside : peaks.length - 2 - k < peaks.length := by omega
    have index : (peaks ++ [last]).length - 1 - (2 + 1 * k) = peaks.length - 2 - k := by
      simp only [List.length_append, List.length_singleton]
      omega
    have unfolded : peaks.drop (peaks.length - 1 - (k + 1)) =
        peaks[peaks.length - 2 - k] :: peaks.drop (peaks.length - 1 - k) := by
      rw [List.drop_eq_getElem_cons (by omega)]
      congr 2 <;> omega
    rw [List.range'_concat, List.foldlM_append, bagPeaks_loop peaks last k (by omega), ok_bind]
    simp only [List.foldlM_cons, List.foldlM_nil, index, List.getElem?_append_left inside,
      List.getElem?_eq_getElem inside, hashPair, ok_bind, unfolded, List.foldr_cons]
    rfl

/-- `bag_peaks` of two peaks or more: the last two paired, then the loop over the others. -/
theorem bagPeaks_of_two_le (default : Cid) {peaks : List Cid} (two : 2 ≤ peaks.length) :
    bagPeaks cid default peaks = (do
      let root ← hashPair cid peaks[peaks.length - 2]? peaks[peaks.length - 1]?
      (List.range' 2 (peaks.length - 2)).foldlM
        (fun root i => hashPair cid peaks[peaks.length - 1 - i]? (some root)) root) := by
  match peaks, two with
  | _ :: _ :: _, _ => rfl

/-- **`bag_peaks`**: the CID of `hash_pair(p₀, hash_pair(p₁, … hash_pair(pₖ, last)))`, and the last
peak alone when there is no other. -/
theorem bagPeaks_append (default : Cid) (peaks : List Cid) (last : Cid) :
    bagPeaks cid default (peaks ++ [last]) =
      .ok (peaks.foldr (fun peak root => cid (.pair peak root)) last) := by
  cases peaks with
  | nil => rfl
  | cons first rest =>
    have inside : rest.length < (first :: rest).length := Nat.lt_succ_self _
    -- the first round pairs the last two peaks
    have root : hashPair cid (first :: rest ++ [last])[(first :: rest ++ [last]).length - 2]?
        (first :: rest ++ [last])[(first :: rest ++ [last]).length - 1]? =
          .ok (cid (.pair (first :: rest)[rest.length] last)) := by
      have second : (first :: rest ++ [last]).length - 1 = (first :: rest).length := by simp
      rw [second, List.getElem?_concat_length, show (first :: rest ++ [last]).length - 2 = rest.length
        by simp, List.getElem?_append_left inside, List.getElem?_eq_getElem inside]
      rfl
    have initial : ((first :: rest).drop ((first :: rest).length - 1)).foldr
        (fun peak root => cid (.pair peak root)) last = cid (.pair (first :: rest)[rest.length] last) := by
      rw [show (first :: rest).length - 1 = rest.length from rfl, List.drop_eq_getElem_cons inside]
      simp
    have loop := bagPeaks_loop cid (first :: rest) last rest.length inside
    rw [initial, show (first :: rest).length - 1 - rest.length = 0 by simp, List.drop_zero] at loop
    rw [bagPeaks_of_two_le cid default (by simp), root, ok_bind,
      show (first :: rest ++ [last]).length - 2 = rest.length by simp]
    exact loop

/-! ### Pushing: the merge loop -/

@[simp]
theorem deleteLast_concat (peaks : List Cid) (last : Cid) :
    deleteLast (peaks ++ [last]) = (some last, peaks) := by
  simp [deleteLast]

@[simp]
theorem deleteLast_pair (peaks : List Cid) (left right : Cid) :
    deleteLast (peaks ++ [left, right]) = (some right, peaks ++ [left]) := by
  rw [show peaks ++ [left, right] = peaks ++ [left] ++ [right] by simp, deleteLast_concat]

section Storing

variable [DecidableEq Cid] {cid}

theorem putCbor_get (store : Blockstore Cid S) (block : Block Cid S) :
    (putCbor cid store block).2 (cid block) = some block :=
  Function.update_self _ _ _

theorem putCbor_addressed {store : Blockstore Cid S} (addressed : Addressed cid store)
    (block : Block Cid S) : Addressed cid (putCbor cid store block).2 := by
  intro key stored held
  by_cases same : key = cid block
  · rw [same, putCbor_get] at held
    rw [same, Option.some.inj held]
  · simp only [putCbor, Function.update_of_ne same] at held
    exact addressed key stored held

/-- With an injective `cid`, a put keeps every block: a key already in use holds the very block
being put. -/
theorem putCbor_extends (injective : Function.Injective cid) {store : Blockstore Cid S}
    (addressed : Addressed cid store) (block : Block Cid S) :
    Extends store (putCbor cid store block).2 := by
  intro key old held
  by_cases same : key = cid block
  · have : old = block := injective ((addressed key old held).symm.trans same)
    rw [same, putCbor_get, this]
  · simp only [putCbor, Function.update_of_ne same]
    exact held

/-- One round of the merge loop: the last two peaks become the CID of their pair, now stored. -/
theorem mergePeaks_succ (store : Blockstore Cid S) (newPeaks : Nat) (peaks : List Cid)
    (left right : Cid) :
    mergePeaks cid store (newPeaks + 1) (peaks ++ [left, right]) =
      mergePeaks cid (putCbor cid store (.pair left right)).2 newPeaks
        (peaks ++ [cid (.pair left right)]) := by
  simp [mergePeaks, hashAndPutPair, putCbor]

/-- **The merge loop.** One round per tree of `trees` grafts `trees`, the peaks before the last,
onto the last peak `carry`, and stores every pair it builds. -/
theorem mergePeaks_graft (injective : Function.Injective cid) (before trees : List (Lib.Tree S)) :
    ∀ {store : Blockstore Cid S} {carry : Lib.Tree S}, Addressed cid store →
      (∀ t ∈ trees, Stored cid store t) → Stored cid store carry →
      ∃ store', mergePeaks cid store trees.length
          ((before ++ trees).map (treeCid cid) ++ [treeCid cid carry]) =
            .ok ((before ++ [graft trees carry]).map (treeCid cid), store') ∧
        Addressed cid store' ∧ Extends store store' ∧ Stored cid store' (graft trees carry) := by
  -- the loop merges from the right: induction on `trees` from its last tree
  induction trees using List.reverseRecOn with
  | nil =>
    intro store carry addressed _ carryStored
    exact ⟨store, by simp [mergePeaks], addressed, Extends.refl store, carryStored⟩
  | append_singleton trees t ih =>
    intro store carry addressed stored carryStored
    set pair : Block Cid S := .pair (treeCid cid t) (treeCid cid carry)
    have grown := putCbor_extends injective addressed pair
    have merged : Stored cid (putCbor cid store pair).2 (node t carry) :=
      ⟨putCbor_get store pair, (stored t (by simp)).mono grown, carryStored.mono grown⟩
    obtain ⟨store', loop, addressed', grown', graftStored⟩ :=
      ih (putCbor_addressed addressed pair)
        (fun t' member => (stored t' (List.mem_append_left [t] member)).mono grown) merged
    refine ⟨store', ?_, addressed', grown.trans grown', ?_⟩
    · rw [List.length_append, List.length_singleton, ← List.append_assoc, List.map_append,
        List.map_singleton, List.append_assoc, List.singleton_append, mergePeaks_succ,
        graft_append_singleton]
      exact loop
    · rw [graft_append_singleton]
      exact graftStored

end Storing

/-! ### Finding a leaf -/

/-- **`path_for_eigen_root`.** Below the leaf count, with `e` the highest bit where the leaf index
and the count differ, the path is the index's bits below `e` under a leading one at `e`, and the
peak index counts the set bits of the count above `e`. -/
theorem pathForEigenRoot_eq {leafIndex leafCount : Nat} (lt : leafIndex < leafCount)
    (short : leafCount < 2 ^ 64) :
    pathForEigenRoot leafIndex leafCount =
      .ok (leafIndex % 2 ^ (leafIndex ^^^ leafCount).log2 + 2 ^ (leafIndex ^^^ leafCount).log2,
        ((setBits 64 leafCount).filter
          (fun b => decide ((leafIndex ^^^ leafCount).log2 < b))).length) := by
  obtain ⟨countSet, -, -⟩ := highestDifference lt
  have differ : leafIndex ^^^ leafCount ≠ 0 := xor_ne_zero (Nat.ne_of_lt lt)
  have height : (leafIndex ^^^ leafCount).log2 < 64 :=
    (Nat.log2_lt differ).mpr (Nat.xor_lt_two_pow (by omega) short)
  have eigentreeHeight : 64 - leadingZeros 64 (leafIndex ^^^ leafCount) - 1 =
      (leafIndex ^^^ leafCount).log2 := by
    rw [leadingZeros, if_neg differ]
    omega
  generalize (leafIndex ^^^ leafCount).log2 = e at countSet height eigentreeHeight ⊢
  rw [pathForEigenRoot, if_neg (Nat.not_le.mpr lt)]
  simp only [eigentreeHeight, Nat.one_shiftLeft, Nat.and_two_pow_sub_one_eq_mod,
    countOnes_split_at countSet height]
  congr 2
  omega

/-- On `u64` words a debug build of `path_for_eigen_root` computes what the model computes: below the
leaf count no subtraction goes below zero, the shift is by less than `64` and the path fits a
`u64`. -/
theorem pathForEigenRootChecked_eq {leafIndex leafCount : Nat} (index : leafIndex < 2 ^ 64)
    (count : leafCount < 2 ^ 64) :
    pathForEigenRootChecked leafIndex leafCount = some (pathForEigenRoot leafIndex leafCount) := by
  by_cases outside : leafIndex ≥ leafCount
  · rw [pathForEigenRootChecked, pathForEigenRoot, if_pos outside, if_pos outside]
  have lt : leafIndex < leafCount := Nat.lt_of_not_le outside
  obtain ⟨countSet, -, -⟩ := highestDifference lt
  have differ : leafIndex ^^^ leafCount ≠ 0 := xor_ne_zero (Nat.ne_of_lt lt)
  have height : (leafIndex ^^^ leafCount).log2 < 64 :=
    (Nat.log2_lt differ).mpr (Nat.xor_lt_two_pow index count)
  have leading : leadingZeros 64 (leafIndex ^^^ leafCount) =
      64 - ((leafIndex ^^^ leafCount).log2 + 1) := by
    rw [leadingZeros, if_neg differ]
  generalize (leafIndex ^^^ leafCount).log2 = e at countSet height leading
  have eigentreeHeight : 64 - (64 - (e + 1)) - 1 = e := by omega
  have counts := countOnes_split_at countSet height
  have localPath : leafIndex % 2 ^ e + 2 ^ e < 2 ^ 64 := by
    have offset := Nat.mod_lt leafIndex (Nat.two_pow_pos e)
    have room : 2 ^ e * 2 ≤ 2 ^ 64 := by
      rw [← Nat.pow_succ]
      exact Nat.pow_le_pow_right (by norm_num) height
    omega
  rw [pathForEigenRootChecked, pathForEigenRoot, if_neg outside, if_neg outside]
  simp (disch := omega) only [leading, eigentreeHeight, checkedSub_of_le, checkedShl_one height,
    Option.bind_eq_bind, Option.bind_some, Nat.one_shiftLeft, Nat.and_two_pow_sub_one_eq_mod]
  rw [checkedAdd_of_lt localPath, Option.bind_some]
  rfl

theorem pathForEigenRoot_peak (leafIndex leafCount : Nat) (index : leafIndex < 2 ^ 64)
    (count : leafCount < 2 ^ 64) :
    pathForEigenRootChecked leafIndex leafCount = some (pathForEigenRoot leafIndex leafCount) ∧
      (leafIndex < leafCount → ∃ path eigenIndex,
        pathForEigenRoot leafIndex leafCount = .ok (path, eigenIndex) ∧
        eigenIndex < countOnes 64 leafCount ∧
        (((setBits 64 leafCount).map (2 ^ ·)).take eigenIndex).sum ≤ leafIndex ∧
        leafIndex < (((setBits 64 leafCount).map (2 ^ ·)).take (eigenIndex + 1)).sum ∧
        (setBits 64 leafCount)[eigenIndex]? = some (leafIndex ^^^ leafCount).log2 ∧
        path = 2 ^ (leafIndex ^^^ leafCount).log2 + leafIndex % 2 ^ (leafIndex ^^^ leafCount).log2) ∧
      (leafCount ≤ leafIndex → ∃ msg, pathForEigenRoot leafIndex leafCount = .error msg) := by
  refine ⟨pathForEigenRootChecked_eq index count, fun lt => ?_,
    fun outside => ⟨_, by rw [pathForEigenRoot, if_pos outside]⟩⟩
  obtain ⟨countSet, -, -⟩ := highestDifference lt
  have block := highestDifference_block lt count
  rw [pathForEigenRoot_eq lt count]
  dsimp only at block
  generalize (leafIndex ^^^ leafCount).log2 = e at countSet block ⊢
  have inside : e < 64 :=
    (Nat.pow_lt_pow_iff_right (by norm_num)).mp ((Nat.ge_two_pow_of_testBit countSet).trans_lt count)
  -- the peaks above `e` come first, then the peak of height `e`
  set above := (setBits 64 leafCount).filter (fun b => decide (e < b))
  have peaks : setBits 64 leafCount = above ++ e :: setBits e leafCount :=
    setBits_split_at countSet inside
  refine ⟨_, _, rfl, ?_, ?_, ?_, ?_, Nat.add_comm _ _⟩
  · rw [countOnes, peaks, List.length_append, List.length_cons]
    omega
  · rw [peaks, List.map_append, List.take_left' (List.length_map _)]
    exact block.1
  · have sizes : (above.map (2 ^ ·)).length = above.length := List.length_map _
    rw [peaks, List.map_append, ← sizes, List.take_length_add_append]
    simpa using block.2
  · rw [peaks, List.getElem?_append_right (Nat.le_refl _), Nat.sub_self]
    rfl

/-- The last of three leaves: the debug build does not panic, and the leaf lies in the second peak,
of height `(2 ^^^ 3).log2`. -/
theorem pathForEigenRoot_peak_last_of_three :
    (2 : Nat) < 2 ^ 64 ∧ (3 : Nat) < 2 ^ 64 ∧
      pathForEigenRootChecked 2 3 = some (pathForEigenRoot 2 3) ∧
      ∃ path eigenIndex, pathForEigenRoot 2 3 = .ok (path, eigenIndex) ∧
        eigenIndex < countOnes 64 3 ∧ (setBits 64 3)[eigenIndex]? = some (2 ^^^ 3).log2 := by
  obtain ⟨checked, located, -⟩ := pathForEigenRoot_peak 2 3 (by norm_num) (by norm_num)
  obtain ⟨path, eigenIndex, found, below, -, -, height, -⟩ := located (by norm_num)
  exact ⟨by norm_num, by norm_num, checked, path, eigenIndex, found, below, height⟩

/-- One round of the walk reads the child that the path's bit `significantBits - i - 1` picks. -/
theorem descend_eq (store : Blockstore Cid S) (path significantBits : Nat) (pair : Cid × Cid)
    (i : Nat) :
    descend store path significantBits pair i =
      getNode store (if path.testBit (significantBits - i - 1) then pair.2 else pair.1) := by
  by_cases bit : path.testBit (significantBits - i - 1)
  · have set : ¬ (path >>> (significantBits - i - 1)) &&& 1 = 0 := by
      rw [and_one_eq_zero_iff, Nat.testBit_shiftRight, Nat.add_zero, bit]
      exact Bool.noConfusion
    rw [descend, if_neg set, if_pos bit]
  · have clear : (path >>> (significantBits - i - 1)) &&& 1 = 0 := by
      rw [and_one_eq_zero_iff, Nat.testBit_shiftRight, Nat.add_zero]
      simpa using bit
    rw [descend, if_pos clear, if_neg bit]

section Walk

variable {cid}

/-- **The walk of `get_at`.** From the pair of a stored perfect node whose children have height
`m`, the `m` rounds from `s` read the path's bits `m, …, 1` (when `s + m = e`) and stop at the pair
of leaves above the leaf that the path's last bits pick. -/
theorem walk_stored {store : Blockstore Cid S} (path e : Nat) :
    ∀ m s (left right : Lib.Tree S), (node left right).Perfect → Stored cid store (node left right) →
      left.height = m → s + m = e →
      ∃ a b, (List.range' s m).foldlM (descend store path (e + 1))
            (treeCid cid left, treeCid cid right) = .ok (cid (.object a), cid (.object b)) ∧
        Stored cid store (leaf a) ∧ Stored cid store (leaf b) ∧
        (node left right).leaves[path % 2 ^ (m + 1)]? = some (if path.testBit 0 then b else a)
  | 0, s, left, right, perfect, stored, low, _ => by
    obtain ⟨a, rfl⟩ := exists_leaf_of_height_eq_zero low
    obtain ⟨b, rfl⟩ := exists_leaf_of_height_eq_zero (perfect.2.2.symm.trans low)
    refine ⟨a, b, rfl, stored.2.1, stored.2.2, ?_⟩
    rw [← low, getElem?_leaves_node_mod perfect, low, Nat.pow_zero, Nat.mod_one]
    split <;> rfl
  | m + 1, s, left, right, perfect, stored, high, bits => by
    -- the path's bit `m + 1` picks the child, a node with children of height `m`
    obtain ⟨child, picked⟩ : ∃ child, child = if path.testBit (m + 1) then right else left :=
      ⟨_, rfl⟩
    have childHeight : child.height = m + 1 := by
      rw [picked]
      split
      · exact perfect.2.2.symm.trans high
      · exact high
    have childPerfect : child.Perfect := by
      rw [picked]
      split
      · exact perfect.2.1
      · exact perfect.1
    have childStored : Stored cid store child := by
      rw [picked]
      split
      · exact stored.2.2
      · exact stored.2.1
    obtain ⟨l, r, rfl, lowHeight⟩ := exists_node_of_height_eq_succ childHeight
    have step : descend store path (e + 1) (treeCid cid left, treeCid cid right) s =
        .ok (treeCid cid l, treeCid cid r) := by
      have pick : (if path.testBit (m + 1) then (treeCid cid left, treeCid cid right).2
          else (treeCid cid left, treeCid cid right).1) = treeCid cid (node l r) := by
        rw [picked]
        split <;> rfl
      rw [descend_eq, show e + 1 - s - 1 = m + 1 by omega, pick, getNode_stored childStored]
    obtain ⟨a, b, loop, storedA, storedB, leafAt⟩ :=
      walk_stored path e m (s + 1) l r childPerfect childStored lowHeight (by omega)
    refine ⟨a, b, ?_, storedA, storedB, ?_⟩
    · rw [List.range'_succ, List.foldlM_cons, step, ok_bind]
      exact loop
    · rw [← high, getElem?_leaves_node_mod perfect, high, ← picked]
      exact leafAt

/-- **The walk down a peak.** In a stored perfect tree of height below `64`, the path
`j + 2 ^ height` leads to leaf `j`. -/
theorem getInPeak_stored {store : Blockstore Cid S} {T : Lib.Tree S} (perfect : T.Perfect)
    (stored : Stored cid store T) (low : T.height < 64) {j : Nat} {obj : S}
    (leafAt : T.leaves[j]? = some obj) :
    getInPeak store (j + 2 ^ T.height) (treeCid cid T) = .ok obj := by
  cases T with
  | leaf a =>
    -- a peak of height zero is its leaf, read at path `1`
    have found : j = 0 ∧ a = obj := by simpa [List.getElem?_cons] using leafAt
    obtain ⟨rfl, rfl⟩ := found
    rw [getInPeak, if_pos (show 0 + 2 ^ (leaf a).height = 1 from rfl)]
    exact getLeaf_stored stored
  | node left right =>
    have inside : j < 2 ^ (left.height + 1) := by
      have := (List.getElem?_eq_some_iff.mp leafAt).1
      rwa [length_leaves perfect] at this
    have tall : 2 ^ (left.height + 1) ≥ 2 := Nat.le_self_pow (Nat.succ_ne_zero _) 2
    have log : (j + 2 ^ (left.height + 1)).log2 = left.height + 1 :=
      (Nat.log2_eq_iff (by omega)).mpr ⟨by omega, by rw [Nat.pow_succ 2 (left.height + 1)]; omega⟩
    have significant : 64 - leadingZeros 64 (j + 2 ^ (left.height + 1)) = left.height + 1 + 1 := by
      rw [leadingZeros, if_neg (by omega), log]
      simp only [height_node] at low
      omega
    obtain ⟨a, b, loop, storedA, storedB, picked⟩ :=
      walk_stored (j + 2 ^ (left.height + 1)) (left.height + 1) left.height 1 left right perfect
        stored rfl (Nat.add_comm 1 left.height)
    have offset : (j + 2 ^ (left.height + 1)) % 2 ^ (left.height + 1) = j := by
      rw [Nat.add_mod_right, Nat.mod_eq_of_lt inside]
    rw [offset, leafAt, Option.some.injEq] at picked
    rw [height_node, getInPeak, if_neg (by omega), getNode_stored stored, ok_bind]
    simp only [significant, show left.height + 1 + 1 - 2 = left.height by omega, loop, ok_bind]
    -- the path's last bit picks the leaf
    rw [picked]
    by_cases bit : (j + 2 ^ (left.height + 1)).testBit 0
    · rw [if_neg (by rw [and_one_eq_zero_iff, bit]; decide), if_pos bit]
      exact getLeaf_stored storedB
    · rw [if_pos ((and_one_eq_zero_iff _).mpr (Bool.eq_false_iff.mpr bit)), if_neg bit]
      exact getLeaf_stored storedA

end Walk

end Ipc.Accumulator
