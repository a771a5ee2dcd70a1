/-
**The accumulator's root commits to the pushed sequence.**

Whatever the blockstores, the peaks of a state pushed from `State::new` are the CIDs of trees whose
leaves, read left to right, are the pushed objects (`Represents`): the merge loop only ever pairs
the last two peaks (`mergePeaks_represents`). This holds after every run of pushes that succeeds,
also past `2 ^ 64` of them. `get_root` is then the CID of those trees grafted from the right
(`bagPeaks_graft`), one tree whose leaves are again the pushed objects (`getRoot_represents`).

* `getRoot_injective` — with the CID an injective hash, never the default CID, of an encoding that
  is injective on objects and on pairs and never encodes an object as a pair, equal roots come from
  equal sequences, and the default CID is the root of the empty sequence only. The tree hash is
  then injective (`Tree.hash_injective`): this is where objects and pairs must be told apart.
-/

import Ipc.Accumulator.Retrieval

namespace Ipc.Accumulator

open Ipc.Lib Ipc.Lib.Tree

variable {Cid S : Type} {cid : Block Cid S → Cid}

/-- Some trees name the peaks, and their leaves, left to right, are `xs`. -/
def Represents (cid : Block Cid S → Cid) (peaks : List Cid) (xs : List S) : Prop :=
  ∃ trees : List (Lib.Tree S), peaks = trees.map (treeCid cid) ∧ (trees.map leaves).flatten = xs

theorem Represents.new : Represents cid (State.new : State Cid).peaks ([] : List S) :=
  ⟨[], rfl, rfl⟩

/-- **`bag_peaks`** of the CIDs of some trees: the CID of the trees grafted from the right. -/
theorem bagPeaks_graft (default : Cid) (trees : List (Lib.Tree S)) (last : Lib.Tree S) :
    bagPeaks cid default ((trees ++ [last]).map (treeCid cid)) =
      .ok (treeCid cid (graft trees last)) := by
  rw [List.map_append, List.map_singleton, bagPeaks_append]
  exact congrArg Except.ok (hash_graft _ _ trees last).symm

/-- The root of peaks that represent `xs`: the default CID when there is no object, and otherwise
the CID of one tree whose leaves are `xs`. -/
theorem getRoot_represents (default : Cid) {st : State Cid} {xs : List S}
    (represents : Represents cid st.peaks xs) :
    (xs = [] ∧ st.getRoot cid default = .ok default) ∨
      ∃ t : Lib.Tree S, t.leaves = xs ∧ st.getRoot cid default = .ok (treeCid cid t) := by
  obtain ⟨trees, peaks, leaves⟩ := represents
  rw [State.getRoot, peaks]
  rcases List.eq_nil_or_concat trees with none | ⟨init, last, rfl⟩
  · -- no tree, no leaf: every tree has a leaf
    subst none
    exact Or.inl ⟨leaves.symm, rfl⟩
  · rw [List.concat_eq_append] at leaves ⊢
    refine Or.inr ⟨graft init last, ?_, bagPeaks_graft default init last⟩
    rw [← leaves, leaves_graft, List.map_append, List.flatten_append, List.map_singleton,
      List.flatten_singleton]

variable [DecidableEq Cid]

/-- The merge loop keeps the leaves: each round pairs the last two peaks into one tree. -/
theorem mergePeaks_represents {xs : List S} :
    ∀ {newPeaks : Nat} {store store' : Blockstore Cid S} {peaks peaks' : List Cid},
      Represents cid peaks xs → mergePeaks cid store newPeaks peaks = .ok (peaks', store') →
      Represents cid peaks' xs
  | 0, _, _, _, _, represents, merged => by
    rw [mergePeaks, Except.ok.injEq, Prod.mk.injEq] at merged
    rw [← merged.1]
    exact represents
  | newPeaks + 1, store, store', _, peaks', ⟨trees, rfl, leaves⟩, merged => by
    -- a round needs two peaks; with fewer the pair is missing and the loop fails
    rcases hReverse : trees.reverse with _ | ⟨right, _ | ⟨left, rest⟩⟩
    · rw [List.reverse_eq_nil_iff.mp hReverse] at merged
      simp [mergePeaks, deleteLast, hashAndPutPair] at merged
    · rw [List.reverse_eq_cons_iff.mp hReverse] at merged
      simp [mergePeaks, deleteLast, hashAndPutPair] at merged
    · have split : trees = rest.reverse ++ [left, right] := by
        rw [← List.reverse_reverse trees, hReverse]
        simp
      subst split
      rw [List.map_append, List.map_cons, List.map_singleton, mergePeaks_succ] at merged
      refine mergePeaks_represents ⟨rest.reverse ++ [node left right], ?_, ?_⟩ merged
      · simp
      · rw [← leaves]
        simp

/-- A push appends its object to the represented sequence. -/
theorem push_represents (default : Cid) {store store' : Blockstore Cid S} {st st' : State Cid}
    {x : S} {pushed : PushReturn Cid} {xs : List S} (represents : Represents cid st.peaks xs)
    (ran : st.push cid default store x = .ok (pushed, st', store')) :
    Represents cid st'.peaks (xs ++ [x]) := by
  obtain ⟨⟨peaks, store₁⟩, merged, rest⟩ := bind_eq_ok.mp ran
  obtain ⟨root, -, final⟩ := bind_eq_ok.mp rest
  rw [← (Prod.mk.inj (Prod.mk.inj (Except.ok.inj final)).2).1]
  obtain ⟨trees, peaksEq, leaves⟩ := represents
  -- the new leaf is one more tree, which the merge loop may then pair
  refine mergePeaks_represents ⟨trees ++ [leaf x], ?_, ?_⟩ merged
  · rw [peaksEq, List.map_append, List.map_singleton]
    rfl
  · rw [List.map_append, List.flatten_append, leaves]
    rfl

/-- Every run of pushes that succeeds appends its objects to the represented sequence. -/
theorem pushAll_represents (default : Cid) (xs : List S) :
    ∀ {store store' : Blockstore Cid S} {st st' : State Cid} {returns : List (PushReturn Cid)}
      {ys : List S}, Represents cid st.peaks ys →
      State.pushAll cid default store st xs = .ok (returns, st', store') →
      Represents cid st'.peaks (ys ++ xs) := by
  induction xs with
  | nil =>
    intro store store' st st' returns ys represents ran
    rw [State.pushAll, Except.ok.injEq] at ran
    rw [← (Prod.mk.inj (Prod.mk.inj ran).2).1, List.append_nil]
    exact represents
  | cons x rest ih =>
    intro store store' st st' returns ys represents ran
    obtain ⟨⟨pushed, st₁, store₁⟩, first, others⟩ := bind_eq_ok.mp ran
    obtain ⟨⟨returns', st₂, store₂⟩, run, final⟩ := bind_eq_ok.mp others
    rw [← (Prod.mk.inj (Prod.mk.inj (Except.ok.inj final)).2).1]
    have := ih (push_represents default represents first) run
    rwa [List.append_assoc, List.singleton_append] at this

/-- **The root commits to the sequence.** With the CID of a block a hash of its encoding, the
hash injective and never the default CID, and the encoding injective on objects and on pairs and
never encoding an object as a pair: two sequences pushed onto `State::new` with equal roots are
equal, and the default CID is the root of the empty sequence only. -/
theorem getRoot_injective {B : Type} (encode : Block Cid S → B) (hash : B → Cid) (default : Cid)
    (hashInjective : Function.Injective hash)
    (objectsInjective : ∀ a b, encode (.object a) = encode (.object b) → a = b)
    (pairsInjective : ∀ left right left' right',
      encode (.pair left right) = encode (.pair left' right') → left = left' ∧ right = right')
    (separated : ∀ obj left right, encode (.object obj) ≠ encode (.pair left right))
    (notDefault : ∀ bytes, hash bytes ≠ default)
    {store₁ store₂ store₁' store₂' : Blockstore Cid S} {xs ys : List S}
    {returns₁ returns₂ : List (PushReturn Cid)} {st₁ st₂ : State Cid}
    (pushedXs : State.pushAll (hash ∘ encode) default store₁ State.new xs =
      .ok (returns₁, st₁, store₁'))
    (pushedYs : State.pushAll (hash ∘ encode) default store₂ State.new ys =
      .ok (returns₂, st₂, store₂')) :
    (st₁.getRoot (hash ∘ encode) default = st₂.getRoot (hash ∘ encode) default → xs = ys) ∧
      (st₁.getRoot (hash ∘ encode) default = .ok default ↔ xs = []) := by
  -- the CID of a tree determines the tree, and is never the default CID
  have treeInjective : Function.Injective (treeCid (hash ∘ encode) : Lib.Tree S → Cid) :=
    Lib.Tree.hash_injective (fun a b same => objectsInjective a b (hashInjective same))
      (fun _ _ _ _ same => pairsInjective _ _ _ _ (hashInjective same))
      (fun obj _ _ same => separated obj _ _ (hashInjective same))
  have treeNotDefault : ∀ t : Lib.Tree S, treeCid (hash ∘ encode) t ≠ default := fun t => by
    cases t <;> exact notDefault _
  have rootX := getRoot_represents default (pushAll_represents default xs Represents.new pushedXs)
  have rootY := getRoot_represents default (pushAll_represents default ys Represents.new pushedYs)
  rw [List.nil_append] at rootX rootY
  constructor
  · intro same
    rcases rootX with ⟨rfl, emptyX⟩ | ⟨t₁, leaves₁, rootX⟩ <;>
      rcases rootY with ⟨rfl, emptyY⟩ | ⟨t₂, leaves₂, rootY⟩
    · rfl
    · rw [emptyX, rootY, Except.ok.injEq] at same
      exact absurd same.symm (treeNotDefault t₂)
    · rw [rootX, emptyY, Except.ok.injEq] at same
      exact absurd same (treeNotDefault t₁)
    · rw [rootX, rootY, Except.ok.injEq] at same
      rw [← leaves₁, ← leaves₂, treeInjective same]
  · rcases rootX with ⟨rfl, emptyX⟩ | ⟨t, leaves, rootX⟩
    · exact ⟨fun _ => rfl, fun _ => emptyX⟩
    · constructor
      · intro isDefault
        rw [rootX, Except.ok.injEq] at isDefault
        exact absurd isDefault (treeNotDefault t)
      · intro empty
        exact absurd (leaves.trans empty) (leaves_ne_nil t)

theorem getRoot_injective_pushed :
    ∃ st₁ st₂ : State Nat,
      (∃ returns store', State.pushAll (Nat.succ ∘ natCid) 0 (fun _ => none) State.new [1, 2] =
        .ok (returns, st₁, store')) ∧
      (∃ returns store', State.pushAll (Nat.succ ∘ natCid) 0 (fun _ => none) State.new [3] =
        .ok (returns, st₂, store')) ∧
      (st₁.getRoot (Nat.succ ∘ natCid) 0 = st₂.getRoot (Nat.succ ∘ natCid) 0 → [1, 2] = [3]) ∧
      (st₁.getRoot (Nat.succ ∘ natCid) 0 = .ok 0 ↔ [1, 2] = ([] : List Nat)) := by
  have injective : Function.Injective (Nat.succ ∘ natCid) :=
    Nat.succ_injective.comp natCid_injective
  have addressed : Addressed (Nat.succ ∘ natCid) (fun _ => none) := fun _ _ held => by
    simp at held
  obtain ⟨returns₁, st₁, store₁, pushed₁, -⟩ :=
    (Accumulates.new addressed).pushAll injective 0 [1, 2] (by decide)
  obtain ⟨returns₂, st₂, store₂, pushed₂, -⟩ :=
    (Accumulates.new addressed).pushAll injective 0 [3] (by decide)
  have objects : ∀ a b, natCid (.object a) = natCid (.object b) → a = b := fun _ _ same =>
    Block.object.inj (natCid_injective same)
  have pairs : ∀ left right left' right', natCid (.pair left right) = natCid (.pair left' right') →
      left = left' ∧ right = right' := fun _ _ _ _ same =>
    Block.pair.inj (natCid_injective same)
  have separated : ∀ obj left right, natCid (.object obj) ≠ natCid (.pair left right) :=
    fun _ _ _ same => nomatch natCid_injective same
  exact ⟨st₁, st₂, ⟨returns₁, store₁, pushed₁⟩, ⟨returns₂, store₂, pushed₂⟩,
    getRoot_injective natCid Nat.succ 0 Nat.succ_injective objects pairs separated
      Nat.succ_ne_zero pushed₁ pushed₂⟩

end Ipc.Accumulator
