/-
**The accumulator actor's Merkle mountain range (`fendermint_actor_accumulator::shared`).**

The accumulator keeps the peaks of a Merkle mountain range: one perfect binary tree per set bit of
its leaf count, highest first. `push` stores the new object as a leaf, appends it to the peaks and
merges the last two peaks once per trailing one of the old leaf count; `bag_peaks` folds the peaks
into the root from the right; `get_at` finds the peak holding a leaf from the bits of its index and
of the leaf count (`path_for_eigen_root`) and walks down that peak along the bits of its path.

The blockstore is content addressed: `put_cbor` stores a block under its CID, and `get_cbor`
returns the block stored under a CID, decoded as the type asked for. The blocks the accumulator
stores are the pushed objects and pairs of CIDs (`Block`); the CID of a block is a parameter
(`cid`, Blake2b-256 over its CBOR encoding), and `hash_pair` computes the same CID as storing the
pair would. The AMT of the peaks is the dense vector it stores, indexed from `0`. The leaf count is
a `u64`, and the release build wraps its arithmetic: the count is kept modulo `2 ^ 64`. A debug
build panics instead, and `pathForEigenRootChecked` runs `path_for_eigen_root` that way. The
machine's owner and write access, which `push` and `get_leaf_at` do not read, are left out.
-/

import Ipc.Lib.Bits

namespace Ipc.Accumulator

open Ipc.Lib

/-- What the blockstore holds under a CID: a pushed object, or a pair of CIDs (`[Cid; 2]`). -/
inductive Block (Cid S : Type)
  | object (obj : S)
  | pair (left right : Cid)
  deriving DecidableEq, Repr

/-- A blockstore: the block stored under each CID, if any. -/
abbrev Blockstore (Cid S : Type) := Cid → Option (Block Cid S)

/-- `PushReturn`: the root after a push, and the index of the pushed object. -/
structure PushReturn (Cid : Type) where
  root : Cid
  index : Nat
  deriving DecidableEq, Repr

/-- The accumulator's `State`: the peaks (the AMT at `peaks`, as the vector it stores) and the
`u64` leaf count. -/
structure State (Cid : Type) where
  peaks : List Cid
  leafCount : Nat
  deriving DecidableEq, Repr

variable {Cid S : Type} [DecidableEq Cid] (cid : Block Cid S → Cid)

/-! ### The blockstore -/

/-- `put_cbor`: store a block under its CID. -/
def putCbor (store : Blockstore Cid S) (block : Block Cid S) : Cid × Blockstore Cid S :=
  (cid block, Function.update store (cid block) (some block))

/-- `get_cbor::<S>`: the object stored under a CID; a stored pair does not decode as an object. -/
def getObject (store : Blockstore Cid S) (key : Cid) : Except String (Option S) :=
  match store key with
  | none => .ok none
  | some (.object obj) => .ok (some obj)
  | some (.pair _ _) => .error "failed to decode"

/-- `get_cbor::<[Cid; 2]>`: the pair stored under a CID; a stored object does not decode as a
pair. -/
def getPair (store : Blockstore Cid S) (key : Cid) : Except String (Option (Cid × Cid)) :=
  match store key with
  | none => .ok none
  | some (.pair left right) => .ok (some (left, right))
  | some (.object _) => .error "failed to decode"

/-- `hash_pair`: the CID of a pair of CIDs, without storing it. -/
def hashPair (left right : Option Cid) : Except String Cid :=
  match left, right with
  | some left, some right => .ok (cid (.pair left right))
  | _, _ => .error "hash_pair requires two CIDs"

/-- `hash_and_put_pair`: store a pair of CIDs and return its CID. -/
def hashAndPutPair (store : Blockstore Cid S) (left right : Option Cid) :
    Except String (Cid × Blockstore Cid S) :=
  match left, right with
  | some left, some right => .ok (putCbor cid store (.pair left right))
  | _, _ => .error "hash_pair requires two CIDs"

/-! ### Pushing and bagging -/

/-- `peaks.delete(peaks.count() - 1)`: the last peak and the peaks without it. On an empty vector
the index wraps and nothing is found, and the merge that asked fails. -/
def deleteLast (peaks : List Cid) : Option Cid × List Cid :=
  (peaks.getLast?, peaks.dropLast)

/-- The merge loop of `push`: pop the last two peaks and push the CID of their pair, `newPeaks`
times. -/
def mergePeaks (store : Blockstore Cid S) : Nat → List Cid → Except String (List Cid × Blockstore Cid S)
  | 0, peaks => .ok (peaks, store)
  | newPeaks + 1, peaks =>
    let (right, peaks) := deleteLast peaks
    let (left, peaks) := deleteLast peaks
    match hashAndPutPair cid store left right with
    | .error e => .error e
    | .ok (parent, store) => mergePeaks store newPeaks (peaks ++ [parent])

/-- `push`: store the object as a leaf, append it to the peaks, and merge once per trailing one of
the old leaf count (`(!leaf_count).trailing_zeros()`). -/
def push (store : Blockstore Cid S) (leafCount : Nat) (peaks : List Cid) (obj : S) :
    Except String (List Cid × Blockstore Cid S) :=
  let (leaf, store) := putCbor cid store (.object obj)
  mergePeaks cid store (trailingZeros 64 (complement 64 leafCount)) (peaks ++ [leaf])

/-- `bag_peaks`: the default CID without peaks, the peak itself for one, and otherwise the pairs
folded from the right: `hash_pair(p₀, hash_pair(p₁, … hash_pair(pₖ₋₂, pₖ₋₁)))`. -/
def bagPeaks (default : Cid) (peaks : List Cid) : Except String Cid :=
  match peaks with
  | [] => .ok default
  | [peak] => .ok peak
  | _ => do
    let peaksCount := peaks.length
    let root ← hashPair cid peaks[peaksCount - 2]? peaks[peaksCount - 1]?
    (List.range' 2 (peaksCount - 2)).foldlM
      (fun root i => hashPair cid peaks[peaksCount - 1 - i]? (some root)) root

/-! ### Finding a leaf -/

/-- `path_for_eigen_root`: the path of a leaf inside its peak (a leading one, then the leaf's
offset in the peak) and the index of that peak. The highest bit where the leaf index and the leaf
count differ is the height of the peak. (The `u32` subtractions cannot wrap: below the leaf count,
that bit of the count is set.) -/
def pathForEigenRoot (leafIndex leafCount : Nat) : Except String (Nat × Nat) :=
  if leafIndex ≥ leafCount then .error "leaf_index must less than leaf_count"
  else
    let diff := leafIndex ^^^ leafCount
    let eigentreeHeight := 64 - leadingZeros 64 diff - 1
    let mergeHeight := 1 <<< eigentreeHeight
    let bitmask := mergeHeight - 1
    let eigentreeCount := countOnes 64 leafCount
    let offset := countOnes 64 (leafCount &&& bitmask)
    let eigenIndex := eigentreeCount - offset - 1
    let localOffset := leafIndex &&& bitmask
    let localPath := localOffset + mergeHeight
    .ok (localPath, eigenIndex)

/-- `path_for_eigen_root` as a debug build runs it on its `u64` and `u32` words: `none` where it
panics, at a subtraction below zero, a shift by the width or more, or an addition past `u64::MAX`. -/
def pathForEigenRootChecked (leafIndex leafCount : Nat) : Option (Except String (Nat × Nat)) :=
  if leafIndex ≥ leafCount then some (.error "leaf_index must less than leaf_count")
  else do
    let diff := leafIndex ^^^ leafCount
    let eigentreeHeight ← (checkedSub 64 (leadingZeros 64 diff)).bind (checkedSub · 1)
    let mergeHeight ← checkedShl 64 1 eigentreeHeight
    let bitmask ← checkedSub mergeHeight 1
    let eigentreeCount := countOnes 64 leafCount
    let offset := countOnes 64 (leafCount &&& bitmask)
    let eigenIndex ← (checkedSub eigentreeCount offset).bind (checkedSub · 1)
    let localOffset := leafIndex &&& bitmask
    let localPath ← checkedAdd 64 localOffset mergeHeight
    pure (.ok (localPath, eigenIndex))

/-- A leaf read by `get_at`: missing is an error. -/
def getLeaf (store : Blockstore Cid S) (key : Cid) : Except String S := do
  match ← getObject store key with
  | some value => pure value
  | none => .error "failed to get leaf for cid"

/-- A node read by `get_at`: missing is an error. -/
def getNode (store : Blockstore Cid S) (key : Cid) : Except String (Cid × Cid) := do
  match ← getPair store key with
  | some pair => pure pair
  | none => .error "failed to get eigentree node for cid"

/-- One step of the walk of `get_at`: the child picked by the path's bit at index `i`, counted
from the top, read as a node. -/
def descend (store : Blockstore Cid S) (path significantBits : Nat) (pair : Cid × Cid) (i : Nat) :
    Except String (Cid × Cid) :=
  let bit := (path >>> (significantBits - i - 1)) &&& 1
  getNode store (if bit = 0 then pair.1 else pair.2)

/-- The walk of `get_at` inside a peak: a peak of height zero is the leaf; otherwise read its root
node, descend along the bits of the path below its leading one from the top, and read the leaf the
last bit picks. -/
def getInPeak (store : Blockstore Cid S) (path : Nat) (peak : Cid) : Except String S :=
  if path = 1 then getLeaf store peak
  else do
    let pair ← getNode store peak
    let significantBits := 64 - leadingZeros 64 path
    let pair ← (List.range' 1 (significantBits - 2)).foldlM (descend store path significantBits) pair
    let bit := path &&& 1
    getLeaf store (if bit = 0 then pair.1 else pair.2)

/-- `get_at`: find the peak holding the leaf, then walk down to it. -/
def getAt (store : Blockstore Cid S) (leafIndex leafCount : Nat) (peaks : List Cid) :
    Except String S := do
  let (path, eigenIndex) ← pathForEigenRoot leafIndex leafCount
  match peaks[eigenIndex]? with
  | some peak => getInPeak store path peak
  | none => .error "failed to get peak"

/-! ### The state -/

namespace State

/-- `State::new`: no peaks, no leaves. -/
def new : State Cid := ⟨[], 0⟩

/-- `peak_count`. -/
def peakCount (st : State Cid) : Nat := countOnes 64 st.leafCount

variable (default : Cid)

/-- `State::push`: push the object, count it, and return the new root and the object's index. -/
def push (store : Blockstore Cid S) (st : State Cid) (obj : S) :
    Except String (PushReturn Cid × State Cid × Blockstore Cid S) := do
  let (peaks, store) ← Accumulator.push cid store st.leafCount st.peaks obj
  let leafCount := (st.leafCount + 1) % 2 ^ 64
  let root ← bagPeaks cid default peaks
  pure (⟨root, (leafCount + 2 ^ 64 - 1) % 2 ^ 64⟩, ⟨peaks, leafCount⟩, store)

/-- `get_root`. -/
def getRoot (st : State Cid) : Except String Cid := bagPeaks cid default st.peaks

/-- `get_leaf_at`: the object at an index, or nothing when `get_at` fails. -/
def getLeafAt (store : Blockstore Cid S) (st : State Cid) (index : Nat) : Option S :=
  match getAt store index st.leafCount st.peaks with
  | .ok leaf => some leaf
  | .error _ => none

/-- A sequence of pushes, with what each returned. -/
def pushAll (store : Blockstore Cid S) (st : State Cid) :
    List S → Except String (List (PushReturn Cid) × State Cid × Blockstore Cid S)
  | [] => .ok ([], st, store)
  | obj :: rest => do
    let (pushed, st, store) ← st.push cid default store obj
    let (returns, st, store) ← pushAll store st rest
    pure (pushed :: returns, st, store)

end State

end Ipc.Accumulator
