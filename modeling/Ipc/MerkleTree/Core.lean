/-
**Merkle trees in OpenZeppelin's layout (`merkle_tree_rs::core`).**

The validators' Merkle tree that the node builds, and that the gateway checks membership proofs
against, is kept as an array in heap layout (`Ipc.Lib.HeapTree`). The root is at `0` and the
children of node `i` are at `2 i + 1` and `2 i + 2`; the `n` leaves fill the last `n` places,
last leaf first. A node's hash is `hash_pair` of its children's hashes: `keccak256` of the two
hashes, the smaller one first, so the order of the children does not matter. A proof of a leaf is
the list of siblings from the leaf up to the root, and `process_proof` folds `hash_pair` along it.
A multi-proof proves several leaves at once: a queue of nodes is folded up to the root, and each
step takes a sibling either from the queue or from the proof, as its flag says.

An `H256` is the number its 32 bytes spell, most significant first. Two hashes compare as their
byte slices do, lexicographically, and that is the order of the numbers. `keccak` is `keccak256`
of two hashes' bytes put one after the other; it is a parameter. An `anyhow` error is a
`Fault.error` with its message, and a panic (an index out of bounds, a `Vec::remove` of an empty
vector) is a `Fault.panic`. An index is converted to `i32` for `sibling_index`, with the `i32`
arithmetic wrapping as a release build does.
-/

import Mathlib
import Ipc.Lib.HeapTree
import Ipc.Api.FvmAddress

namespace Ipc.MerkleTree

open Ipc.Api Ipc.Lib

/-- `Hash` (`H256`), as the number its bytes spell. -/
abbrev Hash := Nat

/-- Slice indexing, `tree[i]`: a panic past the end. -/
def index (tree : List Hash) (i : Nat) : Except Fault Hash :=
  match tree[i]? with
  | some h => .ok h
  | none => .error (.panic "index out of bounds")

/-- `anyhow`'s `context`: an error is shown with the context's message. -/
def withContext {α : Type} (msg : String) : Except Fault α → Except Fault α
  | .error (.error _) => .error (.error msg)
  | other => other

section Core

variable (keccak : Hash → Hash → Hash)

/-- `hash_pair`: `keccak256` of the two hashes, the smaller one first. -/
def hashPair (a b : Hash) : Hash :=
  -- `[a, b].sort()` is stable, so two equal hashes stay as they are
  let sorted := if b < a then (b, a) else (a, b)
  keccak sorted.1 sorted.2

/-- `left_child_index`. -/
def leftChildIndex (i : Nat) : Nat := 2 * i + 1

/-- `right_child_index`. -/
def rightChildIndex (i : Nat) : Nat := 2 * i + 2

/-- `parent_index`. -/
def parentIndex (i : Nat) : Except Fault Nat :=
  if i > 0 then .ok ((i - 1) / 2) else .error (.error "Root has no parent")

/-- An `i32` computed with wrapping arithmetic. -/
def wrapI32 (x : Int) : Int := (x + 2 ^ 31) % 2 ^ 32 - 2 ^ 31

/-- `r as usize` for an `i32`: sign extension to 64 bits. -/
def usizeOfI32 (r : Int) : Nat := if r < 0 then (r + 2 ^ 64).toNat else r.toNat

/-- `sibling_index`, on an `i32`: the next node after an odd one, the previous after an even one. -/
def siblingIndex (i : Int) : Except Fault Nat :=
  if i > 0 then
    let r := wrapI32 (i - (-1) ^ (i % 2).toNat)
    .ok (usizeOfI32 r)
  else .error (.error "Root has no sibling")

/-- `i.try_into()` from `usize` to `i32`. -/
def tryIntoI32 (i : Nat) : Except Fault Int :=
  if i < 2 ^ 31 then .ok i else .error (.error "out of range integral type conversion attempted")

/-- `is_tree_node`. -/
def isTreeNode (tree : List Hash) (i : Nat) : Bool := decide (i < tree.length)

/-- `is_internal_node`. -/
def isInternalNode (tree : List Hash) (i : Nat) : Bool := isTreeNode tree (leftChildIndex i)

/-- `is_leaf_node`. -/
def isLeafNode (tree : List Hash) (i : Nat) : Bool :=
  isTreeNode tree i && !isInternalNode tree i

/-- `check_leaf_node`. -/
def checkLeafNode (tree : List Hash) (i : Nat) : Except Fault Unit :=
  if !isLeafNode tree i then .error (.error "Index is not in tree") else .ok ()

/-- The first loop of `make_merkle_tree`: leaf `i` goes to place `tree_length - 1 - i`. -/
def placeLeaves (treeLength : Nat) (leaves : List Hash) (tree : List Hash) : List Hash :=
  leaves.zipIdx.foldl (fun tree (v, i) => tree.set (treeLength - 1 - i) v) tree

/-- One round of the second loop of `make_merkle_tree`: node `i` becomes the pair of its
children. -/
def hashNode (tree : List Hash) (i : Nat) : Except Fault (List Hash) := do
  let leftChild ← index tree (leftChildIndex i)
  let rightChild ← index tree (rightChildIndex i)
  pure (tree.set i (hashPair keccak leftChild rightChild))

/-- `make_merkle_tree`: the leaves at the end, last first, then every internal node from the last
one down to the root. -/
def makeMerkleTree (leaves : List Hash) : Except Fault (List Hash) :=
  if leaves.isEmpty then .error (.error "Expected non-zero number of leaves")
  else
    let treeLength := 2 * leaves.length - 1
    let tree := placeLeaves treeLength leaves (List.replicate treeLength 0)
    (List.range (treeLength - leaves.length)).reverse.foldlM (hashNode keccak) tree

/-- The loop of `get_proof`, from node `i` up: the sibling of each node below the root. Each
round moves to the parent, a smaller index, so `i` rounds are always enough. -/
def getProofLoop (tree : List Hash) : Nat → Nat → Except Fault (List Hash)
  | 0, _ => .ok []
  | fuel + 1, i =>
    if i > 0 then do
      let siblingI ← siblingIndex (← tryIntoI32 i)
      let sibling ← index tree siblingI
      let parent ← parentIndex i
      let rest ← getProofLoop tree fuel parent
      pure (sibling :: rest)
    else .ok []

/-- `get_proof`. -/
def getProof (tree : List Hash) (i : Nat) : Except Fault (List Hash) := do
  checkLeafNode tree i
  getProofLoop tree i i

/-- `process_proof`: `hash_pair` folded along the proof, from the leaf. -/
def processProof (leaf : Hash) (proof : List Hash) : Except Fault Hash :=
  .ok (proof.foldl (hashPair keccak) leaf)

/-- The check of node `i` in `is_valid_merkle_tree`: a node without a right child has no left
one, and a node with both is the pair of them. -/
def nodeIsValid (tree : List Hash) (i : Nat) : Bool :=
  let l := leftChildIndex i
  let r := rightChildIndex i
  if r ≥ tree.length then !decide (l < tree.length)
  -- both children are in the tree here, so the defaults are never read
  else tree.getD i 0 == hashPair keccak (tree.getD l 0) (tree.getD r 0)

/-- `is_valid_merkle_tree`. -/
def isValidMerkleTree (tree : List Hash) : Bool :=
  (List.range tree.length).all (nodeIsValid keccak tree) && !tree.isEmpty

/-! ### Multi-proofs -/

/-- `MultiProof`. -/
structure MultiProof (τ υ : Type) where
  leaves : List τ
  proof : List υ
  proofFlags : List Bool
  deriving DecidableEq, Repr

/-- The loop of `get_multi_proof` over the queue `stack`, sorted from the highest index: the front
node goes, its sibling either leaves the queue with it (flag `true`) or goes into the proof (flag
`false`), and its parent joins the back of the queue. Each round takes a positive index out and
puts a smaller one in, so the sum of the indices bounds the rounds. -/
def multiProofLoop (tree : List Hash) :
    Nat → List Nat → List Hash → List Bool → Except Fault (List Hash × List Bool)
  | 0, _, proof, proofFlags => .ok (proof, proofFlags)
  | fuel + 1, stack, proof, proofFlags =>
    match stack with
    | [] => .ok (proof, proofFlags)
    | j :: rest =>
      if j > 0 then do
        let s ← siblingIndex (← tryIntoI32 j)
        let p ← parentIndex j
        match rest with
        | k :: rest' =>
          if s = k then multiProofLoop tree fuel (rest' ++ [p]) proof (proofFlags ++ [true])
          else do
            let sibling ← index tree s
            multiProofLoop tree fuel (rest ++ [p]) (proof ++ [sibling]) (proofFlags ++ [false])
        | [] => do
          let sibling ← index tree s
          multiProofLoop tree fuel [p] (proof ++ [sibling]) (proofFlags ++ [false])
      else .ok (proof, proofFlags)

/-- `indices.iter().skip(1).enumerate().any(|(i, v)| *v == indices[i])`: two neighbours equal. -/
def hasAdjacentDuplicate : List Nat → Bool
  | a :: b :: rest => a == b || hasAdjacentDuplicate (b :: rest)
  | _ => false

/-- `get_multi_proof`: check the leaves, sort them from the highest, refuse a duplicate, and run
the loop; with no leaves at all, the proof is the root itself. -/
def getMultiProof (tree : List Hash) (indices : List Nat) :
    Except Fault (MultiProof Hash Hash) := do
  indices.forM (checkLeafNode tree)
  let indices := indices.mergeSort fun a b => decide (b ≤ a)
  if hasAdjacentDuplicate indices then throw (.error "Cannot prove duplicated index")
  let (proof, proofFlags) ← multiProofLoop tree indices.sum indices [] []
  let proof ← if indices.isEmpty then do pure (proof ++ [← index tree 0]) else pure proof
  let leaves ← indices.mapM (index tree)
  pure ⟨leaves, proof, proofFlags⟩

/-- `stack.remove(0)`: a panic on an empty vector. -/
def removeFirst (stack : List Hash) : Except Fault (Hash × List Hash) :=
  match stack with
  | a :: rest => .ok (a, rest)
  | [] => .error (.panic "removal index (is 0) should be < len (is 0)")

/-- The loop of `process_multi_proof`: each flag pairs the front of the queue with the next one
(`true`) or with the next hash of the proof (`false`), and puts the pair at the back. -/
def processMultiProofLoop : List Bool → List Hash → List Hash → Except Fault (List Hash × List Hash)
  | [], stack, proof => .ok (stack, proof)
  | flag :: proofFlags, stack, proof => do
    let (a, stack) ← removeFirst stack
    let (b, stack, proof) ←
      if flag then do
        let (b, stack) ← removeFirst stack
        pure (b, stack, proof)
      else do
        let (b, proof) ← removeFirst proof
        pure (b, stack, proof)
    processMultiProofLoop proofFlags (stack ++ [hashPair keccak a b]) proof

/-- `process_multi_proof`: check the counts, run the loop, and return the last hash of the queue,
or the first of the proof when the queue is empty. -/
def processMultiProof (multiProof : MultiProof Hash Hash) : Except Fault Hash := do
  if multiProof.proof.length < (multiProof.proofFlags.filter (!·)).length then
    throw (.error "Invalid multiproof format")
  if multiProof.leaves.length + multiProof.proof.length ≠ multiProof.proofFlags.length + 1 then
    throw (.error "Provide leaves and multi_proof are not compatible")
  let (stack, proof) ← processMultiProofLoop keccak multiProof.proofFlags multiProof.leaves
    multiProof.proof
  match stack.getLast? with
  | some b => pure b
  | none => do
    let (b, _) ← removeFirst proof
    pure b

end Core

/-! ### What the functions compute -/

section Spec

variable {keccak : Hash → Hash → Hash}

open HeapTree

/-- `hash_pair` hashes the smaller hash first. -/
theorem hashPair_eq (keccak : Hash → Hash → Hash) (a b : Nat) :
    hashPair keccak a b = keccak (min a b) (max a b) := by
  unfold hashPair
  by_cases lt : b < a
  · rw [if_pos lt, min_eq_right lt.le, max_eq_left lt.le]
  · rw [if_neg lt, min_eq_left (not_lt.mp lt), max_eq_right (not_lt.mp lt)]

theorem hashPair_comm (keccak : Hash → Hash → Hash) (a b : Nat) :
    hashPair keccak a b = hashPair keccak b a := by
  rw [hashPair_eq, hashPair_eq, min_comm, max_comm]

/-- With an injective `keccak`, equal pair hashes come from the same two hashes, in either
order. -/
theorem hashPair_injective (injective : ∀ a b c d, keccak a b = keccak c d → a = c ∧ b = d)
    (a b c d : Nat) (same : hashPair keccak a b = hashPair keccak c d) :
    (a = c ∧ b = d) ∨ (a = d ∧ b = c) := by
  rw [hashPair_eq, hashPair_eq] at same
  obtain ⟨low, high⟩ := injective _ _ _ _ same
  have low : min a b = min c d := low
  have high : max a b = max c d := high
  omega

theorem tryIntoI32_of_lt {i : Nat} (small : i < 2 ^ 31) : tryIntoI32 i = .ok i := by
  rw [tryIntoI32, if_pos small]

theorem wrapI32_of_mem {x : Int} (low : -2 ^ 31 ≤ x) (high : x < 2 ^ 31) : wrapI32 x = x := by
  unfold wrapI32
  omega

theorem usizeOfI32_of_nonneg {r : Int} (nonneg : 0 ≤ r) : usizeOfI32 r = r.toNat := by
  rw [usizeOfI32, if_neg (not_lt.mpr nonneg)]

theorem parentIndex_of_pos {i : Nat} (pos : 0 < i) : parentIndex i = .ok (parent i) := by
  simp [parentIndex, pos, parent]

/-- Below the last `i32`, `sibling_index` is the heap layout's sibling. -/
theorem siblingIndex_of_lt {i : Nat} (pos : 0 < i) (small : i < 2 ^ 31 - 1) :
    siblingIndex (i : Int) = .ok (sibling i) := by
  unfold siblingIndex sibling
  have posInt : (0 : Int) < i := by exact_mod_cast pos
  rw [if_pos posInt]
  dsimp only
  rcases Nat.mod_two_eq_zero_or_one i with even | odd
  · have remainder : (i : Int) % 2 = 0 := by omega
    rw [remainder, if_neg (by omega), Int.toNat_zero, pow_zero,
      wrapI32_of_mem (by omega) (by omega), usizeOfI32_of_nonneg (by omega)]
    exact congrArg Except.ok (by omega)
  · have remainder : (i : Int) % 2 = 1 := by omega
    rw [remainder, if_pos odd, Int.toNat_one, pow_one,
      wrapI32_of_mem (by omega) (by omega), usizeOfI32_of_nonneg (by omega)]
    exact congrArg Except.ok (by omega)

theorem index_of_lt {tree : List Hash} {i : Nat} (inTree : i < tree.length) :
    index tree i = .ok tree[i] := by
  simp [index, inTree]

/-- A leaf is a node without a left child. -/
theorem isLeafNode_eq (tree : List Hash) (i : Nat) :
    isLeafNode tree i = decide (i < tree.length ∧ tree.length ≤ 2 * i + 1) := by
  unfold isLeafNode isInternalNode isTreeNode leftChildIndex
  by_cases inTree : i < tree.length <;> by_cases leaf : tree.length ≤ 2 * i + 1 <;>
    simp [inTree, leaf]
  omega

theorem checkLeafNode_eq_ok {tree : List Hash} {i : Nat} :
    checkLeafNode tree i = .ok () ↔ i < tree.length ∧ tree.length ≤ 2 * i + 1 := by
  unfold checkLeafNode
  rw [isLeafNode_eq]
  by_cases leaf : i < tree.length ∧ tree.length ≤ 2 * i + 1 <;> simp [leaf]

/-! #### `make_merkle_tree` -/

theorem drop_set_self {α : Type} (l : List α) (i : Nat) (a : α) (inList : i < l.length) :
    (l.set i a).drop i = a :: l.drop (i + 1) := by
  rw [List.drop_eq_getElem_cons (by simpa using inList), List.getElem_set_self,
    List.drop_set_of_lt (Nat.lt_succ_self i)]

/-- The leaf loop from leaf `k` on writes the leaves, last first, just before place
`tree_length - k`. -/
theorem placeLeaves_go (treeLength : Nat) :
    ∀ (leaves : List Hash) (k : Nat) (tree : List Hash), tree.length = treeLength →
      k + leaves.length ≤ treeLength →
      (leaves.zipIdx k).foldl (fun tree (v, i) => tree.set (treeLength - 1 - i) v) tree =
        tree.take (treeLength - k - leaves.length) ++ leaves.reverse ++
          tree.drop (treeLength - k) := by
  intro leaves
  induction leaves with
  | nil =>
    intro k tree _ _
    simp
  | cons leaf rest ih =>
    intro k tree sized fits
    simp only [List.length_cons] at fits
    rw [List.zipIdx_cons, List.foldl_cons]
    have placed : (tree.set (treeLength - 1 - k) leaf).length = treeLength := by
      rw [List.length_set, sized]
    rw [ih (k + 1) _ placed (by omega), List.take_set_of_le (by omega),
      show treeLength - (k + 1) = treeLength - 1 - k by omega,
      drop_set_self _ _ _ (by omega), show treeLength - 1 - k + 1 = treeLength - k by omega]
    have cut : treeLength - 1 - k - rest.length = treeLength - k - (leaf :: rest).length := by
      simp only [List.length_cons]
      omega
    rw [cut]
    simp

/-- The leaf loop leaves the internal nodes at zero and the leaves at the end, last first. -/
theorem placeLeaves_eq (leaves : List Hash) :
    placeLeaves (2 * leaves.length - 1) leaves (List.replicate (2 * leaves.length - 1) 0) =
      List.replicate (leaves.length - 1) 0 ++ leaves.reverse := by
  unfold placeLeaves
  rw [placeLeaves_go _ leaves 0 _ List.length_replicate (by omega), List.take_replicate,
    List.drop_replicate]
  have none : 2 * leaves.length - 1 - (2 * leaves.length - 1 - 0) = 0 := by omega
  have internal : min (2 * leaves.length - 1 - 0 - leaves.length) (2 * leaves.length - 1) =
      leaves.length - 1 := by omega
  rw [none, internal, List.replicate_zero, List.append_nil]

theorem hashNode_eq {tree : List Hash} {i : Nat} (right : 2 * i + 2 < tree.length) :
    hashNode keccak tree i =
      .ok (tree.set i (hashPair keccak tree[2 * i + 1] tree[2 * i + 2])) := by
  rw [hashNode, leftChildIndex, rightChildIndex, index_of_lt (by omega), index_of_lt right]
  rfl

/-- The hashing loop, run over the nodes below `j` from the highest down, hashes every node and
leaves the places from `j` on as they were. The induction is on `j`: the first round writes node
`j - 1`, which keeps every node from it on hashed (`HashedAbove.set`). -/
theorem hashNodes_ok : ∀ (j : Nat) (tree : List Hash), HashedAbove (hashPair keccak) tree j →
    2 * j < tree.length →
    ∃ hashed, (List.range j).reverse.foldlM (hashNode keccak) tree = .ok hashed ∧
      HashedAbove (hashPair keccak) hashed 0 ∧ hashed.length = tree.length ∧
      hashed.drop j = tree.drop j := by
  intro j
  induction j with
  | zero =>
    intro tree above _
    exact ⟨tree, rfl, above, rfl, rfl⟩
  | succ j ih =>
    intro tree above fits
    have left : 2 * j + 1 < tree.length := by omega
    have right : 2 * j + 2 < tree.length := by omega
    have written := above.set left right
    have sized : (tree.set j (hashPair keccak tree[2 * j + 1] tree[2 * j + 2])).length =
        tree.length := List.length_set
    obtain ⟨hashed, run, done, length, kept⟩ := ih _ written (by omega)
    refine ⟨hashed, ?_, done, length.trans sized, ?_⟩
    · rw [List.range_succ, List.reverse_append, List.reverse_singleton, List.singleton_append,
        List.foldlM_cons, hashNode_eq right]
      exact run
    · rw [← List.drop_drop, kept, List.drop_drop, List.drop_set_of_lt (by omega)]

/-- **`make_merkle_tree`** builds, from any non-empty list of leaves, a valid tree of `2 n - 1`
nodes whose last `n` places hold the leaves, last first. -/
theorem makeMerkleTree_ok (keccak : Hash → Hash → Hash) (leaves : List Hash)
    (nonempty : leaves ≠ []) :
    ∃ tree, makeMerkleTree keccak leaves = .ok tree ∧ Valid (hashPair keccak) tree ∧
      tree.length = 2 * leaves.length - 1 ∧ tree.drop (leaves.length - 1) = leaves.reverse := by
  have some : 0 < leaves.length := List.length_pos_iff.mpr nonempty
  have placed := placeLeaves_eq leaves
  have sized : (List.replicate (leaves.length - 1) 0 ++ leaves.reverse).length =
      2 * leaves.length - 1 := by
    simp only [List.length_append, List.length_replicate, List.length_reverse]
    omega
  obtain ⟨tree, run, hashed, length, kept⟩ := @hashNodes_ok keccak (leaves.length - 1)
    (List.replicate (leaves.length - 1) 0 ++ leaves.reverse)
    (hashedAbove_of_le (by omega)) (by omega)
  refine ⟨tree, ?_, hashed.valid (by omega) (fun i _ => by omega), length.trans sized, ?_⟩
  · rw [makeMerkleTree, if_neg (by simpa using nonempty)]
    dsimp only
    rw [placed, show 2 * leaves.length - 1 - leaves.length = leaves.length - 1 by omega]
    exact run
  · rw [kept, List.drop_left' List.length_replicate]

/-! #### `is_valid_merkle_tree` -/

theorem nodeIsValid_iff {tree : List Hash} {i : Nat} (inTree : i < tree.length) :
    nodeIsValid keccak tree i = true ↔
      (2 * i + 1 < tree.length → 2 * i + 2 < tree.length) ∧
      ∀ (left : 2 * i + 1 < tree.length) (right : 2 * i + 2 < tree.length),
        tree[i] = hashPair keccak tree[2 * i + 1] tree[2 * i + 2] := by
  unfold nodeIsValid leftChildIndex rightChildIndex
  by_cases right : 2 * i + 2 < tree.length
  · have left : 2 * i + 1 < tree.length := by omega
    rw [if_neg (by omega), List.getD_eq_getElem _ _ inTree, List.getD_eq_getElem _ _ left,
      List.getD_eq_getElem _ _ right, beq_iff_eq]
    exact ⟨fun paired => ⟨fun _ => right, fun _ _ => paired⟩, fun ⟨_, paired⟩ => paired left right⟩
  · rw [if_pos (by omega)]
    simp only [Bool.not_eq_eq_eq_not, Bool.not_true, decide_eq_false_iff_not]
    constructor
    · intro noLeft
      exact ⟨fun left => absurd left noLeft, fun _ right' => absurd right' right⟩
    · intro ⟨complete, _⟩ left
      exact right (complete left)

/-- `is_valid_merkle_tree` accepts exactly the valid trees. -/
theorem isValidMerkleTree_iff (tree : List Hash) :
    isValidMerkleTree keccak tree = true ↔ Valid (hashPair keccak) tree := by
  unfold isValidMerkleTree
  simp only [Bool.and_eq_true, List.all_eq_true, List.mem_range, Bool.not_eq_true',
    List.isEmpty_eq_false_iff]
  constructor
  · intro ⟨nodes, nonempty⟩
    refine ⟨List.length_pos_iff.mpr nonempty, fun i left => ?_, fun i inTree left right => ?_⟩
    · exact ((nodeIsValid_iff (by omega)).mp (nodes i (by omega))).1 left
    · exact ((nodeIsValid_iff inTree).mp (nodes i inTree)).2 left right
  · intro valid
    refine ⟨fun i inTree => (nodeIsValid_iff inTree).mpr
      ⟨valid.complete i, valid.hashed i inTree⟩, List.length_pos_iff.mp valid.nonempty⟩

/-! #### `get_proof` and `process_proof` -/

/-- The loop of `get_proof` from node `j` returns the siblings on the way up, and the pair hash
folded along them from node `j` gives the root. The induction is on the fuel; each round takes one
step up (`Valid.parent_eq`). -/
theorem getProofLoop_spec {tree : List Hash} (valid : Valid (hashPair keccak) tree) :
    ∀ fuel j (inTree : j < tree.length), j ≤ fuel → j < 2 ^ 31 - 1 →
      ∃ proof, getProofLoop tree fuel j = .ok proof ∧
        tree[0]? = some (proof.foldl (hashPair keccak) tree[j]) := by
  intro fuel
  induction fuel with
  | zero =>
    intro j inTree below _
    obtain rfl : j = 0 := by omega
    exact ⟨[], rfl, List.getElem?_eq_getElem inTree⟩
  | succ fuel ih =>
    intro j inTree below small
    by_cases root : j = 0
    · subst root
      exact ⟨[], by simp [getProofLoop], List.getElem?_eq_getElem inTree⟩
    have pos : 0 < j := Nat.pos_of_ne_zero root
    have siblingIn := valid.sibling_lt pos inTree
    have parentIn : parent j < tree.length := (parent_lt pos).trans inTree
    obtain ⟨rest, loop, folded⟩ := ih (parent j) parentIn (by have := parent_lt pos; omega)
      (by have := parent_lt pos; omega)
    refine ⟨tree[sibling j] :: rest, ?_, ?_⟩
    · rw [getProofLoop, if_pos pos, tryIntoI32_of_lt (by omega)]
      simp only [bind, Except.bind, siblingIndex_of_lt pos small, index_of_lt siblingIn,
        parentIndex_of_pos pos, loop]
      rfl
    · rw [List.foldl_cons, ← valid.parent_eq (hashPair_comm keccak) pos inTree siblingIn parentIn]
      exact folded

/-- **A proof of a leaf rebuilds the root.** In a valid tree, `get_proof` of a leaf below the
last `i32` index returns a proof along which `process_proof` gives the root. -/
theorem getProof_spec {tree : List Hash} (valid : Valid (hashPair keccak) tree) {i : Nat}
    (inTree : i < tree.length) (leaf : tree.length ≤ 2 * i + 1) (small : i < 2 ^ 31 - 1) :
    ∃ proof, getProof tree i = .ok proof ∧
      tree[0]? = some (proof.foldl (hashPair keccak) tree[i]) := by
  obtain ⟨proof, loop, folded⟩ := getProofLoop_spec valid i i inTree le_rfl small
  refine ⟨proof, ?_, folded⟩
  rw [getProof, checkLeafNode_eq_ok.mpr ⟨inTree, leaf⟩]
  exact loop

/-- **Binding, for the pair hash.** With `keccak` injective, and neither the leaves of a valid
tree nor the hash `x` a `keccak` pair, a proof along which `x` rebuilds the root proves a leaf:
`Valid.leaf_of_foldl` for `hash_pair`, whose values are `keccak` pairs. -/
theorem leaf_of_foldl_hashPair (injective : ∀ a b c d, keccak a b = keccak c d → a = c ∧ b = d)
    {tree : List Hash} (valid : Valid (hashPair keccak) tree)
    (leavesNotPairs : ∀ k (inTree : k < tree.length), tree.length ≤ 2 * k + 1 →
      ∀ a b, keccak a b ≠ tree[k])
    {x : Hash} (xNotPair : ∀ a b, keccak a b ≠ x) (proof : List Hash)
    (atRoot : tree[0]? = some (proof.foldl (hashPair keccak) x)) :
    ∃ k, ∃ inTree : k < tree.length, tree.length ≤ 2 * k + 1 ∧ tree[k] = x := by
  have notPair : ∀ y, (∀ a b, keccak a b ≠ y) → ∀ a b, hashPair keccak a b ≠ y := by
    intro y notKeccak a b
    rw [hashPair_eq]
    exact notKeccak _ _
  obtain ⟨rootIn, rooted⟩ := List.getElem?_eq_some_iff.mp atRoot
  obtain ⟨k, inTree, noChild, found⟩ := valid.leaf_of_foldl (hashPair_injective injective)
    (fun k inTree noChild => notPair _ (leavesNotPairs k inTree noChild)) (notPair _ xNotPair)
    proof 0 rootIn rooted.symm
  exact ⟨k, inTree, noChild, found.symm⟩

end Spec

/-! ### Building, proving and verifying -/

/-- A pair hash for tests: injective, and never an even number. -/
def oddPair (a b : Nat) : Nat := 2 * Nat.pair a b + 1

theorem oddPair_injective (a b c d : Nat) (same : oddPair a b = oddPair c d) : a = c ∧ b = d :=
  Nat.pair_eq_pair.mp (by unfold oddPair at same; omega)

theorem oddPair_ne_even (a b n : Nat) : oddPair a b ≠ 2 * n := by
  unfold oddPair
  omega

example : makeMerkleTree oddPair [0, 2] = .ok [9, 2, 0] := by decide

/-- **`make_merkle_tree` builds what `is_valid_merkle_tree` accepts**, for any non-empty list of
leaves: `2 n - 1` nodes, the last `n` of them the leaves, last first. -/
theorem makeMerkleTree_isValid (keccak : Hash → Hash → Hash) (leaves : List Hash)
    (nonempty : leaves ≠ []) :
    ∃ tree, makeMerkleTree keccak leaves = .ok tree ∧ isValidMerkleTree keccak tree = true ∧
      tree.length = 2 * leaves.length - 1 ∧ tree.drop (leaves.length - 1) = leaves.reverse := by
  obtain ⟨tree, made, valid, length, placed⟩ := makeMerkleTree_ok keccak leaves nonempty
  exact ⟨tree, made, (isValidMerkleTree_iff tree).mpr valid, length, placed⟩

theorem makeMerkleTree_isValid_two_leaves : ([0, 2] : List Hash) ≠ [] ∧
    ∃ tree, makeMerkleTree oddPair [0, 2] = .ok tree ∧ isValidMerkleTree oddPair tree = true ∧
      tree.length = 3 ∧ tree.drop 1 = [2, 0] :=
  ⟨by decide, makeMerkleTree_isValid oddPair [0, 2] (by decide)⟩

/-- **Every leaf's proof rebuilds the root.** In any tree that `is_valid_merkle_tree` accepts,
`get_proof` of a leaf (below the last `i32` index) succeeds, and `process_proof` of the leaf along
that proof gives the root. -/
theorem getProof_processProof (keccak : Hash → Hash → Hash) (tree : List Hash)
    (valid : isValidMerkleTree keccak tree = true) (i : Nat) (inTree : i < tree.length)
    (leaf : isLeafNode tree i = true) (small : i < 2 ^ 31 - 1) :
    ∃ proof root, getProof tree i = .ok proof ∧ processProof keccak tree[i] proof = .ok root ∧
      tree[0]? = some root := by
  have valid := (isValidMerkleTree_iff tree).mp valid
  rw [isLeafNode_eq, decide_eq_true_iff] at leaf
  obtain ⟨proof, got, folded⟩ := getProof_spec valid inTree leaf.2 small
  exact ⟨proof, _, got, rfl, folded⟩

theorem getProof_processProof_last_leaf :
    ∃ proof root, getProof [9, 2, 0] 2 = .ok proof ∧ processProof oddPair 0 proof = .ok root ∧
      ([9, 2, 0] : List Hash)[0]? = some root :=
  getProof_processProof oddPair [9, 2, 0] (by decide) 2 (by decide) (by decide) (by decide)

/-- **A proof binds its leaf.** Take `keccak` injective, no leaf of a valid tree a `keccak` pair,
and the proven hash not one either. Then a proof along which `process_proof` reaches the tree's
root proves a leaf of the tree. -/
theorem processProof_binding (keccak : Hash → Hash → Hash)
    (injective : ∀ a b c d, keccak a b = keccak c d → a = c ∧ b = d) (tree : List Hash)
    (valid : isValidMerkleTree keccak tree = true)
    (leavesNotPairs : ∀ k (inTree : k < tree.length), isLeafNode tree k = true →
      ∀ a b, keccak a b ≠ tree[k])
    (leaf : Hash) (leafNotPair : ∀ a b, keccak a b ≠ leaf) (proof : List Hash) (root : Hash)
    (processed : processProof keccak leaf proof = .ok root) (atRoot : tree[0]? = some root) :
    ∃ k, ∃ inTree : k < tree.length, isLeafNode tree k = true ∧ tree[k] = leaf := by
  have valid := (isValidMerkleTree_iff tree).mp valid
  have folded : proof.foldl (hashPair keccak) leaf = root := by
    simpa [processProof] using processed
  have leafAt : ∀ k (inTree : k < tree.length), tree.length ≤ 2 * k + 1 →
      isLeafNode tree k = true := fun k inTree noChild => by
    rw [isLeafNode_eq]
    exact decide_eq_true ⟨inTree, noChild⟩
  obtain ⟨k, inTree, noChild, found⟩ := leaf_of_foldl_hashPair injective valid
    (fun k inTree noChild => leavesNotPairs k inTree (leafAt k inTree noChild)) leafNotPair proof
    (folded ▸ atRoot)
  exact ⟨k, inTree, leafAt k inTree noChild, found⟩

theorem processProof_binding_last_leaf :
    ∃ k, ∃ inTree : k < ([9, 2, 0] : List Hash).length,
      isLeafNode [9, 2, 0] k = true ∧ ([9, 2, 0] : List Hash)[k] = 0 := by
  refine processProof_binding oddPair oddPair_injective [9, 2, 0] (by decide) ?_ 0 ?_ [2] 9
    (by decide) (by decide)
  · intro k inTree leaf a b
    rw [isLeafNode_eq, decide_eq_true_iff] at leaf
    simp only [List.length_cons, List.length_nil] at inTree leaf
    obtain rfl | rfl : k = 1 ∨ k = 2 := by omega
    · exact oddPair_ne_even a b 1
    · exact oddPair_ne_even a b 0
  · intro a b
    exact oddPair_ne_even a b 0

end Ipc.MerkleTree
