/-
**Multi-proofs (`get_multi_proof`, `process_multi_proof`).**

A multi-proof proves several leaves at once. `get_multi_proof` sorts the leaves from the highest
index and runs a queue of nodes. In each round the first node leaves the queue. Its sibling either
leaves with it, when it is next in the queue (flag `true`), or goes into the proof (flag `false`).
The parent then joins the back. `process_multi_proof` replays the flags on a queue of hashes that
starts from the leaves.

The two loops run in lockstep (`multiProofLoop_process`): the queue of hashes is the queue of nodes
read in the tree, since in a valid tree a parent is the pair hash of a node and its sibling. The
queue of nodes keeps its level order (`HeapTree.Frontier`), so it ends at the root alone, and the
replay ends at the root's hash.

* `getMultiProof_processMultiProof` — for distinct leaves of a valid tree whose indices fit in an
  `i32`, `get_multi_proof` succeeds, and `process_multi_proof` of its result gives the root;
* `getMultiProof_refuses` — in any tree, a list with an index that is not a leaf is refused with
  "Index is not in tree", and a list of leaves with a repeated index with "Cannot prove duplicated
  index".
-/

import Mathlib
import Ipc.MerkleTree.Core
import Ipc.Lib.System

namespace Ipc.MerkleTree

open Ipc.Api Ipc.Lib HeapTree

variable {keccak : Hash → Hash → Hash} {tree : List Hash}

/-! ### One round of each loop -/

/-- A round where the first node's sibling is next: both leave the queue, with the flag `true`. -/
theorem multiProofLoop_pair {j : Nat} (pos : 0 < j) (small : j < 2 ^ 31 - 1) (fuel : Nat)
    (rest : List Nat) (proof : List Hash) (flags : List Bool) :
    multiProofLoop tree (fuel + 1) (j :: sibling j :: rest) proof flags =
      multiProofLoop tree fuel (rest ++ [parent j]) proof (flags ++ [true]) := by
  rw [multiProofLoop, if_pos pos, tryIntoI32_of_lt (by omega)]
  simp only [bind, Except.bind, siblingIndex_of_lt pos small, parentIndex_of_pos pos]
  rfl

/-- A round where the first node's sibling is not next: the sibling's hash goes into the proof,
with the flag `false`. -/
theorem multiProofLoop_single {j : Nat} (pos : 0 < j) (small : j < 2 ^ 31 - 1)
    (siblingIn : sibling j < tree.length) (fuel : Nat) {rest : List Nat}
    (notSibling : ∀ k more, rest = k :: more → k ≠ sibling j) (proof : List Hash)
    (flags : List Bool) :
    multiProofLoop tree (fuel + 1) (j :: rest) proof flags =
      multiProofLoop tree fuel (rest ++ [parent j]) (proof ++ [tree[sibling j]])
        (flags ++ [false]) := by
  rw [multiProofLoop, if_pos pos, tryIntoI32_of_lt (by omega)]
  cases rest with
  | nil =>
    simp only [bind, Except.bind, siblingIndex_of_lt pos small, parentIndex_of_pos pos,
      index_of_lt siblingIn]
    rfl
  | cons k more =>
    have differs : sibling j ≠ k := fun same => notSibling k more rfl same.symm
    simp only [bind, Except.bind, siblingIndex_of_lt pos small, parentIndex_of_pos pos,
      index_of_lt siblingIn, if_neg differs]

theorem processMultiProofLoop_true (flags : List Bool) (a b : Hash) (stack proof : List Hash) :
    processMultiProofLoop keccak (true :: flags) (a :: b :: stack) proof =
      processMultiProofLoop keccak flags (stack ++ [hashPair keccak a b]) proof := rfl

theorem processMultiProofLoop_false (flags : List Bool) (a : Hash) (stack : List Hash) (b : Hash)
    (proof : List Hash) :
    processMultiProofLoop keccak (false :: flags) (a :: stack) (b :: proof) =
      processMultiProofLoop keccak flags (stack ++ [hashPair keccak a b]) proof := rfl

/-- In a valid tree, the hash at the parent of a node below the root is the pair hash of the
node's and its sibling's. -/
theorem getD_parent_of_valid (valid : Valid (hashPair keccak) tree) {j : Nat} (pos : 0 < j)
    (inTree : j < tree.length) :
    tree.getD (parent j) 0 = hashPair keccak (tree.getD j 0) (tree.getD (sibling j) 0) := by
  have siblingIn := valid.sibling_lt pos inTree
  have parentIn : parent j < tree.length := (parent_lt pos).trans inTree
  rw [List.getD_eq_getElem _ _ parentIn, List.getD_eq_getElem _ _ inTree,
    List.getD_eq_getElem _ _ siblingIn]
  exact valid.parent_eq (hashPair_comm keccak) pos inTree siblingIn parentIn

/-! ### The loops in lockstep -/

/-- **The two loops in lockstep.** From a non-empty queue of nodes in level order, the loop of
`get_multi_proof` ends, the fuel being at least the sum of the queue. Replaying its flags on the
nodes' hashes, with its proof in front of any rest, leaves the root's hash alone and the rest
unread. The loop takes one proof hash per flag `false`, and one flag per proof hash and per node of
the queue but one. The induction is on the fuel, and each round is one round of both loops. -/
theorem multiProofLoop_process (valid : Valid (hashPair keccak) tree)
    (small : tree.length ≤ 2 ^ 31 - 1) :
    ∀ fuel (queue : List Nat) (proof : List Hash) (flags : List Bool), queue ≠ [] →
      Frontier queue → (∀ x ∈ queue, x < tree.length) → queue.sum ≤ fuel →
      ∃ newProof newFlags,
        multiProofLoop tree fuel queue proof flags = .ok (proof ++ newProof, flags ++ newFlags) ∧
        newProof.length = (newFlags.filter (!·)).length ∧
        queue.length + newProof.length = newFlags.length + 1 ∧
        ∀ extra, processMultiProofLoop keccak newFlags (queue.map (tree.getD · 0))
          (newProof ++ extra) = .ok ([tree.getD 0 0], extra) := by
  intro fuel
  induction fuel with
  | zero =>
    intro queue proof flags nonempty front _ sum
    -- no fuel: the queue sums to `0`, so it is the root alone
    obtain ⟨j, rest, rfl⟩ := List.exists_cons_of_ne_nil nonempty
    obtain rfl : j = 0 := by
      rw [List.sum_cons] at sum
      omega
    obtain rfl := front.eq_nil_of_root
    exact ⟨[], [], by simp [multiProofLoop], rfl, rfl, fun _ => rfl⟩
  | succ fuel ih =>
    intro queue proof flags nonempty front inTree sum
    obtain ⟨j, rest, rfl⟩ := List.exists_cons_of_ne_nil nonempty
    by_cases root : j = 0
    · subst root
      obtain rfl := front.eq_nil_of_root
      exact ⟨[], [], by simp [multiProofLoop], rfl, rfl, fun _ => rfl⟩
    have pos : 0 < j := Nat.pos_of_ne_zero root
    have jIn := inTree j List.mem_cons_self
    have below := parent_lt pos
    have paired := getD_parent_of_valid valid pos jIn
    by_cases pair : ∃ more, rest = sibling j :: more
    · -- the sibling is next: it leaves with `j`, and no proof hash is used
      obtain ⟨more, rfl⟩ := pair
      obtain ⟨newProof, newFlags, loop, counted, sized, replayed⟩ :=
        ih (more ++ [parent j]) proof (flags ++ [true]) (by simp) front.pop_pair
          (fun x member => by
            rcases List.mem_append.mp member with inMore | last
            · exact inTree x (List.mem_cons_of_mem _ (List.mem_cons_of_mem _ inMore))
            · rw [List.mem_singleton.mp last]
              omega)
          (by simp only [List.sum_cons, List.sum_append, List.sum_nil] at sum ⊢; omega)
      refine ⟨newProof, true :: newFlags, ?_, by simpa using counted, ?_, fun extra => ?_⟩
      · rw [multiProofLoop_pair pos (by omega), loop, List.append_assoc]
        rfl
      · simp only [List.length_cons, List.length_append, List.length_nil] at sized ⊢
        omega
      · rw [List.map_cons, List.map_cons, processMultiProofLoop_true, ← paired]
        simpa using replayed extra
    · -- the sibling is not next: its hash goes into the proof
      have notSibling : ∀ k more, rest = k :: more → k ≠ sibling j := by
        rintro k more rfl rfl
        exact pair ⟨more, rfl⟩
      have siblingIn := valid.sibling_lt pos jIn
      obtain ⟨newProof, newFlags, loop, counted, sized, replayed⟩ :=
        ih (rest ++ [parent j]) (proof ++ [tree[sibling j]]) (flags ++ [false]) (by simp)
          (front.pop_single notSibling)
          (fun x member => by
            rcases List.mem_append.mp member with inRest | last
            · exact inTree x (List.mem_cons_of_mem _ inRest)
            · rw [List.mem_singleton.mp last]
              omega)
          (by simp only [List.sum_cons, List.sum_append, List.sum_nil] at sum ⊢; omega)
      refine ⟨tree[sibling j] :: newProof, false :: newFlags, ?_, by simpa using counted, ?_,
        fun extra => ?_⟩
      · rw [multiProofLoop_single pos (by omega) siblingIn fuel notSibling, loop]
        simp
      · simp only [List.length_cons, List.length_append, List.length_nil] at sized ⊢
        omega
      · rw [List.map_cons, List.cons_append, processMultiProofLoop_false,
          ← List.getD_eq_getElem _ 0 siblingIn, ← paired]
        simpa using replayed extra

/-! ### `get_multi_proof` and `process_multi_proof` -/

/-- The leaves of a tree are above the parent of any node of it. -/
theorem parent_lt_of_leaf {j i : Nat} (pos : 0 < j) (inTree : j < tree.length)
    (leaf : tree.length ≤ 2 * i + 1) : parent j < i := by
  unfold parent
  omega

/-- Distinct leaves sorted from the highest make a queue in level order. -/
theorem frontier_of_leaves {indices : List Nat} (ordered : indices.Pairwise (· > ·))
    (leaves : ∀ i ∈ indices, i < tree.length ∧ tree.length ≤ 2 * i + 1) : Frontier indices := by
  cases indices with
  | nil => trivial
  | cons j rest =>
    -- every later leaf is below `j`, so `j` is not the root
    refine ⟨fun x member => parent_lt_of_leaf ?_ (leaves j List.mem_cons_self).1
      (leaves x (List.mem_cons_of_mem _ member)).2, ordered⟩
    exact Nat.lt_of_le_of_lt (Nat.zero_le x) ((List.pairwise_cons.mp ordered).1 x member)

/-- On a list sorted from the highest, two equal neighbours are exactly a repeated value. -/
theorem hasAdjacentDuplicate_eq_false_iff {l : List Nat} (sorted : l.Pairwise (· ≥ ·)) :
    hasAdjacentDuplicate l = false ↔ l.Nodup := by
  induction l with
  | nil => simp [hasAdjacentDuplicate]
  | cons a rest ih =>
    cases rest with
    | nil => simp [hasAdjacentDuplicate]
    | cons b more =>
      rw [List.pairwise_cons] at sorted
      simp only [hasAdjacentDuplicate, Bool.or_eq_false_iff, beq_eq_false_iff_ne, ih sorted.2,
        List.nodup_cons]
      constructor
      · rintro ⟨differs, distinct⟩
        refine ⟨fun member => ?_, distinct⟩
        -- a repeat of `a` later on sits between `b` and `a`, so it is `b`
        have atMost := sorted.1 b List.mem_cons_self
        rcases List.mem_cons.mp member with same | later
        · exact differs same
        · have atLeast := (List.pairwise_cons.mp sorted.2).1 a later
          exact differs (Nat.le_antisymm atLeast atMost)
      · rintro ⟨fresh, distinct⟩
        exact ⟨fun same => fresh (same ▸ List.mem_cons_self), distinct⟩

/-- The leaves' hashes, read in the tree. -/
theorem mapM_index {l : List Nat} (inTree : ∀ x ∈ l, x < tree.length) :
    l.mapM (index tree) = .ok (l.map (tree.getD · 0)) :=
  mapM_eq_ok_map fun x member => by
    rw [index_of_lt (inTree x member), List.getD_eq_getElem _ _ (inTree x member)]

/-- `get_multi_proof`'s sort: from the highest index, a permutation of the indices. -/
theorem mergeSort_descending (indices : List Nat) :
    let sorted := indices.mergeSort fun a b => decide (b ≤ a)
    sorted.Perm indices ∧ sorted.Pairwise (· ≥ ·) := by
  refine ⟨List.mergeSort_perm _ _, ?_⟩
  have sorted := @List.pairwise_mergeSort Nat (fun a b => decide (b ≤ a))
    (fun a b c first second => by simp only [decide_eq_true_eq] at *; omega)
    (fun a b => by simp only [Bool.or_eq_true, decide_eq_true_eq]; omega) indices
  exact sorted.imp fun holds => by simpa using holds

/-- `process_multi_proof` of what the loop of `get_multi_proof` returns from a non-empty queue:
the counts pass its checks, and the replay leaves the root's hash. -/
theorem processMultiProof_of_loop {queue : List Nat} {newProof : List Hash} {newFlags : List Bool}
    (counted : newProof.length = (newFlags.filter (!·)).length)
    (sized : queue.length + newProof.length = newFlags.length + 1)
    (replayed : processMultiProofLoop keccak newFlags (queue.map (tree.getD · 0)) (newProof ++ []) =
      .ok ([tree.getD 0 0], [])) :
    processMultiProof keccak ⟨queue.map (tree.getD · 0), newProof, newFlags⟩ = .ok (tree.getD 0 0) := by
  rw [List.append_nil] at replayed
  have formatted : ¬ newProof.length < (newFlags.filter (!·)).length := by omega
  have compatible : ¬ (queue.map (tree.getD · 0)).length + newProof.length ≠ newFlags.length + 1 := by
    rw [List.length_map]
    omega
  simp only [processMultiProof, formatted, compatible, if_false, replayed]
  rfl

/-- A multi-proof of distinct leaves of a valid tree, its indices within an `i32`: `get_multi_proof`
succeeds with the leaves' hashes, and `process_multi_proof` of it gives the root. -/
theorem getMultiProof_spec (valid : Valid (hashPair keccak) tree) (small : tree.length ≤ 2 ^ 31 - 1)
    {indices : List Nat} (leafAt : ∀ i ∈ indices, i < tree.length ∧ tree.length ≤ 2 * i + 1)
    (distinct : indices.Nodup) :
    ∃ multiProof, getMultiProof tree indices = .ok multiProof ∧
      processMultiProof keccak multiProof = .ok (tree.getD 0 0) ∧
      multiProof.leaves.Perm (indices.map (tree.getD · 0)) := by
  have checked : indices.forM (checkLeafNode tree) = .ok () :=
    forM_eq_ok.mpr fun i member => checkLeafNode_eq_ok.mpr (leafAt i member)
  -- the sorted leaves: strictly decreasing, so no neighbours are equal
  obtain ⟨perm, descending⟩ := mergeSort_descending indices
  generalize sortedEq : indices.mergeSort (fun a b => decide (b ≤ a)) = sorted at perm descending
  have strict : sorted.Pairwise (· > ·) :=
    (descending.and (perm.nodup_iff.mpr distinct)).imp fun ⟨atLeast, differs⟩ =>
      Nat.lt_of_le_of_ne atLeast differs.symm
  have noRepeat : hasAdjacentDuplicate sorted = false :=
    (hasAdjacentDuplicate_eq_false_iff descending).mpr (perm.nodup_iff.mpr distinct)
  have sortedLeaves : ∀ i ∈ sorted, i < tree.length ∧ tree.length ≤ 2 * i + 1 :=
    fun i member => leafAt i (perm.mem_iff.mp member)
  have read := mapM_index fun i member => (sortedLeaves i member).1
  cases sorted with
  | nil =>
    -- no leaves: the loop does not run, and the proof is the root
    obtain rfl : indices = [] := (List.Perm.nil_eq perm).symm
    refine ⟨⟨[], [tree.getD 0 0], []⟩, ?_, rfl, List.Perm.refl _⟩
    simp only [getMultiProof, sortedEq]
    rw [List.getD_eq_getElem _ _ valid.nonempty]
    simp [hasAdjacentDuplicate, multiProofLoop, index_of_lt valid.nonempty]
  | cons j rest =>
    obtain ⟨newProof, newFlags, loop, counted, sized, replayed⟩ :=
      multiProofLoop_process valid small (j :: rest).sum (j :: rest) [] [] (List.cons_ne_nil _ _)
        (frontier_of_leaves strict sortedLeaves) (fun i member => (sortedLeaves i member).1) le_rfl
    refine ⟨⟨(j :: rest).map (tree.getD · 0), newProof, newFlags⟩, ?_,
      processMultiProof_of_loop counted sized (replayed []), perm.map (tree.getD · 0)⟩
    rw [List.nil_append, List.nil_append] at loop
    simp only [getMultiProof, checked, ok_bind, sortedEq, noRepeat, loop, read]
    rfl

/-- **A multi-proof of distinct leaves rebuilds the root.** Take a tree that `is_valid_merkle_tree`
accepts, its indices within an `i32`. Then `get_multi_proof` of any list of distinct leaves
succeeds and carries the leaves' hashes, and `process_multi_proof` of it gives the root. With no
leaves at all, the proof is the root itself. -/
theorem getMultiProof_processMultiProof (keccak : Hash → Hash → Hash) (tree : List Hash)
    (valid : isValidMerkleTree keccak tree = true) (small : tree.length ≤ 2 ^ 31 - 1)
    (indices : List Nat) (leaves : ∀ i ∈ indices, isLeafNode tree i = true)
    (distinct : indices.Nodup) :
    ∃ multiProof root, getMultiProof tree indices = .ok multiProof ∧
      processMultiProof keccak multiProof = .ok root ∧ tree[0]? = some root ∧
      multiProof.leaves.Perm (indices.map (tree.getD · 0)) := by
  have valid := (isValidMerkleTree_iff tree).mp valid
  have leafAt : ∀ i ∈ indices, i < tree.length ∧ tree.length ≤ 2 * i + 1 := fun i member => by
    have leaf := leaves i member
    rwa [isLeafNode_eq, decide_eq_true_iff] at leaf
  obtain ⟨multiProof, got, processed, perm⟩ := getMultiProof_spec valid small leafAt distinct
  refine ⟨multiProof, _, got, processed, ?_, perm⟩
  rw [List.getD_eq_getElem _ _ valid.nonempty, List.getElem?_eq_getElem valid.nonempty]

theorem getMultiProof_processMultiProof_two_leaves :
    ∃ multiProof root, getMultiProof [9, 2, 0] [1, 2] = .ok multiProof ∧
      processMultiProof oddPair multiProof = .ok root ∧ ([9, 2, 0] : List Hash)[0]? = some root ∧
      multiProof.leaves.Perm ([1, 2].map (([9, 2, 0] : List Hash).getD · 0)) :=
  getMultiProof_processMultiProof oddPair [9, 2, 0] (by decide) (by decide) [1, 2] (by decide)
    (by decide)

/-- A list with an index that is not a leaf is refused with "Index is not in tree", whatever else
it holds. -/
theorem getMultiProof_of_not_leaf {indices : List Nat} {i : Nat} (member : i ∈ indices)
    (notLeaf : isLeafNode tree i = false) :
    getMultiProof tree indices = .error (.error "Index is not in tree") := by
  -- every check fails with the same message, so the first failing one decides
  have failed : indices.forM (checkLeafNode tree) = .error (.error "Index is not in tree") :=
    forM_eq_error_of_mem (fun x _ => by unfold checkLeafNode; cases isLeafNode tree x <;> simp)
      ⟨i, member, by simp [checkLeafNode, notLeaf]⟩
  simp only [getMultiProof, failed, error_bind]

/-- A list of leaves with a repeated index is refused with "Cannot prove duplicated index". -/
theorem getMultiProof_of_duplicate {indices : List Nat}
    (leaves : ∀ i ∈ indices, isLeafNode tree i = true) (repeated : ¬ indices.Nodup) :
    getMultiProof tree indices = .error (.error "Cannot prove duplicated index") := by
  have checked : indices.forM (checkLeafNode tree) = .ok () :=
    forM_eq_ok.mpr fun i member => by simp [checkLeafNode, leaves i member]
  obtain ⟨perm, descending⟩ := mergeSort_descending indices
  have adjacent : hasAdjacentDuplicate (indices.mergeSort fun a b => decide (b ≤ a)) = true := by
    rw [← Bool.not_eq_false]
    exact fun noRepeat =>
      repeated (perm.nodup_iff.mp ((hasAdjacentDuplicate_eq_false_iff descending).mp noRepeat))
  simp only [getMultiProof, checked, ok_bind, adjacent, if_true, throw_bind]

/-- **What `get_multi_proof` refuses**, in any tree. A list with an index that is not a leaf is
refused with "Index is not in tree", whatever else it holds. A list of leaves with a repeated
index is refused with "Cannot prove duplicated index". -/
theorem getMultiProof_refuses (tree : List Hash) (indices : List Nat) :
    ((∃ i ∈ indices, isLeafNode tree i = false) →
      getMultiProof tree indices = .error (.error "Index is not in tree")) ∧
    ((∀ i ∈ indices, isLeafNode tree i = true) → ¬ indices.Nodup →
      getMultiProof tree indices = .error (.error "Cannot prove duplicated index")) :=
  ⟨fun ⟨_, member, notLeaf⟩ => getMultiProof_of_not_leaf member notLeaf,
    fun leaves repeated => getMultiProof_of_duplicate leaves repeated⟩

theorem getMultiProof_refuses_root_and_repeat :
    getMultiProof [9, 2, 0] [0] = .error (.error "Index is not in tree") ∧
      getMultiProof [9, 2, 0] [2, 2] = .error (.error "Cannot prove duplicated index") :=
  ⟨(getMultiProof_refuses [9, 2, 0] [0]).1 ⟨0, List.mem_singleton_self 0, by decide⟩,
    (getMultiProof_refuses [9, 2, 0] [2, 2]).2 (by decide) (by decide)⟩

end Ipc.MerkleTree
