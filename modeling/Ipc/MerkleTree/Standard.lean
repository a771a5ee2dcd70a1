/-
**The standard Merkle tree of values, and the validators' tree (`merkle_tree_rs::standard`,
`fendermint_vm_actor_interface::ipc::ValidatorMerkleTree`).**

A standard tree hashes each value into a leaf (`standard_leaf_hash`: `keccak256` of `keccak256`
of the value's ABI encoding), sorts the leaves by hash, and builds the core tree over them
(`Ipc.MerkleTree.Core`). It keeps the values with the place of each one's leaf (`tree_index`),
and a map from leaf hash to value index for lookups. A proof of a value is the core proof of its
leaf, checked against the root before it is returned.

The node builds such a tree over a power table (`ValidatorMerkleTree`). Each validator is the pair
of its Ethereum address and its power, ABI-encoded as `(address, uint256)`. The root goes to the
gateway with a new checkpoint, and each validator later sends the proof of its own leaf with its
signature of the checkpoint.

The leaf hash of a value is a parameter (`leafHash`, for the validators `validatorLeaf`); left out
with it are the formatting of the values as strings and their parsing back by the ABI tokenizer.
Also left out are the leaf encoding (the names of the ABI types that the leaf hash encodes) and
the output format of the hashes. The Ethereum address of a public key is a parameter too
(`ethAddress`).

* `of_spec` — `StandardMerkleTree::of` builds a valid tree and records, for every value, the place
  of a leaf that holds the value's hash;
* `getProof_leafBytes_spec` — the proof of any value of the tree passes the tree's own check and
  verifies against the root;
* `prove_validate` — **the node's proof of any validator of its power table verifies** against
  the root of its tree;
* `validate_binding` — with collision-free hashes, a proof that verifies against that root proves
  a validator of the table.
-/

import Mathlib
import Ipc.MerkleTree.Core
import Ipc.MerkleTree.MultiProof
import Ipc.Lib.Maps
import Ipc.Lib.System
import Ipc.Contracts.Basic
import Ipc.Interpreter.PowerDiff

namespace Ipc.MerkleTree

open Ipc.Api Ipc.Lib

/-- `Values`: a value and the place of its leaf in the tree. -/
structure Values (V : Type) where
  value : V
  treeIndex : Nat
  deriving DecidableEq, Repr

/-- `HashedValues`: a value, its index among the values, and its leaf hash. -/
structure HashedValues (V : Type) where
  value : V
  valueIndex : Nat
  hash : Hash
  deriving DecidableEq, Repr

/-- `StandardMerkleTree`, without its leaf encoding and its output format. -/
structure StandardMerkleTree (V : Type) where
  hashLookup : AList fun _ : Hash => Nat
  tree : List Hash
  values : List (Values V)

/-- `LeafType`: a value named by its index, or given itself. -/
inductive LeafType (V : Type)
  | number (i : Nat)
  | leafBytes (value : V)

/-- `Option::unwrap`. -/
def unwrap {α : Type} : Option α → Except Fault α
  | some a => .ok a
  | none => .error (.panic "called `Option::unwrap()` on a `None` value")

/-- `check_bounds`. -/
def checkBounds {τ : Type} (values : List τ) (index : Nat) : Except Fault Unit :=
  if index ≥ values.length then .error (.error "Index out of range") else .ok ()

theorem checkBounds_of_lt {τ : Type} {values : List τ} {index : Nat}
    (inValues : index < values.length) : checkBounds values index = .ok () := by
  rw [checkBounds, if_neg (Nat.not_le.mpr inValues)]

variable {V : Type} (keccak : Hash → Hash → Hash) (leafHash : V → Hash)

namespace StandardMerkleTree

/-- `StandardMerkleTree::new`: the leaf hash of each value mapped to its index, a later value's
index replacing an earlier one's. -/
def new (tree : List Hash) (values : List (Values V)) : StandardMerkleTree V :=
  ⟨fromPairs (values.zipIdx.map fun (v, i) => (leafHash v.value, i)), tree, values⟩

/-- The loop of `of` that records where each value's leaf went: the `i`-th leaf in hash order sits
at place `tree.len() - i - 1`. -/
def placeValues (treeLength : Nat) (hashedValues : List (HashedValues V))
    (values : List (Values V)) : List (Values V) :=
  hashedValues.zipIdx.foldl
    (fun acc (v, i) => acc.modify v.valueIndex fun x => { x with treeIndex := treeLength - i - 1 })
    values

/-- `StandardMerkleTree::of`: hash the values, sort the leaves by hash (a stable sort), build the
core tree, and record each value's place. -/
def «of» (values : List V) : Except Fault (StandardMerkleTree V) := do
  let hashedValues := values.zipIdx.map fun (v, i) => (⟨v, i, leafHash v⟩ : HashedValues V)
  let hashedValues := hashedValues.mergeSort fun a b => decide (a.hash ≤ b.hash)
  let tree ← makeMerkleTree keccak (hashedValues.map (·.hash))
  let indexedValues := placeValues tree.length hashedValues (values.map fun v => ⟨v, 0⟩)
  pure (new leafHash tree indexedValues)

/-- `root`. -/
def root (self : StandardMerkleTree V) : Except Fault Hash := index self.tree 0

/-- `leaf_lookup`. -/
def leafLookup (self : StandardMerkleTree V) (leaf : V) : Except Fault Nat :=
  match self.hashLookup.lookup (leafHash leaf) with
  | some i => .ok i
  | none => .error (.error "Leaf is not in tree")

/-- `validate_value`: the value exists, its place is in the tree, and the leaf there is its
hash. -/
def validateValue (self : StandardMerkleTree V) (index : Nat) : Except Fault Unit := do
  checkBounds self.values index
  let value ← unwrap self.values[index]?
  checkBounds self.tree value.treeIndex
  let leaf := leafHash value.value
  if leaf ≠ (← unwrap self.tree[value.treeIndex]?) then
    throw (.error "Merkle tree does not contain the expected value")

/-- `validate`: every value passes `validate_value`. -/
def validate (self : StandardMerkleTree V) : Except Fault Unit :=
  (List.range self.values.length).forM (self.validateValue leafHash)

/-- `get_proof`: find the value, validate it, take the core proof of its leaf, and check that the
proof rebuilds the root. -/
def getProof (self : StandardMerkleTree V) (leaf : LeafType V) : Except Fault (List Hash) := do
  let valueIndex ← match leaf with
    | .number i => pure i
    | .leafBytes v => self.leafLookup leafHash v
  self.validateValue leafHash valueIndex
  let value ← unwrap self.values[valueIndex]?
  let proof ← MerkleTree.getProof self.tree value.treeIndex
  let hash ← unwrap self.tree[value.treeIndex]?
  let impliedRoot ← processProof keccak hash proof
  if impliedRoot ≠ (← unwrap self.tree.head?) then throw (.error "Unable to prove value")
  pure proof

/-- The index a leaf names in `get_multi_proof`: its number, or the index `leaf_lookup` finds for
its value. -/
def valueIndex (self : StandardMerkleTree V) : LeafType V → Except Fault Nat
  | .number i => pure i
  | .leafBytes v => self.leafLookup leafHash v

/-- The place of the value at an index, `self.values.get(i).unwrap().tree_index`. -/
def treeIndexOf (self : StandardMerkleTree V) (i : Nat) : Except Fault Nat := do
  pure (← unwrap self.values[i]?).treeIndex

/-- The value that a leaf hash of a multi-proof stands for: the index the lookup map holds for the
hash (`hash_lookup.get(leaf).unwrap()`), then the value at that index. -/
def leafValue (self : StandardMerkleTree V) (leaf : Hash) : Except Fault V := do
  let index ← unwrap (self.hashLookup.lookup leaf)
  pure (← unwrap self.values[index]?).value

/-- `get_multi_proof`: name the values and validate each, take the core multi-proof of their
leaves' places, check that it rebuilds the root, and read its leaves back as values. -/
def getMultiProof (self : StandardMerkleTree V) (leaves : List (LeafType V)) :
    Except Fault (MultiProof V Hash) := do
  let valueIndices ← leaves.mapM (self.valueIndex leafHash)
  valueIndices.forM (self.validateValue leafHash)
  let indices ← valueIndices.mapM self.treeIndexOf
  let multiProof ← MerkleTree.getMultiProof self.tree indices
  let impliedRoot ← processMultiProof keccak multiProof
  if impliedRoot ≠ (← unwrap self.tree.head?) then throw (.error "Unable to prove value")
  let leaves ← multiProof.leaves.mapM self.leafValue
  pure ⟨leaves, multiProof.proof, multiProof.proofFlags⟩

end StandardMerkleTree

/-! ### What `of` builds -/

namespace StandardMerkleTree

open HeapTree

/-- What `of` guarantees of the tree it builds from `values`: a valid core tree of `2 n - 1`
nodes; the values recorded in their order, each with the place of a leaf that holds its hash, and
no two at the same place; every leaf the hash of some value; and the lookup map built from the
recorded values. -/
structure Represents (values : List V) (t : StandardMerkleTree V) : Prop where
  valid : Valid (hashPair keccak) t.tree
  treeLength : t.tree.length = 2 * values.length - 1
  valuesLength : t.values.length = values.length
  hashLookup : t.hashLookup = fromPairs (t.values.zipIdx.map fun (v, i) => (leafHash v.value, i))
  recorded : ∀ j (inValues : j < values.length), ∃ place, t.values[j]? = some ⟨values[j], place⟩ ∧
    values.length - 1 ≤ place ∧ t.tree[place]? = some (leafHash values[j])
  leaves : ∀ k, values.length - 1 ≤ k → k < t.tree.length →
    ∃ v ∈ values, t.tree[k]? = some (leafHash v)
  distinct : ∀ i j (inI : i < t.values.length) (inJ : j < t.values.length),
    t.values[i].treeIndex = t.values[j].treeIndex → i = j

section Spec

variable {keccak leafHash}

/-- The recording loop writes nothing at an index that no leaf names. -/
theorem getElem?_foldl_modify_of_forall (n : Nat) :
    ∀ (L : List (HashedValues V × Nat)) (acc : List (Values V)) (j : Nat),
      (∀ p ∈ L, p.1.valueIndex ≠ j) →
      (L.foldl (fun acc (v, i) => acc.modify v.valueIndex
        fun x => { x with treeIndex := n - i - 1 }) acc)[j]? = acc[j]? := by
  intro L
  induction L with
  | nil => intro acc j _; rfl
  | cons q L ih =>
    intro acc j unnamed
    obtain ⟨v, i⟩ := q
    rw [List.foldl_cons, ih _ j (fun p member => unnamed p (List.mem_cons_of_mem _ member)),
      List.getElem?_modify]
    have differs : v.valueIndex ≠ j := unnamed (v, i) List.mem_cons_self
    simp [differs]

/-- At an index that some leaf names, the loop's last such leaf sets the place. -/
theorem getElem?_foldl_modify (n : Nat) :
    ∀ (L : List (HashedValues V × Nat)) (acc : List (Values V)) (j : Nat),
      (∃ p ∈ L, p.1.valueIndex = j) →
      ∃ p ∈ L, p.1.valueIndex = j ∧
        (L.foldl (fun acc (v, i) => acc.modify v.valueIndex
          fun x => { x with treeIndex := n - i - 1 }) acc)[j]? =
          acc[j]?.map fun x => { x with treeIndex := n - p.2 - 1 } := by
  intro L
  induction L with
  | nil =>
    intro acc j named
    simp at named
  | cons q L ih =>
    intro acc j named
    obtain ⟨v, i⟩ := q
    rw [List.foldl_cons]
    by_cases later : ∃ p ∈ L, p.1.valueIndex = j
    · obtain ⟨p, member, key, found⟩ := ih _ j later
      refine ⟨p, List.mem_cons_of_mem _ member, key, ?_⟩
      rw [found, List.getElem?_modify]
      by_cases same : v.valueIndex = j <;> cases acc[j]? <;> simp [same]
    · have unnamed : ∀ p ∈ L, p.1.valueIndex ≠ j := fun p member key => later ⟨p, member, key⟩
      obtain ⟨p, member, key⟩ := named
      have first : v.valueIndex = j := by
        rcases List.mem_cons.mp member with rfl | member
        · exact key
        · exact absurd key (unnamed p member)
      refine ⟨(v, i), List.mem_cons_self, first, ?_⟩
      rw [getElem?_foldl_modify_of_forall n L _ j unnamed, List.getElem?_modify]
      simp [first]


theorem length_placeValues (treeLength : Nat) (hashedValues : List (HashedValues V))
    (values : List (Values V)) : (placeValues treeLength hashedValues values).length = values.length := by
  unfold placeValues
  generalize hashedValues.zipIdx = L
  induction L generalizing values with
  | nil => rfl
  | cons q L ih =>
    obtain ⟨v, i⟩ := q
    rw [List.foldl_cons, ih, List.length_modify]

/-- Where the recording loop of `of` puts a value that some sorted leaf names: at the place of the
`k`-th leaf in hash order, for a `k` whose leaf names it. -/
theorem placeValues_getElem? (treeLength : Nat) {sorted : List (HashedValues V)}
    (init : List (Values V)) {j : Nat} (named : ∃ x ∈ sorted, x.valueIndex = j) :
    ∃ k, ∃ inSorted : k < sorted.length, sorted[k].valueIndex = j ∧
      (placeValues treeLength sorted init)[j]? =
        init[j]?.map fun x => { x with treeIndex := treeLength - k - 1 } := by
  obtain ⟨x, member, key⟩ := named
  obtain ⟨k, inSorted, atK⟩ := List.getElem_of_mem member
  obtain ⟨p, listed, pKey, found⟩ := getElem?_foldl_modify treeLength sorted.zipIdx init j
    ⟨(sorted[k], k), List.mem_zipIdx_iff_getElem?.mpr (by simp), by rw [atK, key]⟩
  obtain ⟨pIn, pAt⟩ := List.getElem?_eq_some_iff.mp (List.mem_zipIdx_iff_getElem?.mp listed)
  exact ⟨p.2, pIn, by rw [pAt, pKey], found⟩

/-- The values hashed by `of`, in their order: the `j`-th is the `j`-th value, its index and its
leaf hash. -/
theorem mem_hashedValues {values : List V} {x : HashedValues V}
    (member : x ∈ values.zipIdx.map fun (v, i) => (⟨v, i, leafHash v⟩ : HashedValues V)) :
    ∃ j, ∃ inValues : j < values.length, x = ⟨values[j], j, leafHash values[j]⟩ := by
  obtain ⟨⟨v, i⟩, listed, rfl⟩ := List.mem_map.mp member
  obtain ⟨_, inValues, same⟩ := List.mem_zipIdx listed
  exact ⟨i, by omega, by simp [same]⟩

theorem hashedValue_mem (leafHash : V → Hash) {values : List V} {j : Nat} (inValues : j < values.length) :
    (⟨values[j], j, leafHash values[j]⟩ : HashedValues V) ∈
      values.zipIdx.map fun (v, i) => (⟨v, i, leafHash v⟩ : HashedValues V) :=
  List.mem_map.mpr ⟨(values[j], j), List.mem_zipIdx_iff_getElem?.mpr (by simp [inValues]), rfl⟩

/-- **`of` builds a tree that represents its values**, for any non-empty list of values. -/
theorem of_represents (keccak : Hash → Hash → Hash) (leafHash : V → Hash) (values : List V)
    (nonempty : values ≠ []) :
    ∃ t, StandardMerkleTree.of keccak leafHash values = .ok t ∧
      t.Represents keccak leafHash values := by
  simp only [StandardMerkleTree.of]
  set hashed := values.zipIdx.map fun (v, i) => (⟨v, i, leafHash v⟩ : HashedValues V)
  set sorted := hashed.mergeSort fun a b => decide (a.hash ≤ b.hash)
  have sortedLength : sorted.length = values.length := by simp [sorted, hashed]
  have positive : 0 < values.length := List.length_pos_iff.mpr nonempty
  obtain ⟨tree, made, valid, length, placed⟩ := makeMerkleTree_ok keccak (sorted.map (·.hash))
    (List.ne_nil_of_length_pos (by simp [sortedLength, positive]))
  rw [List.length_map, sortedLength] at length placed
  -- the `i`-th leaf in hash order sits at place `2 n - 2 - i`
  have leafAt : ∀ i (inSorted : i < sorted.length),
      tree[2 * values.length - 2 - i]? = some sorted[i].hash := by
    intro i inSorted
    have below : values.length - 1 - i < (sorted.map (·.hash)).length := by
      rw [List.length_map]
      omega
    rw [show 2 * values.length - 2 - i = values.length - 1 + (values.length - 1 - i) by omega,
      ← List.getElem?_drop, placed, List.getElem?_reverse below, List.length_map,
      show sorted.length - 1 - (values.length - 1 - i) = i by omega, List.getElem?_map,
      List.getElem?_eq_getElem inSorted]
    rfl
  -- value `j` is the `k`-th leaf in hash order for some `k`, and recorded at that leaf's place
  have recordedAt : ∀ j (inValues : j < values.length), ∃ k, ∃ inSorted : k < sorted.length,
      sorted[k] = ⟨values[j], j, leafHash values[j]⟩ ∧
      (placeValues tree.length sorted (values.map fun v => ⟨v, 0⟩))[j]? =
        some ⟨values[j], tree.length - k - 1⟩ := by
    intro j inValues
    have listed : (⟨values[j], j, leafHash values[j]⟩ : HashedValues V) ∈ sorted :=
      List.mem_mergeSort.mpr (hashedValue_mem leafHash inValues)
    obtain ⟨k, inSorted, key, found⟩ := placeValues_getElem? tree.length
      (values.map fun v => ⟨v, 0⟩) ⟨_, listed, rfl⟩
    obtain ⟨j', inValues', hashedAt⟩ := mem_hashedValues (List.mem_mergeSort.mp
      (List.getElem_mem inSorted))
    have sameIndex : j' = j := by
      rw [hashedAt] at key
      exact key
    subst sameIndex
    refine ⟨k, inSorted, hashedAt, ?_⟩
    rw [found, List.getElem?_map, List.getElem?_eq_getElem inValues]
    rfl
  refine ⟨new leafHash tree (placeValues tree.length sorted (values.map fun v => ⟨v, 0⟩)),
    by rw [made]; rfl, valid, length, ?_, rfl, ?_, ?_, ?_⟩
  · rw [new, length_placeValues, List.length_map]
  · intro j inValues
    obtain ⟨k, inSorted, atK, found⟩ := recordedAt j inValues
    refine ⟨tree.length - k - 1, found, by omega, ?_⟩
    simp only [new]
    rw [show tree.length - k - 1 = 2 * values.length - 2 - k by omega, leafAt k inSorted, atK]
  · intro k above inTree
    simp only [new] at inTree ⊢
    have inSorted : 2 * values.length - 2 - k < sorted.length := by omega
    obtain ⟨j, inValues, hashedAt⟩ := mem_hashedValues (List.mem_mergeSort.mp
      (List.getElem_mem inSorted))
    refine ⟨values[j], List.getElem_mem inValues, ?_⟩
    rw [show k = 2 * values.length - 2 - (2 * values.length - 2 - k) by omega, leafAt _ inSorted,
      hashedAt]
  · -- two values at one place are the same leaf in hash order, so the same value
    intro i j inI inJ samePlace
    simp only [new, length_placeValues, List.length_map] at inI inJ samePlace
    obtain ⟨k, inSorted, atK, found⟩ := recordedAt i inI
    obtain ⟨k', inSorted', atK', found'⟩ := recordedAt j inJ
    obtain ⟨_, placeI⟩ := List.getElem?_eq_some_iff.mp found
    obtain ⟨_, placeJ⟩ := List.getElem?_eq_some_iff.mp found'
    rw [placeI, placeJ] at samePlace
    obtain rfl : k = k' := by
      simp only at samePlace
      omega
    exact congrArg HashedValues.valueIndex (atK.symm.trans atK')

/-! #### Validating and proving a recorded value -/

/-- A value recorded with the place of a leaf that holds its hash passes `validate_value`. -/
theorem validateValue_of_recorded {t : StandardMerkleTree V} {j place : Nat} {v : V}
    (found : t.values[j]? = some ⟨v, place⟩) (atPlace : t.tree[place]? = some (leafHash v)) :
    t.validateValue leafHash j = .ok () := by
  obtain ⟨inValues, _⟩ := List.getElem?_eq_some_iff.mp found
  obtain ⟨inTree, _⟩ := List.getElem?_eq_some_iff.mp atPlace
  simp [validateValue, checkBounds_of_lt inValues, found, unwrap, checkBounds_of_lt inTree, atPlace]

/-- The proof of a value recorded at a leaf that holds its hash. In a valid tree, below the last
`i32` index, `get_proof` returns the core proof of that leaf, and along it the value's hash
rebuilds the root. -/
theorem getProof_of_recorded {t : StandardMerkleTree V} (valid : Valid (hashPair keccak) t.tree)
    {j place : Nat} {v : V} (found : t.values[j]? = some ⟨v, place⟩)
    (atPlace : t.tree[place]? = some (leafHash v)) (leaf : t.tree.length ≤ 2 * place + 1)
    (small : place < 2 ^ 31 - 1) :
    ∃ proof root, t.getProof keccak leafHash (.number j) = .ok proof ∧ t.root = .ok root ∧
      processProof keccak (leafHash v) proof = .ok root := by
  obtain ⟨inTree, atPlace'⟩ := List.getElem?_eq_some_iff.mp atPlace
  obtain ⟨proof, got, folded⟩ := MerkleTree.getProof_spec valid inTree leaf small
  rw [atPlace'] at folded
  obtain ⟨rootIn, rooted⟩ := List.getElem?_eq_some_iff.mp folded
  refine ⟨proof, _, ?_, ?_, rfl⟩
  · simp [getProof, validateValue_of_recorded found atPlace, found, unwrap, got, atPlace,
      processProof, List.head?_eq_getElem?, folded]
  · rw [root, index_of_lt rootIn, rooted]

/-- `get_proof` of a value given itself is `get_proof` of the index that `leaf_lookup` finds. -/
theorem getProof_leafBytes {t : StandardMerkleTree V} {w : V} {i : Nat}
    (looked : t.leafLookup leafHash w = .ok i) :
    t.getProof keccak leafHash (.leafBytes w) = t.getProof keccak leafHash (.number i) := by
  simp [getProof, looked]

/-- Values named by their numbers name those numbers. -/
theorem mapM_valueIndex_number (t : StandardMerkleTree V) :
    ∀ indices : List Nat, (indices.map LeafType.number).mapM (t.valueIndex leafHash) = .ok indices
  | [] => rfl
  | i :: rest => by
    rw [List.map_cons, List.mapM_cons, mapM_valueIndex_number t rest]
    rfl

/-- Naming a value fails only as `leaf_lookup` fails, with "Leaf is not in tree". -/
theorem valueIndex_ok_or_absent (t : StandardMerkleTree V) (leaf : LeafType V) :
    (∃ i, t.valueIndex leafHash leaf = .ok i) ∨
      t.valueIndex leafHash leaf = .error (.error "Leaf is not in tree") := by
  cases leaf with
  | number i => exact .inl ⟨i, rfl⟩
  | leafBytes w =>
    cases looked : t.hashLookup.lookup (leafHash w) with
    | none => exact .inr (by simp [valueIndex, leafLookup, looked])
    | some i => exact .inl ⟨i, by simp [valueIndex, leafLookup, looked]⟩

/-- The place recorded with value `j`, the `tree_index` that `get_multi_proof` reads. -/
def placeOf (t : StandardMerkleTree V) (j : Nat) : Nat := (t.values[j]?.map (·.treeIndex)).getD 0

/-- The place of a value in range is the one recorded with it. -/
theorem treeIndexOf_of_lt {t : StandardMerkleTree V} {j : Nat} (inValues : j < t.values.length) :
    t.treeIndexOf j = .ok (t.placeOf j) := by
  simp [treeIndexOf, placeOf, List.getElem?_eq_getElem inValues, unwrap]

/-! #### What holds of a tree that represents its values -/

variable {values : List V} {t : StandardMerkleTree V}

namespace Represents

/-- The root is the first node. -/
theorem root_eq (rep : t.Represents keccak leafHash values) :
    ∃ root, t.root = .ok root ∧ t.tree[0]? = some root :=
  ⟨_, index_of_lt rep.valid.nonempty, List.getElem?_eq_getElem rep.valid.nonempty⟩

/-- Every value passes `validate_value`. -/
theorem validateValue_ok (rep : t.Represents keccak leafHash values) {j : Nat}
    (inValues : j < values.length) : t.validateValue leafHash j = .ok () := by
  obtain ⟨place, found, -, atPlace⟩ := rep.recorded j inValues
  exact validateValue_of_recorded found atPlace

/-- A value number out of range fails `validate_value` with "Index out of range". -/
theorem validateValue_of_le (rep : t.Represents keccak leafHash values) {j : Nat}
    (outside : values.length ≤ j) :
    t.validateValue leafHash j = .error (.error "Index out of range") := by
  have outside' : j ≥ t.values.length := rep.valuesLength ▸ outside
  simp [validateValue, checkBounds, outside']

/-- Value numbers in range pass `validate_value`, one after another. -/
theorem forM_validateValue (rep : t.Represents keccak leafHash values) {indices : List Nat}
    (inValues : ∀ j ∈ indices, j < values.length) :
    indices.forM (t.validateValue leafHash) = .ok () :=
  forM_eq_ok.mpr fun j member => rep.validateValue_ok (inValues j member)

/-- The tree passes `validate`. -/
theorem validate_ok (rep : t.Represents keccak leafHash values) : t.validate leafHash = .ok () :=
  forM_eq_ok.mpr fun _ listed => rep.validateValue_ok (rep.valuesLength ▸ List.mem_range.mp listed)

/-- An index in the lookup map is that of a value with the hash looked up. -/
theorem lookup_eq_some (rep : t.Represents keccak leafHash values) {h : Hash} {i : Nat}
    (looked : t.hashLookup.lookup h = some i) :
    ∃ inValues : i < values.length, leafHash values[i] = h := by
  have fromPair : (h, i) ∈ t.values.zipIdx.map fun (v, i) => (leafHash v.value, i) := by
    rw [rep.hashLookup] at looked
    exact mem_of_lookup_fromPairs looked
  -- the pair that put `i` in the map is the hash of the value recorded at `i`
  obtain ⟨⟨x, i'⟩, named, same⟩ := List.mem_map.mp fromPair
  obtain ⟨sameHash, rfl⟩ := Prod.mk.inj same
  have xAt : t.values[i']? = some x := List.mem_zipIdx_iff_getElem?.mp named
  have inValues : i' < values.length := rep.valuesLength ▸ (List.getElem?_eq_some_iff.mp xAt).1
  obtain ⟨place, found, -, -⟩ := rep.recorded i' inValues
  obtain rfl : x = ⟨values[i'], place⟩ := Option.some.inj (xAt.symm.trans found)
  exact ⟨inValues, sameHash⟩

/-- The lookup map holds, for the leaf hash of any value, the index of a value with that hash: the
last such value, as the map keeps the last index written for a hash. -/
theorem lookup_leafHash (rep : t.Represents keccak leafHash values) {j : Nat}
    (inValues : j < values.length) :
    ∃ i, ∃ inValues' : i < values.length, t.hashLookup.lookup (leafHash values[j]) = some i ∧
      leafHash values[i] = leafHash values[j] := by
  obtain ⟨place, found, -, -⟩ := rep.recorded j inValues
  have listed : (leafHash values[j], j) ∈ t.values.zipIdx.map fun (v, i) => (leafHash v.value, i) :=
    List.mem_map.mpr ⟨(⟨values[j], place⟩, j), List.mem_zipIdx_iff_getElem?.mpr found, rfl⟩
  have present : (t.hashLookup.lookup (leafHash values[j])).isSome := by
    rw [rep.hashLookup]
    exact lookup_fromPairs_isSome listed
  obtain ⟨i, looked⟩ := Option.isSome_iff_exists.mp present
  obtain ⟨inValues', sameHash⟩ := rep.lookup_eq_some looked
  exact ⟨i, inValues', looked, sameHash⟩

/-- `leaf_lookup` of a value whose leaf hash is no value's fails with "Leaf is not in tree". -/
theorem leafLookup_of_not_mem (rep : t.Represents keccak leafHash values) {w : V}
    (absent : ∀ v ∈ values, leafHash v ≠ leafHash w) :
    t.leafLookup leafHash w = .error (.error "Leaf is not in tree") := by
  cases looked : t.hashLookup.lookup (leafHash w) with
  | none => simp [leafLookup, looked]
  | some i =>
    obtain ⟨inValues, sameHash⟩ := rep.lookup_eq_some looked
    exact absurd sameHash (absent _ (List.getElem_mem inValues))

/-- `leaf_lookup` of a value of the tree finds the index of a value with the same leaf hash. -/
theorem leafLookup_of_mem (rep : t.Represents keccak leafHash values) {w : V} (member : w ∈ values) :
    ∃ i, ∃ inValues : i < values.length, t.leafLookup leafHash w = .ok i ∧
      leafHash values[i] = leafHash w := by
  obtain ⟨j, inValues, rfl⟩ := List.getElem_of_mem member
  obtain ⟨i, inValues', looked, sameHash⟩ := rep.lookup_leafHash inValues
  exact ⟨i, inValues', by simp [leafLookup, looked], sameHash⟩

/-- Each value's place is a leaf that holds its hash. -/
theorem placeOf_leaf (rep : t.Represents keccak leafHash values) {j : Nat}
    (inValues : j < values.length) :
    values.length - 1 ≤ t.placeOf j ∧ t.tree[t.placeOf j]? = some (leafHash values[j]) := by
  obtain ⟨place, found, above, atPlace⟩ := rep.recorded j inValues
  simp only [placeOf, found, Option.map_some, Option.getD_some]
  exact ⟨above, atPlace⟩

/-- Each value's place is a leaf node of the core tree. -/
theorem placeOf_isLeaf (rep : t.Represents keccak leafHash values) {j : Nat}
    (inValues : j < values.length) :
    t.placeOf j < t.tree.length ∧ t.tree.length ≤ 2 * t.placeOf j + 1 := by
  obtain ⟨above, atPlace⟩ := rep.placeOf_leaf inValues
  have length := rep.treeLength
  exact ⟨(List.getElem?_eq_some_iff.mp atPlace).1, by omega⟩

/-- Distinct values sit at distinct places. -/
theorem placeOf_injective (rep : t.Represents keccak leafHash values) {i j : Nat}
    (inI : i < values.length) (inJ : j < values.length) (samePlace : t.placeOf i = t.placeOf j) :
    i = j := by
  have inI' : i < t.values.length := lt_of_lt_of_eq inI rep.valuesLength.symm
  have inJ' : j < t.values.length := lt_of_lt_of_eq inJ rep.valuesLength.symm
  refine rep.distinct i j inI' inJ' ?_
  simpa [placeOf, List.getElem?_eq_getElem inI', List.getElem?_eq_getElem inJ'] using samePlace

/-- The places of value numbers in range, as `get_multi_proof` reads them. -/
theorem mapM_treeIndexOf (rep : t.Represents keccak leafHash values) {indices : List Nat}
    (inValues : ∀ j ∈ indices, j < values.length) :
    indices.mapM t.treeIndexOf = .ok (indices.map t.placeOf) :=
  mapM_eq_ok_map fun j member =>
    treeIndexOf_of_lt (lt_of_lt_of_eq (inValues j member) rep.valuesLength.symm)

/-- The value a multi-proof's leaf hash stands for is a value with that hash. -/
theorem leafValue_leafHash (rep : t.Represents keccak leafHash values) {j : Nat}
    (inValues : j < values.length) :
    ∃ v, t.leafValue (leafHash values[j]) = .ok v ∧ leafHash v = leafHash values[j] := by
  obtain ⟨i, inValues', looked, sameHash⟩ := rep.lookup_leafHash inValues
  obtain ⟨place, found, -, -⟩ := rep.recorded i inValues'
  exact ⟨values[i], by simp [leafValue, looked, unwrap, found], sameHash⟩

/-- Every value, named by its index, has a proof along which its hash rebuilds the root, while
the tree's places fit in an `i32`. -/
theorem getProof_number (rep : t.Represents keccak leafHash values) (small : values.length ≤ 2 ^ 30)
    {j : Nat} (inValues : j < values.length) :
    ∃ proof root, t.getProof keccak leafHash (.number j) = .ok proof ∧ t.root = .ok root ∧
      processProof keccak (leafHash values[j]) proof = .ok root := by
  obtain ⟨place, found, above, atPlace⟩ := rep.recorded j inValues
  have inTree := (List.getElem?_eq_some_iff.mp atPlace).1
  have length := rep.treeLength
  exact getProof_of_recorded rep.valid found atPlace (by omega) (by omega)

/-- Every value, given itself, has a proof along which its hash rebuilds the root. -/
theorem getProof_leafBytes (rep : t.Represents keccak leafHash values)
    (small : values.length ≤ 2 ^ 30) {w : V} (member : w ∈ values) :
    ∃ proof root, t.getProof keccak leafHash (.leafBytes w) = .ok proof ∧ t.root = .ok root ∧
      processProof keccak (leafHash w) proof = .ok root := by
  obtain ⟨i, inValues, looked, sameHash⟩ := rep.leafLookup_of_mem member
  rw [StandardMerkleTree.getProof_leafBytes looked, ← sameHash]
  exact rep.getProof_number small inValues

/-- **The multi-proof of distinct values.** For values named by their numbers, no two the same,
their places within an `i32`: `get_multi_proof` succeeds; its leaves hash, in some order, to the
values' leaf hashes; and `process_multi_proof` of those hashes with its proof and flags gives the
root. -/
theorem getMultiProof_number (rep : t.Represents keccak leafHash values)
    (small : values.length ≤ 2 ^ 30) {indices : List (Fin values.length)} (distinct : indices.Nodup) :
    ∃ multiProof root,
      t.getMultiProof keccak leafHash
        (indices.map fun j : Fin values.length => .number j.val) = .ok multiProof ∧
      t.root = .ok root ∧
      processMultiProof keccak ⟨multiProof.leaves.map leafHash, multiProof.proof,
        multiProof.proofFlags⟩ = .ok root ∧
      (multiProof.leaves.map leafHash).Perm (indices.map fun j => leafHash values[j]) := by
  have inValues : ∀ j ∈ indices.map Fin.val, j < values.length := by
    intro j member
    obtain ⟨k, -, rfl⟩ := List.mem_map.mp member
    exact k.isLt
  have named : (indices.map fun j : Fin values.length => LeafType.number (V := V) j.val).mapM
      (t.valueIndex leafHash) = .ok (indices.map Fin.val) := by
    have regroup : (indices.map fun j : Fin values.length => LeafType.number (V := V) j.val) =
        (indices.map Fin.val).map LeafType.number := by
      rw [List.map_map]
      rfl
    rw [regroup, mapM_valueIndex_number]
  have leafAt : ∀ i ∈ (indices.map Fin.val).map t.placeOf,
      i < t.tree.length ∧ t.tree.length ≤ 2 * i + 1 := by
    intro i member
    obtain ⟨j, listed, rfl⟩ := List.mem_map.mp member
    exact rep.placeOf_isLeaf (inValues j listed)
  -- distinct values sit at distinct places
  have distinctPlaces : ((indices.map Fin.val).map t.placeOf).Nodup :=
    (distinct.map Fin.val_injective).map_on fun i inI j inJ samePlace =>
      rep.placeOf_injective (inValues i inI) (inValues j inJ) samePlace
  have length := rep.treeLength
  obtain ⟨core, got, processed, perm⟩ := getMultiProof_spec rep.valid (by omega) leafAt
    distinctPlaces
  have hashes : ((indices.map Fin.val).map t.placeOf).map (t.tree.getD · 0) =
      indices.map fun j => leafHash values[j] := by
    simp only [List.map_map]
    refine List.map_congr_left fun j _ => ?_
    simp [List.getD_eq_getElem?_getD, (rep.placeOf_leaf j.isLt).2]
  rw [hashes] at perm
  -- the core leaves read back as values with those hashes
  obtain ⟨leaves, readBack, hashesBack⟩ := mapM_eq_ok_of_forall (f := t.leafValue) (g := leafHash)
    fun h member => by
      obtain ⟨j, -, rfl⟩ := List.mem_map.mp (perm.mem_iff.mp member)
      exact rep.leafValue_leafHash j.isLt
  have rootAt : t.tree.head? = some (t.tree.getD 0 0) := by
    rw [List.head?_eq_getElem?, List.getD_eq_getElem _ _ rep.valid.nonempty,
      List.getElem?_eq_getElem rep.valid.nonempty]
  refine ⟨⟨leaves, core.proof, core.proofFlags⟩, t.tree.getD 0 0, ?_, ?_, ?_, ?_⟩
  · simp only [getMultiProof, named, ok_bind, rep.forM_validateValue inValues,
      rep.mapM_treeIndexOf inValues, got, processed, rootAt, unwrap, ne_eq, not_true_eq_false,
      if_false, readBack]
    rfl
  · rw [root, index_of_lt rep.valid.nonempty, List.getD_eq_getElem _ _ rep.valid.nonempty]
  · rw [hashesBack]
    exact processed
  · rw [hashesBack]
    exact perm

/-! #### What the multi-proof refuses -/

/-- A list naming a value given itself, whose leaf hash is no value's, is refused with "Leaf is not
in tree", whatever else it names. -/
theorem getMultiProof_of_absent (rep : t.Represents keccak leafHash values)
    {leaves : List (LeafType V)} {w : V} (member : .leafBytes w ∈ leaves)
    (absent : ∀ v ∈ values, leafHash v ≠ leafHash w) :
    t.getMultiProof keccak leafHash leaves = .error (.error "Leaf is not in tree") := by
  have failed : leaves.mapM (t.valueIndex leafHash) = .error (.error "Leaf is not in tree") :=
    mapM_eq_error_of_mem (fun x _ => valueIndex_ok_or_absent t x)
      ⟨.leafBytes w, member, rep.leafLookup_of_not_mem absent⟩
  simp only [getMultiProof, failed, error_bind]

/-- A list of value numbers with one out of range is refused with "Index out of range", whatever
else it names. -/
theorem getMultiProof_of_out_of_range (rep : t.Represents keccak leafHash values)
    {indices : List Nat} {j : Nat} (member : j ∈ indices) (outside : values.length ≤ j) :
    t.getMultiProof keccak leafHash (indices.map .number) = .error (.error "Index out of range") := by
  -- a number in range passes its check, so the first one out of range decides
  have failed : indices.forM (t.validateValue leafHash) = .error (.error "Index out of range") :=
    forM_eq_error_of_mem
      (fun i _ => (lt_or_ge i values.length).imp rep.validateValue_ok rep.validateValue_of_le)
      ⟨j, member, rep.validateValue_of_le outside⟩
  simp only [getMultiProof, mapM_valueIndex_number, ok_bind, failed, error_bind]

/-- A list of value numbers in range that names one twice is refused with "Cannot prove duplicated
index". -/
theorem getMultiProof_of_repeated (rep : t.Represents keccak leafHash values)
    {indices : List Nat} (inValues : ∀ j ∈ indices, j < values.length) (repeated : ¬ indices.Nodup) :
    t.getMultiProof keccak leafHash (indices.map .number) =
      .error (.error "Cannot prove duplicated index") := by
  -- one number named twice names its place twice, which the core tree refuses
  have refused : MerkleTree.getMultiProof t.tree (indices.map t.placeOf) =
      .error (.error "Cannot prove duplicated index") :=
    MerkleTree.getMultiProof_of_duplicate
      (fun i member => by
        obtain ⟨j, listed, rfl⟩ := List.mem_map.mp member
        rw [isLeafNode_eq, decide_eq_true_eq]
        exact rep.placeOf_isLeaf (inValues j listed))
      (fun distinct => repeated (distinct.of_map _))
  simp only [getMultiProof, mapM_valueIndex_number, ok_bind, rep.forM_validateValue inValues,
    rep.mapM_treeIndexOf inValues, refused, error_bind]

end Represents

end Spec

end StandardMerkleTree

/-! ### Building a tree and proving its values -/

namespace StandardMerkleTree

/-- A leaf hash for tests: injective, and always even. -/
def evenLeaf (x : Nat × Nat) : Nat := 2 * Nat.pair x.1 x.2

/-- The test leaf hash is injective. -/
theorem evenLeaf_injective (x y : Nat × Nat) (same : evenLeaf x = evenLeaf y) : x = y := by
  have paired : Nat.pair x.1 x.2 = Nat.pair y.1 y.2 := by
    unfold evenLeaf at same
    omega
  obtain ⟨first, second⟩ := Nat.pair_eq_pair.mp paired
  exact Prod.ext first second

/-- **Every value of a standard tree can be proven**, named by its index or given itself:
`get_proof` succeeds, and along the proof the value's leaf hash rebuilds the root. The places of
the tree must fit in an `i32` (`sibling_index`), so there are at most `2 ^ 30` values. -/
theorem of_getProof (keccak : Hash → Hash → Hash) (leafHash : V → Hash) (values : List V)
    (nonempty : values ≠ []) (small : values.length ≤ 2 ^ 30) :
    ∃ t root, StandardMerkleTree.of keccak leafHash values = .ok t ∧ t.root = .ok root ∧
      (∀ j (inValues : j < values.length), ∃ proof,
        t.getProof keccak leafHash (.number j) = .ok proof ∧
          processProof keccak (leafHash values[j]) proof = .ok root) ∧
      ∀ v ∈ values, ∃ proof, t.getProof keccak leafHash (.leafBytes v) = .ok proof ∧
        processProof keccak (leafHash v) proof = .ok root := by
  obtain ⟨t, built, rep⟩ := of_represents keccak leafHash values nonempty
  obtain ⟨root, rooted, -⟩ := rep.root_eq
  refine ⟨t, root, built, rooted, fun j inValues => ?_, fun v member => ?_⟩
  · obtain ⟨proof, root', got, rooted', processed⟩ := rep.getProof_number small inValues
    obtain rfl : root' = root := Except.ok.inj (rooted'.symm.trans rooted)
    exact ⟨proof, got, processed⟩
  · obtain ⟨proof, root', got, rooted', processed⟩ := rep.getProof_leafBytes small member
    obtain rfl : root' = root := Except.ok.inj (rooted'.symm.trans rooted)
    exact ⟨proof, got, processed⟩

theorem of_getProof_two_values :
    ∃ t root, StandardMerkleTree.of oddPair evenLeaf [(1, 2), (3, 4)] = .ok t ∧
      t.root = .ok root ∧
      (∀ j (inValues : j < 2), ∃ proof,
        t.getProof oddPair evenLeaf (.number j) = .ok proof ∧
          processProof oddPair (evenLeaf ([(1, 2), (3, 4)] : List (Nat × Nat))[j]) proof =
            .ok root) ∧
      ∀ v ∈ ([(1, 2), (3, 4)] : List (Nat × Nat)), ∃ proof,
        t.getProof oddPair evenLeaf (.leafBytes v) = .ok proof ∧
          processProof oddPair (evenLeaf v) proof = .ok root :=
  of_getProof oddPair evenLeaf [(1, 2), (3, 4)] (List.cons_ne_nil _ _) (by decide)

/-- **Any distinct values of a standard tree can be proven at once.** For values named by their
numbers, no two the same: `get_multi_proof` succeeds, and `process_multi_proof` of its leaves'
hashes with its proof and flags gives the tree's root. Its leaves are the chosen values' leaves
in some order, and the chosen values themselves when the leaf hash is injective. -/
theorem of_getMultiProof (keccak : Hash → Hash → Hash) (leafHash : V → Hash) (values : List V)
    (nonempty : values ≠ []) (small : values.length ≤ 2 ^ 30)
    (indices : List (Fin values.length)) (distinct : indices.Nodup) :
    ∃ t multiProof root, StandardMerkleTree.of keccak leafHash values = .ok t ∧
      t.getMultiProof keccak leafHash
        (indices.map fun j : Fin values.length => .number j.val) = .ok multiProof ∧
      t.root = .ok root ∧
      processMultiProof keccak ⟨multiProof.leaves.map leafHash, multiProof.proof,
        multiProof.proofFlags⟩ = .ok root ∧
      (multiProof.leaves.map leafHash).Perm (indices.map fun j => leafHash values[j]) ∧
      (Function.Injective leafHash → multiProof.leaves.Perm (indices.map fun j => values[j])) := by
  obtain ⟨t, built, rep⟩ := of_represents keccak leafHash values nonempty
  obtain ⟨multiProof, root, got, rooted, processed, perm⟩ := rep.getMultiProof_number small distinct
  refine ⟨t, multiProof, root, built, got, rooted, processed, perm, fun injective => ?_⟩
  -- the leaf hashes are a permutation of the chosen ones, and an injective hash reflects that
  rw [show indices.map (fun j => leafHash values[j]) = (indices.map fun j => values[j]).map leafHash
    from (List.map_map ..).symm] at perm
  exact (List.map_perm_map_iff injective).mp perm

theorem of_getMultiProof_two_of_three :
    ([(1, 2), (3, 4), (5, 6)] : List (Nat × Nat)) ≠ [] ∧ ([2, 0] : List (Fin 3)).Nodup ∧
    ∃ t multiProof root, StandardMerkleTree.of oddPair evenLeaf [(1, 2), (3, 4), (5, 6)] = .ok t ∧
      t.getMultiProof oddPair evenLeaf [.number 2, .number 0] = .ok multiProof ∧
      t.root = .ok root ∧
      processMultiProof oddPair ⟨multiProof.leaves.map evenLeaf, multiProof.proof,
        multiProof.proofFlags⟩ = .ok root ∧
      (multiProof.leaves.map evenLeaf).Perm [evenLeaf (5, 6), evenLeaf (1, 2)] ∧
      (Function.Injective evenLeaf → multiProof.leaves.Perm [(5, 6), (1, 2)]) :=
  ⟨List.cons_ne_nil _ _, by decide,
    of_getMultiProof oddPair evenLeaf [(1, 2), (3, 4), (5, 6)] (List.cons_ne_nil _ _) (by decide)
      [2, 0] (by decide)⟩

end StandardMerkleTree

/-! ### The validators' tree -/

open Ipc.Interpreter Ipc.Contracts

/-- `ValidatorMerkleTree`: the standard tree of the validators' addresses and powers. -/
structure ValidatorMerkleTree where
  tree : StandardMerkleTree (Contracts.Address × Nat)

section Validators

variable {κ : Type} (ethAddress : κ → Contracts.Address)
  (validatorLeaf : Contracts.Address × Nat → Hash)

/-- `validator_to_vec`: the validator's Ethereum address and its power. -/
def validatorToVec (validator : Validator κ) : Contracts.Address × Nat :=
  (ethAddress validator.publicKey, validator.power)

namespace ValidatorMerkleTree

/-- `ValidatorMerkleTree::new`. -/
def new (validators : List (Validator κ)) : Except Fault ValidatorMerkleTree := do
  let values := validators.map (validatorToVec ethAddress)
  let tree ← withContext "failed to construct Merkle tree"
    (StandardMerkleTree.of keccak validatorLeaf values)
  pure ⟨tree⟩

/-- `root_hash`. -/
def rootHash (self : ValidatorMerkleTree) : Except Fault Hash := self.tree.root

/-- `prove`: the proof of the validator's leaf. -/
def prove (self : ValidatorMerkleTree) (validator : Validator κ) : Except Fault (List Hash) :=
  withContext "failed to produce Merkle proof"
    (self.tree.getProof keccak validatorLeaf (.leafBytes (validatorToVec ethAddress validator)))

/-- `validate`: whether the proof takes the validator's leaf to the root. -/
def validate (validator : Validator κ) (root : Hash) (proof : List Hash) : Except Fault Bool := do
  let h := validatorLeaf (validatorToVec ethAddress validator)
  let r ← withContext "failed to process Merkle proof" (processProof keccak h proof)
  pure (root == r)

/-! #### Proving and validating a validator -/

open StandardMerkleTree

/-- `new` over a table is the tree that `of` builds over the validators' addresses and powers. -/
theorem new_eq_ok {validators : List (Validator κ)} {t : StandardMerkleTree (Contracts.Address × Nat)}
    (built : StandardMerkleTree.of keccak validatorLeaf
      (validators.map (validatorToVec ethAddress)) = .ok t) :
    new keccak ethAddress validatorLeaf validators = .ok ⟨t⟩ := by
  simp [new, built, withContext]

/-- A tree that `new` builds represents the validators' addresses and powers; `new` fails on an
empty table. -/
theorem represents_of_new {validators : List (Validator κ)} {tree : ValidatorMerkleTree}
    (built : new keccak ethAddress validatorLeaf validators = .ok tree) :
    tree.tree.Represents keccak validatorLeaf (validators.map (validatorToVec ethAddress)) := by
  have nonempty : validators.map (validatorToVec ethAddress) ≠ [] := by
    intro empty
    simp [new, empty, StandardMerkleTree.of, makeMerkleTree, withContext] at built
  obtain ⟨t, made, rep⟩ := of_represents keccak validatorLeaf _ nonempty
  rw [new_eq_ok keccak ethAddress validatorLeaf made, Except.ok.injEq] at built
  exact built ▸ rep

/-- `validate` accepts a proof exactly when it takes the validator's leaf to the root. -/
theorem validate_eq_ok_true {validator : Validator κ} {root : Hash} {proof : List Hash} :
    validate keccak ethAddress validatorLeaf validator root proof = .ok true ↔
      proof.foldl (hashPair keccak) (validatorLeaf (validatorToVec ethAddress validator)) = root := by
  have ran : validate keccak ethAddress validatorLeaf validator root proof = .ok (root ==
      proof.foldl (hashPair keccak) (validatorLeaf (validatorToVec ethAddress validator))) := rfl
  rw [ran, Except.ok.injEq, beq_iff_eq, eq_comm]

/-- The node's proof of a validator of the table takes the validator's leaf to the root. -/
theorem prove_of_mem {validators : List (Validator κ)} {tree : ValidatorMerkleTree}
    (built : new keccak ethAddress validatorLeaf validators = .ok tree)
    (small : validators.length ≤ 2 ^ 30) {validator : Validator κ} (member : validator ∈ validators) :
    ∃ proof root, tree.prove keccak ethAddress validatorLeaf validator = .ok proof ∧
      tree.rootHash = .ok root ∧
      proof.foldl (hashPair keccak) (validatorLeaf (validatorToVec ethAddress validator)) = root := by
  obtain ⟨proof, root, got, rooted, processed⟩ :=
    (represents_of_new keccak ethAddress validatorLeaf built).getProof_leafBytes
      (by simpa using small) (List.mem_map_of_mem member)
  refine ⟨proof, root, by simp [prove, got, withContext], rooted, ?_⟩
  simpa [processProof] using processed

/-- **Binding, for the validators' tree.** With `keccak` injective, the leaf hash injective, and
no leaf hash a `keccak` pair, a pair whose leaf hash some proof takes to the root of the tree over
a table is the address and power of a validator of the table. -/
theorem mem_of_foldl_eq_root (injective : ∀ a b c d, keccak a b = keccak c d → a = c ∧ b = d)
    (leafInjective : ∀ x y, validatorLeaf x = validatorLeaf y → x = y)
    (leavesNotPairs : ∀ a b x, keccak a b ≠ validatorLeaf x)
    {validators : List (Validator κ)} {tree : ValidatorMerkleTree}
    (built : new keccak ethAddress validatorLeaf validators = .ok tree) {root : Hash}
    (rooted : tree.rootHash = .ok root) (pair : Contracts.Address × Nat) (proof : List Hash)
    (folded : proof.foldl (hashPair keccak) (validatorLeaf pair) = root) :
    ∃ member ∈ validators, validatorToVec ethAddress member = pair := by
  have rep := represents_of_new keccak ethAddress validatorLeaf built
  obtain ⟨root', rooted', atRoot⟩ := rep.root_eq
  obtain rfl : root' = root := Except.ok.inj (rooted'.symm.trans rooted)
  have length := rep.treeLength
  -- every leaf of the tree is the leaf hash of a value, so none is a `keccak` pair
  have treeLeavesNotPairs : ∀ k (inTree : k < tree.tree.tree.length),
      tree.tree.tree.length ≤ 2 * k + 1 → ∀ a b, keccak a b ≠ tree.tree.tree[k] := by
    intro k inTree noChild a b
    obtain ⟨x, -, atK⟩ := rep.leaves k (by omega) inTree
    rw [Option.some.inj ((List.getElem?_eq_getElem inTree).symm.trans atK)]
    exact leavesNotPairs a b x
  obtain ⟨k, inTree, noChild, found⟩ := leaf_of_foldl_hashPair injective rep.valid
    treeLeavesNotPairs (leavesNotPairs · · _) proof (folded ▸ atRoot)
  obtain ⟨x, member, atK⟩ := rep.leaves k (by omega) inTree
  have sameLeaf : validatorLeaf x = validatorLeaf pair :=
    Option.some.inj (atK.symm.trans (found ▸ List.getElem?_eq_getElem inTree))
  obtain ⟨member', listed, rfl⟩ := List.mem_map.mp member
  exact ⟨member', listed, leafInjective _ _ sameLeaf⟩

/-- `new` builds a tree over any table that is not empty. -/
theorem new_exists {validators : List (Validator κ)} (nonempty : validators ≠ []) :
    ∃ tree, new keccak ethAddress validatorLeaf validators = .ok tree := by
  obtain ⟨t, made, -⟩ := of_represents keccak validatorLeaf
    (validators.map (validatorToVec ethAddress)) (by simpa using nonempty)
  exact ⟨⟨t⟩, new_eq_ok keccak ethAddress validatorLeaf made⟩

/-- **The node's proof of any validator of its power table verifies** against the root of the
tree it builds over the table, while the table has at most `2 ^ 30` validators. This is what a
validator relies on when it signs a checkpoint that carries that root. -/
theorem prove_validate (validators : List (Validator κ)) (nonempty : validators ≠ [])
    (small : validators.length ≤ 2 ^ 30) :
    ∃ tree root, new keccak ethAddress validatorLeaf validators = .ok tree ∧
      tree.rootHash = .ok root ∧
      ∀ validator ∈ validators, ∃ proof,
        tree.prove keccak ethAddress validatorLeaf validator = .ok proof ∧
          validate keccak ethAddress validatorLeaf validator root proof = .ok true := by
  obtain ⟨tree, built⟩ := new_exists keccak ethAddress validatorLeaf nonempty
  obtain ⟨root, rooted, -⟩ := (represents_of_new keccak ethAddress validatorLeaf built).root_eq
  refine ⟨tree, root, built, rooted, fun validator member => ?_⟩
  obtain ⟨proof, root', got, rooted', folded⟩ :=
    prove_of_mem keccak ethAddress validatorLeaf built small member
  obtain rfl : root' = root := Except.ok.inj (rooted'.symm.trans rooted)
  exact ⟨proof, got, (validate_eq_ok_true keccak ethAddress validatorLeaf).mpr folded⟩

theorem prove_validate_one_validator :
    ∃ tree root, new oddPair (fun k : Nat => k) evenLeaf [⟨5, 1⟩] = .ok tree ∧
      tree.rootHash = .ok root ∧
      ∀ validator ∈ ([⟨5, 1⟩] : List (Validator Nat)), ∃ proof,
        tree.prove oddPair (fun k : Nat => k) evenLeaf validator = .ok proof ∧
          validate oddPair (fun k : Nat => k) evenLeaf validator root proof = .ok true :=
  prove_validate oddPair (fun k : Nat => k) evenLeaf [⟨5, 1⟩] (List.cons_ne_nil _ _) (by decide)

/-- **A proof that verifies proves a validator of the table.** Take `keccak` injective, the
validators' leaf hash injective, and no leaf hash a `keccak` pair. Then for any validator and proof
that `validate` accepts against the root of the tree over a power table, some validator of the
table has the same Ethereum address and power. -/
theorem validate_binding (injective : ∀ a b c d, keccak a b = keccak c d → a = c ∧ b = d)
    (leafInjective : ∀ x y, validatorLeaf x = validatorLeaf y → x = y)
    (leavesNotPairs : ∀ a b x, keccak a b ≠ validatorLeaf x)
    (validators : List (Validator κ)) (nonempty : validators ≠ []) :
    ∃ tree root, new keccak ethAddress validatorLeaf validators = .ok tree ∧
      tree.rootHash = .ok root ∧
      ∀ validator proof, validate keccak ethAddress validatorLeaf validator root proof = .ok true →
        ∃ member ∈ validators,
          validatorToVec ethAddress member = validatorToVec ethAddress validator := by
  obtain ⟨tree, built⟩ := new_exists keccak ethAddress validatorLeaf nonempty
  obtain ⟨root, rooted, -⟩ := (represents_of_new keccak ethAddress validatorLeaf built).root_eq
  refine ⟨tree, root, built, rooted, fun validator proof accepted => ?_⟩
  exact mem_of_foldl_eq_root keccak ethAddress validatorLeaf injective leafInjective
    leavesNotPairs built rooted _ proof
    ((validate_eq_ok_true keccak ethAddress validatorLeaf).mp accepted)

theorem validate_binding_one_validator :
    ∃ tree root, new oddPair (fun k : Nat => k) evenLeaf [⟨5, 1⟩] = .ok tree ∧
      tree.rootHash = .ok root ∧
      ∀ validator proof,
        validate oddPair (fun k : Nat => k) evenLeaf validator root proof = .ok true →
          ∃ member ∈ ([⟨5, 1⟩] : List (Validator Nat)),
            validatorToVec (fun k : Nat => k) member = validatorToVec (fun k : Nat => k) validator :=
  validate_binding oddPair (fun k : Nat => k) evenLeaf oddPair_injective evenLeaf_injective
    (fun a b _ => oddPair_ne_even a b _) [⟨5, 1⟩] (List.cons_ne_nil _ _)

end ValidatorMerkleTree

end Validators

end Ipc.MerkleTree
