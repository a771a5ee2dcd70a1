/-
**Quorums over objects at a height (`LibQuorum`).**

A `QuorumMap` tracks, for each height, the quorum over one object: its hash, the Merkle root of
the membership that may sign it, the weight needed (`weightNeeded`, the floor of
`membershipWeight * majorityPercentage / 100`), the weight gathered and whether it was reached; the
set of heights whose quorum is not reached yet (`incompleteQuorums`); and, per height, the
signatories and their signatures. Below `retentionHeight` the quorums are pruned.

The signature scheme and the Merkle tree are parameters (`QuorumCrypto`): ECDSA recovery, the
pair hash the Merkle proofs fold with, and the leaf of a (signatory, weight) pair. Events are not
modelled, and neither is `quorumObjKind`, which only the events read.

* `createQuorumInfo_ok`, `addQuorumSignature_ok`, `pruneQuorums_ok` — what a successful call
  writes, with every guard it passed; the invariants of `QuorumInvariant` use only these.
* `addQuorumSignature_ok` in particular: a signature adds its signatory and its Merkle-verified
  weight at its height, and the height leaves the incomplete set exactly when the weight first
  reaches the threshold.
* `pruneQuorums_ok` — pruning clears the quorum and the signatories of every height between the
  old and the new retention height, and leaves the incomplete set as it was.
-/

import Ipc.Contracts.Basic
import Ipc.Lib.EnumerableSet
import Mathlib

namespace Ipc.Contracts

open Ipc.Lib

/-- `QuorumInfo`. -/
structure QuorumInfo where
  hash : Nat
  rootHash : Nat
  threshold : Nat
  currentWeight : Nat
  reached : Bool
  deriving DecidableEq, Repr

/-- The zero `QuorumInfo`: an unwritten slot, and what `delete` leaves. -/
def QuorumInfo.zero : QuorumInfo := ⟨0, 0, 0, 0, false⟩

/-- `QuorumMap`, without `quorumObjKind` (read only by the events). -/
structure QuorumMap where
  retentionHeight : Nat
  quorumInfo : Nat → QuorumInfo
  incompleteQuorums : EnumerableSet Nat
  quorumSignatureSenders : Nat → EnumerableSet Address
  quorumSignatures : Nat → Address → Bytes

/-- The cryptography `LibQuorum` relies on: `ECDSA.tryRecover` (`none` for any `RecoverError`),
the pair hash of `MerkleProof`, and the leaf of a signatory with a weight
(`keccak256(bytes.concat(keccak256(abi.encode(signatory, weight))))`). -/
structure QuorumCrypto where
  tryRecover : Nat → Bytes → Option Address
  hashPair : Nat → Nat → Nat
  validatorLeaf : Address → Nat → Nat

/-- `MerkleProof.processProof`: the root a proof rebuilds from a leaf. -/
def MerkleProof.processProof (hashPair : Nat → Nat → Nat) (proof : List Nat) (leaf : Nat) : Nat :=
  proof.foldl hashPair leaf

/-- `MerkleProof.verify`. -/
def MerkleProof.verify (hashPair : Nat → Nat → Nat) (proof : List Nat) (root leaf : Nat) : Bool :=
  MerkleProof.processProof hashPair proof leaf == root

namespace LibQuorum

variable (crypto : QuorumCrypto)

/-- `weightNeeded`. -/
def weightNeeded (weight majorityPercentage : Nat) : Nat :=
  weight * majorityPercentage / 100

/-- `addQuorumSignature`: recover the signatory, refuse a replay and a signatory outside the
membership, record the signature and its weight, and complete the quorum when the weight reaches
the threshold for the first time. -/
def addQuorumSignature (self : QuorumMap) (height : Nat) (membershipProof : List Nat)
    (weight : Nat) (signature : Bytes) : Except Revert QuorumMap :=
  let info := self.quorumInfo height
  match crypto.tryRecover info.hash signature with
  | none => .error .invalidSignature
  | some recoveredSignatory =>
    if (self.quorumSignatureSenders height).contains recoveredSignatory then .error .signatureReplay
    else if !MerkleProof.verify crypto.hashPair membershipProof info.rootHash
        (crypto.validatorLeaf recoveredSignatory weight) then
      .error (.notAuthorized recoveredSignatory)
    else
      let added := (self.quorumSignatureSenders height).add recoveredSignatory
      if !added.1 then .error .failedAddSignatory
      else
        let signed := { self with
          quorumSignatureSenders := Function.update self.quorumSignatureSenders height added.2,
          quorumSignatures := Function.update self.quorumSignatures height
            (Function.update (self.quorumSignatures height) recoveredSignatory signature) }
        let weighed := { info with currentWeight := info.currentWeight + weight }
        if weighed.threshold ≤ weighed.currentWeight then
          if !weighed.reached then
            let removed := signed.incompleteQuorums.remove height
            if !removed.1 then .error .failedRemoveIncompleteQuorum
            else
              .ok { signed with
                quorumInfo := Function.update signed.quorumInfo height { weighed with reached := true },
                incompleteQuorums := removed.2 }
          else .ok { signed with quorumInfo := Function.update signed.quorumInfo height weighed }
        else .ok { signed with quorumInfo := Function.update signed.quorumInfo height weighed }

/-- `createQuorumInfo`: open the quorum at a height not pruned and not incomplete. -/
def createQuorumInfo (self : QuorumMap) (objHeight objHash membershipRootHash membershipWeight
    majorityPercentage : Nat) : Except Revert QuorumMap :=
  if objHeight < self.retentionHeight then .error .quorumAlreadyProcessed
  else if membershipWeight = 0 then .error .zeroMembershipWeight
  else
    let threshold := weightNeeded membershipWeight majorityPercentage
    let added := self.incompleteQuorums.add objHeight
    if !added.1 then .error .failedAddIncompleteQuorum
    else
      .ok { self with
        incompleteQuorums := added.2,
        quorumInfo := Function.update self.quorumInfo objHeight
          { hash := objHash, rootHash := membershipRootHash, threshold := threshold,
            currentWeight := 0, reached := false } }

/-- The inner loop of `pruneQuorums` at one height: delete each old signature and remove its
signatory. -/
def pruneSenders (height : Nat) (self : QuorumMap) (oldValidators : List Address) : QuorumMap :=
  oldValidators.foldl (fun m validator => { m with
    quorumSignatures := Function.update m.quorumSignatures height
      (Function.update (m.quorumSignatures height) validator []),
    quorumSignatureSenders := Function.update m.quorumSignatureSenders height
      ((m.quorumSignatureSenders height).remove validator).2 }) self

/-- One height of `pruneQuorums`: the inner loop, then `delete` of the quorum and of the
signatories. (A Solidity `delete` of an `EnumerableSet` empties its array only; the loop has
already removed every value, and with it every position.) -/
def pruneHeight (self : QuorumMap) (height : Nat) : QuorumMap :=
  let cleared := pruneSenders height self (self.quorumSignatureSenders height).values
  { cleared with
    quorumInfo := Function.update cleared.quorumInfo height QuorumInfo.zero,
    quorumSignatureSenders := Function.update cleared.quorumSignatureSenders height
      EnumerableSet.empty }

/-- `pruneQuorums`: prune every height from the old retention height up to the new one. -/
def pruneQuorums (self : QuorumMap) (newRetentionHeight : Nat) : Except Revert QuorumMap :=
  let oldRetentionHeight := self.retentionHeight
  if newRetentionHeight ≤ oldRetentionHeight then .error .invalidRetentionHeight
  else
    .ok { (List.range' oldRetentionHeight (newRetentionHeight - oldRetentionHeight)).foldl
        pruneHeight self with retentionHeight := newRetentionHeight }

end LibQuorum

/-! ### What a call writes -/

/-- The quorum after a signature of some weight: the weight added, and reached once it is at the
threshold. -/
def QuorumInfo.addWeight (info : QuorumInfo) (weight : Nat) : QuorumInfo :=
  { info with
    currentWeight := info.currentWeight + weight,
    reached := info.reached || decide (info.threshold ≤ info.currentWeight + weight) }

@[simp]
theorem QuorumInfo.addWeight_hash (info : QuorumInfo) (weight : Nat) :
    (info.addWeight weight).hash = info.hash := rfl

@[simp]
theorem QuorumInfo.addWeight_rootHash (info : QuorumInfo) (weight : Nat) :
    (info.addWeight weight).rootHash = info.rootHash := rfl

@[simp]
theorem QuorumInfo.addWeight_threshold (info : QuorumInfo) (weight : Nat) :
    (info.addWeight weight).threshold = info.threshold := rfl

@[simp]
theorem QuorumInfo.addWeight_currentWeight (info : QuorumInfo) (weight : Nat) :
    (info.addWeight weight).currentWeight = info.currentWeight + weight := rfl

@[simp]
theorem QuorumInfo.addWeight_reached (info : QuorumInfo) (weight : Nat) :
    (info.addWeight weight).reached =
      (info.reached || decide (info.threshold ≤ info.currentWeight + weight)) := rfl

namespace LibQuorum

variable {crypto : QuorumCrypto} {self next : QuorumMap}

/-- A successful signature recovered a new signatory whose weight the membership proof verifies;
it records the signatory, its signature and its weight, and takes the height out of the
incomplete set exactly when the quorum was not reached and now is. -/
theorem addQuorumSignature_ok {height weight : Nat} {proof : List Nat} {signature : Bytes}
    (ok : addQuorumSignature crypto self height proof weight signature = .ok next) :
    ∃ signatory,
      crypto.tryRecover (self.quorumInfo height).hash signature = some signatory ∧
      signatory ∉ (self.quorumSignatureSenders height).values ∧
      MerkleProof.verify crypto.hashPair proof (self.quorumInfo height).rootHash
        (crypto.validatorLeaf signatory weight) = true ∧
      next.retentionHeight = self.retentionHeight ∧
      next.quorumInfo =
        Function.update self.quorumInfo height ((self.quorumInfo height).addWeight weight) ∧
      next.quorumSignatureSenders = Function.update self.quorumSignatureSenders height
        ((self.quorumSignatureSenders height).add signatory).2 ∧
      next.quorumSignatures = Function.update self.quorumSignatures height
        (Function.update (self.quorumSignatures height) signatory signature) ∧
      ∀ h, h ∈ next.incompleteQuorums.values ↔ h ∈ self.incompleteQuorums.values ∧
        ¬ (h = height ∧ (self.quorumInfo height).reached = false ∧
          (self.quorumInfo height).threshold ≤ (self.quorumInfo height).currentWeight + weight) := by
  unfold addQuorumSignature at ok
  cases recovered : crypto.tryRecover (self.quorumInfo height).hash signature with
  | none => simp [recovered] at ok
  | some signatory =>
    simp only [recovered] at ok
    by_cases replay : (self.quorumSignatureSenders height).contains signatory = true
    · simp [replay] at ok
    by_cases verified : MerkleProof.verify crypto.hashPair proof (self.quorumInfo height).rootHash
        (crypto.validatorLeaf signatory weight) = true
    swap
    · simp [replay, verified] at ok
    have fresh : signatory ∉ (self.quorumSignatureSenders height).values := by simpa using replay
    have added : ((self.quorumSignatureSenders height).add signatory).1 = true := by
      simp [EnumerableSet.add_fst, replay]
    simp only [replay, verified, added, Bool.not_true, Bool.false_eq_true, if_false] at ok
    refine ⟨signatory, rfl, fresh, verified, ?_⟩
    -- The three outcomes: the quorum completes now, was complete already, or is still short.
    by_cases reaches : (self.quorumInfo height).threshold ≤
        (self.quorumInfo height).currentWeight + weight
    · cases was : (self.quorumInfo height).reached
      · by_cases removed : (self.incompleteQuorums.remove height).1 = true
        swap
        · simp [reaches, was, removed] at ok
        simp only [reaches, was, removed, if_true, Bool.not_false, Bool.not_true,
          Bool.false_eq_true, if_false] at ok
        cases ok
        refine ⟨rfl, ?_, rfl, rfl, ?_⟩
        · simp [QuorumInfo.addWeight, was, reaches]
        · intro h
          simp only [EnumerableSet.mem_remove, reaches, and_true]
          tauto
      · simp only [reaches, was, if_true, Bool.not_true, Bool.false_eq_true, if_false] at ok
        cases ok
        refine ⟨rfl, ?_, rfl, rfl, ?_⟩
        · simp [QuorumInfo.addWeight, was]
        · simp
    · simp only [reaches, if_false] at ok
      cases ok
      refine ⟨rfl, ?_, rfl, rfl, ?_⟩
      · simp [QuorumInfo.addWeight, reaches]
      · simp [reaches]

/-- **When a signature is accepted.** A signature that recovers to a signatory not recorded yet,
with a weight that the membership proof verifies, is accepted when the height is listed as
incomplete in case it completes the quorum: the one condition under which a completing signature
could revert is that the height is missing from the incomplete set. -/
theorem addQuorumSignature_of_verified {height weight : Nat} {proof : List Nat}
    {signature : Bytes} {signatory : Address}
    (recovered : crypto.tryRecover (self.quorumInfo height).hash signature = some signatory)
    (fresh : signatory ∉ (self.quorumSignatureSenders height).values)
    (verified : MerkleProof.verify crypto.hashPair proof (self.quorumInfo height).rootHash
      (crypto.validatorLeaf signatory weight) = true)
    (listed : (self.quorumInfo height).reached = false →
      (self.quorumInfo height).threshold ≤ (self.quorumInfo height).currentWeight + weight →
        height ∈ self.incompleteQuorums.values) :
    ∃ next, addQuorumSignature crypto self height proof weight signature = .ok next := by
  have notContained : (self.quorumSignatureSenders height).contains signatory = false :=
    Bool.eq_false_iff.mpr fun contained => fresh ((EnumerableSet.contains_iff _ _).mp contained)
  have added : ((self.quorumSignatureSenders height).add signatory).1 = true := by
    simp [EnumerableSet.add_fst, notContained]
  unfold addQuorumSignature
  simp only [recovered, notContained, verified, added, Bool.not_true, Bool.false_eq_true,
    if_false]
  -- the three outcomes, as in `addQuorumSignature_ok`; only completing the quorum can revert
  by_cases reaches : (self.quorumInfo height).threshold ≤
      (self.quorumInfo height).currentWeight + weight
  · cases was : (self.quorumInfo height).reached
    · have removed : (self.incompleteQuorums.remove height).1 = true := by
        rw [EnumerableSet.remove_fst, EnumerableSet.contains_iff]
        exact listed was reaches
      simp [reaches, removed]
    · simp [reaches]
  · simp [reaches]

/-- A successful creation is at a height at or above the retention height, with some membership
weight, not incomplete yet; it opens the quorum there with the threshold `weightNeeded` and no
weight. -/
theorem createQuorumInfo_ok {height hash root membershipWeight majorityPercentage : Nat}
    (ok : createQuorumInfo self height hash root membershipWeight majorityPercentage = .ok next) :
    self.retentionHeight ≤ height ∧ membershipWeight ≠ 0 ∧
      height ∉ self.incompleteQuorums.values ∧
      next = { self with
        incompleteQuorums := (self.incompleteQuorums.add height).2,
        quorumInfo := Function.update self.quorumInfo height
          { hash := hash, rootHash := root,
            threshold := weightNeeded membershipWeight majorityPercentage,
            currentWeight := 0, reached := false } } := by
  unfold createQuorumInfo at ok
  by_cases pruned : height < self.retentionHeight
  · simp [pruned] at ok
  by_cases weightless : membershipWeight = 0
  · simp [pruned, weightless] at ok
  by_cases present : self.incompleteQuorums.contains height = true
  · simp [pruned, weightless, present, EnumerableSet.add_fst] at ok
  simp only [pruned, weightless, EnumerableSet.add_fst, present, if_false, Bool.not_false,
    Bool.not_true, Bool.false_eq_true] at ok
  cases ok
  exact ⟨Nat.not_lt.mp pruned, weightless, by simpa using present, rfl⟩

/-- The inner loop of pruning writes only the signatures and the signatories at its height. -/
theorem pruneSenders_eq (height : Nat) (self : QuorumMap) (oldValidators : List Address) :
    ∃ senders signatures, pruneSenders height self oldValidators = { self with
      quorumSignatureSenders := Function.update self.quorumSignatureSenders height senders,
      quorumSignatures := signatures } := by
  induction oldValidators generalizing self with
  | nil => exact ⟨self.quorumSignatureSenders height, self.quorumSignatures, by simp [pruneSenders]⟩
  | cons validator rest ih =>
    obtain ⟨senders, signatures, eq⟩ := ih { self with
      quorumSignatures := Function.update self.quorumSignatures height
        (Function.update (self.quorumSignatures height) validator []),
      quorumSignatureSenders := Function.update self.quorumSignatureSenders height
        ((self.quorumSignatureSenders height).remove validator).2 }
    refine ⟨senders, signatures, ?_⟩
    simp only [pruneSenders, List.foldl_cons] at eq ⊢
    rw [eq, Function.update_idem]

/-- Pruning one height zeroes its quorum and empties its signatories, and of the rest writes only
the signatures. -/
theorem pruneHeight_eq (self : QuorumMap) (height : Nat) :
    ∃ signatures, pruneHeight self height = { self with
      quorumInfo := Function.update self.quorumInfo height QuorumInfo.zero,
      quorumSignatureSenders := Function.update self.quorumSignatureSenders height
        EnumerableSet.empty,
      quorumSignatures := signatures } := by
  obtain ⟨senders, signatures, eq⟩ :=
    pruneSenders_eq height self (self.quorumSignatureSenders height).values
  refine ⟨signatures, ?_⟩
  simp only [pruneHeight, eq, Function.update_idem]

@[simp]
theorem pruneHeight_retentionHeight (self : QuorumMap) (height : Nat) :
    (pruneHeight self height).retentionHeight = self.retentionHeight := by
  obtain ⟨signatures, eq⟩ := pruneHeight_eq self height
  rw [eq]

@[simp]
theorem pruneHeight_incompleteQuorums (self : QuorumMap) (height : Nat) :
    (pruneHeight self height).incompleteQuorums = self.incompleteQuorums := by
  obtain ⟨signatures, eq⟩ := pruneHeight_eq self height
  rw [eq]

@[simp]
theorem pruneHeight_quorumInfo (self : QuorumMap) (height : Nat) :
    (pruneHeight self height).quorumInfo = Function.update self.quorumInfo height QuorumInfo.zero := by
  obtain ⟨signatures, eq⟩ := pruneHeight_eq self height
  rw [eq]

@[simp]
theorem pruneHeight_quorumSignatureSenders (self : QuorumMap) (height : Nat) :
    (pruneHeight self height).quorumSignatureSenders =
      Function.update self.quorumSignatureSenders height EnumerableSet.empty := by
  obtain ⟨signatures, eq⟩ := pruneHeight_eq self height
  rw [eq]

/-- Pruning a list of heights clears the quorum and the signatories at each of them. -/
theorem foldl_pruneHeight (heights : List Nat) (self : QuorumMap) :
    let pruned := heights.foldl pruneHeight self
    pruned.retentionHeight = self.retentionHeight ∧
      pruned.incompleteQuorums = self.incompleteQuorums ∧
      (∀ h, pruned.quorumInfo h = if h ∈ heights then QuorumInfo.zero else self.quorumInfo h) ∧
      ∀ h, (pruned.quorumSignatureSenders h).values =
        if h ∈ heights then [] else (self.quorumSignatureSenders h).values := by
  induction heights generalizing self with
  | nil => simp
  | cons height rest ih =>
    obtain ⟨retention, incomplete, info, senders⟩ := ih (pruneHeight self height)
    refine ⟨by simpa using retention, by simpa using incomplete, ?_, ?_⟩
    · intro h
      rw [List.foldl_cons, info h]
      by_cases here : h = height
      · simp [here]
      · simp [here]
    · intro h
      rw [List.foldl_cons, senders h]
      by_cases here : h = height
      · simp [here]
      · simp [here]

/-- A successful pruning raises the retention height, clears the quorum and the signatories of
every height from the old retention height up to the new one, and leaves the incomplete set as
it was. -/
theorem pruneQuorums_ok {newRetentionHeight : Nat}
    (ok : pruneQuorums self newRetentionHeight = .ok next) :
    self.retentionHeight < newRetentionHeight ∧ next.retentionHeight = newRetentionHeight ∧
      next.incompleteQuorums = self.incompleteQuorums ∧
      (∀ h, next.quorumInfo h =
        if self.retentionHeight ≤ h ∧ h < newRetentionHeight then QuorumInfo.zero
        else self.quorumInfo h) ∧
      ∀ h, (next.quorumSignatureSenders h).values =
        if self.retentionHeight ≤ h ∧ h < newRetentionHeight then []
        else (self.quorumSignatureSenders h).values := by
  unfold pruneQuorums at ok
  by_cases stale : newRetentionHeight ≤ self.retentionHeight
  · simp [stale] at ok
  simp only [stale, if_false] at ok
  cases ok
  have range : ∀ h, h ∈ List.range' self.retentionHeight
      (newRetentionHeight - self.retentionHeight) ↔
        self.retentionHeight ≤ h ∧ h < newRetentionHeight := by
    intro h
    rw [List.mem_range'_1]
    omega
  obtain ⟨-, incomplete, info, senders⟩ := foldl_pruneHeight
    (List.range' self.retentionHeight (newRetentionHeight - self.retentionHeight)) self
  refine ⟨Nat.not_le.mp stale, rfl, incomplete, fun h => ?_, fun h => ?_⟩
  · simpa only [range] using info h
  · simpa only [range] using senders h

end LibQuorum

end Ipc.Contracts
