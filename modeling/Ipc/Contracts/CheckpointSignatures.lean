/-
**Checkpoint signatures, from the node's validator tree to the gateway's quorum
(`CheckpointingFacet.createBottomUpCheckpoint`, `addCheckpointSignature`,
`pruneBottomUpCheckpoints`, and the node's `create_bottom_up_checkpoint` and
`add_checkpoint_signature_calldata`).**

At a checkpoint height the node builds the Merkle tree of its power table (`ValidatorMerkleTree`),
and the system actor opens the checkpoint's quorum in the gateway with the tree's root and the
table's total power. Each validator then signs the checkpoint's hash and sends the signature with
its power and the proof of its leaf. The gateway recovers the signer, checks the proof against the
root, and adds the power to the quorum (`LibQuorum.addQuorumSignature`). The system actor prunes
old checkpoints together with their quorums.

The gateway's side is a transition system over the stored checkpoints and the quorum map
(`CheckpointingStep`). Runs start from the state the gateway constructor leaves. Over every run:

* `CheckpointingInvariant` — the retention height is positive, and only heights with a stored
  checkpoint have signatories. A stored checkpoint at or above the retention height stays listed
  as incomplete until its quorum is reached, and the quorum map keeps its `Bookkeeping`;
* `checkpointing_refines_quorumMap` — every run of the facet is a run of the quorum map of
  `QuorumInvariant`, since the facet opens a quorum only where no signatory is recorded;
* `QuorumFor.later` — once the node's checkpoint is stored, the quorum at its height keeps its hash
  and its root in every later state, until the height is pruned;
* `addCheckpointSignature_of_powerTable` — each validator of the table that has not signed yet has
  the signature from the node's own calldata accepted, and its power added;
* `checkpointing_signers_powerTable` — with collision-free hashes, every signer of a quorum opened
  with the root of a table is a validator of that table, and the quorum's weight is the sum of the
  signers' powers.

The node and the gateway hash alike (`SharedHashes`): the gateway's pair hash is the tree's, and
its leaf of a signer with a weight is the tree's leaf of the pair. The checkpoint's ABI hash and
the signature scheme are parameters. Left out are the message batches that pruning also deletes,
the events, and the ABI encoding of the calldata.
-/

import Mathlib
import Ipc.Contracts.QuorumInvariant
import Ipc.MerkleTree.Standard

namespace Ipc.Contracts

open Ipc.Lib Ipc.MerkleTree Ipc.Interpreter

/-- The errors of checkpoint signatures: the facet's own checks, and the reverts of the library
calls it makes. -/
inductive CheckpointRevert
  | checkpointAlreadyExists
  | checkpointNotCreated
  | revert (revert : Revert)
  deriving DecidableEq, Repr

/-- A checkpoint slot never written, and what `delete` leaves. -/
def BottomUpCheckpoint.zero : BottomUpCheckpoint := ⟨⟨0, []⟩, 0, 0, 0, []⟩

/-- The part of the gateway's storage that checkpoint signatures read and write. -/
structure CheckpointingStorage where
  majorityPercentage : Nat
  bottomUpCheckpoints : Nat → BottomUpCheckpoint
  checkpointQuorumMap : QuorumMap

namespace LibGateway

/-- `getBottomUpCheckpoint`: the checkpoint at a height, stored when its block height is not
`0`. -/
def getBottomUpCheckpoint (s : CheckpointingStorage) (epoch : Nat) : Bool × BottomUpCheckpoint :=
  ((s.bottomUpCheckpoints epoch).blockHeight != 0, s.bottomUpCheckpoints epoch)

/-- `bottomUpCheckpointExists`. -/
def bottomUpCheckpointExists (s : CheckpointingStorage) (epoch : Nat) : Bool :=
  (s.bottomUpCheckpoints epoch).blockHeight != 0

/-- `storeBottomUpCheckpoint`: write the checkpoint's fields at its height, its messages pushed
after those already there. -/
def storeBottomUpCheckpoint (s : CheckpointingStorage) (checkpoint : BottomUpCheckpoint) :
    CheckpointingStorage :=
  let b := s.bottomUpCheckpoints checkpoint.blockHeight
  let stored : BottomUpCheckpoint := { b with
    blockHash := checkpoint.blockHash, subnetID := checkpoint.subnetID,
    nextConfigurationNumber := checkpoint.nextConfigurationNumber,
    blockHeight := checkpoint.blockHeight, msgs := b.msgs ++ checkpoint.msgs }
  { s with bottomUpCheckpoints := Function.update s.bottomUpCheckpoints checkpoint.blockHeight stored }

@[simp]
theorem storeBottomUpCheckpoint_checkpointQuorumMap (s : CheckpointingStorage)
    (checkpoint : BottomUpCheckpoint) :
    (storeBottomUpCheckpoint s checkpoint).checkpointQuorumMap = s.checkpointQuorumMap := rfl

/-- Storing a checkpoint makes its height stored exactly when that height is not `0`. -/
theorem bottomUpCheckpointExists_store (s : CheckpointingStorage) (checkpoint : BottomUpCheckpoint)
    (h : Nat) : bottomUpCheckpointExists (storeBottomUpCheckpoint s checkpoint) h =
      if h = checkpoint.blockHeight then checkpoint.blockHeight != 0
      else bottomUpCheckpointExists s h := by
  by_cases here : h = checkpoint.blockHeight
  · subst here
    simp [bottomUpCheckpointExists, storeBottomUpCheckpoint]
  · simp [bottomUpCheckpointExists, storeBottomUpCheckpoint, here]

end LibGateway

namespace LibQuorum

/-- `isHeightAlreadyProcessed`: refuse a height below the retention height. -/
def isHeightAlreadyProcessed (self : QuorumMap) (height : Nat) : Except Revert Unit :=
  if height < self.retentionHeight then .error .quorumAlreadyProcessed else .ok ()

end LibQuorum

/-! ### The facet -/

namespace CheckpointingFacet

variable (crypto : QuorumCrypto) (checkpointHash : BottomUpCheckpoint → Nat)
  (systemActor : Address)

/-- `systemActorOnly`. -/
def systemActorOnly (sender : Address) : Except CheckpointRevert Unit :=
  if sender ≠ systemActor then .error (.revert .notSystemActor) else .ok ()

/-- `createBottomUpCheckpoint`: the system actor opens the quorum of a checkpoint not stored yet,
over the hash of the checkpoint, and stores the checkpoint. -/
def createBottomUpCheckpoint (s : CheckpointingStorage) (sender : Address)
    (checkpoint : BottomUpCheckpoint) (membershipRootHash membershipWeight : Nat) :
    Except CheckpointRevert CheckpointingStorage := do
  systemActorOnly systemActor sender
  if LibGateway.bottomUpCheckpointExists s checkpoint.blockHeight then
    throw .checkpointAlreadyExists
  let quorumMap ← (LibQuorum.createQuorumInfo s.checkpointQuorumMap checkpoint.blockHeight
    (checkpointHash checkpoint) membershipRootHash membershipWeight
    s.majorityPercentage).mapError .revert
  pure (LibGateway.storeBottomUpCheckpoint { s with checkpointQuorumMap := quorumMap } checkpoint)

/-- `pruneBottomUpCheckpoints`: the system actor deletes the checkpoints from the retention height
up to the new one, then prunes their quorums. -/
def pruneBottomUpCheckpoints (s : CheckpointingStorage) (sender : Address)
    (newRetentionHeight : Nat) : Except CheckpointRevert CheckpointingStorage := do
  systemActorOnly systemActor sender
  let old := s.checkpointQuorumMap.retentionHeight
  let cleared := (List.range' old (newRetentionHeight - old)).foldl (fun s h =>
    { s with bottomUpCheckpoints := Function.update s.bottomUpCheckpoints h BottomUpCheckpoint.zero })
    s
  let quorumMap ← (LibQuorum.pruneQuorums cleared.checkpointQuorumMap newRetentionHeight).mapError
    .revert
  pure { cleared with checkpointQuorumMap := quorumMap }

/-- `addCheckpointSignature`: at a height not pruned whose checkpoint is stored, add the signature
to the checkpoint's quorum. -/
def addCheckpointSignature (s : CheckpointingStorage) (height : Nat) (membershipProof : List Nat)
    (weight : Nat) (signature : Bytes) : Except CheckpointRevert CheckpointingStorage := do
  (LibQuorum.isHeightAlreadyProcessed s.checkpointQuorumMap height).mapError .revert
  let (checkpointExists, _) := LibGateway.getBottomUpCheckpoint s height
  if !checkpointExists then throw .checkpointNotCreated
  let quorumMap ← (LibQuorum.addQuorumSignature crypto s.checkpointQuorumMap height membershipProof
    weight signature).mapError .revert
  pure { s with checkpointQuorumMap := quorumMap }

end CheckpointingFacet

/-- The checkpointing calls of a run. -/
inductive CheckpointingCall
  | createBottomUpCheckpoint (sender : Address) (checkpoint : BottomUpCheckpoint)
      (membershipRootHash membershipWeight : Nat)
  | addCheckpointSignature (height : Nat) (membershipProof : List Nat) (weight : Nat)
      (signature : Bytes)
  | pruneBottomUpCheckpoints (sender : Address) (newRetentionHeight : Nat)

section Runs

variable (crypto : QuorumCrypto) (checkpointHash : BottomUpCheckpoint → Nat)
  (systemActor : Address)

/-- The call applied to the storage. -/
def CheckpointingCall.run (s : CheckpointingStorage) :
    CheckpointingCall → Except CheckpointRevert CheckpointingStorage
  | .createBottomUpCheckpoint sender checkpoint root weight =>
    CheckpointingFacet.createBottomUpCheckpoint checkpointHash systemActor s sender checkpoint root
      weight
  | .addCheckpointSignature height proof weight signature =>
    CheckpointingFacet.addCheckpointSignature crypto s height proof weight signature
  | .pruneBottomUpCheckpoints sender newRetentionHeight =>
    CheckpointingFacet.pruneBottomUpCheckpoints systemActor s sender newRetentionHeight

/-- A step of a run: a call that succeeds. -/
def CheckpointingStep (s : CheckpointingStorage) (call : CheckpointingCall)
    (next : CheckpointingStorage) : Prop :=
  call.run crypto checkpointHash systemActor s = .ok next

end Runs

/-- The state the gateway constructor leaves: no checkpoint stored, and the zero quorum map with
the retention height `1`. -/
def CheckpointingStorage.initial (majorityPercentage : Nat) : CheckpointingStorage :=
  ⟨majorityPercentage, fun _ => BottomUpCheckpoint.zero, QuorumMap.zero 1⟩

/-- The states a run starts from. -/
def CheckpointingInitial (s : CheckpointingStorage) : Prop :=
  ∃ majorityPercentage, s = CheckpointingStorage.initial majorityPercentage

/-! ### The node's side -/

section Node

variable {κ σ : Type} (keccak : Hash → Hash → Hash) (ethAddress : κ → Address)
  (validatorLeaf : Address × Nat → Hash)

/-- `saturating_add` of `U256`. -/
def saturatingAdd (a b : Nat) : Nat := min (a + b) (2 ^ 256 - 1)

/-- The arguments the node passes to `createBottomUpCheckpoint` (`create_bottom_up_checkpoint`):
the root of the validator tree over the power table, and the table's total power. -/
def createBottomUpCheckpointArgs (powerTable : Interpreter.PowerTable κ) : Except Api.Fault (Hash × Nat) := do
  let tree ← withContext "failed to create validator tree"
    (ValidatorMerkleTree.new keccak ethAddress validatorLeaf powerTable)
  let totalPower := powerTable.foldl (fun p v => saturatingAdd p v.power) 0
  let root ← tree.rootHash
  pure (root, totalPower)

/-- `add_checkpoint_signature_calldata`, without the ABI encoding of the call: the checkpoint's
height, the validator's proof in the tree over the power table, its power, and its signature of
the checkpoint's hash. -/
def addCheckpointSignatureCalldata (checkpointHash : BottomUpCheckpoint → Nat)
    (sign : σ → Nat → Bytes) (checkpoint : BottomUpCheckpoint) (powerTable : Interpreter.PowerTable κ)
    (validator : Interpreter.Validator κ) (secretKey : σ) :
    Except Api.Fault (Nat × List Hash × Nat × Bytes) := do
  let height := checkpoint.blockHeight
  let weight := validator.power
  let hash := checkpointHash checkpoint
  let signature := sign secretKey hash
  let tree ← withContext "failed to construct Merkle tree"
    (ValidatorMerkleTree.new keccak ethAddress validatorLeaf powerTable)
  let membershipProof ← withContext "failed to construct Merkle proof"
    (tree.prove keccak ethAddress validatorLeaf validator)
  pure (height, membershipProof, weight, signature)

end Node

/-- The node and the gateway hash alike: the gateway's pair hash is the tree's, and its leaf of a
signatory with a weight is the tree's leaf of the pair. -/
structure SharedHashes (crypto : QuorumCrypto) (keccak : Hash → Hash → Hash)
    (validatorLeaf : Address × Nat → Hash) : Prop where
  pairHash : crypto.hashPair = hashPair keccak
  leafHash : ∀ signatory weight, crypto.validatorLeaf signatory weight = validatorLeaf (signatory, weight)

/-! ### What a call writes -/

namespace CheckpointingFacet

variable {crypto : QuorumCrypto} {checkpointHash : BottomUpCheckpoint → Nat}
  {systemActor : Address} {s next : CheckpointingStorage}

theorem systemActorOnly_eq_ok {sender : Address} :
    systemActorOnly systemActor sender = .ok () ↔ sender = systemActor := by
  unfold systemActorOnly
  by_cases same : sender = systemActor <;> simp [same]

/-- A stored checkpoint: the system actor opened the quorum at a height with no checkpoint, and
stored the checkpoint. -/
theorem createBottomUpCheckpoint_ok {sender : Address} {checkpoint : BottomUpCheckpoint}
    {root weight : Nat}
    (ok : createBottomUpCheckpoint checkpointHash systemActor s sender checkpoint root weight =
      .ok next) :
    sender = systemActor ∧
      LibGateway.bottomUpCheckpointExists s checkpoint.blockHeight = false ∧
      ∃ quorumMap, LibQuorum.createQuorumInfo s.checkpointQuorumMap checkpoint.blockHeight
          (checkpointHash checkpoint) root weight s.majorityPercentage = .ok quorumMap ∧
        next = LibGateway.storeBottomUpCheckpoint { s with checkpointQuorumMap := quorumMap }
          checkpoint := by
  unfold createBottomUpCheckpoint at ok
  by_cases allowed : sender = systemActor
  swap
  · simp [systemActorOnly, allowed] at ok
  cases stored : LibGateway.bottomUpCheckpointExists s checkpoint.blockHeight
  · cases created : LibQuorum.createQuorumInfo s.checkpointQuorumMap checkpoint.blockHeight
        (checkpointHash checkpoint) root weight s.majorityPercentage with
    | error e => simp [systemActorOnly, allowed, stored, created, Except.mapError] at ok
    | ok quorumMap =>
      simp only [systemActorOnly, allowed, stored, created, ne_eq, not_true_eq_false, if_false,
        Bool.false_eq_true, Except.mapError, ok_bind] at ok
      exact ⟨allowed, rfl, quorumMap, rfl, (Except.ok.inj ok).symm⟩
  · simp [systemActorOnly, allowed, stored] at ok

/-- An added signature: at a height not pruned with a stored checkpoint, the quorum map takes the
signature. -/
theorem addCheckpointSignature_ok {height weight : Nat} {proof : List Nat} {signature : Bytes}
    (ok : addCheckpointSignature crypto s height proof weight signature = .ok next) :
    s.checkpointQuorumMap.retentionHeight ≤ height ∧
      LibGateway.bottomUpCheckpointExists s height = true ∧
      ∃ quorumMap, LibQuorum.addQuorumSignature crypto s.checkpointQuorumMap height proof weight
          signature = .ok quorumMap ∧
        next = { s with checkpointQuorumMap := quorumMap } := by
  unfold addCheckpointSignature at ok
  by_cases pruned : height < s.checkpointQuorumMap.retentionHeight
  · simp [LibQuorum.isHeightAlreadyProcessed, pruned, Except.mapError] at ok
  cases stored : LibGateway.bottomUpCheckpointExists s height
  · have unstored : ((s.bottomUpCheckpoints height).blockHeight != 0) = false := stored
    simp [LibQuorum.isHeightAlreadyProcessed, pruned, Except.mapError,
      LibGateway.getBottomUpCheckpoint, unstored] at ok
  · have stored' : ((s.bottomUpCheckpoints height).blockHeight != 0) = true := stored
    cases signed : LibQuorum.addQuorumSignature crypto s.checkpointQuorumMap height proof weight
        signature with
    | error e =>
      simp [LibQuorum.isHeightAlreadyProcessed, pruned, Except.mapError,
        LibGateway.getBottomUpCheckpoint, stored', signed] at ok
    | ok quorumMap =>
      simp only [LibQuorum.isHeightAlreadyProcessed, pruned, if_false, Except.mapError, ok_bind,
        LibGateway.getBottomUpCheckpoint, stored', Bool.not_true, Bool.false_eq_true,
        signed] at ok
      exact ⟨Nat.le_of_not_lt pruned, rfl, quorumMap, rfl, (Except.ok.inj ok).symm⟩

/-- The deletion loop of `pruneBottomUpCheckpoints` zeroes the checkpoints at the listed heights
and leaves everything else. -/
theorem foldl_delete (heights : List Nat) (s : CheckpointingStorage) :
    let cleared := heights.foldl (fun s h => { s with
      bottomUpCheckpoints := Function.update s.bottomUpCheckpoints h BottomUpCheckpoint.zero }) s
    cleared.checkpointQuorumMap = s.checkpointQuorumMap ∧
      ∀ h, cleared.bottomUpCheckpoints h =
        if h ∈ heights then BottomUpCheckpoint.zero else s.bottomUpCheckpoints h := by
  induction heights generalizing s with
  | nil => simp
  | cons height rest ih =>
    obtain ⟨kept, deleted⟩ := ih { s with
      bottomUpCheckpoints := Function.update s.bottomUpCheckpoints height BottomUpCheckpoint.zero }
    refine ⟨kept, fun h => ?_⟩
    rw [List.foldl_cons, deleted h]
    by_cases here : h = height
    · simp [here]
    · simp [here]

/-- A pruning: the system actor raised the retention height; the checkpoints below it from the old
one on are deleted, and the quorum map is pruned. -/
theorem pruneBottomUpCheckpoints_ok {sender : Address} {newRetentionHeight : Nat}
    (ok : pruneBottomUpCheckpoints systemActor s sender newRetentionHeight = .ok next) :
    sender = systemActor ∧
      LibQuorum.pruneQuorums s.checkpointQuorumMap newRetentionHeight =
        .ok next.checkpointQuorumMap ∧
      ∀ h, next.bottomUpCheckpoints h =
        if s.checkpointQuorumMap.retentionHeight ≤ h ∧ h < newRetentionHeight then
          BottomUpCheckpoint.zero
        else s.bottomUpCheckpoints h := by
  unfold pruneBottomUpCheckpoints at ok
  obtain ⟨⟨⟩, allowed, ok⟩ := bind_eq_ok.mp ok
  obtain ⟨kept, deleted⟩ := foldl_delete (List.range' s.checkpointQuorumMap.retentionHeight
    (newRetentionHeight - s.checkpointQuorumMap.retentionHeight)) s
  obtain ⟨quorumMap, pruned, done⟩ := bind_eq_ok.mp ok
  cases Except.ok.inj done
  rw [kept] at pruned
  refine ⟨systemActorOnly_eq_ok.mp allowed, mapError_eq_ok.mp pruned, fun h => ?_⟩
  rw [deleted h]
  simp only [List.mem_range'_1]
  congr 1
  exact propext ⟨fun ⟨low, high⟩ => ⟨low, by omega⟩, fun ⟨low, high⟩ => ⟨low, by omega⟩⟩

/-- The converse: at a height not pruned with a stored checkpoint, the facet takes every signature
the quorum map takes. -/
theorem addCheckpointSignature_of_ok {height weight : Nat} {proof : List Nat} {signature : Bytes}
    {quorumMap : QuorumMap} (notPruned : s.checkpointQuorumMap.retentionHeight ≤ height)
    (stored : LibGateway.bottomUpCheckpointExists s height = true)
    (signed : LibQuorum.addQuorumSignature crypto s.checkpointQuorumMap height proof weight
      signature = .ok quorumMap) :
    addCheckpointSignature crypto s height proof weight signature =
      .ok { s with checkpointQuorumMap := quorumMap } := by
  have stored' : ((s.bottomUpCheckpoints height).blockHeight != 0) = true := stored
  simp only [addCheckpointSignature, LibQuorum.isHeightAlreadyProcessed, Nat.not_lt.mpr notPruned,
    if_false, Except.mapError, ok_bind, LibGateway.getBottomUpCheckpoint, stored', Bool.not_true,
    Bool.false_eq_true, signed]
  rfl

end CheckpointingFacet

/-! ### The invariant of every run -/

/-- What every state of a run keeps: the quorum map's bookkeeping; a positive retention height;
signatories only at heights with a stored checkpoint; and every stored checkpoint at or above the
retention height listed as incomplete while its quorum is not reached. -/
structure CheckpointingInvariant (crypto : QuorumCrypto) (s : CheckpointingStorage) : Prop where
  bookkeeping : Bookkeeping crypto s.checkpointQuorumMap
  retentionPositive : 0 < s.checkpointQuorumMap.retentionHeight
  signedStored : ∀ h, LibGateway.bottomUpCheckpointExists s h = false →
    (s.checkpointQuorumMap.quorumSignatureSenders h).values = []
  storedIncomplete : ∀ h, s.checkpointQuorumMap.retentionHeight ≤ h →
    LibGateway.bottomUpCheckpointExists s h = true →
    (s.checkpointQuorumMap.quorumInfo h).reached = false →
    h ∈ s.checkpointQuorumMap.incompleteQuorums.values

namespace CheckpointingInvariant

variable {crypto : QuorumCrypto} {checkpointHash : BottomUpCheckpoint → Nat}
  {systemActor : Address} {s next : CheckpointingStorage}

theorem initial (crypto : QuorumCrypto) (majorityPercentage : Nat) :
    CheckpointingInvariant crypto (CheckpointingStorage.initial majorityPercentage) where
  bookkeeping := Bookkeeping.zero crypto 1
  retentionPositive := Nat.one_pos
  signedStored _ _ := rfl
  storedIncomplete _ _ stored := by
    simp [LibGateway.bottomUpCheckpointExists, CheckpointingStorage.initial,
      BottomUpCheckpoint.zero] at stored

/-- Storing a checkpoint opens its quorum: the height joins the incomplete set, and other heights
keep their checkpoints and their quorums. -/
theorem create (inv : CheckpointingInvariant crypto s) {sender : Address}
    {checkpoint : BottomUpCheckpoint} {root weight : Nat}
    (ok : CheckpointingFacet.createBottomUpCheckpoint checkpointHash systemActor s sender checkpoint
      root weight = .ok next) : CheckpointingInvariant crypto next := by
  obtain ⟨-, unstored, quorumMap, created, rfl⟩ := CheckpointingFacet.createBottomUpCheckpoint_ok ok
  obtain ⟨-, -, -, opened⟩ := LibQuorum.createQuorumInfo_ok created
  have noSigners := inv.signedStored _ unstored
  -- the checkpoints before the store are those of `s`; the store writes only at the new height
  have storedAt := LibGateway.bottomUpCheckpointExists_store
    { s with checkpointQuorumMap := quorumMap } checkpoint
  constructor
  · exact inv.bookkeeping.create noSigners created
  · simpa [opened] using inv.retentionPositive
  · intro h unstoredNow
    rw [storedAt] at unstoredNow
    simp only [LibGateway.storeBottomUpCheckpoint_checkpointQuorumMap, opened]
    by_cases here : h = checkpoint.blockHeight
    · subst here
      exact noSigners
    · rw [if_neg here] at unstoredNow
      exact inv.signedStored h unstoredNow
  · intro h above storedNow unreached
    simp only [LibGateway.storeBottomUpCheckpoint_checkpointQuorumMap, opened] at above unreached ⊢
    rw [EnumerableSet.mem_add]
    by_cases here : h = checkpoint.blockHeight
    · exact .inl here
    · rw [storedAt, if_neg here] at storedNow
      rw [Function.update_of_ne here] at unreached
      exact .inr (inv.storedIncomplete h above storedNow unreached)

/-- A signature touches only its own height's quorum; the height leaves the incomplete set only
when the quorum is reached. -/
theorem sign (inv : CheckpointingInvariant crypto s) {height weight : Nat} {proof : List Nat}
    {signature : Bytes}
    (ok : CheckpointingFacet.addCheckpointSignature crypto s height proof weight signature =
      .ok next) : CheckpointingInvariant crypto next := by
  obtain ⟨-, stored, quorumMap, signed, rfl⟩ := CheckpointingFacet.addCheckpointSignature_ok ok
  obtain ⟨signatory, -, -, -, retention, info, senders, -, incomplete⟩ :=
    LibQuorum.addQuorumSignature_ok signed
  constructor
  · exact inv.bookkeeping.sign signed
  · show 0 < quorumMap.retentionHeight
    rw [retention]
    exact inv.retentionPositive
  · intro h unstored
    have unstored' : LibGateway.bottomUpCheckpointExists s h = false := unstored
    have other : h ≠ height := by
      rintro rfl
      rw [stored] at unstored'
      cases unstored'
    show (quorumMap.quorumSignatureSenders h).values = []
    rw [senders, Function.update_of_ne other]
    exact inv.signedStored h unstored'
  · intro h above storedNow unreached
    have storedNow' : LibGateway.bottomUpCheckpointExists s h = true := storedNow
    change quorumMap.retentionHeight ≤ h at above
    change (quorumMap.quorumInfo h).reached = false at unreached
    rw [retention] at above
    show h ∈ quorumMap.incompleteQuorums.values
    rw [incomplete h]
    by_cases here : h = height
    · subst here
      rw [info, Function.update_self, QuorumInfo.addWeight_reached, Bool.or_eq_false_iff,
        decide_eq_false_iff_not] at unreached
      exact ⟨inv.storedIncomplete h above storedNow' unreached.1,
        fun ⟨_, _, reaches⟩ => unreached.2 reaches⟩
    · rw [info, Function.update_of_ne here] at unreached
      exact ⟨inv.storedIncomplete h above storedNow' unreached, fun ⟨same, _⟩ => here same⟩

/-- Pruning raises the retention height past the heights it clears; the heights at or above the
new retention height keep their checkpoints, their quorums and their listing. -/
theorem prune (inv : CheckpointingInvariant crypto s) {sender : Address} {newRetentionHeight : Nat}
    (ok : CheckpointingFacet.pruneBottomUpCheckpoints systemActor s sender newRetentionHeight =
      .ok next) : CheckpointingInvariant crypto next := by
  obtain ⟨-, pruned, deleted⟩ := CheckpointingFacet.pruneBottomUpCheckpoints_ok ok
  obtain ⟨raised, retention, incomplete, info, senders⟩ := LibQuorum.pruneQuorums_ok pruned
  have storedAt : ∀ h, LibGateway.bottomUpCheckpointExists next h =
      if s.checkpointQuorumMap.retentionHeight ≤ h ∧ h < newRetentionHeight then false
      else LibGateway.bottomUpCheckpointExists s h := by
    intro h
    unfold LibGateway.bottomUpCheckpointExists
    rw [deleted h]
    split <;> rfl
  constructor
  · exact inv.bookkeeping.prune pruned
  · rw [retention]
    exact Nat.lt_trans inv.retentionPositive raised
  · intro h unstored
    rw [senders h]
    split
    · rfl
    · rename_i outside
      rw [storedAt h, if_neg outside] at unstored
      exact inv.signedStored h unstored
  · intro h above storedNow unreached
    rw [retention] at above
    have outside : ¬ (s.checkpointQuorumMap.retentionHeight ≤ h ∧ h < newRetentionHeight) :=
      fun ⟨_, below⟩ => Nat.lt_irrefl h (Nat.lt_of_lt_of_le below above)
    rw [storedAt h, if_neg outside] at storedNow
    rw [info h, if_neg outside] at unreached
    rw [incomplete]
    exact inv.storedIncomplete h (by omega) storedNow unreached

theorem step (inv : CheckpointingInvariant crypto s) {call : CheckpointingCall}
    (step : CheckpointingStep crypto checkpointHash systemActor s call next) :
    CheckpointingInvariant crypto next := by
  cases call with
  | createBottomUpCheckpoint sender checkpoint root weight => exact inv.create step
  | addCheckpointSignature height proof weight signature => exact inv.sign step
  | pruneBottomUpCheckpoints sender newRetentionHeight => exact inv.prune step

/-- Every state of a run keeps the invariant. -/
theorem reachable
    (reachable : Reachable CheckpointingInitial (CheckpointingStep crypto checkpointHash systemActor) s) :
    CheckpointingInvariant crypto s := by
  refine Reachable.invariant _ ?_ (fun _ _ _ inv step => inv.step step) reachable
  rintro _ ⟨majorityPercentage, rfl⟩
  exact initial crypto majorityPercentage

end CheckpointingInvariant

/-- **The facet refines the quorum map.** The quorum map of every state a run of the facet
reaches is reached by a run of the quorum map (`QuorumStep`): each call of the facet makes one
call of `LibQuorum`, and the facet opens a quorum only at a height without a stored checkpoint,
where no signatory is recorded. So what `QuorumInvariant` proves of every run of the quorum map
holds of the gateway's checkpoint quorums. -/
theorem checkpointing_refines_quorumMap {crypto : QuorumCrypto}
    {checkpointHash : BottomUpCheckpoint → Nat} {systemActor : Address} {s : CheckpointingStorage}
    (reachable : Reachable CheckpointingInitial (CheckpointingStep crypto checkpointHash systemActor) s) :
    Reachable QuorumInitial (QuorumStep crypto) s.checkpointQuorumMap := by
  refine Reachable.map CheckpointingStorage.checkpointQuorumMap ?_ ?_ reachable
  · rintro _ ⟨majorityPercentage, rfl⟩
    exact ⟨1, rfl⟩
  intro s call next before step
  have inv := CheckpointingInvariant.reachable before
  cases call with
  | createBottomUpCheckpoint sender checkpoint root weight =>
    obtain ⟨-, unstored, quorumMap, created, rfl⟩ :=
      CheckpointingFacet.createBottomUpCheckpoint_ok step
    exact ⟨.createQuorumInfo checkpoint.blockHeight (checkpointHash checkpoint) root weight
      s.majorityPercentage, inv.signedStored _ unstored, created⟩
  | addCheckpointSignature height proof weight signature =>
    obtain ⟨-, -, quorumMap, signed, rfl⟩ := CheckpointingFacet.addCheckpointSignature_ok step
    exact ⟨.addQuorumSignature height proof weight signature, trivial, signed⟩
  | pruneBottomUpCheckpoints sender newRetentionHeight =>
    obtain ⟨-, pruned, -⟩ := CheckpointingFacet.pruneBottomUpCheckpoints_ok step
    exact ⟨.pruneQuorums newRetentionHeight, trivial, pruned⟩

/-- A checkpoint of height `5` with no messages. -/
def fifthCheckpoint : BottomUpCheckpoint := ⟨⟨0, [7]⟩, 5, 0, 0, []⟩

theorem checkpointing_refines_quorumMap_after_create :
    ∃ s, Reachable CheckpointingInitial (CheckpointingStep byteCrypto (fun _ => 7) 0) s ∧
      Reachable QuorumInitial (QuorumStep byteCrypto) s.checkpointQuorumMap :=
  let created : Reachable CheckpointingInitial (CheckpointingStep byteCrypto (fun _ => 7) 0) _ :=
    .step (.init ⟨51, rfl⟩)
      (rfl : CheckpointingStep byteCrypto (fun _ => 7) 0 (CheckpointingStorage.initial 51)
        (.createBottomUpCheckpoint 0 fifthCheckpoint 6003 3) _)
  ⟨_, created, checkpointing_refines_quorumMap created⟩

/-! ### The quorum of a stored checkpoint -/

/-- The quorum at `height` is the one opened for `hash` over `root`, with its checkpoint stored;
or the height is pruned. -/
def QuorumFor (height hash root : Nat) (s : CheckpointingStorage) : Prop :=
  height < s.checkpointQuorumMap.retentionHeight ∨
    LibGateway.bottomUpCheckpointExists s height = true ∧
      (s.checkpointQuorumMap.quorumInfo height).hash = hash ∧
      (s.checkpointQuorumMap.quorumInfo height).rootHash = root

namespace QuorumFor

variable {crypto : QuorumCrypto} {checkpointHash : BottomUpCheckpoint → Nat}
  {systemActor : Address} {height hash root : Nat} {s next : CheckpointingStorage}

/-- Every call keeps the quorum of a stored checkpoint, or prunes its height: no checkpoint is
stored over one already there, a signature changes only the weights, and pruning raises the
retention height past every height it clears. -/
theorem step (keeps : QuorumFor height hash root s) {call : CheckpointingCall}
    (step : CheckpointingStep crypto checkpointHash systemActor s call next) :
    QuorumFor height hash root next := by
  cases call with
  | createBottomUpCheckpoint sender checkpoint root' weight =>
    obtain ⟨-, unstored, quorumMap, created, rfl⟩ :=
      CheckpointingFacet.createBottomUpCheckpoint_ok step
    obtain ⟨-, -, -, opened⟩ := LibQuorum.createQuorumInfo_ok created
    rcases keeps with pruned | ⟨stored, hashed, rooted⟩
    · left
      simpa [opened] using pruned
    · have other : height ≠ checkpoint.blockHeight := by
        rintro rfl
        rw [stored] at unstored
        cases unstored
      right
      refine ⟨?_, ?_, ?_⟩
      · rw [LibGateway.bottomUpCheckpointExists_store, if_neg other]
        exact stored
      · simpa [opened, Function.update_of_ne other] using hashed
      · simpa [opened, Function.update_of_ne other] using rooted
  | addCheckpointSignature h proof weight signature =>
    obtain ⟨-, -, quorumMap, signed, rfl⟩ := CheckpointingFacet.addCheckpointSignature_ok step
    obtain ⟨_, -, -, -, retention, info, -⟩ := LibQuorum.addQuorumSignature_ok signed
    rcases keeps with pruned | ⟨stored, hashed, rooted⟩
    · left
      show height < quorumMap.retentionHeight
      rw [retention]
      exact pruned
    · right
      refine ⟨stored, ?_, ?_⟩
      · show (quorumMap.quorumInfo height).hash = hash
        rw [info]
        by_cases here : height = h
        · subst here
          simpa using hashed
        · simpa [Function.update_of_ne here] using hashed
      · show (quorumMap.quorumInfo height).rootHash = root
        rw [info]
        by_cases here : height = h
        · subst here
          simpa using rooted
        · simpa [Function.update_of_ne here] using rooted
  | pruneBottomUpCheckpoints sender newRetentionHeight =>
    obtain ⟨-, pruned, deleted⟩ := CheckpointingFacet.pruneBottomUpCheckpoints_ok step
    obtain ⟨raised, retention, -, info, -⟩ := LibQuorum.pruneQuorums_ok pruned
    by_cases below : height < newRetentionHeight
    · left
      rw [retention]
      exact below
    rcases keeps with old | ⟨stored, hashed, rooted⟩
    · exact absurd (Nat.lt_trans old raised) below
    have outside : ¬ (s.checkpointQuorumMap.retentionHeight ≤ height ∧
        height < newRetentionHeight) := fun ⟨_, inside⟩ => below inside
    right
    refine ⟨?_, ?_, ?_⟩
    · unfold LibGateway.bottomUpCheckpointExists
      rw [deleted height, if_neg outside]
      exact stored
    · rw [info height, if_neg outside]
      exact hashed
    · rw [info height, if_neg outside]
      exact rooted

/-- **The node's quorum stays.** After a run stores a checkpoint over `root`, the quorum at its
height keeps the checkpoint's hash and `root`, with the checkpoint stored, in every later state
in which the height is not pruned. The checkpoint's height is not `0`, since the retention height
of every run is positive. -/
theorem later {s₀ s₁ s₂ : CheckpointingStorage} {sender : Address}
    {checkpoint : BottomUpCheckpoint} {weight : Nat}
    (reachable : Reachable CheckpointingInitial (CheckpointingStep crypto checkpointHash systemActor) s₀)
    (created : CheckpointingFacet.createBottomUpCheckpoint checkpointHash systemActor s₀ sender
      checkpoint root weight = .ok s₁)
    (after : Reachable (· = s₁) (CheckpointingStep crypto checkpointHash systemActor) s₂) :
    QuorumFor checkpoint.blockHeight (checkpointHash checkpoint) root s₂ := by
  refine Reachable.invariant _ ?_ (fun _ _ _ keeps step => keeps.step step) after
  rintro _ rfl
  have positive := (CheckpointingInvariant.reachable reachable).retentionPositive
  obtain ⟨-, -, quorumMap, opened, rfl⟩ := CheckpointingFacet.createBottomUpCheckpoint_ok created
  obtain ⟨above, -, -, eq⟩ := LibQuorum.createQuorumInfo_ok opened
  right
  refine ⟨?_, by simp [eq], by simp [eq]⟩
  rw [LibGateway.bottomUpCheckpointExists_store, if_pos rfl, bne_iff_ne]
  omega

end QuorumFor

/-! ### From the power table to the quorum -/

/-- Stand-in cryptography for the pipeline: a one-byte signature recovers to the address it holds,
and the pair hash and the leaves are those of a tree over `oddPair` and `evenLeaf`. -/
def treeCrypto : QuorumCrypto where
  tryRecover _ signature := match signature with
    | [b] => some b.toNat
    | _ => none
  hashPair := hashPair oddPair
  validatorLeaf signatory weight := StandardMerkleTree.evenLeaf (signatory, weight)

theorem treeCrypto_sharedHashes : SharedHashes treeCrypto oddPair StandardMerkleTree.evenLeaf :=
  ⟨rfl, fun _ _ => rfl⟩

section Pipeline

variable {κ σ : Type} (crypto : QuorumCrypto) (checkpointHash : BottomUpCheckpoint → Nat)
  (systemActor : Address) (keccak : Hash → Hash → Hash) (ethAddress : κ → Address)
  (validatorLeaf : Address × Nat → Hash)

/-- **Every validator of the table can sign.** Take a non-empty power table of at most `2 ^ 30`
validators, a gateway whose hashes are the node's, and signatures that recover to the Ethereum
address of the signing key. Then the node's arguments for the checkpoint exist. In any run where
the system actor stores a checkpoint with them, and in any later state where the checkpoint's
height is not pruned, each validator of the table that has not signed there yet can sign: the
node's calldata for it exists, the gateway accepts it, the validator's address joins the
signatories, and its power is added to the quorum's weight. -/
theorem addCheckpointSignature_of_powerTable (sign : σ → Nat → Bytes) (publicKey : σ → κ)
    (shared : SharedHashes crypto keccak validatorLeaf)
    (recovers : ∀ secretKey hash,
      crypto.tryRecover hash (sign secretKey hash) = some (ethAddress (publicKey secretKey)))
    (powerTable : Interpreter.PowerTable κ) (nonempty : powerTable ≠ [])
    (small : powerTable.length ≤ 2 ^ 30) :
    ∃ root totalPower,
      createBottomUpCheckpointArgs keccak ethAddress validatorLeaf powerTable = .ok (root, totalPower) ∧
      ∀ s₀ s₁ s₂ checkpoint,
        Reachable CheckpointingInitial (CheckpointingStep crypto checkpointHash systemActor) s₀ →
        CheckpointingFacet.createBottomUpCheckpoint checkpointHash systemActor s₀ systemActor
          checkpoint root totalPower = .ok s₁ →
        Reachable (· = s₁) (CheckpointingStep crypto checkpointHash systemActor) s₂ →
        s₂.checkpointQuorumMap.retentionHeight ≤ checkpoint.blockHeight →
        ∀ validator ∈ powerTable, ∀ secretKey, publicKey secretKey = validator.publicKey →
          ethAddress validator.publicKey ∉
            (s₂.checkpointQuorumMap.quorumSignatureSenders checkpoint.blockHeight).values →
          ∃ proof s₃,
            addCheckpointSignatureCalldata keccak ethAddress validatorLeaf checkpointHash sign
                checkpoint powerTable validator secretKey =
              .ok (checkpoint.blockHeight, proof, validator.power,
                sign secretKey (checkpointHash checkpoint)) ∧
            CheckpointingFacet.addCheckpointSignature crypto s₂ checkpoint.blockHeight proof
              validator.power (sign secretKey (checkpointHash checkpoint)) = .ok s₃ ∧
            ethAddress validator.publicKey ∈
              (s₃.checkpointQuorumMap.quorumSignatureSenders checkpoint.blockHeight).values ∧
            (s₃.checkpointQuorumMap.quorumInfo checkpoint.blockHeight).currentWeight =
              (s₂.checkpointQuorumMap.quorumInfo checkpoint.blockHeight).currentWeight +
                validator.power := by
  obtain ⟨tree, built⟩ := ValidatorMerkleTree.new_exists keccak ethAddress validatorLeaf nonempty
  obtain ⟨root, rooted, -⟩ :=
    (ValidatorMerkleTree.represents_of_new keccak ethAddress validatorLeaf built).root_eq
  refine ⟨root, powerTable.foldl (fun p v => saturatingAdd p v.power) 0,
    by simp [createBottomUpCheckpointArgs, built, ValidatorMerkleTree.rootHash, rooted, withContext],
    ?_⟩
  intro s₀ s₁ s₂ checkpoint reachable created later notPruned validator member secretKey ownKey
    notSigned
  have createdStep : CheckpointingStep crypto checkpointHash systemActor s₀
      (.createBottomUpCheckpoint systemActor checkpoint root
        (powerTable.foldl (fun p v => saturatingAdd p v.power) 0)) s₁ := created
  have inv : CheckpointingInvariant crypto s₂ :=
    CheckpointingInvariant.reachable (Reachable.trans (.step reachable createdStep) later)
  obtain pruned | ⟨stored, hashed, rootIs⟩ := QuorumFor.later reachable created later
  · exact absurd notPruned (Nat.not_le.mpr pruned)
  obtain ⟨proof, root', got, rooted', folded⟩ :=
    ValidatorMerkleTree.prove_of_mem keccak ethAddress validatorLeaf built small member
  obtain rfl : root' = root := Except.ok.inj (rooted'.symm.trans rooted)
  -- the gateway recovers the validator's address, and the proof takes its leaf to the root
  have recovered : crypto.tryRecover (s₂.checkpointQuorumMap.quorumInfo checkpoint.blockHeight).hash
      (sign secretKey (checkpointHash checkpoint)) = some (ethAddress validator.publicKey) := by
    rw [hashed, recovers, ownKey]
  have verified : MerkleProof.verify crypto.hashPair proof
      (s₂.checkpointQuorumMap.quorumInfo checkpoint.blockHeight).rootHash
      (crypto.validatorLeaf (ethAddress validator.publicKey) validator.power) = true := by
    rw [rootIs, shared.pairHash, shared.leafHash, MerkleProof.verify, MerkleProof.processProof,
      beq_iff_eq]
    exact folded
  obtain ⟨quorumMap, signed⟩ := LibQuorum.addQuorumSignature_of_verified recovered notSigned
    verified fun unreached _ => inv.storedIncomplete _ notPruned stored unreached
  obtain ⟨signatory, recovered', -, -, -, info, senders, -⟩ := LibQuorum.addQuorumSignature_ok signed
  obtain rfl : signatory = ethAddress validator.publicKey :=
    Option.some.inj (recovered'.symm.trans recovered)
  refine ⟨proof, { s₂ with checkpointQuorumMap := quorumMap }, ?_,
    CheckpointingFacet.addCheckpointSignature_of_ok notPruned stored signed, ?_, ?_⟩
  · simp [addCheckpointSignatureCalldata, built, got, withContext]
  · show _ ∈ (quorumMap.quorumSignatureSenders checkpoint.blockHeight).values
    simp [senders]
  · show (quorumMap.quorumInfo checkpoint.blockHeight).currentWeight = _
    simp [info]

theorem addCheckpointSignature_of_powerTable_one_validator :
    ∃ root totalPower,
      createBottomUpCheckpointArgs oddPair UInt8.toNat StandardMerkleTree.evenLeaf
          [(⟨5, 1⟩ : Interpreter.Validator UInt8)] = .ok (root, totalPower) ∧
      ∀ s₀ s₁ s₂ checkpoint,
        Reachable CheckpointingInitial (CheckpointingStep treeCrypto (fun _ => 7) 0) s₀ →
        CheckpointingFacet.createBottomUpCheckpoint (fun _ => 7) 0 s₀ 0 checkpoint root totalPower =
          .ok s₁ →
        Reachable (· = s₁) (CheckpointingStep treeCrypto (fun _ => 7) 0) s₂ →
        s₂.checkpointQuorumMap.retentionHeight ≤ checkpoint.blockHeight →
        ∀ validator ∈ [(⟨5, 1⟩ : Interpreter.Validator UInt8)], ∀ secretKey : UInt8,
          secretKey = validator.publicKey →
          validator.publicKey.toNat ∉
            (s₂.checkpointQuorumMap.quorumSignatureSenders checkpoint.blockHeight).values →
          ∃ proof s₃,
            addCheckpointSignatureCalldata oddPair UInt8.toNat StandardMerkleTree.evenLeaf
                (fun _ => 7) (fun secretKey _ => [secretKey]) checkpoint
                [(⟨5, 1⟩ : Interpreter.Validator UInt8)] validator secretKey =
              .ok (checkpoint.blockHeight, proof, validator.power, [secretKey]) ∧
            CheckpointingFacet.addCheckpointSignature treeCrypto s₂ checkpoint.blockHeight proof
              validator.power [secretKey] = .ok s₃ ∧
            validator.publicKey.toNat ∈
              (s₃.checkpointQuorumMap.quorumSignatureSenders checkpoint.blockHeight).values ∧
            (s₃.checkpointQuorumMap.quorumInfo checkpoint.blockHeight).currentWeight =
              (s₂.checkpointQuorumMap.quorumInfo checkpoint.blockHeight).currentWeight +
                validator.power :=
  addCheckpointSignature_of_powerTable treeCrypto (fun _ => 7) 0 oddPair UInt8.toNat
    StandardMerkleTree.evenLeaf (fun secretKey _ => [secretKey]) id treeCrypto_sharedHashes
    (fun _ _ => rfl) [⟨5, 1⟩] (List.cons_ne_nil _ _) (by decide)

/-- **Only the table signs, each with its power.** Take a gateway whose hashes are the node's,
`keccak` injective, the leaf hash injective, and no leaf hash a `keccak` pair. Then in every state
of every run, at any height whose quorum was opened with the root of the node's tree over a power
table, each signatory is the Ethereum address of a validator of the table, and the quorum's weight
is the sum, over the distinct signatories, of such a validator's power. -/
theorem checkpointing_signers_powerTable (shared : SharedHashes crypto keccak validatorLeaf)
    (injective : ∀ a b c d, keccak a b = keccak c d → a = c ∧ b = d)
    (leafInjective : ∀ x y, validatorLeaf x = validatorLeaf y → x = y)
    (leavesNotPairs : ∀ a b x, keccak a b ≠ validatorLeaf x)
    (powerTable : Interpreter.PowerTable κ) (nonempty : powerTable ≠ []) :
    ∃ root totalPower,
      createBottomUpCheckpointArgs keccak ethAddress validatorLeaf powerTable = .ok (root, totalPower) ∧
      ∀ s, Reachable CheckpointingInitial (CheckpointingStep crypto checkpointHash systemActor) s →
        ∀ height, (s.checkpointQuorumMap.quorumInfo height).rootHash = root →
          ∃ weightOf : Address → Nat,
            (s.checkpointQuorumMap.quorumInfo height).currentWeight =
              ((s.checkpointQuorumMap.quorumSignatureSenders height).values.map weightOf).sum ∧
            ∀ signatory ∈ (s.checkpointQuorumMap.quorumSignatureSenders height).values,
              ∃ validator ∈ powerTable, ethAddress validator.publicKey = signatory ∧
                validator.power = weightOf signatory := by
  obtain ⟨tree, built⟩ := ValidatorMerkleTree.new_exists keccak ethAddress validatorLeaf nonempty
  obtain ⟨root, rooted, -⟩ :=
    (ValidatorMerkleTree.represents_of_new keccak ethAddress validatorLeaf built).root_eq
  refine ⟨root, powerTable.foldl (fun p v => saturatingAdd p v.power) 0,
    by simp [createBottomUpCheckpointArgs, built, ValidatorMerkleTree.rootHash, rooted, withContext],
    fun s reachable height opened => ?_⟩
  -- the bookkeeping gives each signatory a weight verified against the quorum's root
  obtain ⟨weightOf, sum, proved⟩ :=
    (CheckpointingInvariant.reachable reachable).bookkeeping.weighed height
  refine ⟨weightOf, sum, fun signatory member => ?_⟩
  obtain ⟨proof, verified⟩ := proved signatory member
  rw [opened, shared.pairHash, shared.leafHash, MerkleProof.verify, MerkleProof.processProof,
    beq_iff_eq] at verified
  obtain ⟨validator, listed, same⟩ := ValidatorMerkleTree.mem_of_foldl_eq_root keccak ethAddress
    validatorLeaf injective leafInjective leavesNotPairs built rooted _ proof verified
  exact ⟨validator, listed, congrArg Prod.fst same, congrArg Prod.snd same⟩

theorem checkpointing_signers_powerTable_one_validator :
    ∃ root totalPower,
      createBottomUpCheckpointArgs oddPair UInt8.toNat StandardMerkleTree.evenLeaf
          [(⟨5, 1⟩ : Interpreter.Validator UInt8)] = .ok (root, totalPower) ∧
      ∀ s, Reachable CheckpointingInitial (CheckpointingStep treeCrypto (fun _ => 7) 0) s →
        ∀ height, (s.checkpointQuorumMap.quorumInfo height).rootHash = root →
          ∃ weightOf : Address → Nat,
            (s.checkpointQuorumMap.quorumInfo height).currentWeight =
              ((s.checkpointQuorumMap.quorumSignatureSenders height).values.map weightOf).sum ∧
            ∀ signatory ∈ (s.checkpointQuorumMap.quorumSignatureSenders height).values,
              ∃ validator ∈ [(⟨5, 1⟩ : Interpreter.Validator UInt8)],
                validator.publicKey.toNat = signatory ∧ validator.power = weightOf signatory :=
  checkpointing_signers_powerTable treeCrypto (fun _ => 7) 0 oddPair UInt8.toNat
    StandardMerkleTree.evenLeaf treeCrypto_sharedHashes oddPair_injective
    StandardMerkleTree.evenLeaf_injective (fun a b _ => oddPair_ne_even a b _) [⟨5, 1⟩]
    (List.cons_ne_nil _ _)

end Pipeline

end Ipc.Contracts
