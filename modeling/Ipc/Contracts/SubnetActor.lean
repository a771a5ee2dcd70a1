/-
**The subnet actor on the parent: checkpoint submission and change confirmation.**

A relayer submits a child's bottom-up checkpoint with the signatures of its validators
(`submitCheckpoint`). The checkpoint must be the next one (`ensureValidCheckpoint`: the next period
boundary, or an earlier height carrying a full batch), and the signatories must be active
validators whose signatures recover to them and whose power reaches `majorityPercentage` of the
active power, rounded down (`validateActiveQuorumSignatures`). The checkpoint is then stored,
committed in the gateway, and the validator changes up to its `nextConfigurationNumber` confirmed
(`LibStaking.confirmChange`).

The gateway is another contract: the actor reaches it through `GatewayCalls`, three calls on a
gateway state `γ` that the gateway's own model supplies. ECDSA recovery and the checkpoint's
`keccak256(abi.encode(..))` are parameters too.
-/

import Ipc.Contracts.StakingChangeLog
import Ipc.Contracts.Multisig

namespace Ipc.Contracts

/-- A release of withdrawn collateral, claimable from a block on (`StakingRelease`). -/
structure StakingRelease where
  releaseAt : Nat
  amount : Nat
  deriving DecidableEq, Repr

/-- The releases waiting for each validator (`StakingReleaseQueue`). -/
structure StakingReleaseQueue where
  lockingDuration : Nat
  releases : Address → List StakingRelease

/-- `addNewRelease`: the amount becomes claimable `lockingDuration` blocks from now. -/
def StakingReleaseQueue.addNewRelease (self : StakingReleaseQueue) (validator : Address)
    (amount blockNumber : Nat) : StakingReleaseQueue :=
  { self with
    releases := Function.update self.releases validator
      (self.releases validator ++ [⟨blockNumber + self.lockingDuration, amount⟩]) }

/-- What the subnet actor calls on its gateway (`IGateway`). -/
structure GatewayCalls (γ : Type) where
  commitCheckpoint : γ → BottomUpCheckpoint → Except Revert γ
  addStake : γ → Nat → Except Revert γ
  releaseStake : γ → Nat → Except Revert γ

/-- The subnet actor's storage that checkpoints and validator changes use
(`SubnetActorStorage`). -/
structure SubnetActorStorage where
  paused : Bool
  majorityPercentage : Nat
  bottomUpCheckPeriod : Nat
  maxMsgsPerBottomUpBatch : Nat
  lastBottomUpCheckpointHeight : Nat
  committedCheckpoints : Nat → Option BottomUpCheckpoint
  validatorSet : ValidatorSet
  changeSet : StakingChangeLog
  releaseQueue : StakingReleaseQueue

namespace LibGateway

/-- `getNextEpoch`: the first multiple of the period above the block number (cast to `uint64`). -/
def getNextEpoch (blockNumber checkPeriod : Nat) : Nat :=
  (blockNumber % 2 ^ 64 / checkPeriod + 1) * checkPeriod

end LibGateway

namespace LibStaking

variable {γ : Type} (calls : GatewayCalls γ) (blockNumber : Nat)

/-- What `LibStaking.confirmChange` does for one change: the validator set's part, then the stake
booked with the gateway, and for a withdrawal the release of the collateral. -/
def confirmOne (state : ValidatorSet × StakingReleaseQueue × γ) (change : StakingChange) :
    Except Revert (ValidatorSet × StakingReleaseQueue × γ) := do
  let vs ← state.1.confirmStakingChange change
  match change with
  | .withdraw validator amount =>
    let gateway ← calls.releaseStake state.2.2 amount
    pure (vs, state.2.1.addNewRelease validator amount blockNumber, gateway)
  | .deposit _ amount =>
    let gateway ← calls.addStake state.2.2 amount
    pure (vs, state.2.1, gateway)
  | _ => pure (vs, state.2.1, state.2.2)

/-- `LibStaking.confirmChange`. -/
def confirmChange (s : SubnetActorStorage) (gateway : γ) (configurationNumber : Nat) :
    Except Revert (SubnetActorStorage × γ) := do
  let confirmed ← confirmChanges (confirmOne calls blockNumber)
    (s.validatorSet, s.releaseQueue, gateway) s.changeSet configurationNumber
  pure ({ s with
      validatorSet := confirmed.1.1, releaseQueue := confirmed.1.2.1, changeSet := confirmed.2 },
    confirmed.1.2.2)

/-- `LibStaking.deposit`: request the deposit and count it in the total collateral. -/
def deposit (s : SubnetActorStorage) (validator : Address) (amount : Nat) : SubnetActorStorage :=
  { s with
    changeSet := s.changeSet.depositRequest validator amount,
    validatorSet := s.validatorSet.recordDeposit validator amount }

/-- `LibStaking.setValidatorMetadata`: request the metadata change. -/
def setValidatorMetadata (s : SubnetActorStorage) (validator : Address) (metadata : Bytes) :
    SubnetActorStorage :=
  { s with changeSet := s.changeSet.metadataRequest validator metadata }

/-- `LibStaking.withdraw`: request the withdrawal and take it from the total collateral. -/
def withdraw (s : SubnetActorStorage) (validator : Address) (amount : Nat) :
    Except Revert SubnetActorStorage := do
  let vs ← s.validatorSet.recordWithdraw validator amount
  pure { s with changeSet := s.changeSet.withdrawRequest validator amount, validatorSet := vs }

end LibStaking

namespace SubnetActorCheckpointingFacet

/-- `ensureValidCheckpoint`: not too many messages, above the last checkpoint, and either the next
period boundary or an earlier height with a full batch. -/
def ensureValidCheckpoint (s : SubnetActorStorage) (checkpoint : BottomUpCheckpoint) :
    Except Revert Unit :=
  if checkpoint.msgs.length > s.maxMsgsPerBottomUpBatch then .error .maxMsgsPerBatchExceeded
  else if checkpoint.blockHeight ≤ s.lastBottomUpCheckpointHeight then
    .error .bottomUpCheckpointAlreadySubmitted
  else
    let nextCheckpointHeight :=
      LibGateway.getNextEpoch s.lastBottomUpCheckpointHeight s.bottomUpCheckPeriod
    if checkpoint.blockHeight > nextCheckpointHeight then .error .cannotSubmitFutureCheckpoint
    else if checkpoint.blockHeight = nextCheckpointHeight then .ok ()
    else if checkpoint.msgs.length = s.maxMsgsPerBottomUpBatch then .ok ()
    else .error .invalidCheckpointEpoch

variable (tryRecover : Nat → Bytes → Option Address)

/-- `validateActiveQuorumSignatures`: the signatories' power, each looked up in the active set,
against `majorityPercentage` percent of the active power, rounded down. -/
def validateActiveQuorumSignatures (s : SubnetActorStorage) (signatories : List Address)
    (hash : Nat) (signatures : List Bytes) : Except Revert Unit := do
  let collaterals ← s.validatorSet.getTotalPowerOfValidators signatories
  let activeCollateral := s.validatorSet.getTotalActivePower
  let threshold := activeCollateral * s.majorityPercentage / 100
  let result := MultisignatureChecker.isValidWeightedMultiSignature tryRecover hash signatories
    collaterals threshold signatures
  if !result.1 then .error (.invalidSignatureErr result.2.code) else .ok ()

/-- `submitCheckpoint`, at block `blockNumber`. -/
def submitCheckpoint {γ : Type} (calls : GatewayCalls γ) (checkpointHash : BottomUpCheckpoint → Nat)
    (blockNumber : Nat) (s : SubnetActorStorage) (gateway : γ) (checkpoint : BottomUpCheckpoint)
    (signatories : List Address) (signatures : List Bytes) :
    Except Revert (SubnetActorStorage × γ) :=
  if s.paused then .error .enforcedPause
  else do
    ensureValidCheckpoint s checkpoint
    validateActiveQuorumSignatures tryRecover s signatories (checkpointHash checkpoint) signatures
    let stored := { s with
      committedCheckpoints :=
        Function.update s.committedCheckpoints checkpoint.blockHeight (some checkpoint),
      lastBottomUpCheckpointHeight := checkpoint.blockHeight }
    let gateway ← calls.commitCheckpoint gateway checkpoint
    LibStaking.confirmChange calls blockNumber stored gateway checkpoint.nextConfigurationNumber

end SubnetActorCheckpointingFacet

end Ipc.Contracts
