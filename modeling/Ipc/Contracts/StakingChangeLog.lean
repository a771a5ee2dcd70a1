/-
**Validator changes: recorded, then confirmed in order (`LibStakingChangeLog`,
`LibValidatorTracking`).**

A change log numbers each change with the next configuration number (the first is `1`;
`0` stands for the genesis membership) and keeps the changes not yet confirmed, from
`startConfigurationNumber` up. Confirming up to `n` applies the changes `start..n` in order,
deletes each, and moves `start` past `n`; confirming below `start` does nothing, and confirming a
number that was never given reverts.

The parent subnet actor (`LibStaking.confirmChange`) and the child gateway's tracker
(`LibValidatorTracking.confirmChange`) run the same loop (`confirmChanges`) with their own action
for one change: both apply it to a validator set (`ValidatorSet.confirmStakingChange`); the parent
also books the stake with the gateway and the release of withdrawn collateral.

A deleted or never-written slot reads as the zero change, a deposit whose empty payload does not
decode, so reading one reverts (`abiDecode`).
-/

import Ipc.Contracts.ValidatorSet

namespace Ipc.Contracts

/-- The changes of a subnet's validators not yet confirmed (`StakingChangeLog`). -/
structure StakingChangeLog where
  nextConfigurationNumber : Nat
  startConfigurationNumber : Nat
  changes : Nat → Option StakingChange

namespace StakingChangeLog

/-- `LibStaking.INITIAL_CONFIGURATION_NUMBER`. -/
def initialConfigurationNumber : Nat := 1

/-- A log with no change, both numbers at the initial configuration number. -/
def new : StakingChangeLog :=
  ⟨initialConfigurationNumber, initialConfigurationNumber, fun _ => none⟩

/-- `recordChange`: store the change under the next configuration number, and return that
number. -/
def recordChange (log : StakingChangeLog) (change : StakingChange) : Nat × StakingChangeLog :=
  (log.nextConfigurationNumber,
    { log with
      changes := Function.update log.changes log.nextConfigurationNumber (some change),
      nextConfigurationNumber := log.nextConfigurationNumber + 1 })

/-- `depositRequest`. -/
def depositRequest (log : StakingChangeLog) (validator : Address) (amount : Nat) :
    StakingChangeLog :=
  (log.recordChange (.deposit validator amount)).2

/-- `withdrawRequest`. -/
def withdrawRequest (log : StakingChangeLog) (validator : Address) (amount : Nat) :
    StakingChangeLog :=
  (log.recordChange (.withdraw validator amount)).2

/-- `metadataRequest`. -/
def metadataRequest (log : StakingChangeLog) (validator : Address) (metadata : Bytes) :
    StakingChangeLog :=
  (log.recordChange (.setMetadata validator metadata)).2

/-- `federatedPowerRequest`. -/
def federatedPowerRequest (log : StakingChangeLog) (validator : Address) (metadata : Bytes)
    (power : Nat) : StakingChangeLog :=
  (log.recordChange (.setFederatedPower validator metadata power)).2

/-- `getChange`, with the decoding of its payload: an empty slot does not decode. -/
def getChange (log : StakingChangeLog) (configurationNumber : Nat) : Except Revert StakingChange :=
  match log.changes configurationNumber with
  | some change => .ok change
  | none => .error .abiDecode

/-- `purgeChange`. -/
def purgeChange (log : StakingChangeLog) (configurationNumber : Nat) : StakingChangeLog :=
  { log with changes := Function.update log.changes configurationNumber none }

end StakingChangeLog

/-- One round of a `confirmChange` loop: read the change at `i`, apply it, delete it. -/
def confirmStep {σ : Type} (confirmOne : σ → StakingChange → Except Revert σ)
    (acc : σ × StakingChangeLog) (i : Nat) : Except Revert (σ × StakingChangeLog) := do
  let change ← acc.2.getChange i
  let state ← confirmOne acc.1 change
  pure (state, acc.2.purgeChange i)

/-- The loop both `confirmChange`s share: apply the changes `start..configurationNumber` in order
with `confirmOne`, then start the log after `configurationNumber`. -/
def confirmChanges {σ : Type} (confirmOne : σ → StakingChange → Except Revert σ) (state : σ)
    (log : StakingChangeLog) (configurationNumber : Nat) :
    Except Revert (σ × StakingChangeLog) :=
  if log.nextConfigurationNumber ≤ configurationNumber then .error .cannotConfirmFutureChanges
  else if configurationNumber < log.startConfigurationNumber then .ok (state, log)
  else do
    let confirmed ← (List.range' log.startConfigurationNumber
      (configurationNumber + 1 - log.startConfigurationNumber)).foldlM (confirmStep confirmOne)
      (state, log)
    pure (confirmed.1, { confirmed.2 with startConfigurationNumber := configurationNumber + 1 })

namespace ValidatorSet

/-- What both `confirmChange`s do to the validator set for one change. -/
def confirmStakingChange (vs : ValidatorSet) : StakingChange → Except Revert ValidatorSet
  | .setMetadata validator metadata => .ok (vs.setMetadata validator metadata)
  | .setFederatedPower validator metadata power =>
    (vs.setMetadata validator metadata).confirmFederatedPower validator power
  | .withdraw validator amount => vs.confirmWithdraw validator amount
  | .deposit validator amount => vs.confirmDeposit validator amount

end ValidatorSet

/-- The child gateway's copy of the parent's validators (`ParentValidatorsTracker`). -/
structure ParentValidatorsTracker where
  validators : ValidatorSet
  changes : StakingChangeLog

namespace LibValidatorTracking

/-- `storeChange`: record a change from the parent, which must come with the configuration
number the tracker gives it. -/
def storeChange (self : ParentValidatorsTracker) (changeRequest : StakingChangeRequest) :
    Except Revert ParentValidatorsTracker :=
  let recorded := self.changes.recordChange changeRequest.change
  if recorded.1 ≠ changeRequest.configurationNumber then .error .invalidConfigurationNumber
  else .ok { self with changes := recorded.2 }

/-- `batchStoreChange`: store the changes in order. -/
def batchStoreChange (self : ParentValidatorsTracker) (changeRequests : List StakingChangeRequest) :
    Except Revert ParentValidatorsTracker :=
  changeRequests.foldlM storeChange self

/-- `LibValidatorTracking.confirmChange`. -/
def confirmChange (self : ParentValidatorsTracker) (configurationNumber : Nat) :
    Except Revert ParentValidatorsTracker := do
  let confirmed ← confirmChanges ValidatorSet.confirmStakingChange self.validators self.changes
    configurationNumber
  pure ⟨confirmed.1, confirmed.2⟩

end LibValidatorTracking

end Ipc.Contracts
