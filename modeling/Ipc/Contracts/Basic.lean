/-
**The IPC contracts' shared data: addresses, subnet ids, staking changes, reverts.**

Solidity storage is modelled by total functions (a `mapping` reads `0` or the zero value where
nothing was written) and Lean records. A call that reverts is an `Except Revert`: a revert undoes
every write of the transaction, so a reverted call has no state after it. The `Revert` constructors
are the custom errors of `IPCErrors.sol` that the modelled functions raise, plus `panic` for a
failed `assert` or a checked-arithmetic overflow, and `outOfGas` for a loop that runs past the
bound the model gives it. Amounts are `uint256` in the source and `Nat`
here; their overflow reverts are not modelled (they only turn a success into a revert).

* `SubnetID` — a root chain id and a route of subnet actor addresses;
* `IpcEnvelope`, `BottomUpCheckpoint` — a cross-net message and a checkpoint of a child's
  messages; a `bytes32` hash is a `Nat`;
* `StakingChange` — a recorded validator change with its decoded payload: the request functions of
  `LibStakingChangeLog` only ever pair each operation with its own payload encoding, so the model
  pairs them by construction.
-/

import Mathlib

namespace Ipc.Contracts

/-- An EVM address (`address`); `0` is `address(0)`. -/
abbrev Address := Nat

/-- A byte string (`bytes`). -/
abbrev Bytes := List UInt8

/-- A subnet id (`SubnetID`): the root chain id and the route of subnet actors from the root. -/
structure SubnetID where
  root : Nat
  route : List Address
  deriving DecidableEq, Repr

/-- How validator power is determined (`PermissionMode`). -/
inductive PermissionMode
  | collateral
  | federated
  | static
  deriving DecidableEq, Repr

/-- The reason an `InvalidXnetMessage` error or receipt carries (`InvalidXnetMessageReason`). -/
inductive InvalidXnetMessageReason
  | sender
  | dstSubnet
  | nonce
  | value
  | kind
  deriving DecidableEq, Repr

/-- A staking operation (`StakingOperation`). -/
inductive StakingOperation
  | deposit
  | withdraw
  | setMetadata
  | setFederatedPower
  deriving DecidableEq, Repr

/-- A staking change (`StakingChange`) with its payload decoded: `abi.encode(amount)` for a deposit
or a withdrawal, the metadata bytes, or `abi.encode(metadata, power)`. -/
inductive StakingChange
  | deposit (validator : Address) (amount : Nat)
  | withdraw (validator : Address) (amount : Nat)
  | setMetadata (validator : Address) (metadata : Bytes)
  | setFederatedPower (validator : Address) (metadata : Bytes) (power : Nat)
  deriving DecidableEq, Repr

namespace StakingChange

/-- The validator a change is about. -/
def validator : StakingChange → Address
  | deposit validator _ => validator
  | withdraw validator _ => validator
  | setMetadata validator _ => validator
  | setFederatedPower validator _ _ => validator

/-- The operation of a change. -/
def op : StakingChange → StakingOperation
  | deposit .. => .deposit
  | withdraw .. => .withdraw
  | setMetadata .. => .setMetadata
  | setFederatedPower .. => .setFederatedPower

end StakingChange

/-- A change with the configuration number the parent gave it (`StakingChangeRequest`). -/
structure StakingChangeRequest where
  change : StakingChange
  configurationNumber : Nat
  deriving DecidableEq, Repr

/-- A raw FVM address (`FvmAddress`): its protocol byte and payload. -/
structure FvmAddress where
  addrType : Nat
  payload : Bytes
  deriving DecidableEq, Repr

/-- An address in a subnet (`IPCAddress`). -/
structure IPCAddress where
  subnetId : SubnetID
  rawAddress : FvmAddress
  deriving DecidableEq, Repr

/-- The kind of a cross-net message (`IpcMsgKind`). -/
inductive IpcMsgKind
  | transfer
  | call
  | result
  deriving DecidableEq, Repr

/-- A cross-net message (`IpcEnvelope`); its `to` and `from` fields are `toAddr` and `fromAddr`,
as `to` is a keyword of Lean. -/
structure IpcEnvelope where
  kind : IpcMsgKind
  toAddr : IPCAddress
  fromAddr : IPCAddress
  nonce : Nat
  value : Nat
  message : Bytes
  deriving DecidableEq, Repr

/-- A bottom-up checkpoint (`BottomUpCheckpoint`). -/
structure BottomUpCheckpoint where
  subnetID : SubnetID
  blockHeight : Nat
  blockHash : Nat
  nextConfigurationNumber : Nat
  msgs : List IpcEnvelope
  deriving DecidableEq, Repr

/-- A batch of bottom-up messages stored at a height (`BottomUpMsgBatch`); a mapping slot never
written holds the batch with height `0`. -/
structure BottomUpMsgBatch where
  subnetID : SubnetID
  blockHeight : Nat
  msgs : List IpcEnvelope
  deriving DecidableEq, Repr

/-- How the execution of a message ended, as a receipt reports it (`OutcomeType`). -/
inductive OutcomeType
  | ok
  | systemErr
  | actorErr
  deriving DecidableEq, Repr

/-- The reverts raised by the modelled contract functions. -/
inductive Revert
  | panic
  | outOfGas
  | enforcedPause
  | pqEmpty
  | pqDoesNotContainAddress
  | notValidator (validator : Address)
  | addressShouldBeValidator
  | withdrawExceedingCollateral
  | cannotConfirmFutureChanges
  | invalidConfigurationNumber
  | abiDecode
  | notEnoughFunds
  | cannotReleaseZero
  | notEnoughFundsToRelease
  | oldConfigurationNumber
  | invalidSignatureErr (code : Nat)
  | maxMsgsPerBatchExceeded
  | bottomUpCheckpointAlreadySubmitted
  | cannotSubmitFutureCheckpoint
  | invalidCheckpointEpoch
  | invalidCheckpointSource
  | subnetNotFound
  | invalidSubnet
  | notEnoughSubnetCircSupply
  | notRegisteredSubnet
  | invalidXnetMessage (reason : InvalidXnetMessageReason)
  | cannotSendCrossMsgToItself
  | methodNotAllowed (reason : String)
  | alreadyRegisteredSubnet
  | unexpectedSupplySource
  | notEmptySubnetCircSupply
  | differentRootNetwork
  | invalidRoute
  | noParentForSubnet
  | noAddressForRoot
  | invalidActorAddress
  | invalidSubmissionPeriod
  | invalidMajorityPercentage
  | notSystemActor
  | noCollateralToWithdraw
  | notOwner
  | subnetAlreadyKilled
  | subnetAlreadyBootstrapped
  | notEnoughBalance
  | collateralIsZero
  | invalidPublicKeyLength
  | notOwnerOfPublicKey
  | notEnoughCollateral
  | invalidFederationPayload
  | notEnoughGenesisValidators
  | duplicatedGenesisValidator
  | gatewayCannotBeZero
  | invalidCollateral
  | invalidPowerScale
  | addressInsufficientBalance
  | failedCall
  | invalidRetentionHeight
  | quorumAlreadyProcessed
  | failedAddSignatory
  | invalidSignature
  | signatureReplay
  | notAuthorized (signatory : Address)
  | failedRemoveIncompleteQuorum
  | zeroMembershipWeight
  | failedAddIncompleteQuorum
  deriving DecidableEq, Repr

end Ipc.Contracts
