/-
**The subnet actor's manager facet: pre-funding, joining and leaving (`SubnetActorManagerFacet`).**

Before the subnet bootstraps, accounts pre-fund their genesis balances (`preFund`, `preRelease`,
kept in `genesisBalance`, its key list and `genesisCircSupply`), and validators join, stake,
unstake and leave with their collateral confirmed at once (`LibStaking.depositWithConfirm`,
`withdrawWithConfirm`), the first deposit of each also listed among the genesis validators. After
each deposit `bootstrapSubnetIfNeeded` bootstraps the subnet once the confirmed collateral and the
number of active validators reach their minimums, and registers it with the gateway. A federated
subnet is bootstrapped by its owner instead (`preBootstrapSetFederatedPower`). After bootstrap the
same calls log their changes for the child to confirm.

The gateway's `register` and the address of a public key are parameters (`ManagerEnv`); the actor's
native balance is kept beside its storage, since `sendValue` and a call with value need it.
-/

import Ipc.Contracts.GatewayMembership

namespace Ipc.Contracts

open Ipc.Lib

/-- What the manager facet takes from outside its storage. -/
structure ManagerEnv (γ : Type) where
  /-- `publicKeyToAddress`: the last 20 bytes of `keccak256` of the key without its prefix. -/
  publicKeyToAddress : Bytes → Address
  /-- The gateway's `register`, called with a value and the genesis circulating supply. -/
  register : γ → Nat → Nat → Except Revert γ

/-- `VALIDATOR_SECP256K1_PUBLIC_KEY_LENGTH`. -/
def validatorSecp256k1PublicKeyLength : Nat := 65

/-- `ERR_PERMISSIONED_AND_BOOTSTRAPPED`. -/
def errPermissionedAndBootstrapped : String :=
  "Method not allowed if permissioned is enabled and subnet bootstrapped"

/-- `ERR_VALIDATOR_JOINED`. -/
def errValidatorJoined : String := "Method not allowed if validator has already joined"

/-- `ERR_VALIDATOR_NOT_JOINED`. -/
def errValidatorNotJoined : String := "Method not allowed if validator has not joined"

/-- The subnet actor's storage with what the manager facet keeps, `LibDiamond`'s contract owner,
and the actor's native balance (`address(this).balance`). -/
structure SubnetActorManagerStorage extends SubnetActorStorage where
  owner : Address
  killed : Bool
  bootstrapped : Bool
  minActivationCollateral : Nat
  minValidators : Nat
  genesisBalance : Address → Nat
  genesisBalanceKeys : List Address
  genesisCircSupply : Nat
  genesisValidators : List Validator
  balance : Nat

namespace SubnetActorManagerStorage

/-- `Address.sendValue` to an account that accepts it: the actor must hold the amount. -/
def sendValue (s : SubnetActorManagerStorage) (amount : Nat) :
    Except Revert SubnetActorManagerStorage :=
  if s.balance < amount then .error .addressInsufficientBalance
  else .ok { s with balance := s.balance - amount }

end SubnetActorManagerStorage

namespace SubnetActorDiamond

/-- The constructor's parameters (`ConstructorParams`) that the manager facet reads. -/
structure ConstructorParams where
  ipcGatewayAddr : Address
  bottomUpCheckPeriod : Nat
  majorityPercentage : Nat
  powerScale : Nat
  minActivationCollateral : Nat
  minValidators : Nat
  activeValidatorsLimit : Nat
  permissionMode : PermissionMode

/-- The subnet actor's constructor, deployed by `owner`. A federated subnet ignores the minimum
activation collateral. -/
def constructor (params : ConstructorParams) (owner : Address) :
    Except Revert SubnetActorManagerStorage :=
  if params.ipcGatewayAddr = 0 then .error .gatewayCannotBeZero
  else if params.bottomUpCheckPeriod = 0 then .error .invalidSubmissionPeriod
  else if params.permissionMode ≠ .federated ∧ params.minActivationCollateral = 0 then
    .error .invalidCollateral
  else if params.majorityPercentage < 51 ∨ params.majorityPercentage > 100 then
    .error .invalidMajorityPercentage
  else if params.powerScale > 18 then .error .invalidPowerScale
  else
    .ok { paused := false, majorityPercentage := params.majorityPercentage,
          bottomUpCheckPeriod := params.bottomUpCheckPeriod,
          maxMsgsPerBottomUpBatch := GatewayDiamond.maxMsgsPerBatch,
          lastBottomUpCheckpointHeight := 0, committedCheckpoints := fun _ => none,
          validatorSet := ValidatorSet.empty params.permissionMode params.activeValidatorsLimit,
          changeSet := StakingChangeLog.new, releaseQueue := ⟨0, fun _ => []⟩,
          owner := owner, killed := false, bootstrapped := false,
          minActivationCollateral :=
            if params.permissionMode = .federated then 0 else params.minActivationCollateral,
          minValidators := params.minValidators,
          genesisBalance := fun _ => 0, genesisBalanceKeys := [], genesisCircSupply := 0,
          genesisValidators := [], balance := 0 }

end SubnetActorDiamond

namespace LibStaking

/-- `setMetadataWithConfirm`. -/
def setMetadataWithConfirm (s : SubnetActorManagerStorage) (validator : Address)
    (metadata : Bytes) : SubnetActorManagerStorage :=
  { s with validatorSet := s.validatorSet.setMetadata validator metadata }

/-- `setFederatedPowerWithConfirm`. -/
def setFederatedPowerWithConfirm (s : SubnetActorManagerStorage) (validator : Address)
    (power : Nat) : Except Revert SubnetActorManagerStorage := do
  let vs ← s.validatorSet.confirmFederatedPower validator power
  pure { s with validatorSet := vs }

/-- `depositWithConfirm`: record and confirm the deposit at once; before bootstrap, a validator
not yet among the genesis validators is listed with its confirmed collateral. -/
def depositWithConfirm (s : SubnetActorManagerStorage) (validator : Address) (amount : Nat) :
    Except Revert SubnetActorManagerStorage := do
  let vs ← (s.validatorSet.recordDeposit validator amount).confirmDeposit validator amount
  let s := { s with validatorSet := vs }
  if !s.bootstrapped && !s.genesisValidators.any (·.addr == validator) then
    let info := vs.validators validator
    pure { s with
      genesisValidators := s.genesisValidators ++ [⟨info.confirmedCollateral, validator, info.metadata⟩] }
  else pure s

/-- `withdrawWithConfirm`: record and confirm the withdrawal at once, and send the amount to the
validator. -/
def withdrawWithConfirm (s : SubnetActorManagerStorage) (validator : Address) (amount : Nat) :
    Except Revert SubnetActorManagerStorage := do
  let vs ← s.validatorSet.recordWithdraw validator amount
  let vs ← vs.confirmWithdraw validator amount
  SubnetActorManagerStorage.sendValue { s with validatorSet := vs } amount

/-- `setFederatedPower`: log the change of power. -/
def setFederatedPower (s : SubnetActorManagerStorage) (validator : Address) (metadata : Bytes)
    (amount : Nat) : SubnetActorManagerStorage :=
  { s with changeSet := s.changeSet.federatedPowerRequest validator metadata amount }

end LibStaking

namespace LibSubnetActor

variable {γ : Type} (env : ManagerEnv γ)

/-- `enforceCollateralValidation`. -/
def enforceCollateralValidation (s : SubnetActorManagerStorage) : Except Revert Unit :=
  if s.validatorSet.permissionMode ≠ .collateral then
    .error (.methodNotAllowed errPermissionedAndBootstrapped)
  else .ok ()

/-- `enforceFederatedValidation`. -/
def enforceFederatedValidation (s : SubnetActorManagerStorage) : Except Revert Unit :=
  if s.validatorSet.permissionMode ≠ .federated then
    .error (.methodNotAllowed errPermissionedAndBootstrapped)
  else .ok ()

/-- `IGateway(s.ipcGatewayAddr).register{value: value}(s.genesisCircSupply)`: a call whose value
exceeds the actor's balance fails. -/
def registerInGateway (s : SubnetActorManagerStorage) (gateway : γ) (value : Nat) :
    Except Revert (SubnetActorManagerStorage × γ) :=
  if s.balance < value then .error .failedCall
  else do
    let gateway ← env.register gateway value s.genesisCircSupply
    pure ({ s with balance := s.balance - value }, gateway)

/-- `bootstrapSubnetIfNeeded`: bootstrap and register once the confirmed collateral and the number
of active validators reach their minimums. -/
def bootstrapSubnetIfNeeded (s : SubnetActorManagerStorage) (gateway : γ) :
    Except Revert (SubnetActorManagerStorage × γ) :=
  let totalCollateral := s.validatorSet.totalConfirmedCollateral
  if totalCollateral ≥ s.minActivationCollateral ∧
      s.validatorSet.activeValidators.size ≥ s.minValidators then
    registerInGateway env { s with bootstrapped := true } gateway
      (totalCollateral + s.genesisCircSupply)
  else .ok (s, gateway)

/-- The loop of `preBootstrapSetFederatedPower`: each key must be its validator's, and each
validator new; its metadata and power are confirmed and it is listed as a genesis validator. -/
def preBootstrapSetFederatedPowerLoop (s : SubnetActorManagerStorage) :
    List Address → List Bytes → List Nat → Except Revert SubnetActorManagerStorage
  | validator :: validators, publicKey :: publicKeys, power :: powers =>
    if env.publicKeyToAddress publicKey ≠ validator then .error .notOwnerOfPublicKey
    else if s.validatorSet.getPower validator > 0 then .error .duplicatedGenesisValidator
    else do
      let s ← LibStaking.setFederatedPowerWithConfirm
        (LibStaking.setMetadataWithConfirm s validator publicKey) validator power
      preBootstrapSetFederatedPowerLoop
        { s with genesisValidators := s.genesisValidators ++ [⟨power, validator, publicKey⟩] }
        validators publicKeys powers
  | _, _, _ => .ok s

/-- `preBootstrapSetFederatedPower`: more validators than the minimum, then bootstrap and register
with the genesis circulating supply. -/
def preBootstrapSetFederatedPower (s : SubnetActorManagerStorage) (gateway : γ)
    (validators : List Address) (publicKeys : List Bytes) (powers : List Nat) :
    Except Revert (SubnetActorManagerStorage × γ) :=
  if validators.length ≤ s.minValidators then .error .notEnoughGenesisValidators
  else do
    let s ← preBootstrapSetFederatedPowerLoop env s validators publicKeys powers
    registerInGateway env { s with bootstrapped := true } gateway s.genesisCircSupply

/-- `postBootstrapSetFederatedPower`: each key must be its validator's; the power is logged. -/
def postBootstrapSetFederatedPower (s : SubnetActorManagerStorage) :
    List Address → List Bytes → List Nat → Except Revert SubnetActorManagerStorage
  | validator :: validators, publicKey :: publicKeys, power :: powers =>
    if env.publicKeyToAddress publicKey ≠ validator then .error .notOwnerOfPublicKey
    else
      postBootstrapSetFederatedPower (LibStaking.setFederatedPower s validator publicKey power)
        validators publicKeys powers
  | _, _, _ => .ok s

/-- `rmAddressFromBalanceKey`: the first occurrence of the address is overwritten by the last key,
and the last slot popped. -/
def rmAddressFromBalanceKey (s : SubnetActorManagerStorage) (addr : Address) :
    SubnetActorManagerStorage :=
  match s.genesisBalanceKeys.findIdx? (· == addr) with
  | some i =>
    { s with
      genesisBalanceKeys :=
        (s.genesisBalanceKeys.set i (s.genesisBalanceKeys.getLast?.getD 0)).dropLast }
  | none => s

end LibSubnetActor

namespace SubnetActorManagerFacet

variable {γ : Type} (env : ManagerEnv γ)

/-- The modifiers `whenNotPaused` and `notKilled`. -/
def whenNotPausedNotKilled (s : SubnetActorManagerStorage) : Except Revert Unit :=
  if s.paused then .error .enforcedPause
  else if s.killed then .error .subnetAlreadyKilled
  else .ok ()

/-- `preFund`, paying `value` in: add it to the sender's genesis balance and to the genesis
circulating supply, listing the sender's key on its first pre-funding. -/
def preFund (s : SubnetActorManagerStorage) (sender : Address) (value : Nat) :
    Except Revert SubnetActorManagerStorage :=
  if value = 0 then .error .notEnoughFunds
  else if s.bootstrapped then .error .subnetAlreadyBootstrapped
  else
    .ok { s with
      genesisBalanceKeys :=
        if s.genesisBalance sender = 0 then s.genesisBalanceKeys ++ [sender]
        else s.genesisBalanceKeys,
      genesisBalance := Function.update s.genesisBalance sender (s.genesisBalance sender + value),
      genesisCircSupply := s.genesisCircSupply + value,
      balance := s.balance + value }

/-- `preRelease`: take `amount` from the sender's genesis balance and the supply, unlist an emptied
key, and send the amount back. Returns the storage and the value sent to the sender. -/
def preRelease (s : SubnetActorManagerStorage) (sender : Address) (amount : Nat) :
    Except Revert (SubnetActorManagerStorage × Nat) :=
  if amount = 0 then .error .notEnoughFunds
  else if s.bootstrapped then .error .subnetAlreadyBootstrapped
  else if s.genesisBalance sender < amount then .error .notEnoughBalance
  else if s.genesisCircSupply < amount then .error .panic
  else
    let s := { s with
      genesisBalance := Function.update s.genesisBalance sender (s.genesisBalance sender - amount),
      genesisCircSupply := s.genesisCircSupply - amount }
    let s := if s.genesisBalance sender = 0 then LibSubnetActor.rmAddressFromBalanceKey s sender
      else s
    do
      let s ← s.sendValue amount
      pure (s, amount)

/-- `setFederatedPower`, by the owner of a federated subnet: before bootstrap it sets the genesis
validators and bootstraps; after, it logs the changes. -/
def setFederatedPower (s : SubnetActorManagerStorage) (gateway : γ) (sender : Address)
    (validators : List Address) (publicKeys : List Bytes) (powers : List Nat) :
    Except Revert (SubnetActorManagerStorage × γ) :=
  if s.killed then .error .subnetAlreadyKilled
  else if sender ≠ s.owner then .error .notOwner
  else do
    LibSubnetActor.enforceFederatedValidation s
    if validators.length ≠ powers.length then .error .invalidFederationPayload
    else if validators.length ≠ publicKeys.length then .error .invalidFederationPayload
    else if s.bootstrapped then do
      let s ← LibSubnetActor.postBootstrapSetFederatedPower env s validators publicKeys powers
      pure (s, gateway)
    else LibSubnetActor.preBootstrapSetFederatedPower env s gateway validators publicKeys powers

/-- `join` with `value` of collateral. A bootstrapped subnet takes joins only in the collateral
mode; before bootstrap the deposit is confirmed at once and may bootstrap the subnet. -/
def join (s : SubnetActorManagerStorage) (gateway : γ) (sender : Address) (value : Nat)
    (publicKey : Bytes) : Except Revert (SubnetActorManagerStorage × γ) := do
  whenNotPausedNotKilled s
  if s.bootstrapped then LibSubnetActor.enforceCollateralValidation s
  let s := { s with balance := s.balance + value }
  if value = 0 then .error .collateralIsZero
  else if (s.validatorSet.validators sender).totalCollateral ≠ 0 then
    .error (.methodNotAllowed errValidatorJoined)
  else if publicKey.length ≠ validatorSecp256k1PublicKeyLength then .error .invalidPublicKeyLength
  else if env.publicKeyToAddress publicKey ≠ sender then .error .notOwnerOfPublicKey
  else if !s.bootstrapped then do
    let s ← LibStaking.depositWithConfirm
      (LibStaking.setMetadataWithConfirm s sender publicKey) sender value
    LibSubnetActor.bootstrapSubnetIfNeeded env s gateway
  else
    pure ({ s with
      toSubnetActorStorage := LibStaking.deposit
        (LibStaking.setValidatorMetadata s.toSubnetActorStorage sender publicKey) sender value },
      gateway)

/-- `stake` with `value` more collateral, in the collateral mode only. -/
def stake (s : SubnetActorManagerStorage) (gateway : γ) (sender : Address) (value : Nat) :
    Except Revert (SubnetActorManagerStorage × γ) := do
  whenNotPausedNotKilled s
  LibSubnetActor.enforceCollateralValidation s
  let s := { s with balance := s.balance + value }
  if value = 0 then .error .collateralIsZero
  else if (s.validatorSet.validators sender).totalCollateral = 0 then
    .error (.methodNotAllowed errValidatorNotJoined)
  else if !s.bootstrapped then do
    let s ← LibStaking.depositWithConfirm s sender value
    LibSubnetActor.bootstrapSubnetIfNeeded env s gateway
  else pure ({ s with toSubnetActorStorage := LibStaking.deposit s.toSubnetActorStorage sender value },
    gateway)

/-- `unstake` of part of the collateral, in the collateral mode only. Returns the storage and the
value sent to the sender. -/
def unstake (s : SubnetActorManagerStorage) (sender : Address) (amount : Nat) :
    Except Revert (SubnetActorManagerStorage × Nat) := do
  whenNotPausedNotKilled s
  LibSubnetActor.enforceCollateralValidation s
  if amount = 0 then .error .cannotReleaseZero
  else
    let collateral := (s.validatorSet.validators sender).totalCollateral
    if collateral = 0 then .error (.notValidator sender)
    else if collateral ≤ amount then .error .notEnoughCollateral
    else if !s.bootstrapped then do
      let s ← LibStaking.withdrawWithConfirm s sender amount
      pure (s, amount)
    else do
      let subnetActor ← LibStaking.withdraw s.toSubnetActorStorage sender amount
      pure ({ s with toSubnetActorStorage := subnetActor }, 0)

/-- `leave` with the whole collateral. Before bootstrap the sender's genesis balance is sent back
too: the supply and the key list forget it, but the source's `s.genesisBalance[msg.sender] == 0`
is a comparison, so the balance itself stays. Returns the storage and the value sent to the
sender. -/
def leave (s : SubnetActorManagerStorage) (sender : Address) :
    Except Revert (SubnetActorManagerStorage × Nat) := do
  whenNotPausedNotKilled s
  if s.bootstrapped then LibSubnetActor.enforceCollateralValidation s
  let amount := (s.validatorSet.validators sender).totalCollateral
  if amount = 0 then .error (.notValidator sender)
  else if !s.bootstrapped then do
    let genesisBalance := s.genesisBalance sender
    let (s, refunded) ←
      if genesisBalance ≠ 0 then
        if s.genesisCircSupply < genesisBalance then .error .panic
        else do
          let s := LibSubnetActor.rmAddressFromBalanceKey
            { s with genesisCircSupply := s.genesisCircSupply - genesisBalance } sender
          let s ← s.sendValue genesisBalance
          pure (s, genesisBalance)
      else pure (s, 0)
    let s ← LibStaking.withdrawWithConfirm s sender amount
    pure (s, refunded + amount)
  else do
    let subnetActor ← LibStaking.withdraw s.toSubnetActorStorage sender amount
    pure ({ s with toSubnetActorStorage := subnetActor }, 0)

end SubnetActorManagerFacet

/-! ### Runs before bootstrap -/

open SubnetActorManagerFacet

/-- The environment of the runs below: the subnet actor `5` registers with the root's gateway,
and a key's address is its second byte (a stand-in for the hash). -/
def byteKeyEnv : ManagerEnv GatewayActorStorage :=
  ⟨fun key => (key.getD 1 0).toNat,
    fun gateway value supply => GatewayManagerFacet.register gateway 5 value supply⟩

/-- An uncompressed 65-byte public key whose address, under `byteKeyEnv`, is `a`. -/
def keyOf (a : Nat) : Bytes := 4 :: List.replicate 64 a.toUInt8

/-- The root's gateway, with no validator. -/
def rootGateway : Except Revert GatewayActorStorage :=
  GatewayDiamond.constructor ⟨10, 4, 51, ⟨1, []⟩, []⟩

/-- A subnet actor owned by `9`, registering with the gateway `2`, in the given mode with the given
minimum activation collateral and one validator needed. -/
def freshSubnetActor (permissionMode : PermissionMode) (minActivationCollateral : Nat) :
    Except Revert SubnetActorManagerStorage :=
  SubnetActorDiamond.constructor ⟨2, 10, 51, 0, minActivationCollateral, 1, 4, permissionMode⟩ 9

/-- Account `1` pre-funds `10`, joins with `5` and leaves; account `2` pre-funds `10`; then `1`
releases `10` of its pre-funding. Returns what `1` was sent back by the leave and by the release. -/
def preFundedLeave : Except Revert (Nat × Nat × SubnetActorManagerStorage) := do
  let gateway ← rootGateway
  let s ← freshSubnetActor .collateral 100
  let s ← preFund s 1 10
  let (s, _) ← join byteKeyEnv s gateway 1 5 (keyOf 1)
  let (s, onLeave) ← leave s 1
  let s ← preFund s 2 10
  let (s, onRelease) ← preRelease s 1 10
  pure (onLeave, onRelease, s)

/-- Account `1` paid in `15` and is sent back `25`: its pre-funding once by `leave` and again by
`preRelease`, out of account `2`'s. Account `2` is left with a genesis balance of `10` against a
supply of `0`, and its own release of it reverts. -/
theorem leave_keeps_genesisBalance :
    ∃ s, preFundedLeave = .ok (15, 10, s) ∧
      s.genesisBalance 2 = 10 ∧ s.genesisCircSupply = 0 ∧ s.genesisBalanceKeys = [2] ∧
      s.balance = 0 ∧ (preRelease s 2 10).map Prod.snd = .error .panic :=
  ⟨_, rfl, by decide, by decide, by decide, by decide, by decide⟩

/-- Validator `1` joins with `10`, then stakes `5` more, which bootstraps a subnet needing `15`. -/
def joinThenStake : Except Revert SubnetActorManagerStorage := do
  let gateway ← rootGateway
  let s ← freshSubnetActor .collateral 15
  let (s, gateway) ← join byteKeyEnv s gateway 1 10 (keyOf 1)
  let (s, _) ← stake byteKeyEnv s gateway 1 5
  pure s

/-- The subnet bootstraps with `1` active at power `15`, but `1` is listed among the genesis
validators with the weight of its first deposit, `10`. -/
theorem genesisValidators_misses_stake :
    (do
        let s ← joinThenStake
        pure (s.bootstrapped, s.genesisValidators.map fun v => (v.addr, v.weight),
          s.validatorSet.listActiveValidators, s.validatorSet.getPower 1)) =
      (.ok (true, [(1, 10)], [1], 15) :
        Except Revert (Bool × List (Address × Nat) × List Address × Nat)) := by
  decide +kernel

/-- Account `1`, not the owner `9`, joins a federated subnet with `1`. -/
def strangerJoinsFederated : Except Revert SubnetActorManagerStorage := do
  let gateway ← rootGateway
  let s ← freshSubnetActor .federated 0
  let (s, _) ← join byteKeyEnv s gateway 1 1 (keyOf 1)
  pure s

/-- The join bootstraps the federated subnet, with `1` active at federated power `0`, without the
owner's `setFederatedPower`. -/
theorem join_bootstraps_federated_subnet :
    (do
        let s ← strangerJoinsFederated
        pure (s.owner, s.validatorSet.permissionMode, s.bootstrapped,
          s.validatorSet.listActiveValidators, (s.validatorSet.validators 1).federatedPower)) =
      (.ok (9, .federated, true, [1], 0) :
        Except Revert (Address × PermissionMode × Bool × List Address × Nat)) := by
  decide +kernel

end Ipc.Contracts
