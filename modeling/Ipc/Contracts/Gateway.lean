/-
**The gateway: committing and applying cross-net messages (`LibGateway`, `XnetMessagingFacet`,
`CheckpointingFacet`, `GatewayMessengerFacet`, `GatewayManagerFacet.fund`).**

Every subnet runs a gateway. Messages leave it in two ways: down to a registered child subnet,
stamped with that child's `topDownNonce` (`commitTopDownMsg`), or up to the parent, stamped with the
gateway's own `bottomUpNonce` and put in the batch of the next checkpoint epoch, which is cut at
`maxMsgsPerBottomUpBatch` messages (`commitBottomUpMsg`). Messages arrive from the parent
(`applyCrossMessages`) or from a child's checkpoint (`commitCheckpoint`); `applyMsg` accepts one only
with the next nonce of its direction — `appliedTopDownNonce` from above, the child's
`appliedBottomUpNonce` from below — and answers every other outcome with a receipt sent back
through `commitCrossMessage`.

What the code takes from outside its storage is `GatewayEnv`: the hashes and ABI encodings of
messages, the outcome of executing a message in its target contract, and the supply source of a
child subnet. Mappings are total functions returning the zero value where nothing was written.
-/

import Ipc.Contracts.SubnetIDHelper
import Ipc.Contracts.SubnetActor

namespace Ipc.Contracts

/-- A child subnet as the gateway records it (`Subnet`). -/
structure Subnet where
  id : SubnetID
  stake : Nat
  topDownNonce : Nat
  appliedBottomUpNonce : Nat
  circSupply : Nat
  deriving DecidableEq, Repr

/-- The zero record of an unregistered subnet. -/
def Subnet.zero : Subnet := ⟨SubnetID.empty, 0, 0, 0, 0⟩

/-- A validator of the membership (`Validator`). -/
structure Validator where
  weight : Nat
  addr : Address
  metadata : Bytes
  deriving DecidableEq, Repr

/-- The validators of a configuration (`Membership`). -/
structure Membership where
  validators : List Validator
  configurationNumber : Nat
  deriving DecidableEq, Repr

/-- The zero envelope of an empty postbox slot. -/
def IpcEnvelope.zero : IpcEnvelope :=
  ⟨.transfer, ⟨SubnetID.empty, ⟨0, []⟩⟩, ⟨SubnetID.empty, ⟨0, []⟩⟩, 0, 0, []⟩

/-- The zero batch of an empty batch slot. -/
def BottomUpMsgBatch.zero : BottomUpMsgBatch := ⟨SubnetID.empty, 0, []⟩

/-- What the gateway's code takes from outside its storage. -/
structure GatewayEnv where
  /-- `toHash`: `keccak256(abi.encode(crossMsg))`. -/
  toHash : IpcEnvelope → Nat
  /-- `abi.encode(ResultMsg(id, outcome, ret))`. -/
  encodeResult : Nat → OutcomeType → Bytes → Bytes
  /-- `abi.encodeWithSelector(InvalidXnetMessage.selector, reason)`. -/
  encodeInvalidXnetMessage : InvalidXnetMessageReason → Bytes
  /-- `executeCrossMsg` with the supply source of a subnet actor, or the native one. -/
  executeCrossMsg : IpcEnvelope → Option Address → Bool × Bytes
  /-- Whether a subnet actor's supply source is of kind ERC20. -/
  hasErc20Supply : Address → Bool
  /-- `FvmAddressHelper.from`. -/
  fvmAddressFrom : Address → FvmAddress
  /-- Whether `abi.decode(message, (CallMsg))` succeeds. -/
  decodesCallMsg : Bytes → Bool

/-- The gateway's storage that messages and memberships use (`GatewayActorStorage`). -/
structure GatewayActorStorage where
  bottomUpCheckPeriod : Nat
  bottomUpNonce : Nat
  appliedTopDownNonce : Nat
  maxMsgsPerBottomUpBatch : Nat
  majorityPercentage : Nat
  maxTreeDepth : Nat
  generalPurposeCrossMsg : Bool
  multiLevelCrossMsg : Bool
  networkName : SubnetID
  currentMembership : Membership
  lastMembership : Membership
  validatorsTracker : ParentValidatorsTracker
  subnets : SubnetID → Subnet
  postbox : Nat → IpcEnvelope
  bottomUpMsgBatches : Nat → BottomUpMsgBatch

namespace CrossMsgHelper

/-- `isEmpty`: a transfer without value, or another message without payload. -/
def isEmpty (crossMsg : IpcEnvelope) : Bool :=
  if crossMsg.kind = .transfer then crossMsg.value = 0 else crossMsg.message.length = 0

/-- `createResultMsg`: the receipt of a message, back to its sender; a successful one returns no
value. -/
def createResultMsg (env : GatewayEnv) (crossMsg : IpcEnvelope) (outcome : OutcomeType)
    (ret : Bytes) : IpcEnvelope :=
  { kind := .result, fromAddr := crossMsg.toAddr, toAddr := crossMsg.fromAddr,
    value := if outcome = .ok then 0 else crossMsg.value,
    message := env.encodeResult (env.toHash crossMsg) outcome ret, nonce := 0 }

/-- `createFundMsg`: a transfer from the signer on the parent to `to` in the subnet. -/
def createFundMsg (env : GatewayEnv) (subnet : SubnetID) (signer : Address)
    (recipient : FvmAddress) (value : Nat) : Except Revert IpcEnvelope := do
  let parent ← subnet.getParentSubnet
  pure
    { kind := .transfer, fromAddr := ⟨parent, env.fvmAddressFrom signer⟩,
      toAddr := ⟨subnet, recipient⟩, value := value, message := [], nonce := 0 }

end CrossMsgHelper

namespace LibGateway

variable (env : GatewayEnv)

/-- `getSubnet`: the record of a registered subnet. -/
def getSubnet (s : GatewayActorStorage) (subnetId : SubnetID) : Option Subnet :=
  if (s.subnets subnetId).id.isEmpty then none else some (s.subnets subnetId)

/-- Write the record of a subnet. -/
def setSubnet (s : GatewayActorStorage) (subnetId : SubnetID) (subnet : Subnet) :
    GatewayActorStorage :=
  { s with subnets := Function.update s.subnets subnetId subnet }

/-- `commitTopDownMsg`: stamp the message with the next top-down nonce of the child subnet it goes
down to, and return it as emitted. -/
def commitTopDownMsg (s : GatewayActorStorage) (crossMessage : IpcEnvelope) :
    Except Revert (GatewayActorStorage × IpcEnvelope) := do
  let subnetId ← crossMessage.toAddr.subnetId.down s.networkName
  match getSubnet s subnetId with
  | none => .error .notRegisteredSubnet
  | some subnet =>
    pure (setSubnet s subnetId
        { subnet with
          topDownNonce := subnet.topDownNonce + 1,
          circSupply := subnet.circSupply + crossMessage.value },
      { crossMessage with nonce := subnet.topDownNonce })

/-- Write the batch at a height. -/
def setBatch (s : GatewayActorStorage) (height : Nat) (batch : BottomUpMsgBatch) :
    GatewayActorStorage :=
  { s with bottomUpMsgBatches := Function.update s.bottomUpMsgBatches height batch }

/-- `storeBottomUpMsgBatch`: write the batch's id and height at its height, and push its messages
after those already there. -/
def storeBottomUpMsgBatch (s : GatewayActorStorage) (batch : BottomUpMsgBatch) :
    GatewayActorStorage :=
  setBatch s batch.blockHeight
    ⟨batch.subnetID, batch.blockHeight, (s.bottomUpMsgBatches batch.blockHeight).msgs ++ batch.msgs⟩

/-- `commitBottomUpMsg` at block `blockNumber`: stamp the message with the next bottom-up nonce and
add it to the batch of the next epoch; a full batch is first cut into a batch at the current
block. -/
def commitBottomUpMsg (s : GatewayActorStorage) (blockNumber : Nat) (crossMessage : IpcEnvelope) :
    GatewayActorStorage :=
  let epoch := getNextEpoch blockNumber s.bottomUpCheckPeriod
  let stamped := { crossMessage with nonce := s.bottomUpNonce }
  let s := { s with bottomUpNonce := s.bottomUpNonce + 1 }
  let batch := s.bottomUpMsgBatches epoch
  if batch.blockHeight = 0 then setBatch s epoch ⟨s.networkName, epoch, batch.msgs ++ [stamped]⟩
  else if batch.msgs.length = s.maxMsgsPerBottomUpBatch then
    storeBottomUpMsgBatch (setBatch s epoch { batch with msgs := [stamped] })
      ⟨s.networkName, blockNumber, batch.msgs⟩
  else setBatch s epoch { batch with msgs := batch.msgs ++ [stamped] }

/-- Whether a message committed here is refused for an ERC20 supply source on its first or last
hop (the `reject` flag of `commitCrossMessage`). -/
def rejectsSupply (s : GatewayActorStorage) (crossMessage : IpcEnvelope) : Except Revert Bool :=
  let toSubnet := crossMessage.toAddr.subnetId
  let fromSubnet := crossMessage.fromAddr.subnetId
  match crossMessage.applyType s.networkName with
  | .bottomUp => do
    let parent ← fromSubnet.getParentSubnet
    pure (parent.equals s.networkName && env.hasErc20Supply fromSubnet.getActor)
  | .topDown => do
    let next ← toSubnet.down s.networkName
    pure (env.hasErc20Supply next.getActor)

/-- `commitCrossMessage` at block `blockNumber`: commit the message down, counting it in
`appliedTopDownNonce`, when it travels top-down here or this subnet is the common parent of its
ends; else commit it up. Returns the state and whether the value is to be burnt. -/
def commitCrossMessage (s : GatewayActorStorage) (blockNumber : Nat) (crossMessage : IpcEnvelope) :
    Except Revert (GatewayActorStorage × Bool) :=
  let toSubnet := crossMessage.toAddr.subnetId
  if toSubnet.isEmpty then .error (.invalidXnetMessage .dstSubnet)
  else if toSubnet.equals s.networkName then .error .cannotSendCrossMsgToItself
  else do
    let isLCA := (toSubnet.commonParent crossMessage.fromAddr.subnetId).equals s.networkName
    let reject ← rejectsSupply env s crossMessage
    if reject && crossMessage.kind == .transfer then
      .error (.methodNotAllowed
        "propagation of `Transfer` messages not suppported for subnets with ERC20 supply")
    else if crossMessage.applyType s.networkName == .topDown || isLCA then do
      let committed ← commitTopDownMsg
        { s with appliedTopDownNonce := s.appliedTopDownNonce + 1 } crossMessage
      pure (committed.1, false)
    else pure (commitBottomUpMsg s blockNumber crossMessage, crossMessage.value ≠ 0)

/-- `sendReceipt`: commit the receipt of a message, except for an empty message or a receipt. -/
def sendReceipt (s : GatewayActorStorage) (blockNumber : Nat) (original : IpcEnvelope)
    (outcomeType : OutcomeType) (ret : Bytes) : Except Revert GatewayActorStorage :=
  if CrossMsgHelper.isEmpty original then .ok s
  else if original.kind = .result then .ok s
  else do
    let committed ← commitCrossMessage env s blockNumber
      (CrossMsgHelper.createResultMsg env original outcomeType ret)
    pure committed.1

/-- Deliver an accepted message: keep it in the postbox when it goes further, else execute it and
send its receipt. -/
def deliverMsg (s : GatewayActorStorage) (blockNumber : Nat) (supplySource : Option Address)
    (crossMsg : IpcEnvelope) : Except Revert GatewayActorStorage :=
  if !crossMsg.toAddr.subnetId.equals s.networkName then
    .ok { s with postbox := Function.update s.postbox (env.toHash crossMsg) crossMsg }
  else
    let executed := env.executeCrossMsg crossMsg supplySource
    sendReceipt env s blockNumber crossMsg (if executed.1 then .ok else .actorErr) executed.2

/-- `applyMsg`: accept a message arriving from `arrivingFrom` only with the next nonce of its
direction, and answer a wrong destination or nonce with a receipt. -/
def applyMsg (s : GatewayActorStorage) (blockNumber : Nat) (arrivingFrom : SubnetID)
    (crossMsg : IpcEnvelope) : Except Revert GatewayActorStorage :=
  if crossMsg.toAddr.subnetId.isEmpty then
    sendReceipt env s blockNumber crossMsg .systemErr (env.encodeInvalidXnetMessage .dstSubnet)
  else
    match crossMsg.applyType s.networkName with
    | .bottomUp =>
      match getSubnet s arrivingFrom with
      | none => .ok s
      | some subnet =>
        if subnet.appliedBottomUpNonce ≠ crossMsg.nonce then
          sendReceipt env s blockNumber crossMsg .systemErr (env.encodeInvalidXnetMessage .nonce)
        else
          deliverMsg env
            (setSubnet s arrivingFrom
              { subnet with appliedBottomUpNonce := subnet.appliedBottomUpNonce + 1 })
            blockNumber (some subnet.id.getActor) crossMsg
    | .topDown =>
      if s.appliedTopDownNonce ≠ crossMsg.nonce then
        sendReceipt env s blockNumber crossMsg .systemErr (env.encodeInvalidXnetMessage .nonce)
      else
        deliverMsg env { s with appliedTopDownNonce := s.appliedTopDownNonce + 1 } blockNumber
          none crossMsg

/-- `applyMessages`: apply the messages in order. -/
def applyMessages (s : GatewayActorStorage) (blockNumber : Nat) (arrivingFrom : SubnetID)
    (crossMsgs : List IpcEnvelope) : Except Revert GatewayActorStorage :=
  crossMsgs.foldlM (fun s crossMsg => applyMsg env s blockNumber arrivingFrom crossMsg) s

end LibGateway

namespace XnetMessagingFacet

/-- `applyCrossMessages`: the top-down messages the node draws from the parent. -/
def applyCrossMessages (env : GatewayEnv) (s : GatewayActorStorage) (blockNumber : Nat)
    (crossMsgs : List IpcEnvelope) : Except Revert GatewayActorStorage := do
  let parent ← s.networkName.getParentSubnet
  LibGateway.applyMessages env s blockNumber parent crossMsgs

end XnetMessagingFacet

namespace CheckpointingFacet

/-- `execBottomUpMsgs` for the subnet recorded under `subnetKey`: take the messages' value from its
circulating supply, then apply them as arriving from its id. -/
def execBottomUpMsgs (env : GatewayEnv) (s : GatewayActorStorage) (blockNumber : Nat)
    (msgs : List IpcEnvelope) (subnetKey : SubnetID) (subnet : Subnet) :
    Except Revert GatewayActorStorage :=
  let totalValue := (msgs.map IpcEnvelope.value).sum
  if subnet.circSupply < totalValue then .error .notEnoughSubnetCircSupply
  else
    LibGateway.applyMessages env
      (LibGateway.setSubnet s subnetKey { subnet with circSupply := subnet.circSupply - totalValue })
      blockNumber subnet.id msgs

/-- `commitCheckpoint`, called by the subnet actor `sender`. -/
def commitCheckpoint (env : GatewayEnv) (s : GatewayActorStorage) (blockNumber : Nat)
    (sender : Address) (checkpoint : BottomUpCheckpoint) : Except Revert GatewayActorStorage :=
  if checkpoint.subnetID.getActor ≠ sender then .error .invalidCheckpointSource
  else if sender = 0 then .error .invalidActorAddress
  else
    let subnetKey := s.networkName.createSubnetId sender
    match LibGateway.getSubnet s subnetKey with
    | none => .error .subnetNotFound
    | some subnet =>
      if !checkpoint.subnetID.equals subnet.id then .error .invalidSubnet
      else if checkpoint.msgs.length > s.maxMsgsPerBottomUpBatch then
        .error .maxMsgsPerBatchExceeded
      else execBottomUpMsgs env s blockNumber checkpoint.msgs subnetKey subnet

end CheckpointingFacet

namespace GatewayMessengerFacet

/-- `ERR_GENERAL_CROSS_MSG_DISABLED`. -/
def errGeneralCrossMsgDisabled : String :=
  "Support for general-purpose cross-net messages is disabled"

/-- `ERR_MULTILEVEL_CROSS_MSG_DISABLED`. -/
def errMultilevelCrossMsgDisabled : String :=
  "Support for multi-level cross-net messages is disabled"

/-- `sendContractXnetMessage` from the contract `sender` (`isContract`: it has code), carrying
`msgValue`. -/
def sendContractXnetMessage (env : GatewayEnv) (s : GatewayActorStorage) (blockNumber : Nat)
    (sender : Address) (isContract : Bool) (msgValue : Nat) (envelope : IpcEnvelope) :
    Except Revert (GatewayActorStorage × IpcEnvelope) :=
  if !s.generalPurposeCrossMsg then .error (.methodNotAllowed errGeneralCrossMsgDisabled)
  else if !isContract then .error (.invalidXnetMessage .sender)
  else if envelope.value ≠ msgValue then .error (.invalidXnetMessage .value)
  else if envelope.kind ≠ .call then .error (.invalidXnetMessage .kind)
  else if !env.decodesCallMsg envelope.message then .error .abiDecode
  else do
    let committed : IpcEnvelope :=
      { kind := .call, fromAddr := ⟨s.networkName, env.fvmAddressFrom sender⟩,
        toAddr := envelope.toAddr, value := msgValue, message := envelope.message, nonce := 0 }
    let result ← LibGateway.commitCrossMessage env s blockNumber committed
    pure (result.1, committed)

/-- `propagate`: commit the message kept in the postbox under `msgCid`, and empty the slot. -/
def propagate (env : GatewayEnv) (s : GatewayActorStorage) (blockNumber : Nat) (msgCid : Nat) :
    Except Revert GatewayActorStorage :=
  if !s.multiLevelCrossMsg then .error (.methodNotAllowed errMultilevelCrossMsgDisabled)
  else do
    let result ← LibGateway.commitCrossMessage env s blockNumber (s.postbox msgCid)
    pure { result.1 with postbox := Function.update result.1.postbox msgCid IpcEnvelope.zero }

end GatewayMessengerFacet

namespace GatewayManagerFacet

/-- `ERR_CHILD_SUBNET_NOT_ALLOWED`. -/
def errChildSubnetNotAllowed : String := "Subnet does not allow child subnets"

/-- `register`, called by the subnet actor `sender` with `msgValue`: below the maximum depth,
record the subnet with the value beyond its genesis supply as stake. -/
def register (s : GatewayActorStorage) (sender : Address) (msgValue genesisCircSupply : Nat) :
    Except Revert GatewayActorStorage :=
  if s.networkName.route.length + 1 ≥ s.maxTreeDepth then
    .error (.methodNotAllowed errChildSubnetNotAllowed)
  else if msgValue < genesisCircSupply then .error .notEnoughFunds
  else
    let subnetId := s.networkName.createSubnetId sender
    match LibGateway.getSubnet s subnetId with
    | some _ => .error .alreadyRegisteredSubnet
    | none =>
      .ok (LibGateway.setSubnet s subnetId
        { s.subnets subnetId with
          id := subnetId, stake := msgValue - genesisCircSupply, circSupply := genesisCircSupply })

/-- `getSubnet(address)`: the record of the child subnet run by the subnet actor `actor`. -/
def getSubnetOfActor (s : GatewayActorStorage) (actor : Address) :
    Except Revert (SubnetID × Option Subnet) :=
  if actor = 0 then .error .invalidActorAddress
  else
    let subnetId := s.networkName.createSubnetId actor
    .ok (subnetId, LibGateway.getSubnet s subnetId)

/-- `addStake`, called by the subnet actor `sender` with `msgValue`. -/
def addStake (s : GatewayActorStorage) (sender : Address) (msgValue : Nat) :
    Except Revert GatewayActorStorage :=
  if msgValue = 0 then .error .notEnoughFunds
  else do
    let (subnetId, found) ← getSubnetOfActor s sender
    match found with
    | none => .error .notRegisteredSubnet
    | some subnet => pure (LibGateway.setSubnet s subnetId { subnet with stake := subnet.stake + msgValue })

/-- `releaseStake`, called by the subnet actor `sender`: the amount leaves the subnet's stake (and
is sent to the actor). -/
def releaseStake (s : GatewayActorStorage) (sender : Address) (amount : Nat) :
    Except Revert GatewayActorStorage :=
  if amount = 0 then .error .cannotReleaseZero
  else do
    let (subnetId, found) ← getSubnetOfActor s sender
    match found with
    | none => .error .notRegisteredSubnet
    | some subnet =>
      if subnet.stake < amount then .error .notEnoughFundsToRelease
      else pure (LibGateway.setSubnet s subnetId { subnet with stake := subnet.stake - amount })

/-- `kill`, called by the subnet actor `sender`: a subnet with no circulating supply is deleted
(and its stake sent back). -/
def kill (s : GatewayActorStorage) (sender : Address) : Except Revert GatewayActorStorage := do
  let (subnetId, found) ← getSubnetOfActor s sender
  match found with
  | none => .error .notRegisteredSubnet
  | some subnet =>
    if subnet.circSupply ≠ 0 then .error .notEmptySubnetCircSupply
    else pure (LibGateway.setSubnet s subnetId Subnet.zero)

/-- `fund`: send `msgValue` from `sender` to `recipient` (the source's `to`) in a registered child
subnet with a native supply. -/
def fund (env : GatewayEnv) (s : GatewayActorStorage) (sender : Address) (msgValue : Nat)
    (subnetId : SubnetID) (recipient : FvmAddress) :
    Except Revert (GatewayActorStorage × IpcEnvelope) :=
  if msgValue = 0 then .error (.invalidXnetMessage .value)
  else if (LibGateway.getSubnet s subnetId).isNone then .error .notRegisteredSubnet
  else if env.hasErc20Supply subnetId.getActor then .error .unexpectedSupplySource
  else do
    let crossMsg ← CrossMsgHelper.createFundMsg env subnetId sender recipient msgValue
    LibGateway.commitTopDownMsg s crossMsg

end GatewayManagerFacet

end Ipc.Contracts
