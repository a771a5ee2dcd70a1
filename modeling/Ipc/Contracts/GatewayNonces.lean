/-
**The applied nonces of the gateway.**

A gateway accepts a message from its parent only with nonce `appliedTopDownNonce`, and a message
from a child subnet only with that subnet's `appliedBottomUpNonce` (`applyMsg`). The bottom-up
counter moves only there: no commit or receipt touches it (`commitCrossMessage_keepsBottomUp`), so
each message a gateway applies counts one up for the child it came from, and only when it carried
that child's next nonce (`applyMsg_appliedBottomUpNonce`).

The top-down counter is shared: `commitCrossMessage` also counts it up whenever the gateway itself
commits a message down to one of its children (`commitCrossMessage_appliedTopDownNonce`). A gateway
that receives from its parent and sends down — its own contracts' messages, or the receipts of
messages from its children — then expects a nonce its parent has not reached, and rejects the
parent's next message (`applyCrossMessages_skips_parent_message`).

`nativeEnv` is the environment of the runs below: every subnet has a native supply, every message
decodes and executes successfully, and the encodings keep only what the runs are read by, the
outcome of a receipt and the reason of a rejection.
-/

import Ipc.Contracts.GatewayMembership

namespace Ipc.Contracts

open Ipc.Lib

namespace LibGateway

/-- Every child subnet's applied bottom-up nonce is the same in `s'` as in `s`. -/
def KeepsBottomUp (s s' : GatewayActorStorage) : Prop :=
  ∀ subnetId, (s'.subnets subnetId).appliedBottomUpNonce = (s.subnets subnetId).appliedBottomUpNonce

theorem KeepsBottomUp.refl (s : GatewayActorStorage) : KeepsBottomUp s s := fun _ => rfl

theorem KeepsBottomUp.trans {s s' s'' : GatewayActorStorage} (first : KeepsBottomUp s s')
    (second : KeepsBottomUp s' s'') : KeepsBottomUp s s'' := fun subnetId => by
  rw [second subnetId, first subnetId]

theorem getSubnet_eq_some {s : GatewayActorStorage} {subnetId : SubnetID} {subnet : Subnet}
    (found : getSubnet s subnetId = some subnet) : s.subnets subnetId = subnet := by
  unfold getSubnet at found
  split_ifs at found
  exact Option.some.inj found

/-- Writing a record that keeps the applied bottom-up nonce of the one it replaces. -/
theorem keepsBottomUp_setSubnet {s : GatewayActorStorage} {subnetId : SubnetID} {subnet : Subnet}
    (same : subnet.appliedBottomUpNonce = (s.subnets subnetId).appliedBottomUpNonce) :
    KeepsBottomUp s (setSubnet s subnetId subnet) := fun other => by
  by_cases here : other = subnetId
  · subst here
    simp [setSubnet, same]
  · simp [setSubnet, Function.update_of_ne here]

@[simp]
theorem setSubnet_appliedTopDownNonce (s : GatewayActorStorage) (subnetId : SubnetID)
    (subnet : Subnet) : (setSubnet s subnetId subnet).appliedTopDownNonce = s.appliedTopDownNonce :=
  rfl

theorem commitTopDownMsg_ok {s : GatewayActorStorage} {crossMessage : IpcEnvelope}
    {result : GatewayActorStorage × IpcEnvelope} (ok : commitTopDownMsg s crossMessage = .ok result) :
    result.1.appliedTopDownNonce = s.appliedTopDownNonce ∧ KeepsBottomUp s result.1 := by
  unfold commitTopDownMsg at ok
  obtain ⟨subnetId, -, rest⟩ := bind_eq_ok.mp ok
  cases found : getSubnet s subnetId with
  | none => simp [found] at rest
  | some subnet =>
    rw [found] at rest
    rw [← Except.ok.inj rest]
    have stored := getSubnet_eq_some found
    exact ⟨rfl, keepsBottomUp_setSubnet (by rw [stored])⟩

theorem commitBottomUpMsg_keeps (s : GatewayActorStorage) (blockNumber : Nat)
    (crossMessage : IpcEnvelope) :
    (commitBottomUpMsg s blockNumber crossMessage).appliedTopDownNonce = s.appliedTopDownNonce ∧
      (commitBottomUpMsg s blockNumber crossMessage).subnets = s.subnets := by
  unfold commitBottomUpMsg storeBottomUpMsgBatch setBatch
  dsimp only
  split_ifs <;> exact ⟨rfl, rfl⟩

/-- Whether `commitCrossMessage` commits a message down from here: it travels top-down, or this
subnet is the common parent of its ends. -/
def commitsDown (s : GatewayActorStorage) (crossMessage : IpcEnvelope) : Bool :=
  crossMessage.applyType s.networkName == .topDown ||
    (crossMessage.toAddr.subnetId.commonParent crossMessage.fromAddr.subnetId).equals s.networkName

variable (env : GatewayEnv)

/-- A commit counts the applied top-down nonce up exactly when it commits down, and keeps every
applied bottom-up nonce. -/
theorem commitCrossMessage_ok {s : GatewayActorStorage} {blockNumber : Nat}
    {crossMessage : IpcEnvelope} {result : GatewayActorStorage × Bool}
    (ok : commitCrossMessage env s blockNumber crossMessage = .ok result) :
    result.1.appliedTopDownNonce =
        s.appliedTopDownNonce + (if commitsDown s crossMessage then 1 else 0) ∧
      KeepsBottomUp s result.1 := by
  unfold commitCrossMessage at ok
  dsimp only at ok
  split_ifs at ok with empty self down
  · -- committed down, from the state with the applied top-down nonce counted up
    obtain ⟨reject, -, rest⟩ := bind_eq_ok.mp ok
    split_ifs at rest with refused
    obtain ⟨committed, committedOk, done⟩ := bind_eq_ok.mp rest
    rw [← Except.ok.inj done]
    obtain ⟨nonce, keeps⟩ := commitTopDownMsg_ok committedOk
    have counted : commitsDown s crossMessage = true := down
    exact ⟨by rw [nonce, counted, if_pos rfl], keeps⟩
  · -- committed up
    obtain ⟨reject, -, rest⟩ := bind_eq_ok.mp ok
    split_ifs at rest with refused
    rw [← Except.ok.inj rest]
    have notCounted : commitsDown s crossMessage = false := Bool.eq_false_iff.mpr down
    obtain ⟨nonce, subnets⟩ := commitBottomUpMsg_keeps s blockNumber crossMessage
    refine ⟨by rw [nonce, notCounted]; rfl, fun subnetId => ?_⟩
    rw [subnets]

/-- The applied top-down nonce after a commit: one more when the commit goes down. -/
theorem commitCrossMessage_appliedTopDownNonce {s : GatewayActorStorage} {blockNumber : Nat}
    {crossMessage : IpcEnvelope} {result : GatewayActorStorage × Bool}
    (ok : commitCrossMessage env s blockNumber crossMessage = .ok result) :
    result.1.appliedTopDownNonce =
      s.appliedTopDownNonce + (if commitsDown s crossMessage then 1 else 0) :=
  (commitCrossMessage_ok env ok).1

theorem commitCrossMessage_keepsBottomUp {s : GatewayActorStorage} {blockNumber : Nat}
    {crossMessage : IpcEnvelope} {result : GatewayActorStorage × Bool}
    (ok : commitCrossMessage env s blockNumber crossMessage = .ok result) :
    KeepsBottomUp s result.1 :=
  (commitCrossMessage_ok env ok).2

theorem sendReceipt_keepsBottomUp {s s' : GatewayActorStorage} {blockNumber : Nat}
    {original : IpcEnvelope} {outcomeType : OutcomeType} {ret : Bytes}
    (ok : sendReceipt env s blockNumber original outcomeType ret = .ok s') : KeepsBottomUp s s' := by
  unfold sendReceipt at ok
  split_ifs at ok
  · rw [← Except.ok.inj ok]
    exact KeepsBottomUp.refl s
  · rw [← Except.ok.inj ok]
    exact KeepsBottomUp.refl s
  · obtain ⟨committed, committedOk, done⟩ := bind_eq_ok.mp ok
    rw [← Except.ok.inj done]
    exact commitCrossMessage_keepsBottomUp env committedOk

theorem deliverMsg_keepsBottomUp {s s' : GatewayActorStorage} {blockNumber : Nat}
    {supplySource : Option Address} {crossMsg : IpcEnvelope}
    (ok : deliverMsg env s blockNumber supplySource crossMsg = .ok s') : KeepsBottomUp s s' := by
  unfold deliverMsg at ok
  split_ifs at ok
  · rw [← Except.ok.inj ok]
    exact KeepsBottomUp.refl s
  · exact sendReceipt_keepsBottomUp env ok

/-- Whether `applyMsg` accepts a message arriving from `arrivingFrom` as the next bottom-up message
of that child subnet. -/
def acceptsBottomUp (s : GatewayActorStorage) (arrivingFrom : SubnetID) (crossMsg : IpcEnvelope) :
    Bool :=
  !crossMsg.toAddr.subnetId.isEmpty && crossMsg.applyType s.networkName == .bottomUp &&
    (getSubnet s arrivingFrom).isSome &&
    crossMsg.nonce == (s.subnets arrivingFrom).appliedBottomUpNonce

/-- **Step lemma for the bottom-up nonces.** Applying a message counts up the applied bottom-up
nonce of the subnet it arrives from when it accepts it, and changes no other one. -/
theorem applyMsg_appliedBottomUpNonce {s s' : GatewayActorStorage} {blockNumber : Nat}
    {arrivingFrom : SubnetID} {crossMsg : IpcEnvelope}
    (ok : applyMsg env s blockNumber arrivingFrom crossMsg = .ok s') (subnetId : SubnetID) :
    (s'.subnets subnetId).appliedBottomUpNonce = (s.subnets subnetId).appliedBottomUpNonce +
      if subnetId = arrivingFrom ∧ acceptsBottomUp s arrivingFrom crossMsg then 1 else 0 := by
  unfold applyMsg at ok
  by_cases empty : crossMsg.toAddr.subnetId.isEmpty = true
  · -- a message to nowhere only gets its receipt
    rw [if_pos empty] at ok
    rw [sendReceipt_keepsBottomUp env ok subnetId, if_neg (by simp [acceptsBottomUp, empty])]
    rfl
  rw [if_neg empty] at ok
  cases direction : crossMsg.applyType s.networkName with
  | topDown =>
    have rejected : acceptsBottomUp s arrivingFrom crossMsg = false := by
      simp [acceptsBottomUp, direction]
    rw [direction] at ok
    dsimp only at ok
    split_ifs at ok
    · rw [sendReceipt_keepsBottomUp env ok subnetId, rejected]
      simp
    · rw [deliverMsg_keepsBottomUp env ok subnetId, rejected]
      simp
  | bottomUp =>
    rw [direction] at ok
    dsimp only at ok
    cases found : getSubnet s arrivingFrom with
    | none =>
      rw [found] at ok
      rw [← Except.ok.inj ok, if_neg (by simp [acceptsBottomUp, found])]
      rfl
    | some subnet =>
      rw [found] at ok
      dsimp only at ok
      have stored := getSubnet_eq_some found
      split_ifs at ok with wrongNonce
      · -- a wrong nonce: only the receipt
        have rejected : acceptsBottomUp s arrivingFrom crossMsg = false := by
          simp [acceptsBottomUp, stored, Ne.symm wrongNonce]
        rw [sendReceipt_keepsBottomUp env ok subnetId, rejected]
        simp
      · -- accepted: the subnet's nonce counts up before the message is delivered
        have accepted : acceptsBottomUp s arrivingFrom crossMsg = true := by
          simp only [ne_eq, Decidable.not_not] at wrongNonce
          simp [acceptsBottomUp, empty, direction, found, stored, wrongNonce]
        rw [deliverMsg_keepsBottomUp env ok subnetId, accepted]
        by_cases here : subnetId = arrivingFrom
        · subst here
          simp [setSubnet, stored]
        · simp [setSubnet, here]

/-- **Run lemma: a gap never closes.** When every message of a batch carries a nonce above the
applied bottom-up nonce of the subnet it arrives from, none is accepted and that nonce stays. -/
theorem applyMessages_gap {s s' : GatewayActorStorage} {blockNumber : Nat} {arrivingFrom : SubnetID}
    {crossMsgs : List IpcEnvelope}
    (above : ∀ crossMsg ∈ crossMsgs, (s.subnets arrivingFrom).appliedBottomUpNonce < crossMsg.nonce)
    (ok : applyMessages env s blockNumber arrivingFrom crossMsgs = .ok s') :
    (s'.subnets arrivingFrom).appliedBottomUpNonce = (s.subnets arrivingFrom).appliedBottomUpNonce := by
  -- induction on the batch, from any state whose nonce is below the rest of the batch
  induction crossMsgs generalizing s with
  | nil =>
    rw [← Except.ok.inj ok]
  | cons crossMsg rest ih =>
    unfold applyMessages at ok
    rw [List.foldlM_cons] at ok
    obtain ⟨next, applied, ok⟩ := bind_eq_ok.mp ok
    have rejected : acceptsBottomUp s arrivingFrom crossMsg = false := by
      have := above crossMsg List.mem_cons_self
      simp [acceptsBottomUp, Nat.ne_of_gt this]
    have kept : (next.subnets arrivingFrom).appliedBottomUpNonce =
        (s.subnets arrivingFrom).appliedBottomUpNonce := by
      rw [applyMsg_appliedBottomUpNonce env applied arrivingFrom, rejected]
      simp
    rw [← kept]
    exact ih (fun other mem => kept ▸ above other (List.mem_cons_of_mem _ mem)) ok

end LibGateway

/-! ### A gateway that receives from its parent and sends down -/

/-- The code of an outcome in its ABI encoding. -/
def OutcomeType.code : OutcomeType → UInt8
  | .ok => 0
  | .systemErr => 1
  | .actorErr => 2

/-- The code of a rejection reason in its ABI encoding. -/
def InvalidXnetMessageReason.code : InvalidXnetMessageReason → UInt8
  | .sender => 0
  | .dstSubnet => 1
  | .nonce => 2
  | .value => 3
  | .kind => 4

/-- Native supplies everywhere, successful executions, and encodings that keep the outcome of a
receipt followed by what the execution returned, and the reason of a rejection. -/
def nativeEnv : GatewayEnv where
  toHash crossMsg := crossMsg.nonce
  encodeResult _ outcome ret := outcome.code :: ret
  encodeInvalidXnetMessage reason := [reason.code]
  executeCrossMsg _ _ := (true, [])
  hasErc20Supply _ := false
  fvmAddressFrom addr := ⟨1, [addr.toUInt8]⟩
  decodesCallMsg _ := true

/-- The root network `1`, its child `/1/[5]` run by the subnet actor `5`, and the grandchild
`/1/[5, 9]` run by the subnet actor `9`. -/
def rootNet : SubnetID := ⟨1, []⟩

@[inherit_doc rootNet]
def childNet : SubnetID := ⟨1, [5]⟩

@[inherit_doc rootNet]
def grandchildNet : SubnetID := ⟨1, [5, 9]⟩

/-- The root's gateway, with the child registered, after funding the child three times; returns
the three top-down messages it emitted. -/
def rootFundsChild : Except Revert (List IpcEnvelope) := do
  let p ← GatewayDiamond.constructor ⟨10, 4, 51, rootNet, [⟨10, 1, []⟩]⟩
  let p ← GatewayManagerFacet.register p 5 100 0
  let (p, m0) ← GatewayManagerFacet.fund nativeEnv p 7 1 childNet ⟨1, [7]⟩
  let (p, m1) ← GatewayManagerFacet.fund nativeEnv p 7 1 childNet ⟨1, [7]⟩
  let (_, m2) ← GatewayManagerFacet.fund nativeEnv p 7 1 childNet ⟨1, [7]⟩
  pure [m0, m1, m2]

/-- A call from contract `3` of the child to an account of the grandchild. -/
def callToGrandchild : IpcEnvelope :=
  ⟨.call, ⟨grandchildNet, ⟨1, [8]⟩⟩, ⟨childNet, ⟨1, [3]⟩⟩, 0, 0, [1]⟩

/-- The child's gateway, deployed with subnets allowed one level deeper (`maxTreeDepth` 3) and the
grandchild registered: it applies the parent's first message, its contract `3` sends
`callToGrandchild`, and then it applies the parent's other messages, all at block `1`. -/
def childRelays (fromParent : List IpcEnvelope) : Except Revert GatewayActorStorage := do
  let c ← GatewayDiamond.constructor ⟨10, 4, 51, childNet, [⟨10, 1, []⟩]⟩
  let c ← GatewayManagerFacet.register { c with maxTreeDepth := 3 } 9 100 0
  let c ← XnetMessagingFacet.applyCrossMessages nativeEnv c 1 (fromParent.take 1)
  let (c, _) ← GatewayMessengerFacet.sendContractXnetMessage nativeEnv c 1 3 true 0 callToGrandchild
  XnetMessagingFacet.applyCrossMessages nativeEnv c 1 (fromParent.drop 1)

/-- The root emits its three messages to the child with nonces `0, 1, 2`. The child accepts the
first and the third — their receipts, committed up, report `Ok` — and rejects the second with
`InvalidXnetMessage(Nonce)`: its applied top-down nonce has counted its own call down too, and
ends at `3` after two accepted messages. -/
theorem applyCrossMessages_skips_parent_message :
    ∃ fromParent child, rootFundsChild = .ok fromParent ∧ childRelays fromParent = .ok child ∧
      fromParent.map IpcEnvelope.nonce = [0, 1, 2] ∧
      (child.bottomUpMsgBatches 10).msgs.map IpcEnvelope.message =
        [[OutcomeType.ok.code], [OutcomeType.systemErr.code, InvalidXnetMessageReason.nonce.code],
          [OutcomeType.ok.code]] ∧
      child.appliedTopDownNonce = 3 :=
  ⟨_, _, rfl, rfl, rfl, rfl, rfl⟩

end Ipc.Contracts
