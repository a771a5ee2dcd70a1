/-
**Bottom-up checkpoints, from the child's interpreter to the parent's gateway
(`should_create_checkpoint`, `maybe_create_checkpoint`).**

At the end of every block of a child subnet, the interpreter cuts a checkpoint when the gateway
holds a bottom-up batch at that height or the height is a multiple of the checkpoint period. The
checkpoint carries that batch's messages and the configuration number the gateway confirms at that
point (`applyFinalityChanges`). Relayers take checkpoints to the parent's subnet actor
(`submitCheckpoint`), which commits them in the parent's gateway (`subnetActorCalls`), where
`applyMsg` accepts the child's messages only in nonce order.

Two runs of this pipeline:

* a full batch cut early and a period boundary in the same period give two checkpoints, and the
  parent's subnet actor accepts the later one first; its message is rejected for its nonce, the
  earlier checkpoint can no longer be submitted, and the child's applied bottom-up nonce stays
  behind for good (`submitCheckpoint_skips_early_checkpoint`);
* a second cut in one block appends to the first (`storeBottomUpMsgBatch`), which leaves a batch
  larger than any checkpoint may carry (`commitBottomUpMsg_merges_cuts`).

What makes the first run final holds of every run: an accepted checkpoint moves the subnet actor's
last checkpoint height up to its own (`submitCheckpoint_lastBottomUpCheckpointHeight`), nothing the
subnet actor does moves it down, and from then on every checkpoint at or below that height is
refused, whatever is submitted or staked in between (`submitCheckpoint_refuses_earlier`). On the
child's side, a checkpoint carries the batch stored at its height and leaves the batches as they
were (`maybeCreateCheckpoint_ok`).

The block hash, the circulating-supply update, and the storing of the checkpoint and its quorum in
the child's gateway are not modelled: nothing below reads them.
-/

import Ipc.Contracts.GatewayNonces

namespace Ipc.Contracts

/-- The gateway seen by the subnet actor `actor` at block `blockNumber`: what the actor calls on it
is the gateway's facet called with the actor as sender. -/
def subnetActorCalls (env : GatewayEnv) (blockNumber : Nat) (actor : Address) :
    GatewayCalls GatewayActorStorage where
  commitCheckpoint s checkpoint := CheckpointingFacet.commitCheckpoint env s blockNumber actor checkpoint
  addStake s amount := GatewayManagerFacet.addStake s actor amount
  releaseStake s amount := GatewayManagerFacet.releaseStake s actor amount

open Ipc.Lib

/-! ### The subnet actor's last checkpoint height -/

namespace LibStaking

variable {γ : Type} (calls : GatewayCalls γ) (blockNumber : Nat)

/-- Confirming changes writes the validator set, the release queue and the change log only. -/
theorem confirmChange_ok {s : SubnetActorStorage} {gateway : γ} {configurationNumber : Nat}
    {result : SubnetActorStorage × γ}
    (ok : confirmChange calls blockNumber s gateway configurationNumber = .ok result) :
    ∃ validatorSet releaseQueue changeSet,
      result.1 = { s with validatorSet, releaseQueue, changeSet } := by
  unfold confirmChange at ok
  obtain ⟨confirmed, -, ok⟩ := bind_eq_ok.mp ok
  cases ok
  exact ⟨_, _, _, rfl⟩

theorem withdraw_ok {s s' : SubnetActorStorage} {validator : Address} {amount : Nat}
    (ok : withdraw s validator amount = .ok s') :
    ∃ validatorSet changeSet, s' = { s with validatorSet, changeSet } := by
  unfold withdraw at ok
  obtain ⟨vs, -, ok⟩ := bind_eq_ok.mp ok
  cases ok
  exact ⟨_, _, rfl⟩

end LibStaking

namespace SubnetActorCheckpointingFacet

/-- A valid checkpoint fits in a batch, lies above the last checkpoint, and is the next period
boundary or an earlier height with a full batch. -/
theorem ensureValidCheckpoint_ok {s : SubnetActorStorage} {checkpoint : BottomUpCheckpoint}
    (ok : ensureValidCheckpoint s checkpoint = .ok ()) :
    checkpoint.msgs.length ≤ s.maxMsgsPerBottomUpBatch ∧
      s.lastBottomUpCheckpointHeight < checkpoint.blockHeight ∧
      (checkpoint.blockHeight =
          LibGateway.getNextEpoch s.lastBottomUpCheckpointHeight s.bottomUpCheckPeriod ∨
        checkpoint.blockHeight <
            LibGateway.getNextEpoch s.lastBottomUpCheckpointHeight s.bottomUpCheckPeriod ∧
          checkpoint.msgs.length = s.maxMsgsPerBottomUpBatch) := by
  unfold ensureValidCheckpoint at ok
  dsimp only at ok
  split_ifs at ok with tooMany submitted future boundary full
  · exact ⟨by omega, by omega, .inl boundary⟩
  · exact ⟨by omega, by omega, .inr ⟨by omega, full⟩⟩

/-- A checkpoint at or below the last checkpoint height is refused, by its size or its height. -/
theorem ensureValidCheckpoint_of_le {s : SubnetActorStorage} {checkpoint : BottomUpCheckpoint}
    (below : checkpoint.blockHeight ≤ s.lastBottomUpCheckpointHeight) :
    ensureValidCheckpoint s checkpoint ≠ .ok () := by
  intro ok
  have above := (ensureValidCheckpoint_ok ok).2.1
  omega

variable (tryRecover : Nat → Bytes → Option Address) {γ : Type} (calls : GatewayCalls γ)
  (checkpointHash : BottomUpCheckpoint → Nat)

/-- An accepted checkpoint lay above the last checkpoint height, becomes the last one, and is
stored at its height. -/
theorem submitCheckpoint_lastBottomUpCheckpointHeight {blockNumber : Nat} {s : SubnetActorStorage}
    {gateway : γ} {checkpoint : BottomUpCheckpoint} {signatories : List Address}
    {signatures : List Bytes} {result : SubnetActorStorage × γ}
    (ok : submitCheckpoint tryRecover calls checkpointHash blockNumber s gateway checkpoint
      signatories signatures = .ok result) :
    s.lastBottomUpCheckpointHeight < checkpoint.blockHeight ∧
      result.1.lastBottomUpCheckpointHeight = checkpoint.blockHeight ∧
      result.1.committedCheckpoints checkpoint.blockHeight = some checkpoint := by
  obtain ⟨-, valid, -⟩ := submitCheckpoint_ok tryRecover ok
  have above := (ensureValidCheckpoint_ok valid).2.1
  unfold submitCheckpoint at ok
  split at ok
  · cases ok
  · -- past the two checks, the stored state reaches `confirmChange`, which keeps it
    obtain ⟨⟨⟩, -, ok⟩ := bind_eq_ok.mp ok
    obtain ⟨⟨⟩, -, ok⟩ := bind_eq_ok.mp ok
    obtain ⟨gateway', -, confirmed⟩ := bind_eq_ok.mp ok
    obtain ⟨_, _, _, kept⟩ := LibStaking.confirmChange_ok calls blockNumber confirmed
    rw [kept]
    exact ⟨above, rfl, by simp⟩

/-- What the subnet actor does to its checkpoint state: a submitted checkpoint, or a validator's
staking request. -/
inductive ParentAction
  | submit (blockNumber : Nat) (checkpoint : BottomUpCheckpoint) (signatories : List Address)
      (signatures : List Bytes)
  | deposit (validator : Address) (amount : Nat)
  | withdraw (validator : Address) (amount : Nat)
  | setValidatorMetadata (validator : Address) (metadata : Bytes)

/-- One successful call on the subnet actor and its gateway. -/
def ParentStep : SubnetActorStorage × γ → ParentAction → SubnetActorStorage × γ → Prop
  | (s, gateway), .submit blockNumber checkpoint signatories signatures, next =>
    submitCheckpoint tryRecover calls checkpointHash blockNumber s gateway checkpoint signatories
      signatures = .ok next
  | (s, gateway), .deposit validator amount, next => next = (LibStaking.deposit s validator amount, gateway)
  | (s, gateway), .withdraw validator amount, next =>
    ∃ s', LibStaking.withdraw s validator amount = .ok s' ∧ next = (s', gateway)
  | (s, gateway), .setValidatorMetadata validator metadata, next =>
    next = (LibStaking.setValidatorMetadata s validator metadata, gateway)

/-- No call moves the last checkpoint height down. -/
theorem ParentStep.lastBottomUpCheckpointHeight_le {p p' : SubnetActorStorage × γ}
    {action : ParentAction}
    (step : ParentStep tryRecover calls checkpointHash p action p') :
    p.1.lastBottomUpCheckpointHeight ≤ p'.1.lastBottomUpCheckpointHeight := by
  obtain ⟨s, gateway⟩ := p
  cases action with
  | submit blockNumber checkpoint signatories signatures =>
    obtain ⟨above, last, -⟩ := submitCheckpoint_lastBottomUpCheckpointHeight tryRecover calls
      checkpointHash step
    rw [last]
    exact above.le
  | deposit validator amount =>
    simp only [ParentStep] at step
    subst step
    exact le_rfl
  | withdraw validator amount =>
    obtain ⟨s', withdrawn, rfl⟩ := step
    obtain ⟨_, _, rfl⟩ := LibStaking.withdraw_ok withdrawn
    exact le_rfl
  | setValidatorMetadata validator metadata =>
    simp only [ParentStep] at step
    subst step
    exact le_rfl

/-- **An earlier checkpoint is refused for good.** Once the subnet actor accepted a checkpoint,
no run of calls on it lets it accept one at that height or below, however many signatures it
carries. -/
theorem submitCheckpoint_refuses_earlier {blockNumber : Nat} {s : SubnetActorStorage} {gateway : γ}
    {checkpoint : BottomUpCheckpoint} {signatories : List Address} {signatures : List Bytes}
    {accepted : SubnetActorStorage × γ}
    (ok : submitCheckpoint tryRecover calls checkpointHash blockNumber s gateway checkpoint
      signatories signatures = .ok accepted)
    {p : SubnetActorStorage × γ}
    (run : Reachable (· = accepted) (ParentStep tryRecover calls checkpointHash) p)
    (earlier : BottomUpCheckpoint) (below : earlier.blockHeight ≤ checkpoint.blockHeight)
    (blockNumber' : Nat) (signatories' : List Address) (signatures' : List Bytes)
    (result : SubnetActorStorage × γ) :
    submitCheckpoint tryRecover calls checkpointHash blockNumber' p.1 p.2 earlier signatories'
      signatures' ≠ .ok result := by
  -- the run keeps the last checkpoint height at or above the accepted one
  have last : checkpoint.blockHeight ≤ p.1.lastBottomUpCheckpointHeight := by
    refine run.invariant (fun q => checkpoint.blockHeight ≤ q.1.lastBottomUpCheckpointHeight)
      ?_ ?_
    · rintro q rfl
      exact (submitCheckpoint_lastBottomUpCheckpointHeight tryRecover calls checkpointHash ok).2.1.ge
    · intro q action q' above step
      exact above.trans (step.lastBottomUpCheckpointHeight_le tryRecover calls checkpointHash)
  intro accepted'
  obtain ⟨-, valid, -⟩ := submitCheckpoint_ok tryRecover accepted'
  exact ensureValidCheckpoint_of_le (below.trans last) valid

end SubnetActorCheckpointingFacet

end Ipc.Contracts

namespace Ipc.Interpreter

open Ipc.Contracts

/-- `should_create_checkpoint` at the end of block `height`: in a child subnet, when the gateway
holds a batch at that height or the height ends a checkpoint period, the batch's messages and the
subnet's id. -/
def shouldCreateCheckpoint (s : GatewayActorStorage) (height : Nat) :
    Option (List IpcEnvelope × SubnetID) :=
  if s.networkName.route.isEmpty then none
  else
    let batch := s.bottomUpMsgBatches height
    if batch.blockHeight ≠ 0 ∨ height % s.bottomUpCheckPeriod = 0 then
      some (batch.msgs, s.networkName)
    else none

/-- `maybe_create_checkpoint`: the checkpoint of block `height`, with the configuration number
that applying the stored validator changes confirms. -/
def maybeCreateCheckpoint (s : GatewayActorStorage) (height blockHash : Nat) :
    Except Revert (Option (GatewayActorStorage × BottomUpCheckpoint)) :=
  match shouldCreateCheckpoint s height with
  | none => .ok none
  | some (msgs, subnetId) => do
    let (s, nextConfigurationNumber) ← TopDownFinalityFacet.applyFinalityChanges s
    pure (some (s, ⟨subnetId, height, blockHash, nextConfigurationNumber, msgs⟩))

theorem shouldCreateCheckpoint_eq_some {s : GatewayActorStorage} {height : Nat}
    {cut : List IpcEnvelope × SubnetID} :
    shouldCreateCheckpoint s height = some cut ↔
      s.networkName.route ≠ [] ∧
        ((s.bottomUpMsgBatches height).blockHeight ≠ 0 ∨ height % s.bottomUpCheckPeriod = 0) ∧
        cut = ((s.bottomUpMsgBatches height).msgs, s.networkName) := by
  unfold shouldCreateCheckpoint
  by_cases root : s.networkName.route = []
  · simp [root]
  · rw [if_neg (by simpa using root)]
    dsimp only
    split_ifs with due
    · constructor
      · intro found
        exact ⟨root, due, (Option.some.inj found).symm⟩
      · rintro ⟨-, -, rfl⟩
        rfl
    · simp only [false_iff]
      exact fun ⟨_, due', _⟩ => due due'

/-- A checkpoint cut at the end of a block carries the batch stored at its height, in a child
subnet, at a height due for one; cutting it changes the tracker and the memberships only. -/
theorem maybeCreateCheckpoint_ok {s s' : GatewayActorStorage} {height blockHash : Nat}
    {checkpoint : BottomUpCheckpoint}
    (ok : maybeCreateCheckpoint s height blockHash = .ok (some (s', checkpoint))) :
    s.networkName.route ≠ [] ∧
      ((s.bottomUpMsgBatches height).blockHeight ≠ 0 ∨ height % s.bottomUpCheckPeriod = 0) ∧
      checkpoint = ⟨s.networkName, height, blockHash, checkpoint.nextConfigurationNumber,
        (s.bottomUpMsgBatches height).msgs⟩ ∧
      s'.bottomUpMsgBatches = s.bottomUpMsgBatches ∧ s'.bottomUpNonce = s.bottomUpNonce := by
  unfold maybeCreateCheckpoint at ok
  split at ok
  · cases ok
  · rename_i msgs subnetId cutFound
    obtain ⟨child, due, cutEq⟩ := shouldCreateCheckpoint_eq_some.mp cutFound
    obtain ⟨rfl, rfl⟩ := Prod.mk.inj cutEq
    obtain ⟨⟨applied, confirmed⟩, finality, ok⟩ := Ipc.Lib.bind_eq_ok.mp ok
    cases ok
    have kept := TopDownFinalityFacet.applyFinalityChanges_ok finality
    exact ⟨child, due, rfl, congrArg (·.bottomUpMsgBatches) kept,
      congrArg (·.bottomUpNonce) kept⟩

/-! ### Runs of the pipeline -/

/-- A call from contract `3` of the child to an account of the root. -/
def callToRoot : IpcEnvelope := ⟨.call, ⟨rootNet, ⟨1, [8]⟩⟩, ⟨childNet, ⟨1, [3]⟩⟩, 0, 0, [1]⟩

/-- The child's gateway after its contract `3` sends `callToRoot` `count` times in block
`blockNumber`. -/
def childSends (count blockNumber : Nat) : Except Revert GatewayActorStorage := do
  let c ← GatewayDiamond.constructor ⟨10, 4, 51, childNet, [⟨1, 1, []⟩]⟩
  (List.range count).foldlM (fun c _ => do
      let (c, _) ←
        GatewayMessengerFacet.sendContractXnetMessage nativeEnv c blockNumber 3 true 0 callToRoot
      pure c) c

/-- The `n`-th call the child's gateway commits for its contract `3`, stamped with bottom-up nonce
`n`. -/
def sentCall (n : Nat) : IpcEnvelope := { callToRoot with nonce := n }

/-- The checkpoints the child cuts at the ends of blocks `5` and `10` after sending eleven messages
in block `5`. -/
def childCheckpoints : Except Revert (List BottomUpCheckpoint) := do
  let c ← childSends 11 5
  match ← maybeCreateCheckpoint c 5 0 with
  | none => pure []
  | some (c, early) =>
    match ← maybeCreateCheckpoint c 10 0 with
    | none => pure [early]
    | some (_, boundary) => pure [early, boundary]

/-- The parent: its subnet actor for the child, with validator `1` alone active, and the root's
gateway with the child registered. -/
def parentOfChild : Except Revert (SubnetActorStorage × GatewayActorStorage) := do
  let p ← GatewayDiamond.constructor ⟨10, 4, 51, rootNet, [⟨1, 1, []⟩]⟩
  let p ← GatewayManagerFacet.register p 5 100 0
  pure (SubnetActorCheckpointingFacet.equalSubnet 1, p)

/-- A relayer submits a checkpoint to the parent at block `20`, signed by validator `1`. -/
def relay (parent : SubnetActorStorage × GatewayActorStorage) (checkpoint : BottomUpCheckpoint) :
    Except Revert (SubnetActorStorage × GatewayActorStorage) :=
  SubnetActorCheckpointingFacet.submitCheckpoint SubnetActorCheckpointingFacet.recoverByte
    (subnetActorCalls nativeEnv 20 5) (fun _ => 0) 20 parent.1 parent.2 checkpoint [1] [[1]]

/-- A relayer submits checkpoints in the given order; each submission reports the child's applied
bottom-up nonce at the parent after it, or the revert that refused it (and left the parent as it
was). -/
def relayAll (parent : SubnetActorStorage × GatewayActorStorage) :
    List BottomUpCheckpoint → List (Except Revert Nat)
  | [] => []
  | checkpoint :: rest =>
    match relay parent checkpoint with
    | .ok relayed => .ok (relayed.2.subnets childNet).appliedBottomUpNonce :: relayAll relayed rest
    | .error e => .error e :: relayAll parent rest

/-- The child cuts a checkpoint at `5` with the full batch of nonces `0..9` and one at the period
boundary `10` with nonce `10`. Submitted boundary first, the boundary's message is rejected for its
nonce, the child's applied bottom-up nonce at the parent stays `0`, and the checkpoint at `5` is
refused from then on. -/
theorem submitCheckpoint_skips_early_checkpoint :
    childCheckpoints =
        .ok [⟨childNet, 5, 0, 0, (List.range 10).map sentCall⟩, ⟨childNet, 10, 0, 0, [sentCall 10]⟩] ∧
      parentOfChild.map (fun parent => relayAll parent
          [⟨childNet, 10, 0, 0, [sentCall 10]⟩, ⟨childNet, 5, 0, 0, (List.range 10).map sentCall⟩]) =
        .ok [.ok 0, .error .bottomUpCheckpointAlreadySubmitted] := by
  decide +kernel

/-- Twenty-one messages in block `1` cut the batch of the period twice in that block; both cuts
land in the batch at height `1`, which holds twenty messages, twice the maximum, and the
checkpoint cut from it is refused by the parent's subnet actor. -/
theorem commitBottomUpMsg_merges_cuts :
    (childSends 21 1).map (fun child => (child.maxMsgsPerBottomUpBatch, child.bottomUpMsgBatches 1)) =
        .ok (10, ⟨childNet, 1, (List.range 20).map sentCall⟩) ∧
      (childSends 21 1 >>= fun child => maybeCreateCheckpoint child 1 0).map (Option.map Prod.snd) =
        .ok (some ⟨childNet, 1, 0, 0, (List.range 20).map sentCall⟩) ∧
      SubnetActorCheckpointingFacet.ensureValidCheckpoint (SubnetActorCheckpointingFacet.equalSubnet 1)
          ⟨childNet, 1, 0, 0, (List.range 20).map sentCall⟩ =
        .error .maxMsgsPerBatchExceeded := by
  decide +kernel

end Ipc.Interpreter
