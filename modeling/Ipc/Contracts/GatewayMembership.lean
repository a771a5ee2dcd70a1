/-
**The child gateway's copy of the parent's validators (`GatewayDiamond` constructor,
`LibGateway.updateMembership`, `TopDownFinalityFacet`).**

A child gateway starts from the genesis membership its constructor is given, configuration `0`,
and a tracker with an empty validator set whose permission mode is the default, `Collateral`. The
parent's validator changes reach it through `storeValidatorChanges`; `applyFinalityChanges`
confirms all of them in the tracker and makes the tracker's active validators the new membership,
each weighing its confirmed collateral plus its federated power.

The tracker never sees the genesis validators: they reach the parent's validator set before
bootstrap, where nothing is logged. The first membership built from the tracker therefore drops a
genesis validator that no change touched, while the parent keeps it active
(`applyFinalityChanges_drops_genesis_validator`).

`updateMembership` copies the given validators into storage by overwriting, pushing and popping;
the loops copy exactly (`copyValidators_eq`), so a call that changes anything makes the given
membership current and the former one last (`updateMembership_replaces`). Its guard against the
past compares with the last configuration, not the current one: a configuration between the two
becomes current (`updateMembership_between`, `updateMembership_goes_back`).
-/

import Ipc.Contracts.Gateway
import Ipc.Contracts.CheckpointQuorum

namespace Ipc.Contracts

namespace LibGateway

/-- `membershipTotalWeight`. -/
def membershipTotalWeight (membership : Membership) : Nat :=
  (membership.validators.map Validator.weight).sum

/-- `membershipEqual`, with the hash of the validator lists taken collision-free. -/
def membershipEqual (mb1 mb2 : Membership) : Bool :=
  mb1.configurationNumber == mb2.configurationNumber &&
    membershipTotalWeight mb1 == membershipTotalWeight mb2 &&
    mb1.validators.length == mb2.validators.length && mb1.validators == mb2.validators

/-- The first copy loop of `updateMembership`, from index `i` on: each validator of the input
overwrites the stored one at its index while the index is below the stored length `storeLength`,
and is pushed after it from there on. -/
def overwriteOrPush (storeLength : Nat) : Nat → List Validator → List Validator → List Validator
  | _, [], stored => stored
  | i, v :: rest, stored =>
    overwriteOrPush storeLength (i + 1) rest
      (if i < storeLength then stored.set i v else stored ++ [v])

/-- The copy of a memory array of validators into a storage array: overwrite or push each input
validator, then pop what the longer stored array has left over. -/
def copyValidators (stored input : List Validator) : List Validator :=
  let storeLength := stored.length
  let copied := overwriteOrPush storeLength 0 input stored
  if storeLength > input.length then Nat.iterate List.dropLast (storeLength - input.length) copied
  else copied

/-- After the first `pre.length` rounds the stored array starts with what was copied and goes on
with what was stored past it. -/
theorem overwriteOrPush_eq (stored : List Validator) :
    ∀ rest pre : List Validator,
      overwriteOrPush stored.length pre.length rest (pre ++ stored.drop pre.length) =
        pre ++ rest ++ stored.drop (pre.length + rest.length) := by
  intro rest
  induction rest with
  | nil =>
    intro pre
    simp [overwriteOrPush]
  | cons v rest ih =>
    intro pre
    have round : (if pre.length < stored.length then (pre ++ stored.drop pre.length).set pre.length v
        else pre ++ stored.drop pre.length ++ [v]) =
        (pre ++ [v]) ++ stored.drop (pre.length + 1) := by
      split
      · rename_i inside
        rw [List.set_append_right _ _ (le_refl _), Nat.sub_self,
          List.drop_eq_getElem_cons inside, List.set_cons_zero]
        simp
      · rename_i beyond
        rw [List.drop_eq_nil_of_le (by omega), List.drop_eq_nil_of_le (by omega)]
        simp
    have later := ih (pre ++ [v])
    rw [List.length_append, List.length_singleton] at later
    rw [overwriteOrPush, round, later]
    simp [Nat.add_assoc, Nat.add_comm 1]

/-- Dropping the last element `n` times keeps all but the last `n`. -/
theorem iterate_dropLast (n : Nat) : ∀ l : List Validator,
    Nat.iterate List.dropLast n l = l.take (l.length - n) := by
  induction n with
  | zero =>
    intro l
    simp
  | succ n ih =>
    intro l
    rw [Function.iterate_succ_apply, ih, List.length_dropLast, List.dropLast_eq_take,
      List.take_take]
    congr 1
    omega

/-- **The copy loops copy.** Whatever was stored, the stored array ends up the input array: the
same validators in the same order. -/
theorem copyValidators_eq (stored input : List Validator) : copyValidators stored input = input := by
  have copied := overwriteOrPush_eq stored input []
  simp only [List.length_nil, List.nil_append, List.drop_zero, Nat.zero_add] at copied
  unfold copyValidators
  dsimp only
  rw [copied]
  split
  · rename_i longer
    rw [iterate_dropLast, List.length_append, List.length_drop, List.take_left' (by omega)]
  · rw [List.drop_eq_nil_of_le (by omega), List.append_nil]

/-- `updateMembership`: after the genesis membership, ignore the last configuration again, refuse
an older one, and ignore an equal membership; otherwise the current membership becomes the last
one, and the given one's validators and configuration number are copied into the current one. -/
def updateMembership (s : GatewayActorStorage) (membership : Membership) :
    Except Revert GatewayActorStorage :=
  let replaced := { s with
    lastMembership := s.currentMembership,
    currentMembership :=
      ⟨copyValidators s.currentMembership.validators membership.validators,
        membership.configurationNumber⟩ }
  if s.currentMembership.configurationNumber ≠ 0 then
    if membership.configurationNumber = s.lastMembership.configurationNumber then .ok s
    else if membership.configurationNumber < s.lastMembership.configurationNumber then
      .error .oldConfigurationNumber
    else if membershipEqual membership s.currentMembership then .ok s
    else .ok replaced
  else .ok replaced

/-- Updating the membership writes the current and last memberships only. -/
theorem updateMembership_ok {s s' : GatewayActorStorage} {membership : Membership}
    (ok : updateMembership s membership = .ok s') :
    s' = { s with currentMembership := s'.currentMembership, lastMembership := s'.lastMembership } := by
  unfold updateMembership at ok
  split_ifs at ok <;> cases ok <;> rfl

/-- **What a call writes.** A call changes nothing, or makes the current membership the last one
and the given membership, its validators in their order and its configuration number, the current
one. -/
theorem updateMembership_replaces {s s' : GatewayActorStorage} {membership : Membership}
    (ok : updateMembership s membership = .ok s') :
    s' = s ∨
      s' = { s with lastMembership := s.currentMembership, currentMembership := membership } := by
  unfold updateMembership at ok
  simp only [copyValidators_eq] at ok
  -- the older configuration reverts; the repeated or equal one changes nothing
  split_ifs at ok with started repeated older equal
  · exact .inl (Except.ok.inj ok).symm
  · exact .inl (Except.ok.inj ok).symm
  · exact .inr (Except.ok.inj ok).symm
  · exact .inr (Except.ok.inj ok).symm

/-- **The guard reads the last membership.** After the genesis membership, a configuration number
below the current one but above the last one is neither refused nor ignored: it becomes current,
and the current configuration number goes back. -/
theorem updateMembership_between {s : GatewayActorStorage} {membership : Membership}
    (started : s.currentMembership.configurationNumber ≠ 0)
    (newer : s.lastMembership.configurationNumber < membership.configurationNumber)
    (older : membership.configurationNumber < s.currentMembership.configurationNumber) :
    updateMembership s membership =
      .ok { s with lastMembership := s.currentMembership, currentMembership := membership } := by
  have differs : membershipEqual membership s.currentMembership = false := by
    simp [membershipEqual, Nat.ne_of_lt older]
  unfold updateMembership
  simp only [copyValidators_eq]
  rw [if_pos started, if_neg (Nat.ne_of_gt newer), if_neg (Nat.not_lt_of_gt newer), differs]
  rfl

end LibGateway

namespace GatewayDiamond

/-- The constructor's parameters (`ConstructorParams`) that the modelled storage keeps. -/
structure ConstructorParams where
  bottomUpCheckPeriod : Nat
  activeValidatorsLimit : Nat
  majorityPercentage : Nat
  networkName : SubnetID
  genesisValidators : List Validator

/-- `MAX_MSGS_PER_BATCH`. -/
def maxMsgsPerBatch : Nat := 10

/-- `FEATURE_MULTILEVEL_CROSSMSG`. -/
def featureMultilevelCrossmsg : Bool := false

/-- `FEATURE_GENERAL_PUPRPOSE_CROSSMSG`. -/
def featureGeneralPurposeCrossmsg : Bool := true

/-- `FEATURE_SUBNET_DEPTH`: subnets may be registered only at the root. -/
def featureSubnetDepth : Nat := 2

/-- The gateway's constructor: check the period and the majority, then start with the genesis
membership and an empty tracker. -/
def constructor (params : ConstructorParams) : Except Revert GatewayActorStorage :=
  if params.bottomUpCheckPeriod = 0 then .error .invalidSubmissionPeriod
  else if params.majorityPercentage < 51 ∨ params.majorityPercentage > 100 then
    .error .invalidMajorityPercentage
  else
    LibGateway.updateMembership
      { bottomUpCheckPeriod := params.bottomUpCheckPeriod, bottomUpNonce := 0,
        appliedTopDownNonce := 0, maxMsgsPerBottomUpBatch := maxMsgsPerBatch,
        majorityPercentage := params.majorityPercentage, maxTreeDepth := featureSubnetDepth,
        generalPurposeCrossMsg := featureGeneralPurposeCrossmsg,
        multiLevelCrossMsg := featureMultilevelCrossmsg,
        networkName := params.networkName,
        currentMembership := ⟨[], 0⟩, lastMembership := ⟨[], 0⟩,
        validatorsTracker :=
          ⟨ValidatorSet.empty .collateral params.activeValidatorsLimit, StakingChangeLog.new⟩,
        subnets := fun _ => Subnet.zero, postbox := fun _ => IpcEnvelope.zero,
        bottomUpMsgBatches := fun _ => BottomUpMsgBatch.zero }
      ⟨params.genesisValidators, 0⟩

end GatewayDiamond

namespace TopDownFinalityFacet

/-- `storeValidatorChanges`. -/
def storeValidatorChanges (s : GatewayActorStorage) (changeRequests : List StakingChangeRequest) :
    Except Revert GatewayActorStorage := do
  let tracker ← LibValidatorTracking.batchStoreChange s.validatorsTracker changeRequests
  pure { s with validatorsTracker := tracker }

/-- The membership entry of an active validator of the tracker. -/
def trackedValidator (vs : ValidatorSet) (addr : Address) : Validator :=
  ⟨(vs.validators addr).confirmedCollateral + (vs.validators addr).federatedPower, addr,
    (vs.validators addr).metadata⟩

/-- `applyFinalityChanges`: confirm every stored change and make the tracker's active validators
the membership; returns the configuration number confirmed, `0` when there was none. -/
def applyFinalityChanges (s : GatewayActorStorage) : Except Revert (GatewayActorStorage × Nat) :=
  let configurationNumber := s.validatorsTracker.changes.nextConfigurationNumber - 1
  if configurationNumber + 1 = s.validatorsTracker.changes.startConfigurationNumber then
    .ok (s, 0)
  else do
    let tracker ← LibValidatorTracking.confirmChange s.validatorsTracker configurationNumber
    let vs := tracker.validators.listActiveValidators.map (trackedValidator tracker.validators)
    let updated ← LibGateway.updateMembership { s with validatorsTracker := tracker }
      ⟨vs, configurationNumber⟩
    pure (updated, configurationNumber)

/-- Applying the finality's changes writes the tracker and the memberships only. -/
theorem applyFinalityChanges_ok {s s' : GatewayActorStorage} {configurationNumber : Nat}
    (ok : applyFinalityChanges s = .ok (s', configurationNumber)) :
    s' = { s with
      validatorsTracker := s'.validatorsTracker, currentMembership := s'.currentMembership,
      lastMembership := s'.lastMembership } := by
  unfold applyFinalityChanges at ok
  dsimp only at ok
  split_ifs at ok with nothingStored
  · cases ok
    rfl
  · obtain ⟨tracker, -, ok⟩ := Ipc.Lib.bind_eq_ok.mp ok
    obtain ⟨updated, membership, ok⟩ := Ipc.Lib.bind_eq_ok.mp ok
    cases ok
    rw [LibGateway.updateMembership_ok membership]

end TopDownFinalityFacet

/-! ### A validator joining after genesis -/

open SubnetActorCheckpointingFacet

/-- A bootstrapped subnet whose one genesis validator, `1`, staked `10` before bootstrap
(`depositWithConfirm`: recorded and confirmed at once, with nothing logged). -/
def genesisSubnetActor : Except Revert SubnetActorStorage := do
  let vs ← ((ValidatorSet.empty .collateral 4).recordDeposit 1 10).confirmDeposit 1 10
  pure
    { paused := false, majorityPercentage := 51, bottomUpCheckPeriod := 10,
      maxMsgsPerBottomUpBatch := 10, lastBottomUpCheckpointHeight := 0,
      committedCheckpoints := fun _ => none, validatorSet := vs,
      changeSet := StakingChangeLog.new, releaseQueue := ⟨0, fun _ => []⟩ }

/-- The parent after validator `2` joins with `5` (the bootstrapped `join` logs its metadata as
change `1` and its deposit as change `2`) and both changes are confirmed. -/
def parentAfterJoin : Except Revert (SubnetActorStorage × Unit) := do
  let s ← genesisSubnetActor
  let s := LibStaking.deposit (LibStaking.setValidatorMetadata s 2 [2]) 2 5
  LibStaking.confirmChange acceptingGateway 20 s () 2

/-- The child gateway, built with the parent's genesis membership, after storing and applying the
same two changes. -/
def childAfterJoin : Except Revert (GatewayActorStorage × Nat) := do
  let g ← GatewayDiamond.constructor ⟨10, 4, 51, ⟨0, [7]⟩, [⟨10, 1, []⟩]⟩
  let g ← TopDownFinalityFacet.storeValidatorChanges g
    [⟨.setMetadata 2 [2], 1⟩, ⟨.deposit 2 5, 2⟩]
  TopDownFinalityFacet.applyFinalityChanges g

/-- The parent's active validators are `1` (power `10`) and `2`; the child's membership holds `2`
alone. -/
theorem applyFinalityChanges_drops_genesis_validator :
    ∃ parent child, parentAfterJoin = .ok parent ∧ childAfterJoin = .ok child ∧
      parent.1.validatorSet.isActiveValidator 1 = true ∧
      parent.1.validatorSet.getPower 1 = 10 ∧
      parent.1.validatorSet.isActiveValidator 2 = true ∧
      child.1.currentMembership.validators = [⟨5, 2, [2]⟩] :=
  ⟨_, _, rfl, rfl, by decide, by decide, by decide, by decide⟩

/-! ### Configurations going back -/

/-- A gateway with a one-validator genesis membership, updated to the memberships of
configurations `3`, `5` and `4`, one validator each: the current membership before the last
update, and the current and last memberships after it. -/
def configurationsBackwards : Except Revert (Membership × Membership × Membership) := do
  let s ← GatewayDiamond.constructor ⟨10, 4, 51, ⟨1, []⟩, [⟨1, 1, []⟩]⟩
  let s ← LibGateway.updateMembership s ⟨[⟨3, 3, []⟩], 3⟩
  let s ← LibGateway.updateMembership s ⟨[⟨5, 5, []⟩], 5⟩
  let before := s.currentMembership
  let s ← LibGateway.updateMembership s ⟨[⟨4, 4, []⟩], 4⟩
  pure (before, s.currentMembership, s.lastMembership)

/-- Configuration `4` comes after configuration `5` and is accepted: the last configuration is
`3`, and the guard compares with it only. -/
theorem updateMembership_goes_back :
    configurationsBackwards =
      .ok (⟨[⟨5, 5, []⟩], 5⟩, ⟨[⟨4, 4, []⟩], 4⟩, ⟨[⟨5, 5, []⟩], 5⟩) := by
  decide +kernel

end Ipc.Contracts
