/-
**What the validator set's confirmations change.**

The reshuffles move validators between the two queues and touch nothing else
(`increaseReshuffle_queuesOnly`, `reduceReshuffle_queuesOnly`). So a confirmed deposit, withdrawal
or change of federated power changes the validator's own record and the total confirmed collateral
as the source writes them, and leaves every validator's total collateral as it was
(`confirmDeposit_totalCollateral`, `confirmWithdraw_totalCollateral`,
`confirmFederatedPower_totalCollateral`); recording a deposit or a withdrawal moves the
validator's total collateral alone (`recordDeposit_totalCollateral`, `recordWithdraw_ok`).
-/

import Ipc.Contracts.ValidatorSet
import Ipc.Lib.System

namespace Ipc.Contracts

open Ipc.Lib

namespace ValidatorSet

/-- What a reshuffle may change: the two queues. -/
def QueuesOnly (vs vs' : ValidatorSet) : Prop :=
  vs' = { vs with activeValidators := vs'.activeValidators, waitingValidators := vs'.waitingValidators }

theorem queuesOnly_with (vs : ValidatorSet) (active waiting : PQ) :
    QueuesOnly vs { vs with activeValidators := active, waitingValidators := waiting } := rfl

theorem QueuesOnly.validators {vs vs' : ValidatorSet} (only : QueuesOnly vs vs') :
    vs'.validators = vs.validators := by
  rw [only]

theorem QueuesOnly.totalConfirmedCollateral {vs vs' : ValidatorSet} (only : QueuesOnly vs vs') :
    vs'.totalConfirmedCollateral = vs.totalConfirmedCollateral := by
  rw [only]

theorem QueuesOnly.permissionMode {vs vs' : ValidatorSet} (only : QueuesOnly vs vs') :
    vs'.permissionMode = vs.permissionMode := by
  rw [only]

/-- `increaseReshuffle` moves validators between the queues and changes nothing else. -/
theorem increaseReshuffle_queuesOnly {vs vs' : ValidatorSet} {maybeActive : Address}
    {newPower : Nat} (ok : vs.increaseReshuffle maybeActive newPower = .ok vs') :
    QueuesOnly vs vs' := by
  unfold increaseReshuffle at ok
  dsimp only at ok
  by_cases active : vs.activeValidators.contains maybeActive
  · -- reheapified among the active validators
    rw [if_pos active] at ok
    obtain ⟨active, -, ok⟩ := bind_eq_ok.mp ok
    cases ok
    exact queuesOnly_with vs active vs.waitingValidators
  rw [if_neg active] at ok
  by_cases room : vs.activeLimit > vs.activeValidators.size
  · -- let in as active
    rw [if_pos room] at ok
    obtain ⟨active, -, ok⟩ := bind_eq_ok.mp ok
    cases ok
    exact queuesOnly_with vs active vs.waitingValidators
  rw [if_neg room] at ok
  obtain ⟨⟨minAddress, minActivePower⟩, -, ok⟩ := bind_eq_ok.mp ok
  dsimp only at ok
  by_cases replaces : minActivePower < newPower
  · -- replaces the least active validator
    rw [if_pos replaces] at ok
    obtain ⟨active, -, ok⟩ := bind_eq_ok.mp ok
    -- whether or not it leaves the waiting queue, the same three steps follow
    split at ok
    all_goals
      obtain ⟨waiting, -, ok⟩ := bind_eq_ok.mp ok
      obtain ⟨active', -, ok⟩ := bind_eq_ok.mp ok
      obtain ⟨waiting', -, ok⟩ := bind_eq_ok.mp ok
      cases ok
      exact queuesOnly_with vs active' waiting'
  rw [if_neg replaces] at ok
  by_cases waiting : vs.waitingValidators.contains maybeActive
  · -- reheapified among the waiting validators
    rw [if_pos waiting] at ok
    obtain ⟨waiting, -, ok⟩ := bind_eq_ok.mp ok
    cases ok
    exact queuesOnly_with vs vs.activeValidators waiting
  · -- put among the waiting validators
    rw [if_neg waiting] at ok
    obtain ⟨waiting, -, ok⟩ := bind_eq_ok.mp ok
    cases ok
    exact queuesOnly_with vs vs.activeValidators waiting

/-- `reduceReshuffle` moves validators between the queues and changes nothing else. -/
theorem reduceReshuffle_queuesOnly {vs vs' : ValidatorSet} {validator : Address} {newPower : Nat}
    (ok : vs.reduceReshuffle validator newPower = .ok vs') : QueuesOnly vs vs' := by
  unfold reduceReshuffle at ok
  dsimp only at ok
  by_cases waiting : vs.waitingValidators.contains validator
  · -- dropped or reheapified among the waiting validators
    rw [if_pos waiting] at ok
    split at ok
    all_goals
      obtain ⟨waiting, -, ok⟩ := bind_eq_ok.mp ok
      cases ok
      exact queuesOnly_with vs vs.activeValidators waiting
  rw [if_neg waiting] at ok
  by_cases active : vs.activeValidators.contains validator
  swap
  · rw [if_pos (by rw [Bool.not_eq_true', Bool.eq_false_iff]; exact active)] at ok
    cases ok
  rw [if_neg (by simpa using active)] at ok
  by_cases dropped : newPower = 0
  · -- dropped from the active validators, and the best waiting one promoted
    rw [if_pos dropped] at ok
    obtain ⟨active, -, ok⟩ := bind_eq_ok.mp ok
    split at ok
    · obtain ⟨⟨toBePromoted, _⟩, -, ok⟩ := bind_eq_ok.mp ok
      obtain ⟨waiting, -, ok⟩ := bind_eq_ok.mp ok
      obtain ⟨active', -, ok⟩ := bind_eq_ok.mp ok
      cases ok
      exact queuesOnly_with vs active' waiting
    · cases ok
      exact queuesOnly_with vs active vs.waitingValidators
  · -- reheapified among the active validators, then maybe swapped with the best waiting one
    rw [if_neg dropped] at ok
    obtain ⟨active, -, ok⟩ := bind_eq_ok.mp ok
    split at ok
    · cases ok
      exact queuesOnly_with vs active vs.waitingValidators
    obtain ⟨⟨mayBeDemoted, minActivePower⟩, -, ok⟩ := bind_eq_ok.mp ok
    obtain ⟨⟨mayBePromoted, maxWaitingPower⟩, -, ok⟩ := bind_eq_ok.mp ok
    dsimp only at ok
    split at ok
    · obtain ⟨active', -, ok⟩ := bind_eq_ok.mp ok
      obtain ⟨waiting, -, ok⟩ := bind_eq_ok.mp ok
      obtain ⟨active'', -, ok⟩ := bind_eq_ok.mp ok
      obtain ⟨waiting', -, ok⟩ := bind_eq_ok.mp ok
      cases ok
      exact queuesOnly_with vs active'' waiting'
    · cases ok
      exact queuesOnly_with vs active vs.waitingValidators

/-! ### Confirmed changes -/

@[simp]
theorem setInfo_validators (vs : ValidatorSet) (validator : Address) (info : ValidatorInfo) :
    (vs.setInfo validator info).validators = Function.update vs.validators validator info := rfl

/-- A confirmed deposit adds the amount to the validator's confirmed collateral and to the total. -/
theorem confirmDeposit_ok {vs vs' : ValidatorSet} {validator : Address} {amount : Nat}
    (ok : vs.confirmDeposit validator amount = .ok vs') :
    vs'.validators = Function.update vs.validators validator
        { vs.validators validator with
          confirmedCollateral := (vs.validators validator).confirmedCollateral + amount } ∧
      vs'.totalConfirmedCollateral = vs.totalConfirmedCollateral + amount ∧
      vs'.permissionMode = vs.permissionMode := by
  unfold confirmDeposit at ok
  have only := increaseReshuffle_queuesOnly ok
  exact ⟨only.validators, only.totalConfirmedCollateral, only.permissionMode⟩

/-- A confirmed withdrawal takes the amount from the validator's confirmed collateral and from the
total; a validator left with nothing at all is deleted. -/
theorem confirmWithdraw_ok {vs vs' : ValidatorSet} {validator : Address} {amount : Nat}
    (ok : vs.confirmWithdraw validator amount = .ok vs') :
    let info := vs.validators validator
    amount ≤ info.confirmedCollateral ∧ amount ≤ vs.totalConfirmedCollateral ∧
      vs'.validators = Function.update vs.validators validator
        (if info.confirmedCollateral - amount = 0 ∧ info.totalCollateral = 0 then {}
          else { info with confirmedCollateral := info.confirmedCollateral - amount }) ∧
      vs'.totalConfirmedCollateral = vs.totalConfirmedCollateral - amount ∧
      vs'.permissionMode = vs.permissionMode := by
  unfold confirmWithdraw at ok
  dsimp only at ok ⊢
  by_cases short : (vs.validators validator).confirmedCollateral < amount
  · rw [if_pos short] at ok
    cases ok
  rw [if_neg short] at ok
  split at ok
  · cases ok
  rename_i reshuffled reshuffle
  by_cases underflow : reshuffled.totalConfirmedCollateral < amount
  · rw [if_pos underflow] at ok
    cases ok
  rw [if_neg underflow] at ok
  cases ok
  have only := reduceReshuffle_queuesOnly reshuffle
  -- the record written before the reshuffle, which the reshuffle keeps
  have written : reshuffled.validators = Function.update vs.validators validator
      (if (vs.validators validator).confirmedCollateral - amount = 0 ∧
          (vs.validators validator).totalCollateral = 0 then {}
        else { vs.validators validator with
          confirmedCollateral := (vs.validators validator).confirmedCollateral - amount }) := by
    rw [only.validators]
    split_ifs <;> rfl
  have total : reshuffled.totalConfirmedCollateral = vs.totalConfirmedCollateral := by
    rw [only.totalConfirmedCollateral]
    split_ifs <;> rfl
  have mode : reshuffled.permissionMode = vs.permissionMode := by
    rw [only.permissionMode]
    split_ifs <;> rfl
  exact ⟨by omega, by omega, written, by rw [total], mode⟩

/-- A confirmed change of federated power sets the validator's federated power. -/
theorem confirmFederatedPower_ok {vs vs' : ValidatorSet} {validator : Address} {power : Nat}
    (ok : vs.confirmFederatedPower validator power = .ok vs') :
    vs'.validators = Function.update vs.validators validator
        { vs.validators validator with federatedPower := power } ∧
      vs'.totalConfirmedCollateral = vs.totalConfirmedCollateral ∧
      vs'.permissionMode = vs.permissionMode := by
  unfold confirmFederatedPower at ok
  dsimp only at ok
  split_ifs at ok
  · cases ok
    exact ⟨rfl, rfl, rfl⟩
  all_goals
    first
      | have only := increaseReshuffle_queuesOnly ok
      | have only := reduceReshuffle_queuesOnly ok
    exact ⟨only.validators, only.totalConfirmedCollateral, only.permissionMode⟩

/-- A confirmed deposit leaves every validator's total collateral as it was. -/
theorem confirmDeposit_totalCollateral {vs vs' : ValidatorSet} {validator : Address}
    {amount : Nat} (ok : vs.confirmDeposit validator amount = .ok vs') (a : Address) :
    (vs'.validators a).totalCollateral = (vs.validators a).totalCollateral := by
  rw [(confirmDeposit_ok ok).1]
  by_cases same : a = validator
  · subst same
    simp
  · simp [Function.update_of_ne same]

/-- A confirmed withdrawal leaves every validator's total collateral as it was: a deleted record
had none. -/
theorem confirmWithdraw_totalCollateral {vs vs' : ValidatorSet} {validator : Address}
    {amount : Nat} (ok : vs.confirmWithdraw validator amount = .ok vs') (a : Address) :
    (vs'.validators a).totalCollateral = (vs.validators a).totalCollateral := by
  obtain ⟨-, -, written, -⟩ := confirmWithdraw_ok ok
  rw [written]
  by_cases same : a = validator
  · subst same
    rw [Function.update_self]
    split_ifs with deleted
    · exact deleted.2.symm
    · rfl
  · simp [Function.update_of_ne same]

theorem confirmFederatedPower_totalCollateral {vs vs' : ValidatorSet} {validator : Address}
    {power : Nat} (ok : vs.confirmFederatedPower validator power = .ok vs') (a : Address) :
    (vs'.validators a).totalCollateral = (vs.validators a).totalCollateral := by
  rw [(confirmFederatedPower_ok ok).1]
  by_cases same : a = validator
  · subst same
    simp
  · simp [Function.update_of_ne same]

/-! ### Recorded collateral -/

theorem recordDeposit_totalCollateral (vs : ValidatorSet) (validator : Address) (amount : Nat)
    (a : Address) :
    ((vs.recordDeposit validator amount).validators a).totalCollateral =
      (vs.validators a).totalCollateral + if a = validator then amount else 0 := by
  by_cases same : a = validator
  · subst same
    simp [recordDeposit]
  · simp [recordDeposit, same]

theorem recordWithdraw_ok {vs vs' : ValidatorSet} {validator : Address} {amount : Nat}
    (ok : vs.recordWithdraw validator amount = .ok vs') :
    amount ≤ (vs.validators validator).totalCollateral ∧
      vs'.totalConfirmedCollateral = vs.totalConfirmedCollateral ∧
      ∀ a, (vs'.validators a).totalCollateral + (if a = validator then amount else 0) =
        (vs.validators a).totalCollateral := by
  unfold recordWithdraw at ok
  dsimp only at ok
  split_ifs at ok with short
  cases ok
  refine ⟨by omega, rfl, fun a => ?_⟩
  by_cases same : a = validator
  · subst same
    simp only [setInfo_validators, Function.update_self, if_true]
    omega
  · simp [same]

theorem setMetadata_totalCollateral (vs : ValidatorSet) (validator : Address) (metadata : Bytes)
    (a : Address) :
    ((vs.setMetadata validator metadata).validators a).totalCollateral =
      (vs.validators a).totalCollateral := by
  by_cases same : a = validator
  · subst same
    simp [setMetadata]
  · simp [setMetadata, Function.update_of_ne same]

end ValidatorSet

end Ipc.Contracts
