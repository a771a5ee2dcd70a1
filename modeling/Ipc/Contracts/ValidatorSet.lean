/-
**The validator set of a subnet (`LibValidatorSet`).**

A validator set keeps each validator's information, the active validators in a min queue (the
least powerful on top, to be replaced first) and the waiting validators in a max queue (the most
powerful on top, to be promoted first). A validator's power is its federated power in the
federated mode and its confirmed collateral otherwise (`getPower`).

* `getTotalActivePower` — the power summed over the positions of the active queue;
* `getTotalPowerOfValidators` — the power of each listed address, reverting on the first one that
  is not active;
* `confirmDeposit`, `confirmWithdraw`, `confirmFederatedPower` — a confirmed change of collateral or
  power, followed by `increaseReshuffle` or `reduceReshuffle`, which move validators between the
  two queues so that the active ones stay the most powerful up to `activeLimit`.

The reshuffles are written as the source's `if` chains; an early `return` becomes an `else`.
Checked `uint256` subtraction reverts with `panic`.
-/

import Ipc.Contracts.PriorityQueue
import Mathlib

namespace Ipc.Contracts

/-- What the set records of one validator (`ValidatorInfo`); every field starts at zero. -/
structure ValidatorInfo where
  federatedPower : Nat := 0
  confirmedCollateral : Nat := 0
  totalCollateral : Nat := 0
  metadata : Bytes := []
  deriving DecidableEq, Repr

/-- A validator set (`ValidatorSet`). -/
structure ValidatorSet where
  permissionMode : PermissionMode
  activeLimit : Nat
  totalConfirmedCollateral : Nat
  validators : Address → ValidatorInfo
  activeValidators : PQ
  waitingValidators : PQ

namespace ValidatorSet

/-- The set with no validator and nothing confirmed. -/
def empty (permissionMode : PermissionMode) (activeLimit : Nat) : ValidatorSet :=
  ⟨permissionMode, activeLimit, 0, fun _ => {}, PQ.empty, PQ.empty⟩

/-- `getPower`: federated power in the federated mode, confirmed collateral otherwise. -/
def getPower (vs : ValidatorSet) (validator : Address) : Nat :=
  if vs.permissionMode = .federated then (vs.validators validator).federatedPower
  else (vs.validators validator).confirmedCollateral

/-- `isActiveValidator`. -/
def isActiveValidator (vs : ValidatorSet) (validator : Address) : Bool :=
  vs.activeValidators.contains validator

/-- `listActiveValidators`: the addresses at the active positions `1..size`, in order. -/
def listActiveValidators (vs : ValidatorSet) : List Address :=
  (List.range' 1 vs.activeValidators.size).map vs.activeValidators.posToAddress

/-- `getTotalActivePower`: the power at each active position, summed. -/
def getTotalActivePower (vs : ValidatorSet) : Nat :=
  ∑ i ∈ Finset.Icc 1 vs.activeValidators.size, vs.getPower (vs.activeValidators.posToAddress i)

/-- `getTotalPowerOfValidators`: the power of each address, in order; the first address that is
not active reverts with `NotValidator`. -/
def getTotalPowerOfValidators (vs : ValidatorSet) (addresses : List Address) :
    Except Revert (List Nat) :=
  addresses.mapM fun a =>
    if vs.isActiveValidator a then .ok (vs.getPower a) else .error (.notValidator a)

/-- Rewrite one validator's information. -/
def setInfo (vs : ValidatorSet) (validator : Address) (info : ValidatorInfo) : ValidatorSet :=
  { vs with validators := Function.update vs.validators validator info }

/-- `setMetadata`. -/
def setMetadata (vs : ValidatorSet) (validator : Address) (metadata : Bytes) : ValidatorSet :=
  vs.setInfo validator { vs.validators validator with metadata := metadata }

/-- `recordDeposit`: the validator's total collateral grows. -/
def recordDeposit (vs : ValidatorSet) (validator : Address) (amount : Nat) : ValidatorSet :=
  vs.setInfo validator
    { vs.validators validator with
      totalCollateral := (vs.validators validator).totalCollateral + amount }

/-- `recordWithdraw`: the validator's total collateral shrinks, reverting past zero. -/
def recordWithdraw (vs : ValidatorSet) (validator : Address) (amount : Nat) :
    Except Revert ValidatorSet :=
  let total := (vs.validators validator).totalCollateral
  if total < amount then .error .withdrawExceedingCollateral
  else .ok (vs.setInfo validator { vs.validators validator with totalCollateral := total - amount })

/-- `increaseReshuffle`: after `maybeActive`'s power grew to `newPower`, reheapify it where it is,
or let it in as active while there is room, or let it replace the least active validator when it
is now more powerful, or else keep or put it among the waiting validators. -/
def increaseReshuffle (vs : ValidatorSet) (maybeActive : Address) (newPower : Nat) :
    Except Revert ValidatorSet :=
  let power := vs.getPower
  if vs.activeValidators.contains maybeActive then do
    let active ← LibMinPQ.increaseReheapify power vs.activeValidators maybeActive
    pure { vs with activeValidators := active }
  else if vs.activeLimit > vs.activeValidators.size then do
    let active ← LibMinPQ.insert power vs.activeValidators maybeActive
    pure { vs with activeValidators := active }
  else do
    let (minAddress, minActivePower) ← LibMinPQ.min power vs.activeValidators
    if minActivePower < newPower then
      let active ← LibMinPQ.pop power vs.activeValidators
      let waiting ←
        if vs.waitingValidators.contains maybeActive then
          LibMaxPQ.deleteReheapify power vs.waitingValidators maybeActive
        else pure vs.waitingValidators
      let active ← LibMinPQ.insert power active maybeActive
      let waiting ← LibMaxPQ.insert power waiting minAddress
      pure { vs with activeValidators := active, waitingValidators := waiting }
    else if vs.waitingValidators.contains maybeActive then
      let waiting ← LibMaxPQ.increaseReheapify power vs.waitingValidators maybeActive
      pure { vs with waitingValidators := waiting }
    else
      let waiting ← LibMaxPQ.insert power vs.waitingValidators maybeActive
      pure { vs with waitingValidators := waiting }

/-- `reduceReshuffle`: after `validator`'s power fell to `newPower`, reheapify or drop it among
the waiting validators; an active validator is dropped (and the most powerful waiting one
promoted) or reheapified, and then swapped with the most powerful waiting validator if that one
is now more powerful than the least active one. -/
def reduceReshuffle (vs : ValidatorSet) (validator : Address) (newPower : Nat) :
    Except Revert ValidatorSet :=
  let power := vs.getPower
  if vs.waitingValidators.contains validator then
    if newPower = 0 then do
      let waiting ← LibMaxPQ.deleteReheapify power vs.waitingValidators validator
      pure { vs with waitingValidators := waiting }
    else do
      let waiting ← LibMaxPQ.decreaseReheapify power vs.waitingValidators validator
      pure { vs with waitingValidators := waiting }
  else if !vs.activeValidators.contains validator then .error .addressShouldBeValidator
  else if newPower = 0 then do
    let active ← LibMinPQ.deleteReheapify power vs.activeValidators validator
    if vs.waitingValidators.size ≠ 0 then
      let (toBePromoted, _) ← LibMaxPQ.max power vs.waitingValidators
      let waiting ← LibMaxPQ.pop power vs.waitingValidators
      let active ← LibMinPQ.insert power active toBePromoted
      pure { vs with activeValidators := active, waitingValidators := waiting }
    else pure { vs with activeValidators := active }
  else do
    let active ← LibMinPQ.decreaseReheapify power vs.activeValidators validator
    if vs.waitingValidators.size = 0 then pure { vs with activeValidators := active }
    else
      let (mayBeDemoted, minActivePower) ← LibMinPQ.min power active
      let (mayBePromoted, maxWaitingPower) ← LibMaxPQ.max power vs.waitingValidators
      if minActivePower < maxWaitingPower then
        let active ← LibMinPQ.pop power active
        let waiting ← LibMaxPQ.pop power vs.waitingValidators
        let active ← LibMinPQ.insert power active mayBePromoted
        let waiting ← LibMaxPQ.insert power waiting mayBeDemoted
        pure { vs with activeValidators := active, waitingValidators := waiting }
      else pure { vs with activeValidators := active }

/-- `confirmFederatedPower`: set the federated power and reshuffle by the direction it moved. -/
def confirmFederatedPower (vs : ValidatorSet) (validator : Address) (power : Nat) :
    Except Revert ValidatorSet :=
  let existingPower := (vs.validators validator).federatedPower
  let updated := vs.setInfo validator { vs.validators validator with federatedPower := power }
  if existingPower = power then .ok updated
  else if existingPower < power then updated.increaseReshuffle validator power
  else updated.reduceReshuffle validator power

/-- `confirmDeposit`: the deposit joins the confirmed collateral. -/
def confirmDeposit (vs : ValidatorSet) (validator : Address) (amount : Nat) :
    Except Revert ValidatorSet :=
  let newCollateral := (vs.validators validator).confirmedCollateral + amount
  let updated :=
    { vs.setInfo validator { vs.validators validator with confirmedCollateral := newCollateral } with
      totalConfirmedCollateral := vs.totalConfirmedCollateral + amount }
  updated.increaseReshuffle validator newCollateral

/-- `confirmWithdraw`: the withdrawal leaves the confirmed collateral; a validator left with no
collateral at all is deleted. -/
def confirmWithdraw (vs : ValidatorSet) (validator : Address) (amount : Nat) :
    Except Revert ValidatorSet :=
  let info := vs.validators validator
  if info.confirmedCollateral < amount then .error .panic
  else
    let newCollateral := info.confirmedCollateral - amount
    let updated :=
      if newCollateral = 0 ∧ info.totalCollateral = 0 then vs.setInfo validator {}
      else vs.setInfo validator { info with confirmedCollateral := newCollateral }
    match updated.reduceReshuffle validator newCollateral with
    | .error e => .error e
    | .ok reshuffled =>
      if reshuffled.totalConfirmedCollateral < amount then .error .panic
      else .ok { reshuffled with
        totalConfirmedCollateral := reshuffled.totalConfirmedCollateral - amount }

end ValidatorSet

end Ipc.Contracts
