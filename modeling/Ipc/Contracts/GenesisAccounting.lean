/-
**Pre-funding and collateral are covered, as long as no pre-funded validator leaves.**

The genesis ledger is the subnet actor's record of pre-funding: `genesisBalance`, the key list of
the accounts with a balance, and `genesisCircSupply`. `GenesisLedger` says the key list holds
each account with a balance exactly once and the supply is the sum of the balances; `preFund`
and `preRelease` keep it (`preRelease` through the swap-and-pop removal of an emptied key,
`rmAddressFromBalanceKey_eq`), and every other call leaves the ledger's data alone.

An account holds its genesis balance and its collateral in the actor (`heldBy`). A run records
what each account paid in and was sent back (`ManagerState`, `ManagerStep`), and `Covered` says no
account has been sent back, with what it still holds, more than it paid in. Each call keeps it
(`ManagerCall.run_ok`), so every run keeps it (`covered_of_reachable`) — except for a `leave` by
an account with a genesis balance, whose refund leaves the balance in place
(`leave_keeps_genesisBalance`); the runs exclude that one call.
-/

import Ipc.Contracts.SubnetActorManager
import Ipc.Contracts.ValidatorSetInvariant
import Ipc.Lib.EnumerableSet

namespace Ipc.Contracts

open Ipc.Lib

/-! ### The key list -/

/-- `rmAddressFromBalanceKey` leaves the key list without the address, in some order, and writes
nothing else. -/
theorem rmAddressFromBalanceKey_eq (s : SubnetActorManagerStorage) (addr : Address) :
    ∃ keys, keys.Perm (s.genesisBalanceKeys.erase addr) ∧
      LibSubnetActor.rmAddressFromBalanceKey s addr = { s with genesisBalanceKeys := keys } := by
  unfold LibSubnetActor.rmAddressFromBalanceKey
  split
  · rename_i i found
    exact ⟨_, swapPop_perm 0 found, rfl⟩
  · rename_i missing
    refine ⟨s.genesisBalanceKeys, ?_, rfl⟩
    rw [List.erase_of_not_mem]
    intro mem
    have := List.findIdx?_eq_none_iff.mp missing addr mem
    simp at this

/-- A sum over a list, with one member taken out. -/
theorem sum_map_erase {l : List Address} {a : Address} (mem : a ∈ l) (f : Address → Nat) :
    ((l.erase a).map f).sum + f a = (l.map f).sum := by
  have split := ((List.perm_cons_erase mem).map f).sum_eq
  rw [split, List.map_cons, List.sum_cons]
  omega

/-- A sum over a list without repeats, with the value of one member changed. -/
theorem sum_map_update {l : List Address} (nodup : l.Nodup) {a : Address} (mem : a ∈ l)
    (f : Address → Nat) (x : Nat) :
    (l.map (Function.update f a x)).sum + f a = (l.map f).sum + x := by
  have rest : (l.erase a).map (Function.update f a x) = (l.erase a).map f := by
    apply List.map_congr_left
    intro b member
    rw [Function.update_of_ne]
    rintro rfl
    exact nodup.not_mem_erase member
  have updated := sum_map_erase mem (Function.update f a x)
  have original := sum_map_erase mem f
  rw [rest, Function.update_self] at updated
  omega

/-! ### The genesis ledger -/

/-- **The genesis ledger**: the key list holds each address with a genesis balance exactly once,
and no other, and the genesis circulating supply is the sum of their balances. -/
structure GenesisLedger (s : SubnetActorManagerStorage) : Prop where
  nodup : s.genesisBalanceKeys.Nodup
  keys : ∀ a, a ∈ s.genesisBalanceKeys ↔ s.genesisBalance a ≠ 0
  supply : s.genesisCircSupply = (s.genesisBalanceKeys.map s.genesisBalance).sum

/-- The genesis balances, their keys and the supply are as they were. -/
def GenesisKept (s s' : SubnetActorManagerStorage) : Prop :=
  s'.genesisBalance = s.genesisBalance ∧ s'.genesisBalanceKeys = s.genesisBalanceKeys ∧
    s'.genesisCircSupply = s.genesisCircSupply

theorem GenesisKept.refl (s : SubnetActorManagerStorage) : GenesisKept s s := ⟨rfl, rfl, rfl⟩

theorem GenesisKept.trans {s s' s'' : SubnetActorManagerStorage} (first : GenesisKept s s')
    (second : GenesisKept s' s'') : GenesisKept s s'' :=
  ⟨second.1.trans first.1, second.2.1.trans first.2.1, second.2.2.trans first.2.2⟩

theorem GenesisLedger.kept {s s' : SubnetActorManagerStorage} (ledger : GenesisLedger s)
    (kept : GenesisKept s s') : GenesisLedger s' := by
  obtain ⟨balance, keys, supply⟩ := kept
  exact ⟨keys ▸ ledger.nodup, by rw [keys, balance]; exact ledger.keys,
    by rw [supply, keys, balance]; exact ledger.supply⟩

theorem genesisLedger_constructor {params : SubnetActorDiamond.ConstructorParams} {owner : Address}
    {s : SubnetActorManagerStorage} (deployed : SubnetActorDiamond.constructor params owner = .ok s) :
    GenesisLedger s := by
  unfold SubnetActorDiamond.constructor at deployed
  split_ifs at deployed
  all_goals
    cases deployed
    exact ⟨List.nodup_nil, by simp, rfl⟩

theorem SubnetActorManagerStorage.sendValue_ok {s s' : SubnetActorManagerStorage} {amount : Nat}
    (ok : s.sendValue amount = .ok s') : s' = { s with balance := s.balance - amount } := by
  unfold SubnetActorManagerStorage.sendValue at ok
  split_ifs at ok
  cases ok
  rfl

namespace SubnetActorManagerFacet

/-- `preFund` adds the value to the sender's genesis balance and touches no collateral. -/
theorem preFund_ok {s s' : SubnetActorManagerStorage} {sender : Address} {value : Nat}
    (ok : preFund s sender value = .ok s') :
    s'.genesisBalance = Function.update s.genesisBalance sender (s.genesisBalance sender + value) ∧
      s'.validatorSet = s.validatorSet := by
  unfold preFund at ok
  split_ifs at ok
  all_goals
    cases ok
    exact ⟨rfl, rfl⟩

/-- `preFund` keeps the ledger. -/
theorem preFund_genesisLedger {s s' : SubnetActorManagerStorage} {sender : Address} {value : Nat}
    (ledger : GenesisLedger s) (ok : preFund s sender value = .ok s') : GenesisLedger s' := by
  unfold preFund at ok
  by_cases zero : value = 0
  · rw [if_pos zero] at ok
    cases ok
  rw [if_neg zero] at ok
  by_cases bootstrapped : s.bootstrapped = true
  · rw [if_pos bootstrapped] at ok
    cases ok
  rw [if_neg bootstrapped] at ok
  cases ok
  by_cases fresh : s.genesisBalance sender = 0
  · -- a first pre-funding lists the sender's key
    rw [if_pos fresh]
    have absent : sender ∉ s.genesisBalanceKeys := fun mem => (ledger.keys sender).mp mem fresh
    have others : s.genesisBalanceKeys.map (Function.update s.genesisBalance sender
        (s.genesisBalance sender + value)) = s.genesisBalanceKeys.map s.genesisBalance := by
      apply List.map_congr_left
      intro a member
      rw [Function.update_of_ne]
      rintro rfl
      exact absent member
    constructor
    · exact ledger.nodup.append (List.nodup_singleton sender)
        (List.disjoint_singleton.mpr absent)
    · intro a
      dsimp only
      rw [List.mem_append, List.mem_singleton]
      by_cases same : a = sender
      · subst same
        simp [zero]
      · rw [Function.update_of_ne same, ledger.keys a]
        simp [same]
    · dsimp only
      rw [List.map_append, List.sum_append, others, ledger.supply]
      simp [fresh]
  · -- a later pre-funding adds to a listed balance
    rw [if_neg fresh]
    have present := (ledger.keys sender).mpr fresh
    constructor
    · exact ledger.nodup
    · intro a
      dsimp only
      by_cases same : a = sender
      · subst same
        simp [present, fresh]
      · rw [Function.update_of_ne same]
        exact ledger.keys a
    · dsimp only
      have sum := sum_map_update ledger.nodup present s.genesisBalance
        (s.genesisBalance sender + value)
      rw [ledger.supply]
      omega

/-- What a successful `preRelease` did: the amount left the sender's genesis balance and the
supply, the key list lost the sender if its balance is now empty, and the amount was sent. -/
theorem preRelease_ok {s s' : SubnetActorManagerStorage} {sender : Address} {amount sent : Nat}
    (ok : preRelease s sender amount = .ok (s', sent)) :
    sent = amount ∧ amount ≠ 0 ∧ amount ≤ s.genesisBalance sender ∧
      s'.genesisBalance =
        Function.update s.genesisBalance sender (s.genesisBalance sender - amount) ∧
      s'.genesisCircSupply = s.genesisCircSupply - amount ∧
      (if s.genesisBalance sender = amount then
        s'.genesisBalanceKeys.Perm (s.genesisBalanceKeys.erase sender)
      else s'.genesisBalanceKeys = s.genesisBalanceKeys) ∧
      s'.validatorSet = s.validatorSet := by
  unfold preRelease at ok
  by_cases zero : amount = 0
  · rw [if_pos zero] at ok
    cases ok
  rw [if_neg zero] at ok
  by_cases bootstrapped : s.bootstrapped = true
  · rw [if_pos bootstrapped] at ok
    cases ok
  rw [if_neg bootstrapped] at ok
  by_cases short : s.genesisBalance sender < amount
  · rw [if_pos short] at ok
    cases ok
  rw [if_neg short] at ok
  by_cases underflow : s.genesisCircSupply < amount
  · rw [if_pos underflow] at ok
    cases ok
  rw [if_neg underflow] at ok
  dsimp only at ok
  obtain ⟨s'', sent', ok⟩ := bind_eq_ok.mp ok
  cases ok
  refine ⟨rfl, zero, by omega, ?_⟩
  split at sent'
  · -- the emptied balance's key is removed
    rename_i emptied
    simp only [Function.update_self] at emptied
    obtain ⟨keys, perm, removed⟩ := rmAddressFromBalanceKey_eq
      { s with
        genesisBalance := Function.update s.genesisBalance sender (s.genesisBalance sender - amount),
        genesisCircSupply := s.genesisCircSupply - amount } sender
    rw [removed] at sent'
    rw [SubnetActorManagerStorage.sendValue_ok sent']
    exact ⟨rfl, rfl, by rw [if_pos (by omega)]; exact perm, rfl⟩
  · rename_i kept
    simp only [Function.update_self] at kept
    rw [SubnetActorManagerStorage.sendValue_ok sent']
    exact ⟨rfl, rfl, by rw [if_neg (by omega)], rfl⟩

/-- `preRelease` keeps the ledger. -/
theorem preRelease_genesisLedger {s s' : SubnetActorManagerStorage} {sender : Address}
    {amount sent : Nat} (ledger : GenesisLedger s) (ok : preRelease s sender amount = .ok (s', sent)) :
    GenesisLedger s' := by
  obtain ⟨-, positive, within, balance, supply, keys, -⟩ := preRelease_ok ok
  have present : sender ∈ s.genesisBalanceKeys := (ledger.keys sender).mpr (by omega)
  split at keys
  · -- the whole balance is released: the key goes
    rename_i whole
    have others : (s.genesisBalanceKeys.erase sender).map s'.genesisBalance =
        (s.genesisBalanceKeys.erase sender).map s.genesisBalance := by
      apply List.map_congr_left
      intro a member
      rw [balance, Function.update_of_ne]
      rintro rfl
      exact ledger.nodup.not_mem_erase member
    constructor
    · exact keys.nodup_iff.mpr (ledger.nodup.erase sender)
    · intro a
      rw [keys.mem_iff, ledger.nodup.mem_erase_iff, balance]
      by_cases same : a = sender
      · subst same
        simp [whole]
      · rw [Function.update_of_ne same, ledger.keys a]
        simp [same]
    · rw [(keys.map s'.genesisBalance).sum_eq, others, supply, ledger.supply]
      have sum := sum_map_erase present s.genesisBalance
      omega
  · -- part of the balance is released: the keys stay
    rename_i part
    constructor
    · exact keys ▸ ledger.nodup
    · intro a
      rw [keys, balance]
      by_cases same : a = sender
      · subst same
        simp only [Function.update_self, present, true_iff]
        omega
      · rw [Function.update_of_ne same]
        exact ledger.keys a
    · rw [keys, balance, supply, ledger.supply]
      have sum := sum_map_update ledger.nodup present s.genesisBalance
        (s.genesisBalance sender - amount)
      omega

end SubnetActorManagerFacet


/-! ### Collateral -/

/-- An account's total collateral. -/
def SubnetActorManagerStorage.collateralOf (s : SubnetActorManagerStorage) (a : Address) : Nat :=
  (s.validatorSet.validators a).totalCollateral

namespace LibStaking

theorem setMetadataWithConfirm_collateralOf (s : SubnetActorManagerStorage) (validator : Address)
    (metadata : Bytes) (a : Address) :
    (setMetadataWithConfirm s validator metadata).collateralOf a = s.collateralOf a :=
  ValidatorSet.setMetadata_totalCollateral _ _ _ a

/-- `depositWithConfirm` adds the amount to the validator's total collateral and keeps the
genesis ledger's data. -/
theorem depositWithConfirm_ok {s s' : SubnetActorManagerStorage} {validator : Address}
    {amount : Nat} (ok : depositWithConfirm s validator amount = .ok s') :
    GenesisKept s s' ∧
      ∀ a, s'.collateralOf a = s.collateralOf a + if a = validator then amount else 0 := by
  unfold depositWithConfirm at ok
  obtain ⟨vs, confirmed, ok⟩ := bind_eq_ok.mp ok
  have total (a : Address) : (vs.validators a).totalCollateral =
      s.collateralOf a + if a = validator then amount else 0 := by
    rw [ValidatorSet.confirmDeposit_totalCollateral confirmed,
      ValidatorSet.recordDeposit_totalCollateral]
    rfl
  dsimp only at ok
  split at ok
  all_goals
    cases ok
    exact ⟨GenesisKept.refl s, total⟩

/-- `withdrawWithConfirm` takes the amount from the validator's total collateral, sends it, and
keeps the genesis ledger's data. -/
theorem withdrawWithConfirm_ok {s s' : SubnetActorManagerStorage} {validator : Address}
    {amount : Nat} (ok : withdrawWithConfirm s validator amount = .ok s') :
    GenesisKept s s' ∧
      ∀ a, s'.collateralOf a + (if a = validator then amount else 0) = s.collateralOf a := by
  unfold withdrawWithConfirm at ok
  obtain ⟨recorded, record, ok⟩ := bind_eq_ok.mp ok
  obtain ⟨confirmed, confirm, ok⟩ := bind_eq_ok.mp ok
  rw [SubnetActorManagerStorage.sendValue_ok ok]
  refine ⟨GenesisKept.refl s, fun a => ?_⟩
  show (confirmed.validators a).totalCollateral + _ = _
  rw [ValidatorSet.confirmWithdraw_totalCollateral confirm]
  exact (ValidatorSet.recordWithdraw_ok record).2.2 a

end LibStaking

namespace LibSubnetActor

variable {γ : Type} (env : ManagerEnv γ)

theorem registerInGateway_ok {s s' : SubnetActorManagerStorage} {gateway gateway' : γ}
    {value : Nat} (ok : registerInGateway env s gateway value = .ok (s', gateway')) :
    s' = { s with balance := s.balance - value } := by
  unfold registerInGateway at ok
  split_ifs at ok
  obtain ⟨registered, -, ok⟩ := bind_eq_ok.mp ok
  cases ok
  rfl

/-- Bootstrapping changes neither the genesis ledger's data nor the validator set. -/
theorem bootstrapSubnetIfNeeded_ok {s s' : SubnetActorManagerStorage} {gateway gateway' : γ}
    (ok : bootstrapSubnetIfNeeded env s gateway = .ok (s', gateway')) :
    GenesisKept s s' ∧ s'.validatorSet = s.validatorSet := by
  unfold bootstrapSubnetIfNeeded at ok
  dsimp only at ok
  split_ifs at ok
  · rw [registerInGateway_ok env ok]
    exact ⟨GenesisKept.refl s, rfl⟩
  · cases ok
    exact ⟨GenesisKept.refl s, rfl⟩

/-- The owner's genesis validators change no total collateral and no genesis balance. -/
theorem preBootstrapSetFederatedPowerLoop_ok :
    ∀ (validators : List Address) (publicKeys : List Bytes) (powers : List Nat)
      {s s' : SubnetActorManagerStorage},
      preBootstrapSetFederatedPowerLoop env s validators publicKeys powers = .ok s' →
      GenesisKept s s' ∧ ∀ a, s'.collateralOf a = s.collateralOf a
  | validator :: validators, publicKey :: publicKeys, power :: powers, s, s', ok => by
    simp only [preBootstrapSetFederatedPowerLoop] at ok
    split_ifs at ok
    obtain ⟨confirmed, confirm, ok⟩ := bind_eq_ok.mp ok
    obtain ⟨kept, total⟩ := preBootstrapSetFederatedPowerLoop_ok validators publicKeys powers ok
    unfold LibStaking.setFederatedPowerWithConfirm at confirm
    obtain ⟨vs, powered, confirm⟩ := bind_eq_ok.mp confirm
    cases confirm
    refine ⟨GenesisKept.trans (GenesisKept.refl s) kept, fun a => ?_⟩
    rw [total a]
    show (vs.validators a).totalCollateral = _
    rw [ValidatorSet.confirmFederatedPower_totalCollateral powered]
    exact LibStaking.setMetadataWithConfirm_collateralOf s validator publicKey a
  | [], _, _, s, s', ok => by
    simp only [preBootstrapSetFederatedPowerLoop, Except.ok.injEq] at ok
    subst ok
    exact ⟨GenesisKept.refl _, fun _ => rfl⟩
  | _ :: _, [], _, s, s', ok => by
    simp only [preBootstrapSetFederatedPowerLoop, Except.ok.injEq] at ok
    subst ok
    exact ⟨GenesisKept.refl _, fun _ => rfl⟩
  | _ :: _, _ :: _, [], s, s', ok => by
    simp only [preBootstrapSetFederatedPowerLoop, Except.ok.injEq] at ok
    subst ok
    exact ⟨GenesisKept.refl _, fun _ => rfl⟩

/-- Logging the owner's changes after bootstrap changes no record. -/
theorem postBootstrapSetFederatedPower_ok :
    ∀ (validators : List Address) (publicKeys : List Bytes) (powers : List Nat)
      {s s' : SubnetActorManagerStorage},
      postBootstrapSetFederatedPower env s validators publicKeys powers = .ok s' →
      GenesisKept s s' ∧ s'.validatorSet = s.validatorSet
  | validator :: validators, publicKey :: publicKeys, power :: powers, s, s', ok => by
    simp only [postBootstrapSetFederatedPower] at ok
    split_ifs at ok
    -- logging a change writes only the change log
    obtain ⟨kept, same⟩ := postBootstrapSetFederatedPower_ok validators publicKeys powers ok
    exact ⟨GenesisKept.trans (GenesisKept.refl s) kept, same⟩
  | [], _, _, s, s', ok => by
    simp only [postBootstrapSetFederatedPower, Except.ok.injEq] at ok
    subst ok
    exact ⟨GenesisKept.refl _, rfl⟩
  | _ :: _, [], _, s, s', ok => by
    simp only [postBootstrapSetFederatedPower, Except.ok.injEq] at ok
    subst ok
    exact ⟨GenesisKept.refl _, rfl⟩
  | _ :: _, _ :: _, [], s, s', ok => by
    simp only [postBootstrapSetFederatedPower, Except.ok.injEq] at ok
    subst ok
    exact ⟨GenesisKept.refl _, rfl⟩

end LibSubnetActor

namespace SubnetActorManagerFacet

variable {γ : Type} (env : ManagerEnv γ)

theorem deposit_collateralOf (s : SubnetActorManagerStorage) (sender : Address) (value : Nat)
    (metadata : Bytes) (a : Address) :
    ({ s with
        toSubnetActorStorage := (LibStaking.deposit
          (LibStaking.setValidatorMetadata s.toSubnetActorStorage sender metadata) sender value) } :
        SubnetActorManagerStorage).collateralOf a =
      s.collateralOf a + if a = sender then value else 0 :=
  ValidatorSet.recordDeposit_totalCollateral _ _ _ a

/-- A join adds its value to the sender's total collateral and keeps the genesis ledger's data. -/
theorem join_ok {s s' : SubnetActorManagerStorage} {gateway gateway' : γ} {sender : Address}
    {value : Nat} {publicKey : Bytes}
    (ok : join env s gateway sender value publicKey = .ok (s', gateway')) :
    GenesisKept s s' ∧ ∀ a, s'.collateralOf a = s.collateralOf a + if a = sender then value else 0 := by
  unfold join at ok
  obtain ⟨⟨⟩, -, ok⟩ := bind_eq_ok.mp ok
  dsimp only at ok
  -- a bootstrapped subnet checks its mode first, which writes nothing
  split at ok
  on_goal 1 => obtain ⟨⟨⟩, -, ok⟩ := bind_eq_ok.mp ok
  all_goals
    split_ifs at ok
    · -- before bootstrap: confirmed at once, and maybe bootstrapped
      obtain ⟨deposited, deposit, ok⟩ := bind_eq_ok.mp ok
      obtain ⟨depositKept, total⟩ := LibStaking.depositWithConfirm_ok deposit
      obtain ⟨bootstrapKept, same⟩ := LibSubnetActor.bootstrapSubnetIfNeeded_ok env ok
      refine ⟨GenesisKept.trans depositKept bootstrapKept, fun a => ?_⟩
      rw [SubnetActorManagerStorage.collateralOf, same, ← SubnetActorManagerStorage.collateralOf,
        total a, LibStaking.setMetadataWithConfirm_collateralOf]
      rfl
    · -- after bootstrap: logged, and counted in the total collateral
      cases ok
      exact ⟨GenesisKept.refl _, deposit_collateralOf _ sender value publicKey⟩

/-- A stake adds its value to the sender's total collateral and keeps the genesis ledger's data. -/
theorem stake_ok {s s' : SubnetActorManagerStorage} {gateway gateway' : γ} {sender : Address}
    {value : Nat} (ok : stake env s gateway sender value = .ok (s', gateway')) :
    GenesisKept s s' ∧ ∀ a, s'.collateralOf a = s.collateralOf a + if a = sender then value else 0 := by
  unfold stake at ok
  obtain ⟨⟨⟩, -, ok⟩ := bind_eq_ok.mp ok
  obtain ⟨⟨⟩, -, ok⟩ := bind_eq_ok.mp ok
  dsimp only at ok
  split_ifs at ok
  · obtain ⟨deposited, deposit, ok⟩ := bind_eq_ok.mp ok
    obtain ⟨depositKept, total⟩ := LibStaking.depositWithConfirm_ok deposit
    obtain ⟨bootstrapKept, same⟩ := LibSubnetActor.bootstrapSubnetIfNeeded_ok env ok
    refine ⟨GenesisKept.trans depositKept bootstrapKept, fun a => ?_⟩
    rw [SubnetActorManagerStorage.collateralOf, same, ← SubnetActorManagerStorage.collateralOf,
      total a]
    rfl
  · cases ok
    exact ⟨GenesisKept.refl _, ValidatorSet.recordDeposit_totalCollateral _ _ _⟩

theorem withdraw_collateralOf {s : SubnetActorManagerStorage} {subnetActor : SubnetActorStorage}
    {sender : Address} {amount : Nat}
    (ok : LibStaking.withdraw s.toSubnetActorStorage sender amount = .ok subnetActor) (a : Address) :
    ({ s with toSubnetActorStorage := subnetActor } : SubnetActorManagerStorage).collateralOf a +
      (if a = sender then amount else 0) = s.collateralOf a := by
  unfold LibStaking.withdraw at ok
  obtain ⟨recorded, record, ok⟩ := bind_eq_ok.mp ok
  cases ok
  exact (ValidatorSet.recordWithdraw_ok record).2.2 a

/-- An unstake takes the amount from the sender's total collateral, sends back at most that, and
keeps the genesis ledger's data. -/
theorem unstake_ok {s s' : SubnetActorManagerStorage} {sender : Address} {amount sent : Nat}
    (ok : unstake s sender amount = .ok (s', sent)) :
    GenesisKept s s' ∧ sent ≤ amount ∧
      ∀ a, s'.collateralOf a + (if a = sender then amount else 0) = s.collateralOf a := by
  unfold unstake at ok
  obtain ⟨⟨⟩, -, ok⟩ := bind_eq_ok.mp ok
  obtain ⟨⟨⟩, -, ok⟩ := bind_eq_ok.mp ok
  dsimp only at ok
  split_ifs at ok
  · -- before bootstrap: withdrawn and sent at once
    obtain ⟨withdrawn, withdraw, ok⟩ := bind_eq_ok.mp ok
    cases ok
    obtain ⟨kept, total⟩ := LibStaking.withdrawWithConfirm_ok withdraw
    exact ⟨kept, Nat.le_refl _, total⟩
  · -- after bootstrap: logged, to be released later
    obtain ⟨subnetActor, withdraw, ok⟩ := bind_eq_ok.mp ok
    cases ok
    exact ⟨GenesisKept.refl _, Nat.zero_le _, withdraw_collateralOf withdraw⟩

/-- A leave by an account with no genesis balance takes its whole collateral, sends back at most
that, and keeps the genesis ledger's data. -/
theorem leave_ok {s s' : SubnetActorManagerStorage} {sender : Address} {sent : Nat}
    (noBalance : s.genesisBalance sender = 0) (ok : leave s sender = .ok (s', sent)) :
    GenesisKept s s' ∧
      ∀ a, s'.collateralOf a + (if a = sender then sent else 0) ≤ s.collateralOf a := by
  unfold leave at ok
  obtain ⟨⟨⟩, -, ok⟩ := bind_eq_ok.mp ok
  dsimp only at ok
  -- a bootstrapped subnet checks its mode first, which writes nothing
  split at ok
  on_goal 1 => obtain ⟨⟨⟩, -, ok⟩ := bind_eq_ok.mp ok
  all_goals
    -- with no genesis balance there is nothing to refund
    simp only [noBalance, ne_eq, not_true_eq_false, if_false, pure_bind] at ok
    split_ifs at ok
    · -- before bootstrap: the collateral is withdrawn and sent at once
      obtain ⟨withdrawn, withdraw, ok⟩ := bind_eq_ok.mp ok
      cases ok
      obtain ⟨kept, total⟩ := LibStaking.withdrawWithConfirm_ok withdraw
      refine ⟨kept, fun a => ?_⟩
      have moved := total a
      by_cases same : a = sender
      · simp only [same, if_true, Nat.zero_add] at moved ⊢
        omega
      · simp only [same, if_false] at moved ⊢
        omega
    · -- after bootstrap: logged, to be released later
      obtain ⟨subnetActor, withdraw, ok⟩ := bind_eq_ok.mp ok
      cases ok
      refine ⟨GenesisKept.refl _, fun a => ?_⟩
      have moved := withdraw_collateralOf withdraw a
      by_cases same : a = sender
      · simp only [same, if_true] at moved ⊢
        omega
      · simp only [same, if_false] at moved ⊢
        omega

/-- `setFederatedPower` changes no total collateral and keeps the genesis ledger's data. -/
theorem setFederatedPower_ok {s s' : SubnetActorManagerStorage} {gateway gateway' : γ}
    {sender : Address} {validators : List Address} {publicKeys : List Bytes} {powers : List Nat}
    (ok : setFederatedPower env s gateway sender validators publicKeys powers = .ok (s', gateway')) :
    GenesisKept s s' ∧ ∀ a, s'.collateralOf a = s.collateralOf a := by
  unfold setFederatedPower at ok
  by_cases killed : s.killed = true
  · rw [if_pos killed] at ok
    cases ok
  rw [if_neg killed] at ok
  by_cases stranger : sender ≠ s.owner
  · rw [if_pos stranger] at ok
    cases ok
  rw [if_neg stranger] at ok
  obtain ⟨⟨⟩, -, ok⟩ := bind_eq_ok.mp ok
  split_ifs at ok
  · -- after bootstrap: the changes are logged
    obtain ⟨logged, log, ok⟩ := bind_eq_ok.mp ok
    cases ok
    obtain ⟨kept, same⟩ := LibSubnetActor.postBootstrapSetFederatedPower_ok env _ _ _ log
    exact ⟨kept, fun a => by rw [SubnetActorManagerStorage.collateralOf, same]; rfl⟩
  · -- before bootstrap: the genesis validators are set, and the subnet bootstrapped
    unfold LibSubnetActor.preBootstrapSetFederatedPower at ok
    split_ifs at ok
    obtain ⟨powered, power, ok⟩ := bind_eq_ok.mp ok
    obtain ⟨kept, total⟩ := LibSubnetActor.preBootstrapSetFederatedPowerLoop_ok env _ _ _ power
    rw [LibSubnetActor.registerInGateway_ok env ok]
    exact ⟨kept, total⟩

end SubnetActorManagerFacet

/-! ### Runs -/

/-- What an account holds in the actor: its genesis balance and its collateral. -/
def SubnetActorManagerStorage.heldBy (s : SubnetActorManagerStorage) (a : Address) : Nat :=
  s.genesisBalance a + s.collateralOf a

/-- A deployed subnet actor holds nothing for anyone. -/
theorem heldBy_constructor {params : SubnetActorDiamond.ConstructorParams} {owner : Address}
    {s : SubnetActorManagerStorage} (deployed : SubnetActorDiamond.constructor params owner = .ok s)
    (a : Address) : s.heldBy a = 0 := by
  unfold SubnetActorDiamond.constructor at deployed
  split_ifs at deployed
  all_goals
    cases deployed
    rfl

/-- A call to the manager facet. -/
inductive ManagerCall
  | preFund (value : Nat)
  | preRelease (amount : Nat)
  | setFederatedPower (validators : List Address) (publicKeys : List Bytes) (powers : List Nat)
  | join (value : Nat) (publicKey : Bytes)
  | stake (value : Nat)
  | unstake (amount : Nat)
  | leave

namespace ManagerCall

variable {γ : Type} (env : ManagerEnv γ)

/-- The value the call brings in (`msg.value`). -/
def value : ManagerCall → Nat
  | .preFund value => value
  | .join value _ => value
  | .stake value => value
  | _ => 0

/-- The call made by `sender`: the storage and the gateway after it, and the value it sent back
to the sender. -/
def run (s : SubnetActorManagerStorage) (gateway : γ) (sender : Address) :
    ManagerCall → Except Revert (SubnetActorManagerStorage × γ × Nat)
  | .preFund value => do
    let s ← SubnetActorManagerFacet.preFund s sender value
    pure (s, gateway, 0)
  | .preRelease amount => do
    let (s, sent) ← SubnetActorManagerFacet.preRelease s sender amount
    pure (s, gateway, sent)
  | .setFederatedPower validators publicKeys powers => do
    let (s, gateway) ← SubnetActorManagerFacet.setFederatedPower env s gateway sender
      validators publicKeys powers
    pure (s, gateway, 0)
  | .join value publicKey => do
    let (s, gateway) ← SubnetActorManagerFacet.join env s gateway sender value publicKey
    pure (s, gateway, 0)
  | .stake value => do
    let (s, gateway) ← SubnetActorManagerFacet.stake env s gateway sender value
    pure (s, gateway, 0)
  | .unstake amount => do
    let (s, sent) ← SubnetActorManagerFacet.unstake s sender amount
    pure (s, gateway, sent)
  | .leave => do
    let (s, sent) ← SubnetActorManagerFacet.leave s sender
    pure (s, gateway, sent)

/-- The call is not a `leave` by an account with a genesis balance, the one path where the
source's refund forgets to clear the balance. -/
def NoRefundedLeave (s : SubnetActorManagerStorage) (sender : Address) : ManagerCall → Prop
  | .leave => s.genesisBalance sender = 0
  | _ => True

end ManagerCall

open SubnetActorManagerFacet in
/-- **Step lemma.** A call other than a refunded `leave` keeps the genesis ledger, and what it
sends back to its sender, with what the sender still holds, is at most what the sender held and
paid in; no other account's holding changes. -/
theorem ManagerCall.run_ok {γ : Type} {env : ManagerEnv γ} {call : ManagerCall}
    {s s' : SubnetActorManagerStorage} {gateway gateway' : γ} {sender : Address} {sent : Nat}
    (guard : call.NoRefundedLeave s sender) (ledger : GenesisLedger s)
    (ok : call.run env s gateway sender = .ok (s', gateway', sent)) :
    GenesisLedger s' ∧ ∀ a, s'.heldBy a + (if a = sender then sent else 0) ≤
      s.heldBy a + if a = sender then call.value else 0 := by
  -- a call that keeps the genesis data moves only collateral
  have ofCollateral : GenesisKept s s' → (∀ a, s'.collateralOf a + (if a = sender then sent else 0)
      ≤ s.collateralOf a + if a = sender then call.value else 0) →
      GenesisLedger s' ∧ ∀ a, s'.heldBy a + (if a = sender then sent else 0) ≤
        s.heldBy a + if a = sender then call.value else 0 := by
    intro kept moved
    refine ⟨ledger.kept kept, fun a => ?_⟩
    have := moved a
    simp only [SubnetActorManagerStorage.heldBy, kept.1]
    omega
  cases call with
  | preFund value =>
    obtain ⟨s'', funded, ok⟩ := bind_eq_ok.mp ok
    cases ok
    obtain ⟨balance, same⟩ := preFund_ok funded
    refine ⟨preFund_genesisLedger ledger funded, fun a => ?_⟩
    simp only [SubnetActorManagerStorage.heldBy, SubnetActorManagerStorage.collateralOf, balance,
      same, ManagerCall.value]
    by_cases here : a = sender
    · subst here
      simp
      omega
    · simp [here]
  | preRelease amount =>
    obtain ⟨⟨s'', sent'⟩, released, ok⟩ := bind_eq_ok.mp ok
    cases ok
    obtain ⟨rfl, -, within, balance, -, -, same⟩ := preRelease_ok released
    refine ⟨preRelease_genesisLedger ledger released, fun a => ?_⟩
    simp only [SubnetActorManagerStorage.heldBy, SubnetActorManagerStorage.collateralOf, balance,
      same, ManagerCall.value]
    by_cases here : a = sender
    · subst here
      simp
      omega
    · simp [here]
  | setFederatedPower validators publicKeys powers =>
    obtain ⟨⟨s'', gateway''⟩, set, ok⟩ := bind_eq_ok.mp ok
    cases ok
    obtain ⟨kept, total⟩ := setFederatedPower_ok env set
    exact ofCollateral kept fun a => by simp [total a, ManagerCall.value]
  | join value publicKey =>
    obtain ⟨⟨s'', gateway''⟩, joined, ok⟩ := bind_eq_ok.mp ok
    cases ok
    obtain ⟨kept, total⟩ := join_ok env joined
    exact ofCollateral kept fun a => by simp [total a, ManagerCall.value]
  | stake value =>
    obtain ⟨⟨s'', gateway''⟩, staked, ok⟩ := bind_eq_ok.mp ok
    cases ok
    obtain ⟨kept, total⟩ := stake_ok env staked
    exact ofCollateral kept fun a => by simp [total a, ManagerCall.value]
  | unstake amount =>
    obtain ⟨⟨s'', sent'⟩, unstaked, ok⟩ := bind_eq_ok.mp ok
    cases ok
    obtain ⟨kept, small, total⟩ := unstake_ok unstaked
    refine ofCollateral kept fun a => ?_
    have := total a
    by_cases here : a = sender
    · simp only [here, if_true, ManagerCall.value] at this ⊢
      omega
    · simp only [here, if_false] at this ⊢
      omega
  | leave =>
    obtain ⟨⟨s'', sent'⟩, left, ok⟩ := bind_eq_ok.mp ok
    cases ok
    obtain ⟨kept, total⟩ := leave_ok guard left
    exact ofCollateral kept fun a => by
      have := total a
      simp only [ManagerCall.value]
      split_ifs at this ⊢ <;> omega

/-- The subnet actor, its gateway, and what each account has paid in and been sent back. -/
structure ManagerState (γ : Type) where
  storage : SubnetActorManagerStorage
  gateway : γ
  paidIn : Address → Nat
  sentBack : Address → Nat

/-- A freshly deployed subnet actor, with nothing paid in or sent back. -/
def ManagerState.Deployed {γ : Type} (st : ManagerState γ) : Prop :=
  (∃ params owner, SubnetActorDiamond.constructor params owner = .ok st.storage) ∧
    (∀ a, st.paidIn a = 0) ∧ ∀ a, st.sentBack a = 0

/-- One successful call by an account other than a refunded `leave`, with the value it paid in
and what it was sent back; a reverted call changes nothing. -/
def ManagerStep {γ : Type} (env : ManagerEnv γ) (st : ManagerState γ)
    (call : Address × ManagerCall) (st' : ManagerState γ) : Prop :=
  call.2.NoRefundedLeave st.storage call.1 ∧
    ∃ sent, call.2.run env st.storage st.gateway call.1 = .ok (st'.storage, st'.gateway, sent) ∧
      st'.paidIn = Function.update st.paidIn call.1 (st.paidIn call.1 + call.2.value) ∧
      st'.sentBack = Function.update st.sentBack call.1 (st.sentBack call.1 + sent)

/-- **The accounts are covered**: the genesis ledger holds, and no account has been sent back,
with what it still holds, more than it paid in. -/
structure Covered {γ : Type} (st : ManagerState γ) : Prop where
  ledger : GenesisLedger st.storage
  paid : ∀ a, st.sentBack a + st.storage.heldBy a ≤ st.paidIn a

theorem Covered.step {γ : Type} {env : ManagerEnv γ} {st st' : ManagerState γ}
    {call : Address × ManagerCall} (covered : Covered st) (step : ManagerStep env st call st') :
    Covered st' := by
  obtain ⟨guard, sent, ok, paidIn, sentBack⟩ := step
  obtain ⟨ledger, moved⟩ := ManagerCall.run_ok guard covered.ledger ok
  refine ⟨ledger, fun a => ?_⟩
  have before := covered.paid a
  have change := moved a
  rw [paidIn, sentBack]
  by_cases here : a = call.1
  · subst here
    simp only [Function.update_self, if_true] at change ⊢
    omega
  · simp only [Function.update_of_ne here, here, if_false] at change ⊢
    omega

/-- **Pre-funding and collateral are covered over every run** in which no account with a genesis
balance leaves: the genesis supply is the sum of the genesis balances, listed once each, and no
account is ever sent back more than it paid in. -/
theorem covered_of_reachable {γ : Type} {env : ManagerEnv γ} {st : ManagerState γ}
    (reachable : Reachable ManagerState.Deployed (ManagerStep env) st) : Covered st := by
  refine reachable.invariant Covered ?_ ?_
  · rintro st ⟨⟨params, owner, deployed⟩, paidIn, sentBack⟩
    refine ⟨genesisLedger_constructor deployed, fun a => ?_⟩
    rw [paidIn, sentBack, heldBy_constructor deployed]
  · intro st call st' covered step
    exact covered.step step

end Ipc.Contracts
