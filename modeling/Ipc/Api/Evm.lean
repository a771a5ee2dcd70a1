/-
**Cross-net types between `ipc_api` and the contracts' ABI (`ipc_api::evm`).**

The relayer and the node move subnet ids, IPC addresses and cross-net messages between the Rust
types of `ipc_api` and the structs `abigen` generates from the contracts (`Abi.SubnetID`,
`Abi.Ipcaddress`, `Abi.IpcEnvelope`). A route address is an EVM address on the contract side and a
Filecoin address on the Rust side: `ethers_address_to_fil_address` reads an EVM address as the f0
address it masks (`0xff`, eleven zero bytes, an actor id), or else as its f410 address in the EAM's
namespace, and `payload_to_evm_address` takes back the first 20 bytes of any delegated
subaddress, whatever its namespace.

* `Abi.SubnetID.toApi_toAbi`, `Abi.Ipcaddress.toApi_toAbi`, **`Abi.IpcEnvelope.toApi_toAbi`** —
  what the contracts emit, with raw addresses in the form they write (`RawWritten`), comes back
  the same or fails with an error;
* **`SubnetID.toAbi_toApi`** — a route of f410 addresses that mask no id comes back the same;
* `SubnetID.toAbi_isOk_iff`, `SubnetID.toAbi_error_panics` — on a route of delegated addresses the
  conversion succeeds exactly when every subaddress has 20 bytes or more, whatever the namespaces,
  and otherwise panics.

`BackOrError value result` says a conversion gave `value` back or failed with an error; its `bind`
and `context` lemmas carry it through the `do` blocks of the conversions.
-/

import Mathlib
import Ipc.Api.FvmAddress

namespace Ipc.Api

open Ipc.Lib

/-! ### EVM addresses -/

/-- An EVM address (`H160`, `EthAddress`): twenty bytes. -/
@[ext]
structure EthAddress where
  bytes : List UInt8
  length_eq : bytes.length = 20
  deriving DecidableEq

namespace EthAddress

/-- `EthAddress::is_id`: `0xff`, then eleven zero bytes. -/
def isId (addr : EthAddress) : Bool :=
  addr.bytes.head? == some 0xff && ((addr.bytes.drop 1).take 11).all (· == 0)

/-- `EthAddress::as_id`: the actor id in the last eight bytes of a masked id address. -/
def asId (addr : EthAddress) : Option UInt64 :=
  if addr.isId then some (beValue (addr.bytes.drop 12)).toUInt64 else none

/-- `From<&EthAddress> for Address`: the f0 address an address masks, else its f410 address in the
namespace `EAM_ACTOR_ID = 10`; twenty bytes always fit a subaddress, so the source's `unwrap` of
`new_delegated` never panics. -/
def toAddress (addr : EthAddress) : Address :=
  match addr.asId with
  | some actorId => Address.newId actorId
  | none => ⟨.delegated 10 addr.bytes, by simp [Payload.Valid, addr.length_eq]⟩

end EthAddress

/-- `ethers_address_to_fil_address`: the address printed in hex and parsed back as an
`EthAddress`, which gives its own twenty bytes, then converted. -/
def ethersAddressToFilAddress (addr : EthAddress) : Except String Address :=
  .ok addr.toAddress

/-- `payload_to_evm_address`: the first twenty bytes of a delegated subaddress, whatever its
namespace; slicing a shorter one panics. -/
def payloadToEvmAddress : Payload → Except Fault EthAddress
  | .delegated _ subaddress =>
    if long : 20 ≤ subaddress.length then .ok ⟨subaddress.take 20, by simp; omega⟩
    else .error (.panic ("range end index 20 out of range for slice of length " ++
      toString subaddress.length))
  | _ => .error (.error "address provided is not delegated")

/-! ### The two sides' types -/

/-- The `ipc_api` subnet id: a root chain id and the route of subnet actors from it. -/
structure SubnetID where
  root : UInt64
  children : List Address
  deriving DecidableEq

/-- The `ipc_api` address in a subnet. -/
structure IPCAddress where
  subnetId : SubnetID
  rawAddress : Address
  deriving DecidableEq

/-- `IpcMsgKind`. -/
inductive IpcMsgKind
  | transfer
  | call
  | receipt
  deriving DecidableEq, Repr

/-- The `ipc_api` cross-net message; the token amount is a signed `BigInt` of atto. -/
structure IpcEnvelope where
  kind : IpcMsgKind
  toAddr : IPCAddress
  value : Int
  fromAddr : IPCAddress
  message : List UInt8
  nonce : UInt64
  deriving DecidableEq

namespace Abi

/-- The contracts' `SubnetID` as `abigen` declares it. -/
structure SubnetID where
  root : UInt64
  route : List EthAddress
  deriving DecidableEq

/-- The contracts' `IPCAddress`. -/
structure Ipcaddress where
  subnetId : SubnetID
  rawAddress : Contracts.FvmAddress
  deriving DecidableEq

/-- The contracts' `IpcEnvelope`: the kind a `u8`, the value a `U256`. -/
structure IpcEnvelope where
  kind : UInt8
  toAddr : Ipcaddress
  fromAddr : Ipcaddress
  nonce : UInt64
  value : BitVec 256
  message : List UInt8
  deriving DecidableEq

end Abi

/-! ### The conversions -/

/-- `subnet_id_to_evm_addresses`. -/
def subnetIdToEvmAddresses (subnet : SubnetID) : Except Fault (List EthAddress) :=
  subnet.children.mapM fun addr => payloadToEvmAddress addr.payload

/-- `TryFrom<&SubnetID> for SubnetID`. -/
def SubnetID.toAbi (subnet : SubnetID) : Except Fault Abi.SubnetID := do
  let route ← subnetIdToEvmAddresses subnet
  pure ⟨subnet.root, route⟩

/-- `TryFrom<SubnetID> for SubnetID`. -/
def Abi.SubnetID.toApi (value : Abi.SubnetID) : Except Fault Api.SubnetID := do
  let children ← (value.route.mapM ethersAddressToFilAddress).mapError .error
  pure ⟨value.root, children⟩

/-- `TryFrom<IPCAddress> for Ipcaddress`. -/
def IPCAddress.toAbi (value : IPCAddress) : Except Fault Abi.Ipcaddress := do
  let subnetId ← value.subnetId.toAbi
  let rawAddress ← value.rawAddress.toFvmAddress
  pure ⟨subnetId, rawAddress⟩

/-- `TryFrom<Ipcaddress> for IPCAddress`: the raw address is read first. -/
def Abi.Ipcaddress.toApi (value : Abi.Ipcaddress) : Except Fault IPCAddress := do
  let addr ← Address.ofFvmAddress value.rawAddress
  let subnetId ← value.subnetId.toApi
  pure ⟨subnetId, addr⟩

/-- `TryFrom<u8> for IpcMsgKind`. -/
def IpcMsgKind.tryFrom (value : UInt8) : Except String IpcMsgKind :=
  match value.toNat with
  | 0 => .ok .transfer
  | 1 => .ok .call
  | 2 => .ok .receipt
  | _ => .error "invalid ipc msg kind"

/-- `kind as u8`. -/
def IpcMsgKind.toU8 : IpcMsgKind → UInt8
  | .transfer => 0
  | .call => 1
  | .receipt => 2

/-- `fil_to_eth_amount`: the amount in atto printed in decimal and parsed as a `U256`, which
refuses a sign and a number past `2 ^ 256 - 1`. -/
def filToEthAmount (amount : Int) : Except String (BitVec 256) :=
  if amount < 0 then .error "a character is not in the range 0-9"
  else if amount < 2 ^ 256 then .ok (BitVec.ofNat 256 amount.toNat)
  else .error "the number is too large for the type"

/-- `eth_to_fil_amount`: the number printed in decimal and parsed as a `BigInt`. -/
def ethToFilAmount (amount : BitVec 256) : Except String Int :=
  .ok amount.toNat

/-- `map_err(|e| anyhow!("...{e:}"))`: an error is reworded; a panic passes through. -/
def Fault.context (lead : String) : Fault → Fault
  | .error msg => .error (lead ++ msg)
  | .panic msg => .panic msg

/-- `TryFrom<IpcEnvelope> for IpcEnvelope`. -/
def IpcEnvelope.toAbi (value : IpcEnvelope) : Except Fault Abi.IpcEnvelope := do
  let val ← (filToEthAmount value.value).mapError .error
  let fromAddr ← value.fromAddr.toAbi.mapError
    (Fault.context "cannot convert `from` ipc address msg due to: ")
  let toAddr ← value.toAddr.toAbi.mapError
    (Fault.context "cannot convert `to`` ipc address due to: ")
  pure ⟨value.kind.toU8, toAddr, fromAddr, value.nonce, val, value.message⟩

/-- `TryFrom<IpcEnvelope> for IpcEnvelope`, back. -/
def Abi.IpcEnvelope.toApi (value : Abi.IpcEnvelope) : Except Fault Api.IpcEnvelope := do
  let fromAddr ← value.fromAddr.toApi
  let toAddr ← value.toAddr.toApi
  let amount ← (ethToFilAmount value.value).mapError .error
  let kind ← (IpcMsgKind.tryFrom value.kind).mapError .error
  pure ⟨kind, toAddr, amount, fromAddr, value.message, value.nonce⟩

/-! ### Route addresses -/

section Route

/-- An EVM address that masks no id is the subaddress of its f410 address. -/
theorem EthAddress.toAddress_payload {addr : EthAddress} (notId : addr.isId = false) :
    addr.toAddress.payload = .delegated 10 addr.bytes := by
  have notMasked : addr.asId = none := by rw [EthAddress.asId, if_neg (by simp [notId])]
  rw [EthAddress.toAddress]
  split
  · rename_i found
    rw [notMasked] at found
    cases found
  · rfl

/-- **An EVM address comes back from its Filecoin address**, unless it masks an id: its f0 address
is not delegated. -/
theorem payloadToEvmAddress_toAddress (addr : EthAddress) :
    payloadToEvmAddress addr.toAddress.payload =
      if addr.isId then .error (.error "address provided is not delegated") else .ok addr := by
  by_cases masked : addr.isId
  · rw [if_pos masked, EthAddress.toAddress, EthAddress.asId, if_pos masked]
    rfl
  · have long : 20 ≤ addr.bytes.length := by rw [addr.length_eq]
    rw [if_neg masked, EthAddress.toAddress_payload (by simpa using masked), payloadToEvmAddress,
      dif_pos long]
    congr 1
    ext1
    exact List.take_of_length_le (by rw [addr.length_eq])

/-- Slicing a delegated subaddress succeeds exactly when it has twenty bytes. -/
theorem payloadToEvmAddress_isOk {actorNamespace : UInt64} {subaddress : List UInt8} :
    (payloadToEvmAddress (.delegated actorNamespace subaddress)).isOk = true ↔
      20 ≤ subaddress.length := by
  by_cases long : 20 ≤ subaddress.length
  · rw [payloadToEvmAddress, dif_pos long]
    exact iff_of_true rfl long
  · rw [payloadToEvmAddress, dif_neg long]
    exact iff_of_false Bool.false_ne_true long

/-- The contracts' route always reads as Filecoin addresses. -/
theorem Abi.SubnetID.toApi_eq (value : Abi.SubnetID) :
    value.toApi = .ok ⟨value.root, value.route.map EthAddress.toAddress⟩ := by
  have children : value.route.mapM ethersAddressToFilAddress =
      .ok (value.route.map EthAddress.toAddress) :=
    mapM_eq_ok.mpr (List.forall₂_map_right_iff.mpr (List.forall₂_same.mpr fun _ _ => rfl))
  rw [Abi.SubnetID.toApi, children]
  rfl

/-- A conversion gives back `value`, or fails with an error: never another value, never a panic. -/
def BackOrError {β : Type} (value : β) (result : Except Fault β) : Prop :=
  result = .ok value ∨ ∃ msg, result = .error (.error msg)

theorem BackOrError.bind {α β : Type} {a : α} {b : β} {first : Except Fault α}
    {rest : α → Except Fault β} (back : BackOrError a first) (next : BackOrError b (rest a)) :
    BackOrError b (first >>= rest) := by
  rcases back with rfl | ⟨msg, rfl⟩
  · rwa [ok_bind]
  · exact Or.inr ⟨msg, rfl⟩

theorem BackOrError.context {β : Type} {b : β} {result : Except Fault β} (lead : String)
    (back : BackOrError b result) : BackOrError b (result.mapError (Fault.context lead)) := by
  rcases back with rfl | ⟨msg, rfl⟩
  · exact Or.inl rfl
  · exact Or.inr ⟨lead ++ msg, rfl⟩

/-- A route read from the contracts goes back to them, unless one of its addresses masks an id. -/
theorem SubnetID.toAbi_map_toAddress (root : UInt64) (route : List EthAddress) :
    BackOrError ⟨root, route⟩ (SubnetID.mk root (route.map EthAddress.toAddress)).toAbi := by
  rw [SubnetID.toAbi, subnetIdToEvmAddresses]
  cases converted :
      (route.map EthAddress.toAddress).mapM fun addr => payloadToEvmAddress addr.payload with
  | ok back =>
    -- each address came back as itself, so the route did
    have each := List.forall₂_map_left_iff.mp (mapM_eq_ok.mp converted)
    have same : route = back := by
      rw [← List.forall₂_eq_eq_eq]
      refine each.imp fun addr out step => ?_
      rw [payloadToEvmAddress_toAddress] at step
      split at step
      · cases step
      · exact Except.ok.inj step
    subst same
    exact Or.inl rfl
  | error fault =>
    obtain ⟨addr, member, step⟩ := mapM_eq_error converted
    obtain ⟨evm, -, rfl⟩ := List.mem_map.mp member
    rw [payloadToEvmAddress_toAddress] at step
    split at step
    · cases step
      exact Or.inr ⟨_, rfl⟩
    · cases step

/-- **A subnet id the contracts emit comes back the same, or fails with an error.** -/
theorem Abi.SubnetID.toApi_toAbi (value : Abi.SubnetID) :
    BackOrError value (value.toApi >>= SubnetID.toAbi) := by
  rw [Abi.SubnetID.toApi_eq, ok_bind]
  exact SubnetID.toAbi_map_toAddress value.root value.route

/-- A route of f410 addresses that mask no id goes to the contracts as their EVM addresses. -/
theorem mapM_payloadToEvmAddress_eam {children : List Address}
    (eam : ∀ a ∈ children, ∃ evm : EthAddress, evm.isId = false ∧
      a.payload = .delegated 10 evm.bytes) :
    ∃ route, (children.mapM fun addr => payloadToEvmAddress addr.payload) = .ok route ∧
      route.map EthAddress.toAddress = children := by
  induction children with
  | nil => exact ⟨[], rfl, rfl⟩
  | cons a rest ih =>
    obtain ⟨evm, notId, payload⟩ := eam a List.mem_cons_self
    obtain ⟨route, converted, back⟩ := ih fun b member => eam b (List.mem_cons_of_mem a member)
    have same : evm.toAddress = a := by
      ext1
      rw [EthAddress.toAddress_payload notId, payload]
    have head : payloadToEvmAddress a.payload = .ok evm := by
      rw [← same, payloadToEvmAddress_toAddress, if_neg (by simp [notId])]
    refine ⟨evm :: route, ?_, ?_⟩
    · rw [List.mapM_cons, head, ok_bind, converted, ok_bind]
      rfl
    · rw [List.map_cons, same, back]

/-- **A subnet id of f410 addresses comes back the same**, when none of their EVM addresses masks
an id. -/
theorem SubnetID.toAbi_toApi (subnet : SubnetID)
    (eam : ∀ a ∈ subnet.children, ∃ evm : EthAddress, evm.isId = false ∧
      a.payload = .delegated 10 evm.bytes) :
    (subnet.toAbi >>= Abi.SubnetID.toApi) = .ok subnet := by
  obtain ⟨route, converted, back⟩ := mapM_payloadToEvmAddress_eam eam
  rw [SubnetID.toAbi, subnetIdToEvmAddresses, converted, ok_bind]
  refine (Abi.SubnetID.toApi_eq ⟨subnet.root, route⟩).trans ?_
  rw [back]

/-- **On a route of delegated addresses the conversion succeeds exactly when every subaddress has
twenty bytes or more**: the namespaces are never read. -/
theorem SubnetID.toAbi_isOk_iff (subnet : SubnetID)
    (delegated : ∀ a ∈ subnet.children, a.protocol = .delegated) :
    subnet.toAbi.isOk = true ↔
      ∀ a ∈ subnet.children, ∀ actorNamespace subaddress,
        a.payload = .delegated actorNamespace subaddress → 20 ≤ subaddress.length := by
  have converts : subnet.toAbi.isOk = (subnetIdToEvmAddresses subnet).isOk := by
    rw [SubnetID.toAbi]
    cases subnetIdToEvmAddresses subnet <;> rfl
  rw [converts, subnetIdToEvmAddresses, mapM_isOk]
  refine forall₂_congr fun a member => ?_
  obtain ⟨payload, valid⟩ := a
  cases payload with
  | delegated actorNamespace subaddress =>
    rw [payloadToEvmAddress_isOk]
    exact ⟨fun long _ _ same => by cases same; exact long, fun long => long _ _ rfl⟩
  | id _ | secp256k1 _ | actor _ | bls _ => cases delegated _ member

/-- On a route of delegated addresses the conversion fails only with a panic. -/
theorem SubnetID.toAbi_error_panics (subnet : SubnetID)
    (delegated : ∀ a ∈ subnet.children, a.protocol = .delegated) {fault : Fault}
    (fails : subnet.toAbi = .error fault) : ∃ msg, fault = .panic msg := by
  rw [SubnetID.toAbi] at fails
  cases converted : subnetIdToEvmAddresses subnet with
  | ok route =>
    rw [converted, ok_bind] at fails
    cases fails
  | error e =>
    rw [converted, error_bind] at fails
    cases fails
    obtain ⟨⟨payload, valid⟩, member, step⟩ := mapM_eq_error converted
    cases payload with
    | delegated actorNamespace subaddress =>
      by_cases long : 20 ≤ subaddress.length
      · rw [payloadToEvmAddress, dif_pos long] at step
        cases step
      · rw [payloadToEvmAddress, dif_neg long] at step
        cases step
        exact ⟨_, rfl⟩
    | id _ | secp256k1 _ | actor _ | bls _ => cases delegated _ member

/-- An f410 address in namespace 7 goes to the contracts and comes back in the EAM's namespace,
10: the conversion never reads the namespace. -/
theorem subnetID_toAbi_forgets_namespace :
    ((SubnetID.mk 1 [⟨.delegated 7 (List.replicate 20 1), by simp [Payload.Valid]⟩]).toAbi >>=
        Abi.SubnetID.toApi) =
      .ok (SubnetID.mk 1 [⟨.delegated 10 (List.replicate 20 1), by simp [Payload.Valid]⟩]) := by
  rfl

end Route

/-! ### Addresses and envelopes -/

section Envelope

/-- **An address the contracts emit comes back the same, or fails with an error**, when its raw
address is in the form they write: it is read, and what it is read as goes back to it or fails. -/
theorem Abi.Ipcaddress.toApi_toAbi (value : Abi.Ipcaddress) (written : RawWritten value.rawAddress) :
    (∃ addr, value.toApi = .ok addr ∧ BackOrError value addr.toAbi) ∨
      ∃ msg, value.toApi = .error (.error msg) := by
  rcases ofFvmAddress_written written with ⟨raw, read, back⟩ | ⟨msg, fails⟩
  · refine Or.inl ⟨⟨⟨value.subnetId.root, value.subnetId.route.map EthAddress.toAddress⟩, raw⟩,
      ?_, ?_⟩
    · rw [Abi.Ipcaddress.toApi, read, ok_bind, Abi.SubnetID.toApi_eq, ok_bind]
      rfl
    · -- the route first, then the raw address
      rw [IPCAddress.toAbi]
      exact (SubnetID.toAbi_map_toAddress _ _).bind (BackOrError.bind (.inl back) (.inl rfl))
  · refine Or.inr ⟨msg, ?_⟩
    rw [Abi.Ipcaddress.toApi, fails, error_bind]

theorem filToEthAmount_toNat (amount : BitVec 256) : filToEthAmount amount.toNat = .ok amount := by
  have fits : (amount.toNat : Int) < 2 ^ 256 := by exact_mod_cast amount.isLt
  rw [filToEthAmount, if_neg (by omega), if_pos fits, Int.toNat_natCast, BitVec.ofNat_toNat,
    BitVec.setWidth_eq]

theorem IpcMsgKind.toU8_of_tryFrom {value : UInt8} {kind : IpcMsgKind}
    (read : IpcMsgKind.tryFrom value = .ok kind) : kind.toU8 = value := by
  rw [IpcMsgKind.tryFrom] at read
  split at read
  next byte =>
    cases read
    exact UInt8.toNat_inj.mp (by rw [byte]; rfl)
  next byte =>
    cases read
    exact UInt8.toNat_inj.mp (by rw [byte]; rfl)
  next byte =>
    cases read
    exact UInt8.toNat_inj.mp (by rw [byte]; rfl)
  next => cases read

/-- **A cross-net message the contracts emit comes back the same, or fails with an error**, when
both its raw addresses are in the form the contracts write. -/
theorem Abi.IpcEnvelope.toApi_toAbi (value : Abi.IpcEnvelope)
    (fromWritten : RawWritten value.fromAddr.rawAddress)
    (toWritten : RawWritten value.toAddr.rawAddress) :
    BackOrError value (value.toApi >>= IpcEnvelope.toAbi) := by
  rcases Abi.Ipcaddress.toApi_toAbi _ fromWritten with ⟨fromApi, fromRead, fromBack⟩ | ⟨msg, fails⟩
  · rcases Abi.Ipcaddress.toApi_toAbi _ toWritten with ⟨toApi, toRead, toBack⟩ | ⟨msg, fails⟩
    · cases kindRead : IpcMsgKind.tryFrom value.kind with
      | ok kind =>
        -- every field is read; the amount and the kind come back exactly
        have read : value.toApi =
            .ok ⟨kind, toApi, value.value.toNat, fromApi, value.message, value.nonce⟩ := by
          rw [Abi.IpcEnvelope.toApi, fromRead, ok_bind, toRead, ok_bind]
          show (Except.mapError Fault.error (IpcMsgKind.tryFrom value.kind) >>= _) = _
          rw [kindRead]
          rfl
        rw [read, ok_bind, IpcEnvelope.toAbi, filToEthAmount_toNat]
        refine BackOrError.bind (.inl rfl) ((fromBack.context _).bind ((toBack.context _).bind ?_))
        rw [IpcMsgKind.toU8_of_tryFrom kindRead]
        exact .inl rfl
      | error msg =>
        refine .inr ⟨msg, ?_⟩
        rw [Abi.IpcEnvelope.toApi, fromRead, ok_bind, toRead, ok_bind]
        show (Except.mapError Fault.error (IpcMsgKind.tryFrom value.kind) >>= _) >>= _ = _
        rw [kindRead]
        rfl
    · refine .inr ⟨msg, ?_⟩
      rw [Abi.IpcEnvelope.toApi, fromRead, ok_bind, fails, error_bind, error_bind]
  · refine .inr ⟨msg, ?_⟩
    rw [Abi.IpcEnvelope.toApi, fails, error_bind, error_bind]

end Envelope

end Ipc.Api
