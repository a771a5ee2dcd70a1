/-
**Signed messages (`fendermint_vm_message::signed`).**

A signed message carries an FVM message, an optional object to resolve, and a signature. What the
signature signs depends on the addresses (`signable`):

* a message from an Ethereum account (a delegated `f410` address) to an Ethereum-compatible
  recipient is signed as the EIP-1559 transaction it was made from (`Ethereum`): the hash of a
  transaction request rebuilt from the message's chain id, sender, nonce, gas, fees, value,
  recipient and CBOR-decoded parameters;
* a message from an Ethereum account to another kind of recipient signs the message CID, the chain
  id and the object CID (`RegularFromEth`), and so does a message from any other account
  (`Regular`).

The Ethereum pre-image leaves out the message's version and method number (the method is checked
separately, `verifyEthMethod`) and the object: two signed messages that differ only in their object
verify with the same signature (`verifySignature_ignores_object`).

The chain id does reach every pre-image. With CIDs and sighashes collision-free and a signature
valid for one pre-image only (`SigningEnv.Ideal`), the regular pre-image determines the message,
the object and the chain id (`regularData_injective`), and a signature that verifies under one
chain id fails under every other, in all three schemes (`verifySignature_binds_chainId`).

Hashing, CID computation, CBOR decoding and signature recovery are the parameters of `SigningEnv`.
-/

import Ipc.Lib.Bytes
import Ipc.Lib.System

namespace Ipc.VmMessage

open Ipc.Lib

/-- Bytes. -/
abbrev Bytes := List UInt8

/-- The payload of an FVM address (`Payload`). -/
inductive Payload
  | id (actorId : Nat)
  | secp256k1 (hash : Bytes)
  | actor (hash : Bytes)
  | bls (key : Bytes)
  | delegated (actorNamespace : Nat) (subaddress : Bytes)
  deriving DecidableEq, Repr

/-- An FVM address (`Address`). -/
structure Address where
  payload : Payload
  deriving DecidableEq, Repr

/-- A 20-byte Ethereum address (`H160`). -/
abbrev EthAddress := Bytes

/-- `EAM_ACTOR_ID`. -/
def eamActorId : Nat := 10

/-- `EAM_ACTOR_ADDR`. -/
def eamActorAddr : Address := ⟨.id eamActorId⟩

/-- `eam::Method::CreateExternal`. -/
def methodCreateExternal : Nat := 4

/-- `evm::Method::InvokeContract`. -/
def methodInvokeContract : Nat := 3844450837

/-- An FVM message (`Message`); token amounts are big integers. -/
structure Message where
  version : Nat
  fromAddr : Address
  toAddr : Address
  sequence : Nat
  value : Int
  methodNum : Nat
  params : Bytes
  gasLimit : Nat
  gasFeeCap : Int
  gasPremium : Int
  deriving DecidableEq, Repr

/-- An object to resolve along with a message (`Object`). -/
structure Object where
  key : Bytes
  value : Bytes
  address : Address
  deriving DecidableEq, Repr

/-- The kind of a signature (`SignatureType`). -/
inductive SignatureType
  | secp256k1
  | bls
  deriving DecidableEq, Repr

/-- A signature (`Signature`). -/
structure Signature where
  sigType : SignatureType
  bytes : Bytes
  deriving DecidableEq, Repr

/-- The fields of an EIP-1559 transaction request that `to_eth_transaction_request` sets. -/
structure Eip1559TransactionRequest where
  chainId : Nat
  fromAddr : EthAddress
  toAddr : Option EthAddress
  nonce : Nat
  gas : Nat
  maxFeePerGas : Nat
  maxPriorityFeePerGas : Nat
  data : Bytes
  value : Option Nat
  deriving DecidableEq, Repr

/-- What a signature signs (`Signable`). -/
inductive Signable
  | ethereum (hash : Bytes) (sender : EthAddress)
  | regular (data : Bytes)
  | regularFromEth (data : Bytes) (sender : EthAddress)
  deriving DecidableEq, Repr

/-- `SignedMessageError`. -/
inductive SignedMessageError
  | ipld (reason : String)
  | invalidSignature (reason : String)
  | ethereum (reason : String)
  deriving DecidableEq, Repr

/-- The hashes, encodings and signature recovery the signing code calls. -/
structure SigningEnv where
  /-- `crate::cid(message)`, as bytes. -/
  messageCid : Message → Bytes
  /-- `crate::cid(object)`, as bytes. -/
  objectCid : Object → Bytes
  /-- `from_slice::<BytesDe>`: the byte string a CBOR encoding holds. -/
  decodeBytes : Bytes → Option Bytes
  /-- `TypedTransaction::sighash`. -/
  sighash : Eip1559TransactionRequest → Bytes
  /-- `to_eth_signature` and `recover`: the Ethereum signer of a hash. -/
  recoverEth : Signature → Bytes → Option EthAddress
  /-- `recover_secp256k1` of the data, as an Ethereum address. -/
  recoverSecp : Signature → Bytes → Option EthAddress
  /-- `Signature::verify(data, from)`. -/
  verifyRegular : Signature → Bytes → Address → Bool

/-- `U256::MAX`. -/
def maxU256 : Int := 2 ^ 256 - 1

/-- `to_eth_tokens`: the magnitude of an amount up to `U256::MAX` (its sign is dropped). -/
def toEthTokens (amount : Int) : Except String Nat :=
  if amount > maxU256 then .error "TokenAmount > U256.MAX" else .ok amount.natAbs

/-- The big-endian bytes of a `u64`. -/
def u64BeBytes (n : Nat) : Bytes := (List.range 8).reverse.map fun i => (n / 256 ^ i % 256).toUInt8

/-- `EthAddress::from_id`: the masked address `0xff`, eleven zero bytes, the id. -/
def ethAddressFromId (actorId : Nat) : EthAddress := 0xff :: List.replicate 11 0 ++ u64BeBytes actorId

/-- `to_eth_address`: a delegated address of the EAM, nothing for the EAM itself, and with
`allowMasked` an id address as its masked form. -/
def toEthAddress (addr : Address) (allowMasked : Bool) : Except String (Option EthAddress) :=
  match addr.payload with
  | .delegated actorNamespace subaddress =>
    if actorNamespace = eamActorId ∧ subaddress.length = 20 then .ok (some subaddress)
    else .error "not an Ethereum address"
  | .id actorId =>
    if actorId = eamActorId then .ok none
    else if allowMasked then .ok (some (ethAddressFromId actorId))
    else .error "not an Ethereum address"
  | _ => .error "not an Ethereum address"

/-- `chain_id_bytes`. -/
def chainIdBytes (chainId : Nat) : Bytes := u64BeBytes chainId

/-- `maybe_eth_address`: the Ethereum address of a delegated address of the EAM. -/
def maybeEthAddress (addr : Address) : Option EthAddress :=
  match addr.payload with
  | .delegated actorNamespace subaddress =>
    if actorNamespace = eamActorId ∧ subaddress.length = 20 then some subaddress else none
  | _ => none

/-- `is_eth_addr_compat_no_masked`. -/
def isEthAddrCompatNoMasked (addr : Address) : Bool :=
  match toEthAddress addr false with
  | .ok _ => true
  | .error _ => false

/-- `to_eth_transaction_request`. -/
def toEthTransactionRequest (env : SigningEnv) (msg : Message) (chainId : Nat) :
    Except String Eip1559TransactionRequest := do
  let data ← match env.decodeBytes msg.params with
    | some data => pure data
    | none => .error "params are not a CBOR byte string"
  let sender ← toEthAddress msg.fromAddr true
  let maxFeePerGas ← toEthTokens msg.gasFeeCap
  let maxPriorityFeePerGas ← toEthTokens msg.gasPremium
  let recipient ← toEthAddress msg.toAddr true
  let value ← if msg.value ≠ 0 then (some <$> toEthTokens msg.value) else pure none
  pure
    { chainId := chainId, fromAddr := sender.getD (List.replicate 20 0), nonce := msg.sequence,
      gas := msg.gasLimit, maxFeePerGas := maxFeePerGas,
      maxPriorityFeePerGas := maxPriorityFeePerGas, data := data, toAddr := recipient, value := value }

/-- The pre-image of a regular signature: the message CID, the chain id, the object CID. -/
def regularData (env : SigningEnv) (message : Message) (object : Option Object) (chainId : Nat) :
    Bytes :=
  env.messageCid message ++ chainIdBytes chainId ++
    match object with
    | some obj => env.objectCid obj
    | none => []

/-- `signable`. -/
def signable (env : SigningEnv) (message : Message) (object : Option Object) (chainId : Nat) :
    Except SignedMessageError Signable :=
  match maybeEthAddress message.fromAddr with
  | some addr =>
    if isEthAddrCompatNoMasked message.toAddr then
      match toEthTransactionRequest env message chainId with
      | .ok tx => .ok (.ethereum (env.sighash tx) addr)
      | .error e => .error (.ethereum e)
    else .ok (.regularFromEth (regularData env message object chainId) addr)
  | none => .ok (.regular (regularData env message object chainId))

/-- `verify_eth_method`: the EAM takes only `CreateExternal`, any other actor only
`InvokeContract`. -/
def verifyEthMethod (msg : Message) : Except SignedMessageError Unit :=
  if msg.toAddr = eamActorAddr then
    if msg.methodNum ≠ methodCreateExternal then
      .error (.ethereum "The EAM actor can only be called with CreateExternal")
    else .ok ()
  else if msg.methodNum ≠ methodInvokeContract then
    .error (.ethereum "An EVM actor can only be called with InvokeContract")
  else .ok ()

/-- `verify_signature`. -/
def verifySignature (env : SigningEnv) (message : Message) (object : Option Object)
    (signature : Signature) (chainId : Nat) : Except SignedMessageError Unit := do
  match ← signable env message object chainId with
  | .ethereum hash sender =>
    match env.recoverEth signature hash with
    | none => .error (.ethereum "cannot recover the signer")
    | some rec =>
      if rec = sender then verifyEthMethod message
      else .error (.invalidSignature
        "the Ethereum delegated address did not match the one recovered from the signature")
  | .regular data =>
    if env.verifyRegular signature data message.fromAddr then .ok ()
    else .error (.invalidSignature "the signature does not verify")
  | .regularFromEth data sender =>
    match env.recoverSecp signature data with
    | none => .error (.invalidSignature "cannot recover the signer")
    | some rec =>
      if rec = sender then .ok ()
      else .error (.invalidSignature
        "the Ethereum delegated address did not match the one recovered from the signature (client chain ID may incorrect)")

/-- A message with the object it asks to resolve and its signature (`SignedMessage`). -/
structure SignedMessage where
  message : Message
  object : Option Object
  signature : Signature
  deriving DecidableEq, Repr

/-- `SignedMessage::verify`. -/
def SignedMessage.verify (env : SigningEnv) (msg : SignedMessage) (chainId : Nat) :
    Except SignedMessageError Unit :=
  verifySignature env msg.message msg.object msg.signature chainId

/-! ### The object in the Ethereum scheme -/

/-- Between Ethereum accounts the pre-image does not depend on the object. -/
theorem signable_ethereum_object (env : SigningEnv) (message : Message) (object object' : Option Object)
    (chainId : Nat) {sender : EthAddress} (fromEth : maybeEthAddress message.fromAddr = some sender)
    (toEth : isEthAddrCompatNoMasked message.toAddr = true) :
    signable env message object chainId = signable env message object' chainId := by
  simp only [signable, fromEth, toEth, if_true]

/-- **The object is not signed**: between Ethereum accounts, a signature verifies a message with an
object exactly when it verifies the message without it. -/
theorem verifySignature_ignores_object (env : SigningEnv) (message : Message) (object : Object)
    (signature : Signature) (chainId : Nat) {sender : EthAddress}
    (fromEth : maybeEthAddress message.fromAddr = some sender)
    (toEth : isEthAddrCompatNoMasked message.toAddr = true) :
    verifySignature env message (some object) signature chainId =
      verifySignature env message none signature chainId := by
  unfold verifySignature
  rw [signable_ethereum_object env message (some object) none chainId fromEth toEth]

/-! ### What a signature does bind -/

/-- A signature signs a pre-image: it recovers the given Ethereum sender from an Ethereum or a
regular-from-Ethereum pre-image, or verifies a regular one against the message's sender. -/
def Signs (env : SigningEnv) (signature : Signature) (sender : Address) : Signable → Prop
  | .ethereum hash addr => env.recoverEth signature hash = some addr
  | .regular data => env.verifyRegular signature data sender = true
  | .regularFromEth data addr => env.recoverSecp signature data = some addr

/-- The idealisation the schemes rest on: CIDs and sighashes are collision-free, no message CID is
a proper prefix of another (CIDs carry their length), object CIDs are not empty, and a signature
verifies, or recovers a signer from, one pre-image only. -/
structure SigningEnv.Ideal (env : SigningEnv) : Prop where
  messageCid_prefixFree : ∀ message message',
    env.messageCid message <+: env.messageCid message' →
      env.messageCid message = env.messageCid message'
  messageCid_injective : Function.Injective env.messageCid
  objectCid_injective : Function.Injective env.objectCid
  objectCid_ne_nil : ∀ obj, env.objectCid obj ≠ []
  sighash_injective : Function.Injective env.sighash
  recoverEth_unique : ∀ signature hash hash' sender sender',
    env.recoverEth signature hash = some sender → env.recoverEth signature hash' = some sender' →
      hash = hash'
  recoverSecp_unique : ∀ signature data data' sender sender',
    env.recoverSecp signature data = some sender → env.recoverSecp signature data' = some sender' →
      data = data'
  verifyRegular_unique : ∀ signature data data' addr addr',
    env.verifyRegular signature data addr = true → env.verifyRegular signature data' addr' = true →
      data = data'

theorem chainIdBytes_eq_beBytes (chainId : Nat) : chainIdBytes chainId = beBytes 8 chainId := rfl

theorem chainIdBytes_injective {chainId chainId' : Nat} (small : chainId < 2 ^ 64)
    (small' : chainId' < 2 ^ 64) (same : chainIdBytes chainId = chainIdBytes chainId') :
    chainId = chainId' := by
  have width : (2 : Nat) ^ 64 = 256 ^ 8 := rfl
  rw [chainIdBytes_eq_beBytes, chainIdBytes_eq_beBytes] at same
  exact beBytes_injective (width ▸ small) (width ▸ small') same

/-- A message CID at the front of a pre-image can be split off it. -/
theorem messageCid_append_inj {env : SigningEnv} (ideal : env.Ideal) {message message' : Message}
    {rest rest' : Bytes} (same : env.messageCid message ++ rest = env.messageCid message' ++ rest') :
    message = message' ∧ rest = rest' := by
  have front : env.messageCid message <+: env.messageCid message' ++ rest' :=
    same ▸ List.prefix_append _ _
  have front' : env.messageCid message' <+: env.messageCid message' ++ rest' :=
    List.prefix_append _ _
  -- of two prefixes of one list, the shorter is a prefix of the longer
  have cids : env.messageCid message = env.messageCid message' := by
    rcases Nat.le_total (env.messageCid message).length (env.messageCid message').length with
      shorter | longer
    · exact ideal.messageCid_prefixFree _ _ (List.prefix_of_prefix_length_le front front' shorter)
    · exact (ideal.messageCid_prefixFree _ _
        (List.prefix_of_prefix_length_le front' front longer)).symm
  rw [cids] at same
  exact ⟨ideal.messageCid_injective cids, List.append_cancel_left same⟩

/-- The regular pre-image determines the message, the object and the chain id. -/
theorem regularData_injective {env : SigningEnv} (ideal : env.Ideal) {message message' : Message}
    {object object' : Option Object} {chainId chainId' : Nat} (small : chainId < 2 ^ 64)
    (small' : chainId' < 2 ^ 64)
    (same : regularData env message object chainId = regularData env message' object' chainId') :
    message = message' ∧ object = object' ∧ chainId = chainId' := by
  unfold regularData at same
  rw [List.append_assoc, List.append_assoc] at same
  -- the message CID, then the chain id of fixed width, split off the front
  obtain ⟨messages, same⟩ := messageCid_append_inj ideal same
  obtain ⟨chains, objects⟩ := List.append_inj same (by simp [chainIdBytes_eq_beBytes])
  refine ⟨messages, ?_, chainIdBytes_injective small small' chains⟩
  cases object with
  | none =>
    cases object' with
    | none => rfl
    | some obj' => exact absurd objects.symm (ideal.objectCid_ne_nil obj')
  | some obj =>
    cases object' with
    | none => exact absurd objects (ideal.objectCid_ne_nil obj)
    | some obj' => rw [ideal.objectCid_injective objects]

theorem toEthTransactionRequest_chainId {env : SigningEnv} {message : Message} {chainId : Nat}
    {tx : Eip1559TransactionRequest} (ok : toEthTransactionRequest env message chainId = .ok tx) :
    tx.chainId = chainId := by
  unfold toEthTransactionRequest at ok
  dsimp only at ok
  split at ok
  · -- every step after decoding the parameters keeps the chain id it was given
    obtain ⟨data, -, ok⟩ := bind_eq_ok.mp ok
    obtain ⟨sender, -, ok⟩ := bind_eq_ok.mp ok
    obtain ⟨maxFee, -, ok⟩ := bind_eq_ok.mp ok
    obtain ⟨premium, -, ok⟩ := bind_eq_ok.mp ok
    obtain ⟨recipient, -, ok⟩ := bind_eq_ok.mp ok
    split_ifs at ok <;>
    · obtain ⟨value, -, ok⟩ := bind_eq_ok.mp ok
      cases ok
      rfl
  · obtain ⟨_, failed, -⟩ := bind_eq_ok.mp ok
    cases failed

/-- A signature that verifies signs the pre-image `signable` chose. -/
theorem verifySignature_ok {env : SigningEnv} {message : Message} {object : Option Object}
    {signature : Signature} {chainId : Nat}
    (ok : verifySignature env message object signature chainId = .ok ()) :
    ∃ signed, signable env message object chainId = .ok signed ∧
      Signs env signature message.fromAddr signed := by
  unfold verifySignature at ok
  obtain ⟨signed, chosen, ok⟩ := bind_eq_ok.mp ok
  refine ⟨signed, chosen, ?_⟩
  cases signed with
  | ethereum hash sender =>
    dsimp only at ok
    split at ok
    · cases ok
    · rename_i recovered found
      split_ifs at ok with same
      show _ = _
      rw [found, same]
  | regular data =>
    dsimp only at ok
    split_ifs at ok with verified
    exact verified
  | regularFromEth data sender =>
    dsimp only at ok
    split at ok
    · cases ok
    · rename_i recovered found
      split_ifs at ok with same
      show _ = _
      rw [found, same]

/-- **A signature binds the chain id.** Under the idealisation, a signature that verifies a signed
message under one chain id fails under every other, in all three schemes. -/
theorem verifySignature_binds_chainId {env : SigningEnv} (ideal : env.Ideal) {message : Message}
    {object : Option Object} {signature : Signature} {chainId chainId' : Nat}
    (small : chainId < 2 ^ 64) (small' : chainId' < 2 ^ 64)
    (ok : verifySignature env message object signature chainId = .ok ())
    (ok' : verifySignature env message object signature chainId' = .ok ()) : chainId = chainId' := by
  obtain ⟨signed, chosen, signs⟩ := verifySignature_ok ok
  obtain ⟨signed', chosen', signs'⟩ := verifySignature_ok ok'
  unfold signable at chosen chosen'
  -- the scheme depends on the addresses only, so both chain ids take the same branch
  split at chosen
  · rename_i sender fromEth
    rw [fromEth] at chosen'
    dsimp only at chosen chosen'
    split_ifs at chosen chosen' with toEth
    · split at chosen
      · rename_i tx request
        split at chosen'
        · rename_i tx' request'
          cases chosen
          cases chosen'
          have hashes := ideal.recoverEth_unique _ _ _ _ _ signs signs'
          rw [← toEthTransactionRequest_chainId request, ← toEthTransactionRequest_chainId request',
            ideal.sighash_injective hashes]
        · cases chosen'
      · cases chosen
    · cases chosen
      cases chosen'
      exact (regularData_injective ideal small small'
        (ideal.recoverSecp_unique _ _ _ _ _ signs signs')).2.2
  · rename_i notEth
    rw [notEth] at chosen'
    cases chosen
    cases chosen'
    exact (regularData_injective ideal small small'
      (ideal.verifyRegular_unique _ _ _ _ _ signs signs')).2.2

/-! ### An Ethereum message and an object -/

/-- A signing environment with an idealised signature: a signature is the signer's address followed
by the hash it signs, and a transaction's hash is its chain id, nonce and data. -/
def idealEnv : SigningEnv where
  messageCid _ := []
  objectCid obj := obj.key
  decodeBytes params := some params
  sighash tx := [tx.chainId.toUInt8, tx.nonce.toUInt8] ++ tx.data
  recoverEth signature hash :=
    if signature.bytes.drop 20 = hash then some (signature.bytes.take 20) else none
  recoverSecp _ _ := none
  verifyRegular _ _ _ := false

/-- The Ethereum account `0x0101…01`. -/
def ethAccount : Address := ⟨.delegated eamActorId (List.replicate 20 1)⟩

/-- A contract call from `ethAccount` to the contract `0x0202…02`, nonce `7`, on chain `314`. -/
def ethCall : Message :=
  ⟨0, ethAccount, ⟨.delegated eamActorId (List.replicate 20 2)⟩, 7, 0, methodInvokeContract, [5],
    21000, 1, 1⟩

/-- The signature of `ethCall` on chain `314` by `ethAccount`. -/
def ethCallSignature : Signature := ⟨.secp256k1, List.replicate 20 1 ++ [58, 7, 5]⟩

/-- One signature verifies `ethCall` both with an object attached and with none. -/
theorem verifySignature_object_unsigned :
    verifySignature idealEnv ethCall (some ⟨[9], [9], ethAccount⟩) ethCallSignature 314 = .ok () ∧
      verifySignature idealEnv ethCall none ethCallSignature 314 = .ok () := by
  decide +kernel

end Ipc.VmMessage
