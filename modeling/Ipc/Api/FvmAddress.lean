/-
**Filecoin addresses in their Solidity form (`convert.rs`, `FvmAddressHelper`).**

The contracts carry a Filecoin address as an `FvmAddress`: its protocol byte and a payload. For a
Secp256k1 address the payload is the 20-byte key hash; for a delegated address it is
`abi.encode((namespace, length, subaddress))`, the encoding both `addr_payload_to_bytes` and
Solidity's `FvmAddressHelper.from` write (`encodeDelegatedTuple`). `bytes_to_fvm_addr` reads the
payload back: protocol 1 through `Address::from_bytes`, protocol 4 through `ethabi`'s decoder,
which reads the two numbers as whole 256-bit words, narrowed with `as_u128` and `as_u64`.

* `decodeDelegatedTuple_encode` — the decoder reads back what the encoder wrote;
* `ofFvmAddress_toFvmAddress` — a Secp256k1 or delegated address survives the trip to Solidity and
  back;
* `ofFvmAddress_fvmAddressFrom` — the payload `FvmAddressHelper.from(e)` writes reads as the f410
  address of `e`;
* `ofFvmAddress_written` — a raw address in the form the contracts write reads back as exactly
  itself, or fails with an error;
* `bytesToFvmAddr_panics_of_length`, `bytesToFvmAddr_panics_of_namespace` — a well-formed payload
  whose length word is `2 ^ 128` or more, or whose namespace word is `2 ^ 64` or more, makes
  `as_u128` or `as_u64` panic, where the decoder should return an error;
* `ofFvmAddress_length_wraps` — a length word `2 ^ 64` past the bytes passes the `usize` comparison
  and the address goes back as another payload.

A Rust call that returns an error and one that panics are told apart (`Fault`): a panic in the
node is not an error its caller can handle.
-/

import Mathlib
import Ipc.Lib.Abi
import Ipc.Contracts.Basic
import Ipc.Lib.System

namespace Ipc.Api

open Ipc.Lib

/-- How a Rust call fails: it returns an error, or it panics. -/
inductive Fault
  | error (msg : String)
  | panic (msg : String)
  deriving DecidableEq, Repr

/-! ### Filecoin addresses -/

/-- `Protocol` of a Filecoin address. -/
inductive Protocol
  | id
  | secp256k1
  | actor
  | bls
  | delegated
  deriving DecidableEq, Repr

/-- `Protocol::from_byte`. -/
def Protocol.fromByte : Nat → Option Protocol
  | 0 => some .id
  | 1 => some .secp256k1
  | 2 => some .actor
  | 3 => some .bls
  | 4 => some .delegated
  | _ => none

/-- `protocol as u8`. -/
def Protocol.toByte : Protocol → Nat
  | .id => 0
  | .secp256k1 => 1
  | .actor => 2
  | .bls => 3
  | .delegated => 4

/-- `Payload`: an actor id, a key hash, an actor hash, a BLS key, or a subaddress in the namespace
of an actor (`DelegatedAddress`). -/
inductive Payload
  | id (actorId : UInt64)
  | secp256k1 (hash : List UInt8)
  | actor (hash : List UInt8)
  | bls (key : List UInt8)
  | delegated (actorNamespace : UInt64) (subaddress : List UInt8)
  deriving DecidableEq, Repr

/-- The lengths the fvm's array types fix: `[u8; 20]` hashes, a `[u8; 48]` key, and at most
`MAX_SUBADDRESS_LEN = 54` bytes of subaddress. -/
def Payload.Valid : Payload → Prop
  | .id _ => True
  | .secp256k1 hash => hash.length = 20
  | .actor hash => hash.length = 20
  | .bls key => key.length = 48
  | .delegated _ subaddress => subaddress.length ≤ 54

/-- `Payload::protocol`. -/
def Payload.protocol : Payload → Protocol
  | .id _ => .id
  | .secp256k1 _ => .secp256k1
  | .actor _ => .actor
  | .bls _ => .bls
  | .delegated _ _ => .delegated

/-- `Address`: a payload of the lengths its protocol fixes. -/
structure Address where
  payload : Payload
  valid : payload.Valid

namespace Address

@[ext]
theorem ext' {a b : Address} (same : a.payload = b.payload) : a = b := by
  cases a
  cases b
  cases same
  rfl

instance : DecidableEq Address := fun a b =>
  decidable_of_iff (a.payload = b.payload) ⟨ext', fun same => same ▸ rfl⟩

/-- `Address::protocol`. -/
def protocol (a : Address) : Protocol := a.payload.protocol

/-- `Address::new_id`. -/
def newId (actorId : UInt64) : Address := ⟨.id actorId, trivial⟩

/-- `Address::new_delegated`: at most 54 bytes of subaddress. -/
def newDelegated (actorNamespace : UInt64) (subaddress : List UInt8) : Except String Address :=
  if short : subaddress.length ≤ 54 then .ok ⟨.delegated actorNamespace subaddress, short⟩
  else .error "invalid payload length"

/-- `Address::from_bytes`: a protocol byte, then the payload `Payload::new` reads for it; an id is
a LEB128 number with nothing after it, a delegated address a LEB128 namespace and the
subaddress after it. -/
def fromBytes : List UInt8 → Except String Address
  | [] | [_] => .error "invalid length"
  | b :: payload =>
    match Protocol.fromByte b.toNat with
    | none => .error "unknown protocol"
    | some .id => do
      let (actorId, remaining) ← decodeVarintU64 payload
      if remaining.isEmpty then pure (newId actorId) else .error "invalid payload"
    | some .secp256k1 =>
      if fits : payload.length = 20 then .ok ⟨.secp256k1 payload, fits⟩
      else .error "invalid payload length"
    | some .actor =>
      if fits : payload.length = 20 then .ok ⟨.actor payload, fits⟩
      else .error "invalid payload length"
    | some .bls =>
      if fits : payload.length = 48 then .ok ⟨.bls payload, fits⟩
      else .error "invalid payload length"
    | some .delegated => do
      let (actorNamespace, remaining) ← decodeVarintU64 payload
      newDelegated actorNamespace remaining

end Address

/-! ### The Solidity form -/

/-- `abi.encode((namespace, length, buffer))` of a `(uint, uint, bytes)` tuple, as
`ethers::abi::encode` and Solidity's `abi.encode(DelegatedAddress(...))` write it: the tuple is
dynamic, so an offset word comes first, then its two words, the offset of its bytes within it,
and the bytes with their length. -/
def encodeDelegatedTuple (actorNamespace length : Nat) (buffer : List UInt8) : List UInt8 :=
  word 32 ++ (word actorNamespace ++ word length ++ word 96 ++ word buffer.length ++
    padRight buffer)

/-- `ethers::abi::decode` of `[Tuple([Uint(32), Uint(32), Bytes])]`: the tuple at the offset the
first word gives, its two numbers read as whole words, and its bytes through their offset and
length. -/
def decodeDelegatedTuple (data : List UInt8) : Except String (Nat × Nat × List UInt8) := do
  if data.isEmpty then throw "failed to decode empty bytes"
  let tuple := data.drop (← asUsize (← peekWord data 0))
  let actorNamespace ← peekWord tuple 0
  let length ← peekWord tuple 32
  let bytesOffset ← asUsize (← peekWord tuple 64)
  let bytesLength ← asUsize (← peekWord tuple bytesOffset)
  let bytes ← takeBytes tuple (bytesOffset + 32) bytesLength
  pure (beValue actorNamespace, beValue length, bytes)

/-- `addr_payload_to_bytes`: the key hash of a Secp256k1 address, the encoded tuple of a delegated
one. -/
def addrPayloadToBytes : Payload → Except String (List UInt8)
  | .secp256k1 hash => .ok hash
  | .delegated actorNamespace subaddress =>
    .ok (encodeDelegatedTuple actorNamespace.toNat subaddress.length subaddress)
  | _ => .error "Invalid payload type"

/-- `U256::as_u128`, which panics past `u128`. -/
def asU128 (value : Nat) : Except Fault Nat :=
  if value < 2 ^ 128 then .ok value else .error (.panic "Integer overflow when casting to u128")

/-- `U256::as_u64`, which panics past `u64`. -/
def asU64 (value : Nat) : Except Fault UInt64 :=
  if value < 2 ^ 64 then .ok value.toUInt64
  else .error (.panic "Integer overflow when casting to u64")

/-- `bytes_to_fvm_addr`: protocol 1 through `Address::from_bytes`, protocol 4 through the tuple
decoder, its length narrowed to `u128` and then compared, as a `usize`, with the bytes. -/
def bytesToFvmAddr (protocol : Nat) (bytes : List UInt8) : Except Fault Address :=
  match protocol with
  | 1 => (Address.fromBytes (1 :: bytes)).mapError .error
  | 4 => do
    let (actorNamespace, length, rawBytes) ← (decodeDelegatedTuple bytes).mapError .error
    let length ← asU128 length
    let actorNamespace ← asU64 actorNamespace
    if length % 2 ^ 64 ≠ rawBytes.length then throw (.error "bytes len not match")
    (Address.newDelegated actorNamespace rawBytes).mapError .error
  | _ => .error (.error "address not support now")

/-- `TryFrom<Address> for FvmAddress`. -/
def Address.toFvmAddress (value : Address) : Except Fault Contracts.FvmAddress := do
  let payload ← (addrPayloadToBytes value.payload).mapError .error
  pure ⟨value.protocol.toByte, payload⟩

/-- `TryFrom<FvmAddress> for Address`. -/
def Address.ofFvmAddress (value : Contracts.FvmAddress) : Except Fault Address :=
  bytesToFvmAddr value.addrType value.payload

/-- `FvmAddressHelper.from(addr)`: the delegated address of `addr` in the namespace of the EAM
actor, `10`, with its 20 bytes. -/
def fvmAddressFrom (addr : Nat) : Contracts.FvmAddress :=
  ⟨4, encodeDelegatedTuple 10 20 (beBytes 20 addr)⟩

/-! ### Reading the Solidity form back -/

section Decoding

variable {actorNamespace length : Nat} {buffer : List UInt8}

/-- **The tuple decoder reads back what the encoder wrote**, for numbers that fit a word and
bytes whose length fits an offset. -/
theorem decodeDelegatedTuple_encode (nsWord : actorNamespace < 2 ^ 256)
    (lengthWord : length < 2 ^ 256) (short : buffer.length < 2 ^ 32) :
    decodeDelegatedTuple (encodeDelegatedTuple actorNamespace length buffer) =
      .ok (actorNamespace, length, buffer) := by
  set tuple := word actorNamespace ++ (word length ++ (word 96 ++ (word buffer.length ++
    padRight buffer)))
  have data : encodeDelegatedTuple actorNamespace length buffer = word 32 ++ tuple := by
    simp [encodeDelegatedTuple, tuple]
  have head : peekWord (word 32 ++ tuple) 0 = .ok (word 32) :=
    peekWord_append [] tuple rfl (length_word 32)
  have nsAt : peekWord tuple 0 = .ok (word actorNamespace) :=
    peekWord_append [] _ rfl (length_word _)
  have lengthAt : peekWord tuple 32 = .ok (word length) :=
    peekWord_append (word actorNamespace) _ (length_word _) (length_word _)
  have offsetAt : peekWord tuple 64 = .ok (word 96) := by
    simpa [tuple] using peekWord_append (word actorNamespace ++ word length)
      (word buffer.length ++ padRight buffer) (by simp) (length_word 96)
  have bytesLengthAt : peekWord tuple 96 = .ok (word buffer.length) := by
    simpa [tuple] using peekWord_append (word actorNamespace ++ word length ++ word 96)
      (padRight buffer) (by simp) (length_word buffer.length)
  have bytesAt : takeBytes tuple (96 + 32) buffer.length = .ok buffer := by
    simpa [tuple, padRight] using takeBytes_append
      (word actorNamespace ++ word length ++ word 96 ++ word buffer.length) buffer
      (List.replicate ((32 - buffer.length % 32) % 32) 0) (by simp)
  have nonempty : (word 32 ++ tuple).isEmpty = false := by
    rw [List.isEmpty_eq_false_iff, ← List.length_pos_iff, List.length_append, length_word]
    omega
  rw [data, decodeDelegatedTuple, nonempty]
  simp only [Bool.false_eq_true, if_false]
  -- the decoder's reads in order; a simp set here would unfold the words themselves
  rw [head, ok_bind, asUsize_word (show 32 < 2 ^ 32 by norm_num), ok_bind,
    List.drop_left' (length_word 32), nsAt, ok_bind, lengthAt, ok_bind, offsetAt, ok_bind,
    asUsize_word (show 96 < 2 ^ 32 by norm_num), ok_bind, bytesLengthAt, ok_bind,
    asUsize_word short, ok_bind, bytesAt, ok_bind, beValue_word nsWord, beValue_word lengthWord]
  rfl

/-- A tuple whose numbers fit `u64` and `u128` reads as the delegated address of its bytes, once
its length, narrowed to a `usize`, matches them. -/
theorem bytesToFvmAddr_delegated (nsFits : actorNamespace < 2 ^ 64) (lengthFits : length < 2 ^ 128)
    (short : buffer.length < 2 ^ 32) :
    bytesToFvmAddr 4 (encodeDelegatedTuple actorNamespace length buffer) =
      if length % 2 ^ 64 ≠ buffer.length then .error (.error "bytes len not match")
      else (Address.newDelegated actorNamespace.toUInt64 buffer).mapError .error := by
  rw [bytesToFvmAddr, decodeDelegatedTuple_encode (by omega) (by omega) short]
  simp only [Except.mapError, bind, Except.bind, asU128, if_pos lengthFits, asU64, if_pos nsFits]
  split <;> rfl

/-- A delegated address's tuple reads back as that address. -/
theorem bytesToFvmAddr_encode {actorNamespace : UInt64} {subaddress : List UInt8}
    (short : subaddress.length ≤ 54) :
    bytesToFvmAddr 4 (encodeDelegatedTuple actorNamespace.toNat subaddress.length subaddress) =
      .ok ⟨.delegated actorNamespace subaddress, short⟩ := by
  rw [bytesToFvmAddr_delegated actorNamespace.toNat_lt (by omega) (by omega),
    Nat.mod_eq_of_lt (by omega), if_neg (not_not.mpr rfl), Nat.toUInt64_eq, UInt64.ofNat_toNat,
    Address.newDelegated, dif_pos short]
  rfl

/-- **A length word past `u128` panics**: on a payload the decoder accepts, `as_u128` panics
before any check can return an error. -/
theorem bytesToFvmAddr_panics_of_length (nsWord : actorNamespace < 2 ^ 256)
    (big : 2 ^ 128 ≤ length) (lengthWord : length < 2 ^ 256) (short : buffer.length < 2 ^ 32) :
    bytesToFvmAddr 4 (encodeDelegatedTuple actorNamespace length buffer) =
      .error (.panic "Integer overflow when casting to u128") := by
  rw [bytesToFvmAddr, decodeDelegatedTuple_encode nsWord lengthWord short]
  simp only [Except.mapError, bind, Except.bind, asU128, if_neg (Nat.not_lt.mpr big)]

/-- A namespace word past `u64` panics in `as_u64`, once the length has passed `as_u128`. -/
theorem bytesToFvmAddr_panics_of_namespace (nsWord : actorNamespace < 2 ^ 256)
    (big : 2 ^ 64 ≤ actorNamespace) (lengthFits : length < 2 ^ 128)
    (short : buffer.length < 2 ^ 32) :
    bytesToFvmAddr 4 (encodeDelegatedTuple actorNamespace length buffer) =
      .error (.panic "Integer overflow when casting to u64") := by
  rw [bytesToFvmAddr, decodeDelegatedTuple_encode nsWord (by omega) short]
  simp only [Except.mapError, bind, Except.bind, asU128, if_pos lengthFits, asU64,
    if_neg (Nat.not_lt.mpr big)]

/-- The tuple of an empty subaddress in the EAM's namespace whose length word says `2 ^ 128`:
well formed for the decoder, and a panic for the relayer that reads it. -/
theorem bytesToFvmAddr_panics_on_huge_length :
    bytesToFvmAddr 4 (encodeDelegatedTuple 10 (2 ^ 128) []) =
      .error (.panic "Integer overflow when casting to u128") :=
  bytesToFvmAddr_panics_of_length (by norm_num) le_rfl (by norm_num) (by norm_num)

end Decoding

/-- **The round trip**: a Secp256k1 or a delegated address goes to its Solidity form and reads
back as itself. -/
theorem ofFvmAddress_toFvmAddress (a : Address)
    (kind : a.protocol = .secp256k1 ∨ a.protocol = .delegated) :
    ∃ f, a.toFvmAddress = .ok f ∧ Address.ofFvmAddress f = .ok a := by
  obtain ⟨payload, valid⟩ := a
  cases payload with
  | secp256k1 hash =>
    -- twenty bytes after the protocol byte
    obtain ⟨first, rest, rfl⟩ := List.exists_cons_of_ne_nil (List.ne_nil_of_length_eq_add_one valid)
    refine ⟨⟨1, first :: rest⟩, rfl, ?_⟩
    have protocolByte : Protocol.fromByte (UInt8.toNat 1) = some .secp256k1 := rfl
    simp only [Address.ofFvmAddress, bytesToFvmAddr, Address.fromBytes, protocolByte]
    rw [dif_pos (show (first :: rest).length = 20 from valid)]
    rfl
  | delegated actorNamespace subaddress =>
    exact ⟨_, rfl, bytesToFvmAddr_encode valid⟩
  | id _ | actor _ | bls _ => simp [Address.protocol, Payload.protocol] at kind

/-- **`FvmAddressHelper.from`**: the payload Solidity writes for an EVM address reads as its f410
address, the delegated address of its 20 bytes in the EAM's namespace. -/
theorem ofFvmAddress_fvmAddressFrom (addr : Nat) :
    Address.ofFvmAddress (fvmAddressFrom addr) =
      .ok ⟨.delegated 10 (beBytes 20 addr), by simp [Payload.Valid]⟩ := by
  have encoded : fvmAddressFrom addr =
      ⟨4, encodeDelegatedTuple (10 : UInt64).toNat (beBytes 20 addr).length (beBytes 20 addr)⟩ := by
    rw [length_beBytes]
    rfl
  rw [encoded, Address.ofFvmAddress]
  exact bytesToFvmAddr_encode _

/-- A delegated address whose namespace fits `u64` goes to the tuple of that namespace. -/
theorem toFvmAddress_delegated {actorNamespace : Nat} {buffer : List UInt8}
    (nsFits : actorNamespace < 2 ^ 64) (fits : buffer.length ≤ 54) :
    Address.toFvmAddress ⟨.delegated actorNamespace.toUInt64 buffer, fits⟩ =
      .ok ⟨4, encodeDelegatedTuple actorNamespace buffer.length buffer⟩ := by
  have narrowed : actorNamespace.toUInt64.toNat = actorNamespace := by
    rw [Nat.toUInt64_eq, UInt64.toNat_ofNat', Nat.mod_eq_of_lt nsFits]
  have payloadBytes : addrPayloadToBytes (.delegated actorNamespace.toUInt64 buffer) =
      .ok (encodeDelegatedTuple actorNamespace buffer.length buffer) := by
    rw [addrPayloadToBytes, narrowed]
  rw [Address.toFvmAddress, payloadBytes]
  rfl

/-- A length word `2 ^ 64` past its bytes passes the comparison, made on the length narrowed to a
`usize`: the address reads, and goes back with the true length, so as another payload. -/
theorem ofFvmAddress_length_wraps {actorNamespace : Nat} {buffer : List UInt8}
    (nsFits : actorNamespace < 2 ^ 64) (fits : buffer.length ≤ 54) :
    ∃ a, Address.ofFvmAddress
        ⟨4, encodeDelegatedTuple actorNamespace (2 ^ 64 + buffer.length) buffer⟩ = .ok a ∧
      a.toFvmAddress = .ok ⟨4, encodeDelegatedTuple actorNamespace buffer.length buffer⟩ := by
  rw [Address.ofFvmAddress, bytesToFvmAddr_delegated nsFits (by omega) (by omega),
    Nat.add_mod_left, Nat.mod_eq_of_lt (by omega), if_neg (not_not.mpr rfl),
    Address.newDelegated, dif_pos fits]
  exact ⟨_, rfl, toFvmAddress_delegated nsFits fits⟩

/-- The raw addresses the contracts write: a key hash under protocol 1, or under protocol 4 the
tuple `FvmAddressHelper.from` and `addr_payload_to_bytes` write, its namespace and length words
in `u64` and its bytes short enough for an offset word. -/
def RawWritten (raw : Contracts.FvmAddress) : Prop :=
  raw.addrType = 1 ∨
    ∃ actorNamespace length buffer, raw = ⟨4, encodeDelegatedTuple actorNamespace length buffer⟩ ∧
      actorNamespace < 2 ^ 64 ∧ length < 2 ^ 64 ∧ buffer.length < 2 ^ 32

/-- **A raw address the contracts write reads back exactly, or fails with an error**: never as
another address, and never with a panic. -/
theorem ofFvmAddress_written {raw : Contracts.FvmAddress} (written : RawWritten raw) :
    (∃ a, Address.ofFvmAddress raw = .ok a ∧ a.toFvmAddress = .ok raw) ∨
      ∃ msg, Address.ofFvmAddress raw = .error (.error msg) := by
  obtain ⟨addrType, payload⟩ := raw
  rcases written with keyHash | ⟨actorNamespace, length, buffer, same, nsFits, lengthFits, short⟩
  · -- protocol 1: `Address::from_bytes` checks the hash's length
    cases keyHash
    have protocolByte : Protocol.fromByte (UInt8.toNat 1) = some .secp256k1 := rfl
    cases payload with
    | nil => exact Or.inr ⟨"invalid length", rfl⟩
    | cons first rest =>
      by_cases fits : (first :: rest).length = 20
      · refine Or.inl ⟨⟨.secp256k1 (first :: rest), fits⟩, ?_, rfl⟩
        simp only [Address.ofFvmAddress, bytesToFvmAddr, Address.fromBytes, protocolByte]
        rw [dif_pos fits]
        rfl
      · refine Or.inr ⟨"invalid payload length", ?_⟩
        simp only [Address.ofFvmAddress, bytesToFvmAddr, Address.fromBytes, protocolByte]
        rw [dif_neg fits]
        rfl
  · -- protocol 4: the length word must match the bytes, and the bytes fit a subaddress
    cases same
    rw [Address.ofFvmAddress, bytesToFvmAddr_delegated nsFits (by omega) short,
      Nat.mod_eq_of_lt lengthFits]
    by_cases agree : length = buffer.length
    · subst agree
      rw [if_neg (not_not.mpr rfl), Address.newDelegated]
      by_cases fits : buffer.length ≤ 54
      · rw [dif_pos fits]
        exact Or.inl ⟨_, rfl, toFvmAddress_delegated nsFits fits⟩
      · rw [dif_neg fits]
        exact Or.inr ⟨_, rfl⟩
    · rw [if_pos agree]
      exact Or.inr ⟨_, rfl⟩

end Ipc.Api
