/-
**Gossiped votes, from the resolver to the vote tally (`ipc_ipld_resolver::behaviour::membership`,
`fendermint_app::cmd::run::dispatch_vote`).**

A validator signs a `VoteRecord` — its key, the subnet the vote is for, the content — in a signed
envelope, and publishes it on the voting topic of that subnet. A node subscribed to voting topics
decodes every message arriving on any of them as a signed vote record: the envelope's signature must
verify and its signing key must be the record's key (`SignedVoteRecord.fromBytes`). The record is
raised as an event (`handleMessage`) and dispatched to the node's tally (`dispatchVote`): a parent
finality vote through `add_vote`, an object vote through `add_object_vote`.

Neither step reads the record's subnet id. A vote signed for one subnet and replayed on the voting
topic of another is counted in the other subnet's tally, and the validator's own vote there at the
same height is then refused as an equivocation (`dispatchVote_counts_replayed_vote`). What a counted
vote does carry is its signer's key: the tally changes only for a record signed by the key it
records (`deliver_changes_tally`), and after any run of deliveries every validator counted for a
block signed one of the messages delivered (`voter_signed_of_deliverAll`).

Topic hashes and envelope signatures are idealised: a topic is its kind, network and subnet, and
opening an envelope (`RecordEnv.openEnvelope`) returns the key that signed it.
-/

import Ipc.Topdown.VotingInvariant
import Ipc.Topdown.Finality
import Ipc.Contracts.Basic

namespace Ipc.Resolver

open Ipc.Lib Ipc.Topdown
open Ipc.Contracts (SubnetID Bytes)

/-- A gossipsub topic of the membership behaviour, named after its kind, the network and the
subnet. -/
inductive Topic
  | membership (networkName : String)
  | voting (networkName : String) (subnetId : SubnetID)
  | preemptive (networkName : String) (subnetId : SubnetID)
  deriving DecidableEq, Repr

/-- A gossipsub message: the topic it arrived on and its data. -/
structure GossipMessage where
  topic : Topic
  data : Bytes
  deriving DecidableEq, Repr

/-- `VoteRecord<C>` of validators keyed by `K`. -/
structure VoteRecord (K C : Type) where
  publicKey : K
  subnetId : SubnetID
  content : C
  timestamp : Nat
  deriving DecidableEq, Repr

/-- Opening a signed envelope and decoding its payload. -/
structure RecordEnv (K C : Type) where
  /-- `SignedEnvelope::from_protobuf_encoding` and `payload_and_signing_key`: the key whose
  signature over the payload verifies, and the payload. -/
  openEnvelope : Bytes → Option (K × Bytes)
  /-- `fvm_ipld_encoding::from_slice::<VoteRecord<C>>`. -/
  decodeRecord : Bytes → Option (VoteRecord K C)

/-- `SignedVoteRecord::from_bytes` then `into_record`: a record whose key signed its envelope
(`check_signing_key`). -/
def SignedVoteRecord.fromBytes {K C : Type} [DecidableEq K] (env : RecordEnv K C) (bytes : Bytes) :
    Option (VoteRecord K C) := do
  let (signingKey, payload) ← env.openEnvelope bytes
  let record ← env.decodeRecord payload
  if record.publicKey = signingKey then some record else none

/-- The events of the membership behaviour that carry gossiped data. -/
inductive Event (K C : Type)
  | receivedVote (record : VoteRecord K C)
  | receivedPreemptive (subnetId : SubnetID) (data : Bytes)

/-- The state of the membership behaviour that the vote path reads and writes: its topics and
the events waiting for the application. -/
structure Membership (K C : Type) where
  membershipTopic : Topic
  votingTopics : List Topic
  preemptiveTopics : List (Topic × SubnetID)
  outbox : List (Event K C)

namespace Membership

variable {K C : Type} [DecidableEq K]

/-- `handle_vote_record`: raise the vote. -/
def handleVoteRecord (b : Membership K C) (record : VoteRecord K C) : Membership K C :=
  { b with outbox := b.outbox ++ [.receivedVote record] }

/-- `handle_message`: provider records on the membership topic (their cache is not modelled), vote
records on any voting topic, pre-emptive data on its topic; other messages are dropped. -/
def handleMessage (env : RecordEnv K C) (b : Membership K C) (msg : GossipMessage) :
    Membership K C :=
  if msg.topic = b.membershipTopic then b
  else if msg.topic ∈ b.votingTopics then
    match SignedVoteRecord.fromBytes env msg.data with
    | some record => b.handleVoteRecord record
    | none => b
  else
    match b.preemptiveTopics.lookup msg.topic with
    | some subnetId => { b with outbox := b.outbox ++ [.receivedPreemptive subnetId msg.data] }
    | none => b

end Membership

/-- The content of an application vote (`AppVote`). -/
inductive AppVote
  | parentFinality (finality : IPCParentFinality)
  | objectFinality (object : Bytes)
  deriving DecidableEq, Repr

/-- The tally a node feeds: parent block hashes and object CIDs as bytes. -/
abbrev NodeTally (K : Type) [DecidableEq K] := VoteTally K BlockHash Bytes

variable {K : Type} [DecidableEq K]

/-- The tally after a transaction: what it committed, or the same tally when it aborted (the
error is logged) or retried. -/
def afterVote {α : Type} (t : NodeTally K) (result : Except (StmError (VoteError K Bytes)) (α × NodeTally K)) :
    NodeTally K :=
  Txn.after result t

/-- `dispatch_vote`: a parent finality vote, when top-down finality is enabled, through `add_vote`;
an object vote through `add_object_vote`. -/
def dispatchVote (vote : VoteRecord K AppVote) (parentFinalityVotes : NodeTally K)
    (topdownEnabled : Bool) : NodeTally K :=
  match vote.content with
  | .parentFinality f =>
    if !topdownEnabled then parentFinalityVotes
    else afterVote parentFinalityVotes (parentFinalityVotes.addVote vote.publicKey f.height f.blockHash)
  | .objectFinality object =>
    afterVote parentFinalityVotes (parentFinalityVotes.addObjectVote vote.publicKey object)

/-- `dispatch_resolver_events` for one event. -/
def dispatchEvent (event : Event K AppVote) (parentFinalityVotes : NodeTally K)
    (topdownEnabled : Bool) : NodeTally K :=
  match event with
  | .receivedPreemptive _ _ => parentFinalityVotes
  | .receivedVote vote => dispatchVote vote parentFinalityVotes topdownEnabled

/-- A gossip message reaches a node: the behaviour handles it and the application dispatches the
events it raised. -/
def deliver (env : RecordEnv K AppVote) (b : Membership K AppVote) (t : NodeTally K)
    (topdownEnabled : Bool) (msg : GossipMessage) : Membership K AppVote × NodeTally K :=
  let b' := b.handleMessage env msg
  ({ b' with outbox := [] },
    (b'.outbox.drop b.outbox.length).foldl (fun t event => dispatchEvent event t topdownEnabled) t)

/-- Gossip messages reaching a node one after the other. -/
def deliverAll (env : RecordEnv K AppVote) (topdownEnabled : Bool) :
    Membership K AppVote × NodeTally K → List GossipMessage → Membership K AppVote × NodeTally K
  | node, [] => node
  | (b, t), msg :: rest => deliverAll env topdownEnabled (deliver env b t topdownEnabled msg) rest

/-! ### What a counted vote carries -/

theorem fromBytes_eq_some {env : RecordEnv K AppVote} {bytes : Bytes} {record : VoteRecord K AppVote}
    (decoded : SignedVoteRecord.fromBytes env bytes = some record) :
    ∃ payload, env.openEnvelope bytes = some (record.publicKey, payload) ∧
      env.decodeRecord payload = some record := by
  unfold SignedVoteRecord.fromBytes at decoded
  obtain ⟨⟨signingKey, payload⟩, opened, decoded⟩ := Option.bind_eq_some_iff.mp decoded
  obtain ⟨decodedRecord, recordOk, signed⟩ := Option.bind_eq_some_iff.mp decoded
  split_ifs at signed with sameKey
  cases signed
  exact ⟨payload, by rw [opened, sameKey], recordOk⟩

/-- Handling a message raises at most one event, a vote exactly for a message on a voting topic that
decodes as a signed record. -/
theorem handleMessage_outbox (env : RecordEnv K AppVote) (b : Membership K AppVote)
    (msg : GossipMessage) :
    (b.handleMessage env msg).outbox = b.outbox ∨
      (∃ record, msg.topic ∈ b.votingTopics ∧ SignedVoteRecord.fromBytes env msg.data = some record ∧
        (b.handleMessage env msg).outbox = b.outbox ++ [.receivedVote record]) ∨
      (∃ subnetId, (b.handleMessage env msg).outbox = b.outbox ++ [.receivedPreemptive subnetId msg.data]) := by
  unfold Membership.handleMessage
  split_ifs with membership voting
  · exact .inl rfl
  · split
    case h_1 record decoded => exact .inr (.inl ⟨record, voting, decoded, rfl⟩)
    case h_2 => exact .inl rfl
  · split
    case h_1 subnetId _ => exact .inr (.inr ⟨subnetId, rfl⟩)
    case h_2 => exact .inl rfl

/-- A tally that a message changes was changed by a vote record that decodes from the message, on a
voting topic, signed by the key it records. Nothing ties the record's subnet to the topic. -/
theorem deliver_changes_tally (env : RecordEnv K AppVote) (b : Membership K AppVote) (t : NodeTally K)
    (topdownEnabled : Bool) (msg : GossipMessage) (changed : (deliver env b t topdownEnabled msg).2 ≠ t) :
    ∃ record payload, msg.topic ∈ b.votingTopics ∧
      SignedVoteRecord.fromBytes env msg.data = some record ∧
      env.openEnvelope msg.data = some (record.publicKey, payload) ∧
      (deliver env b t topdownEnabled msg).2 = dispatchVote record t topdownEnabled := by
  unfold deliver at changed ⊢
  rcases handleMessage_outbox env b msg with same | ⟨record, voting, decoded, raised⟩ |
    ⟨subnetId, raised⟩
  · -- no event: the tally is untouched
    simp [same] at changed
  · obtain ⟨payload, opened, -⟩ := fromBytes_eq_some decoded
    refine ⟨record, payload, voting, decoded, opened, ?_⟩
    simp [raised, dispatchEvent]
  · simp [raised, dispatchEvent] at changed

/-- A dispatched vote adds at most its signer to the voters of any parent block. -/
theorem votersOf_dispatchVote (vote : VoteRecord K AppVote) (t : NodeTally K) (topdownEnabled : Bool)
    (h : Nat) (hash : BlockHash) :
    (dispatchVote vote t topdownEnabled).votersOf h hash ⊆ insert vote.publicKey (t.votersOf h hash) := by
  unfold dispatchVote afterVote
  split
  case h_1 f _ =>
    split
    · exact Finset.subset_insert _ _
    · cases added : t.addVote vote.publicKey f.height f.blockHash with
      | error e => exact Finset.subset_insert _ _
      | ok result =>
        obtain ⟨fresh, t'⟩ := result
        exact VoteTally.votersOf_addVote_subset added h hash
  case h_2 object _ =>
    cases added : t.addObjectVote vote.publicKey object with
    | error e => exact Finset.subset_insert _ _
    | ok result =>
      obtain ⟨fresh, t'⟩ := result
      -- an object vote leaves the block votes as they were
      have same : t'.votersOf h hash = t.votersOf h hash := by
        simp only [VoteTally.votersOf, VoteTally.votesAt, VoteTally.addObjectVote_votes added]
      rw [Txn.after_ok, same]
      exact Finset.subset_insert _ _

/-- **Step lemma**: a voter a delivered message adds to a parent block signed the message's
envelope. -/
theorem votersOf_deliver (env : RecordEnv K AppVote) (b : Membership K AppVote) (t : NodeTally K)
    (topdownEnabled : Bool) (msg : GossipMessage) {h : Nat} {hash : BlockHash} {k : K}
    (counted : k ∈ (deliver env b t topdownEnabled msg).2.votersOf h hash) :
    k ∈ t.votersOf h hash ∨ ∃ payload, env.openEnvelope msg.data = some (k, payload) := by
  by_cases changed : (deliver env b t topdownEnabled msg).2 = t
  · rw [changed] at counted
    exact .inl counted
  · obtain ⟨record, payload, -, -, opened, dispatched⟩ :=
      deliver_changes_tally env b t topdownEnabled msg changed
    rw [dispatched] at counted
    rcases Finset.mem_insert.mp (votersOf_dispatchVote record t topdownEnabled h hash counted) with
      signer | before
    · subst signer
      exact .inr ⟨payload, opened⟩
    · exact .inl before

/-- **Votes are authentic**: after any run of deliveries, a validator counted for a parent block
was counted before the run or signed the envelope of one of the messages delivered. Which subnet
the message was for is not part of it. -/
theorem voter_signed_of_deliverAll (env : RecordEnv K AppVote) (topdownEnabled : Bool)
    (msgs : List GossipMessage) (node : Membership K AppVote × NodeTally K) {h : Nat}
    {hash : BlockHash} {k : K}
    (counted : k ∈ (deliverAll env topdownEnabled node msgs).2.votersOf h hash) :
    k ∈ node.2.votersOf h hash ∨
      ∃ msg ∈ msgs, ∃ payload, env.openEnvelope msg.data = some (k, payload) := by
  -- induction on the messages, one delivery per step
  induction msgs generalizing node with
  | nil => exact .inl counted
  | cons msg rest ih =>
    obtain ⟨b, t⟩ := node
    rcases ih _ counted with before | ⟨later, member, signed⟩
    · rcases votersOf_deliver env b t topdownEnabled msg before with old | signed
      · exact .inl old
      · exact .inr ⟨msg, List.mem_cons_self, signed⟩
    · exact .inr ⟨later, List.mem_cons_of_mem msg member, signed⟩

/-! ### A vote replayed on another subnet's topic -/

/-- Envelopes whose first byte is the signer's key, over records `[key, subnet actor, height, hash]`
voting for the block with hash `[hash]` at `height` in subnet `/1/[actor]`. -/
def byteRecords : RecordEnv Nat AppVote where
  openEnvelope
    | signer :: payload => some (signer.toNat, payload)
    | [] => none
  decodeRecord
    | [key, actor, height, hash] =>
      some ⟨key.toNat, ⟨1, [actor.toNat]⟩, .parentFinality ⟨height.toNat, [hash]⟩, 0⟩
    | _ => none

/-- Validator `1`'s vote for subnet `/1/[5]`: block `[50]` at height `6`, as published on that
subnet's voting topic. -/
def voteForA : Bytes := [1, 1, 5, 6, 50]

/-- A node of subnet `/1/[7]`, subscribed to its voting topic, whose tally gives validator `1`
power and has finalized height `5`. -/
def nodeOfB : Membership Nat AppVote := ⟨.membership "test", [.voting "test" ⟨1, [7]⟩], [], []⟩

@[inherit_doc nodeOfB]
def tallyOfB : NodeTally Nat := VoteTally.new [(1, 1)] (5, [5])

/-- Replayed on subnet `/1/[7]`'s voting topic, validator `1`'s vote for subnet `/1/[5]` is counted
in `/1/[7]`'s tally, and validator `1`'s own vote there for block `[70]` at height `6` is refused as
an equivocation. -/
theorem dispatchVote_counts_replayed_vote :
    (deliver byteRecords nodeOfB tallyOfB true ⟨.voting "test" ⟨1, [7]⟩, voteForA⟩).2.votersOf 6 [50] =
        {1} ∧
      ((deliver byteRecords nodeOfB tallyOfB true ⟨.voting "test" ⟨1, [7]⟩, voteForA⟩).2.addVote
          1 6 [70]).map (fun _ => ()) =
        .error (.abort (.equivocation 1 6 [70] [50])) := by
  decide +kernel

end Ipc.Resolver
