/-
**The finality provider that knows null rounds (`fendermint_vm_topdown::finality::null`).**

`FinalityWithNull` keeps the parent's blocks fetched so far in a `SequentialKeyCache` — a block's
hash, validator changes and top-down messages at its height, or nothing for a null round — and the
last parent finality committed in the ledger. Every operation is one STM transaction over these two
variables: a query reads them, an update returns the new pair or aborts with an `Error` and writes
nothing.

A node proposes a finality from its own cache (`nextProposal`): the highest non-null height at
most `max_proposal_range` above the committed height, delayed by `proposal_delay` further non-null
blocks. It votes for a proposal when the height is above the committed one, within its cache, and
the hash is the one it cached (`checkProposal`).

Heights are `u64` in the source. They stay far below `2^64` in every run modelled here except in the
two sums of `proposeNextHeight`, which the model computes modulo `2^64`, as the release build does.
`unreachable!` and `unwrap` on `None` are panics (`Panic`).
-/

import Ipc.Topdown.Cache
import Ipc.Contracts.Basic

namespace Ipc.Topdown

open Ipc.Contracts (Bytes StakingChangeRequest IpcEnvelope)

/-- `BlockHash`. -/
abbrev BlockHash := Bytes

/-- The configuration the provider and the syncer read (`Config`); the polling period and the
retry parameters only pace the syncer and are left out. -/
structure Config where
  chainHeadDelay : Nat
  maxProposalRange : Option Nat
  maxCacheBlocks : Option Nat
  proposalDelay : Option Nat
  deriving DecidableEq, Repr

namespace Config

/-- `DEFAULT_MAX_PROPOSAL_RANGE`. -/
def defaultMaxProposalRange : Nat := 100

/-- `DEFAULT_MAX_CACHE_BLOCK`. -/
def defaultMaxCacheBlock : Nat := 500

/-- `DEFAULT_PROPOSAL_DELAY`. -/
def defaultProposalDelay : Nat := 2

/-- `max_proposal_range()`. -/
def getMaxProposalRange (config : Config) : Nat :=
  config.maxProposalRange.getD defaultMaxProposalRange

/-- `max_cache_blocks()`. -/
def getMaxCacheBlocks (config : Config) : Nat := config.maxCacheBlocks.getD defaultMaxCacheBlock

/-- `proposal_delay()`. -/
def getProposalDelay (config : Config) : Nat := config.proposalDelay.getD defaultProposalDelay

end Config

/-- A finality of the parent: a height and the hash of the block there (`IPCParentFinality`). -/
structure IPCParentFinality where
  height : Nat
  blockHash : BlockHash
  deriving DecidableEq, Repr

/-- What the syncer fetched for a non-null parent block (`ParentViewPayload`). -/
structure ParentViewPayload where
  blockHash : BlockHash
  validatorChanges : List StakingChangeRequest
  topDownMsgs : List IpcEnvelope
  deriving DecidableEq, Repr

/-- The errors of top-down finality (`Error`). -/
inductive Error
  | notSequential
  | nonSequentialParentViewInsert (error : SequentialAppendError)
  | parentChainReorgDetected
  | cannotQueryParent (what : String) (height : Nat)
  deriving DecidableEq, Repr

/-- How the code panics: `unreachable!`, or `unwrap` of `None`. -/
inductive Panic
  | unreachable
  | unwrapNone
  deriving DecidableEq, Repr

/-- The loop of `ensure_sequential` after the first item: each next one carries the number one
above the previous. -/
def ensureSequentialFrom {α : Type} (f : α → Nat) : Nat → List α → Except Error Unit
  | _, [] => .ok ()
  | nonce, msg :: rest =>
    if nonce + 1 ≠ f msg then .error .notSequential else ensureSequentialFrom f (nonce + 1) rest

/-- `ensure_sequential`: the numbers `f` reads off the items go up by one. -/
def ensureSequential {α : Type} (msgs : List α) (f : α → Nat) : Except Error Unit :=
  match msgs with
  | [] => .ok ()
  | first :: rest => ensureSequentialFrom f (f first) rest

/-- The state of a `FinalityWithNull`. -/
structure FinalityWithNull where
  config : Config
  genesisEpoch : Nat
  cachedData : SequentialKeyCache (Option ParentViewPayload)
  lastCommittedFinality : Option IPCParentFinality

namespace FinalityWithNull

/-- `new`: an empty cache and the committed finality the ledger holds. -/
def new (config : Config) (genesisEpoch : Nat) (committedFinality : Option IPCParentFinality) :
    FinalityWithNull :=
  ⟨config, genesisEpoch, SequentialKeyCache.sequential, committedFinality⟩

/-- `reset`: clear the cache and take the given finality as committed. -/
def reset (p : FinalityWithNull) (finality : IPCParentFinality) : FinalityWithNull :=
  { p with cachedData := SequentialKeyCache.sequential, lastCommittedFinality := some finality }

/-- `cached_blocks`. -/
def cachedBlocks (p : FinalityWithNull) : Nat := p.cachedData.size

/-- `get_at_height`: the payload of a non-null cached block. -/
def getAtHeight (p : FinalityWithNull) (height : Nat) : Option ParentViewPayload :=
  match p.cachedData.getValue height with
  | some (some v) => some v
  | _ => none

/-- `block_hash_at_height`: the committed finality's hash at its height, else the cached one. -/
def blockHashAtHeight (p : FinalityWithNull) (height : Nat) : Option BlockHash :=
  match p.lastCommittedFinality with
  | some f => if f.height = height then some f.blockHash else (p.getAtHeight height).map (·.blockHash)
  | none => (p.getAtHeight height).map (·.blockHash)

/-- `latest_height_in_cache`. -/
def latestHeightInCache (p : FinalityWithNull) : Option Nat := p.cachedData.upperBound

/-- `latest_height`: the last cached height, else the committed one. -/
def latestHeight (p : FinalityWithNull) : Option Nat :=
  match p.latestHeightInCache with
  | some h => some h
  | none => p.lastCommittedFinality.map (·.height)

/-- Whether the cache holds a non-null block at a height. -/
def isNonNull (p : FinalityWithNull) (height : Nat) : Bool :=
  match p.cachedData.getValue height with
  | some (some _) => true
  | _ => false

/-- `first_non_null_block`: scanning down from `height` to the front of the cache, the first
height that holds a non-null block. Heights above the cache hold nothing, so the scan runs over
the cached heights up to `height`, from the top. -/
def firstNonNullBlock (p : FinalityWithNull) (height : Nat) : Option Nat :=
  match p.cachedData.lowerBound with
  | none => none
  | some lowerBound =>
    ((List.range' lowerBound p.cachedData.size).reverse.filter (· ≤ height)).find? p.isNonNull

/-- `propose_next_height`: the highest non-null height up to `max_proposal_range` above the
committed one and within the cache, delayed by `proposal_delay`; nothing when that is the
committed height itself. -/
def proposeNextHeight (p : FinalityWithNull) : Except Panic (Option Nat) :=
  match p.latestHeightInCache with
  | none => .ok none
  | some latestHeight =>
    match p.lastCommittedFinality with
    | none => .error .unreachable
    | some f =>
      let lastCommittedHeight := f.height
      -- `u64` arithmetic: both operations wrap around
      let maxProposalHeight := (lastCommittedHeight + p.config.getMaxProposalRange) % 2 ^ 64
      let candidateHeight := min maxProposalHeight latestHeight
      match p.firstNonNullBlock candidateHeight with
      | none => .ok none
      | some firstNonNullHeight =>
        let delayed := (firstNonNullHeight + 2 ^ 64 - p.config.getProposalDelay) % 2 ^ 64
        match p.firstNonNullBlock delayed with
        | none => .ok none
        | some proposalHeight =>
          if lastCommittedHeight = proposalHeight then .ok none else .ok (some proposalHeight)

/-- `next_proposal`: the proposed height with the hash cached for it. -/
def nextProposal (p : FinalityWithNull) : Except Panic (Option IPCParentFinality) := do
  match ← p.proposeNextHeight with
  | none => pure none
  | some height =>
    match p.blockHashAtHeight height with
    | none => .error .unwrapNone
    | some blockHash => pure (some ⟨height, blockHash⟩)

/-- `check_height`: above the committed height and not above the cache. -/
def checkHeight (p : FinalityWithNull) (proposal : IPCParentFinality) : Bool :=
  match p.lastCommittedFinality with
  | none => false
  | some lastCommittedFinality =>
    if lastCommittedFinality.height ≥ proposal.height then false
    else
      match p.latestHeightInCache with
      | some latestHeight => decide (latestHeight ≥ proposal.height)
      | none => false

/-- `check_block_hash`: the hash this node knows at the proposed height. -/
def checkBlockHash (p : FinalityWithNull) (proposal : IPCParentFinality) : Bool :=
  match p.blockHashAtHeight proposal.height with
  | some blockHash => blockHash == proposal.blockHash
  | none => false

/-- `check_proposal`. -/
def checkProposal (p : FinalityWithNull) (proposal : IPCParentFinality) : Bool :=
  p.checkHeight proposal && p.checkBlockHash proposal

/-- `parent_block_filled`: check that the messages and the changes are numbered in sequence, then
append the block. -/
def parentBlockFilled (p : FinalityWithNull) (height : Nat) (payload : ParentViewPayload) :
    Except Error FinalityWithNull := do
  if !payload.topDownMsgs.isEmpty then ensureSequential payload.topDownMsgs (·.nonce)
  if !payload.validatorChanges.isEmpty then
    ensureSequential payload.validatorChanges (·.configurationNumber)
  match p.cachedData.append height (some payload) with
  | .ok cache => pure { p with cachedData := cache }
  | .error e => .error (.nonSequentialParentViewInsert e)

/-- `parent_null_round`: append a null round. -/
def parentNullRound (p : FinalityWithNull) (height : Nat) : Except Error FinalityWithNull :=
  match p.cachedData.append height none with
  | .ok cache => .ok { p with cachedData := cache }
  | .error e => .error (.nonSequentialParentViewInsert e)

/-- `new_parent_view`: a block, or a null round when there is no payload. -/
def newParentView (p : FinalityWithNull) (height : Nat) (maybePayload : Option ParentViewPayload) :
    Except Error FinalityWithNull :=
  match maybePayload with
  | some payload => p.parentBlockFilled height payload
  | none => p.parentNullRound height

/-- `set_new_finality`: forget the cache below the new finality (keeping its own height, whose
messages execute one block later) and take it as committed. -/
def setNewFinality (p : FinalityWithNull) (finality : IPCParentFinality) : FinalityWithNull :=
  { p with
    cachedData := p.cachedData.removeKeyBelow finality.height,
    lastCommittedFinality := some finality }

/-- `handle_null_block`: what `f` reads off a cached block, the default for a null round, nothing
for a height out of the cache. -/
def handleNullBlock {α : Type} (p : FinalityWithNull) (height : Nat) (f : ParentViewPayload → α)
    (d : α) : Option α :=
  (p.cachedData.getValue height).map fun v => match v with
    | some payload => f payload
    | none => d

/-- `validator_changes`. -/
def validatorChanges (p : FinalityWithNull) (height : Nat) : Option (List StakingChangeRequest) :=
  p.handleNullBlock height (·.validatorChanges) []

/-- `top_down_msgs`. -/
def topDownMsgs (p : FinalityWithNull) (height : Nat) : Option (List IpcEnvelope) :=
  p.handleNullBlock height (·.topDownMsgs) []

end FinalityWithNull

end Ipc.Topdown
