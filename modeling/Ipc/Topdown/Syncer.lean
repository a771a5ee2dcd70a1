/-
**The parent syncer (`fendermint_vm_topdown::sync::syncer::LotusParentSyncer`).**

`sync` polls the parent's finalized blocks from the one after the latest the provider knows up to
the finalized chain head (the head less `chain_head_delay`). Each block is added in one transaction
to two structures: the provider's cache (`new_parent_view`) and the vote tally's chain
(`add_block`); if either refuses, the transaction writes nothing, and a refusal of the tally is
reported as `NotSequential` (`map_voting_err`). A block whose parent hash is not the hash the
syncer holds for the previous non-null block, or a chain head below the provider's latest height,
is a reorganisation of the parent: the syncer then resets the provider to the finality committed in
the ledger.

The reset rewinds the provider only. The tally keeps the chain it had, so after a reorganisation
that happens once blocks above the committed finality were added, the next block is one the tally
refuses: it expects the height after its old top. `sync` then fails with `NotSequential`, and fails
again on every later call for as long as no finality at or above the tally's top is committed
(`sync_fails_after_reorg`).

What does hold in every run, reorganisations included, is the other direction: each block the
provider caches is the block the tally's chain holds at that height (`Coherent`, kept by every
transaction and every call of `sync`: `coherent_of_reachable`).

The parent is seen through its proxy at one moment (`ParentView`): the chain head, and for each
height the block's hash and its parent's hash (nothing for a null round), the validator changes and
the top-down messages, each reported with the hash of the block they were read from. The ledger's
committed finality is a parameter of `sync`. Query failures of the proxy are left out.
-/

import Ipc.Topdown.Proposal
import Ipc.Topdown.VotingInvariant

namespace Ipc.Topdown

open Ipc.Lib
open Ipc.Contracts (Bytes StakingChangeRequest IpcEnvelope)

/-- `GetBlockHashResult`. -/
structure GetBlockHashResult where
  parentBlockHash : BlockHash
  blockHash : BlockHash
  deriving DecidableEq, Repr

/-- `TopDownQueryPayload`: a value read from the parent and the hash of the block it was read at.
-/
structure TopDownQueryPayload (α : Type) where
  value : α
  blockHash : BlockHash
  deriving DecidableEq, Repr

/-- What the parent's proxy answers at one moment (`ParentQueryProxy`). -/
structure ParentView where
  chainHeadHeight : Nat
  genesisEpoch : Nat
  /-- `get_block_hash`: `none` when the height is a null round. -/
  getBlockHash : Nat → Option GetBlockHashResult
  getValidatorChanges : Nat → TopDownQueryPayload (List StakingChangeRequest)
  getTopDownMsgs : Nat → TopDownQueryPayload (List IpcEnvelope)

/-- How `sync` ends without a new state: with an error, a panic, or blocked in a transaction that
retries. -/
inductive SyncError
  | failed (error : Error)
  | panicked (panic : Panic)
  | blocked
  deriving DecidableEq, Repr

/-- The state of a `LotusParentSyncer`: the provider and the tally it feeds, validators keyed by
`K`. -/
structure LotusParentSyncer (K : Type) [DecidableEq K] where
  config : Config
  provider : FinalityWithNull
  voteTally : VoteTally K BlockHash Bytes
  syncMany : Bool

/-- `map_voting_err`: every abort of the tally is reported as `NotSequential`. -/
def mapVotingErr {K V : Type} : StmError (VoteError K V) → SyncError
  | .abort _ => .failed .notSequential
  | .retry => .blocked

/-- `fetch_data`: the changes and the messages at a height, both read at the block polled. -/
def fetchData (parent : ParentView) (height : Nat) (blockHash : BlockHash) :
    Except Error ParentViewPayload :=
  let changesRes := parent.getValidatorChanges height
  let topdownMsgsRes := parent.getTopDownMsgs height
  if changesRes.blockHash ≠ blockHash then .error .parentChainReorgDetected
  else if topdownMsgsRes.blockHash ≠ blockHash then .error .parentChainReorgDetected
  else .ok ⟨blockHash, changesRes.value, topdownMsgsRes.value⟩

/-- `query_starting_finality`, given the finality committed in the ledger: at height `0` the
subnet has none yet, and starts from the parent's genesis epoch. -/
def queryStartingFinality (parent : ParentView) (committed : IPCParentFinality) :
    Except SyncError IPCParentFinality :=
  if committed.height = 0 then
    match parent.getBlockHash parent.genesisEpoch with
    | none => .error (.failed (.cannotQueryParent "get_block_hash" parent.genesisEpoch))
    | some r => .ok ⟨parent.genesisEpoch, r.blockHash⟩
  else .ok committed

namespace LotusParentSyncer

variable {K : Type} [DecidableEq K]

/-- `reset`: rewind the provider to the committed finality. -/
def reset (s : LotusParentSyncer K) (parent : ParentView) (committed : IPCParentFinality) :
    Except SyncError (LotusParentSyncer K) := do
  let finality ← queryStartingFinality parent committed
  pure { s with provider := s.provider.reset finality }

/-- The transaction of `poll_next` that adds a block, or a null round, to both structures. -/
def addParentView (s : LotusParentSyncer K) (height : Nat) (maybePayload : Option ParentViewPayload) :
    Except SyncError (LotusParentSyncer K) :=
  match s.provider.newParentView height maybePayload with
  | .error e => .error (.failed e)
  | .ok provider =>
    match s.voteTally.addBlock height (maybePayload.map (·.blockHash)) with
    | .error e => .error (mapVotingErr e)
    | .ok ((), voteTally) => .ok { s with provider := provider, voteTally := voteTally }

/-- `poll_next`: add the block at `height` if its parent is the block the syncer holds, and return
the hash of the latest non-null block. -/
def pollNext (s : LotusParentSyncer K) (parent : ParentView) (height : Nat)
    (parentBlockHash : BlockHash) : Except SyncError (BlockHash × LotusParentSyncer K) :=
  match parent.getBlockHash height with
  | none => do
    -- a null round: nothing to fetch, the previous non-null hash stays
    let s ← s.addParentView height none
    pure (parentBlockHash, s)
  | some blockHashRes =>
    if blockHashRes.parentBlockHash ≠ parentBlockHash then .error (.failed .parentChainReorgDetected)
    else
      match fetchData parent height blockHashRes.blockHash with
      | .error e => .error (.failed e)
      | .ok data => do
        let s ← s.addParentView height (some data)
        pure (data.blockHash, s)

/-- `finalized_chain_head`: the head less `chain_head_delay`, if it is that high. -/
def finalizedChainHead (s : LotusParentSyncer K) (parent : ParentView) : Option Nat :=
  if parent.chainHeadHeight < s.config.chainHeadDelay then none
  else some (parent.chainHeadHeight - s.config.chainHeadDelay)

/-- `latest_cached_data`: the provider's latest height, and the hash of the latest non-null block
at or below it, from the cache or else the committed finality. -/
def latestCachedData (s : LotusParentSyncer K) : Except Panic (Nat × BlockHash) :=
  match s.provider.latestHeight with
  | none => .error .unreachable
  | some latestHeight =>
    let prevNonNullHeight :=
      match s.provider.firstNonNullBlock latestHeight with
      | some height => some height
      | none => s.provider.lastCommittedFinality.map (·.height)
    match prevNonNullHeight with
    | none => .error .unreachable
    | some height =>
      match s.provider.blockHashAtHeight height with
      | none => .error .unreachable
      | some hash => .ok (latestHeight, hash)

/-- `exceed_cache_size_limit`. -/
def exceedCacheSizeLimit (s : LotusParentSyncer K) : Bool :=
  s.provider.cachedBlocks > s.config.getMaxCacheBlocks

/-- The loop of `sync` from the height after `latestHeightFetched` to `chainHead`; it runs at most
`fuel` rounds, and `sync` gives it as many as there are heights to fetch. -/
def syncLoop (parent : ParentView) (committed : IPCParentFinality) (chainHead : Nat) :
    Nat → Nat → BlockHash → LotusParentSyncer K → Except SyncError (LotusParentSyncer K)
  | 0, _, _, s => .ok s
  | fuel + 1, latestHeightFetched, firstNonNullParentHash, s =>
    if s.exceedCacheSizeLimit then .ok s
    else
      match s.pollNext parent (latestHeightFetched + 1) firstNonNullParentHash with
      | .error (.failed .parentChainReorgDetected) => s.reset parent committed
      | .error e => .error e
      | .ok (hash, s) =>
        if latestHeightFetched + 1 = chainHead then .ok s
        else if !s.syncMany then .ok s
        else syncLoop parent committed chainHead fuel (latestHeightFetched + 1) hash s

/-- `sync`: reset on a chain head below the provider's latest height, else fetch up to the
finalized chain head. -/
def sync (s : LotusParentSyncer K) (parent : ParentView) (committed : IPCParentFinality) :
    Except SyncError (LotusParentSyncer K) :=
  match s.finalizedChainHead parent with
  | none => .ok s
  | some chainHead =>
    match s.latestCachedData with
    | .error panic => .error (.panicked panic)
    | .ok (latestHeightFetched, firstNonNullParentHash) =>
      if latestHeightFetched > chainHead then s.reset parent committed
      else if latestHeightFetched = chainHead then .ok s
      else
        syncLoop parent committed chainHead (chainHead - latestHeightFetched) latestHeightFetched
          firstNonNullParentHash s

/-! ### The cache is a view of the tally's chain -/

/-- Every height the provider caches holds the same block in the tally's chain: the hash of a
cached block, a null round for a cached null round. -/
def Coherent (s : LotusParentSyncer K) : Prop :=
  ∀ height v, s.provider.cachedData.getValue height = some v →
    s.voteTally.chain.get? height = some (v.map (·.blockHash))

/-- A reset empties the cache, so it is coherent with any chain. -/
theorem Coherent.reset {s s' : LotusParentSyncer K} {parent : ParentView}
    {committed : IPCParentFinality} (ok : s.reset parent committed = .ok s') : Coherent s' := by
  unfold LotusParentSyncer.reset at ok
  obtain ⟨finality, -, ok⟩ := bind_eq_ok.mp ok
  cases ok
  intro height v cached
  simp [FinalityWithNull.reset] at cached

/-- The transaction that adds a block writes it at the same height in both structures. -/
theorem Coherent.addParentView {s s' : LotusParentSyncer K} {height : Nat}
    {maybePayload : Option ParentViewPayload} (coherent : Coherent s)
    (ok : s.addParentView height maybePayload = .ok s') : Coherent s' := by
  unfold LotusParentSyncer.addParentView at ok
  split at ok
  · cases ok
  · rename_i provider viewed
    split at ok
    · cases ok
    · rename_i added
      cases ok
      obtain ⟨appended, -, -⟩ := FinalityWithNull.newParentView_ok viewed
      obtain ⟨-, -, values⟩ := SequentialKeyCache.append_ok appended
      obtain ⟨_, -, -, chain⟩ := VoteTally.addBlock_ok added
      intro key v cached
      simp only [chain, OrdMap.get?_insert]
      rw [values] at cached
      split_ifs at cached ⊢ with here
      · cases cached
        rfl
      · exact coherent key v cached

theorem Coherent.pollNext {s : LotusParentSyncer K} {parent : ParentView} {height : Nat}
    {parentBlockHash hash : BlockHash} {s' : LotusParentSyncer K} (coherent : Coherent s)
    (ok : s.pollNext parent height parentBlockHash = .ok (hash, s')) : Coherent s' := by
  unfold LotusParentSyncer.pollNext at ok
  split at ok
  · -- a null round
    obtain ⟨added, viewed, ok⟩ := bind_eq_ok.mp ok
    cases ok
    exact coherent.addParentView viewed
  · split_ifs at ok with reorganised
    split at ok
    · cases ok
    · obtain ⟨added, viewed, ok⟩ := bind_eq_ok.mp ok
      cases ok
      exact coherent.addParentView viewed

/-- **Step lemma for the loop**: every round of `sync` keeps the cache a view of the chain. -/
theorem Coherent.syncLoop {parent : ParentView} {committed : IPCParentFinality} {chainHead : Nat}
    {fuel latestHeightFetched : Nat} {firstNonNullParentHash : BlockHash}
    {s s' : LotusParentSyncer K} (coherent : Coherent s)
    (ok : syncLoop parent committed chainHead fuel latestHeightFetched firstNonNullParentHash s =
      .ok s') : Coherent s' := by
  -- induction on the fuel, one polled height per round
  induction fuel generalizing latestHeightFetched firstNonNullParentHash s with
  | zero =>
    cases ok
    exact coherent
  | succ fuel ih =>
    unfold LotusParentSyncer.syncLoop at ok
    by_cases full : s.exceedCacheSizeLimit = true
    · rw [if_pos full] at ok
      cases ok
      exact coherent
    · rw [if_neg full] at ok
      split at ok
      · -- a reorganisation resets the provider
        exact Coherent.reset ok
      · cases ok
      · rename_i hash polledState polled
        have next := coherent.pollNext polled
        split_ifs at ok with reached single
        · cases ok
          exact next
        · cases ok
          exact next
        · exact ih next ok

/-- **`sync` keeps the cache a view of the chain.** -/
theorem Coherent.sync {s s' : LotusParentSyncer K} {parent : ParentView}
    {committed : IPCParentFinality} (coherent : Coherent s)
    (ok : s.sync parent committed = .ok s') : Coherent s' := by
  unfold LotusParentSyncer.sync at ok
  split at ok
  · cases ok
    exact coherent
  · split at ok
    · cases ok
    · split_ifs at ok with behind caughtUp
      · exact Coherent.reset ok
      · cases ok
        exact coherent
      · exact coherent.syncLoop ok

/-- A run of the syncer: each step syncs against the parent as it is then, with the finality the
ledger has committed then. -/
def SyncStep (s : LotusParentSyncer K) (view : ParentView × IPCParentFinality)
    (s' : LotusParentSyncer K) : Prop :=
  s.sync view.1 view.2 = .ok s'

/-- **Run lemma**: from a syncer whose cache starts empty, however the parent reorganises, every
block the provider caches, and may propose, is the block the tally holds at its height. What can
go the other way is `sync_fails_after_reorg`: the chain may hold heights the cache no longer does.
-/
theorem coherent_of_reachable {s : LotusParentSyncer K}
    (run : Reachable (fun s => s.provider.cachedData.values = []) SyncStep s) : Coherent s := by
  refine run.invariant Coherent ?_ ?_
  · intro s empty height v cached
    rw [SequentialKeyCache.getValue_eq, empty] at cached
    split_ifs at cached
    · simp at cached
  · intro s view s' coherent step
    exact coherent.sync step

end LotusParentSyncer

/-! ### A reorganisation after blocks were added -/

/-- A parent with head `height` whose blocks are given as `(height, parent hash, hash)`, each hash
one byte, with no changes and no messages; every other height is a null round. -/
def parentBlockAt (height : Nat) (chain : List (Nat × UInt8 × UInt8)) (genesisEpoch : Nat) :
    ParentView where
  chainHeadHeight := height
  genesisEpoch := genesisEpoch
  getBlockHash h := (chain.lookup h).map fun hashes => ⟨[hashes.1], [hashes.2]⟩
  getValidatorChanges h := ⟨[], ((chain.lookup h).map fun hashes => [hashes.2]).getD []⟩
  getTopDownMsgs h := ⟨[], ((chain.lookup h).map fun hashes => [hashes.2]).getD []⟩

/-- The parent first finalizes blocks `11` and `12` above the committed block `10`. -/
def parentBeforeReorg : ParentView := parentBlockAt 12 [(11, 10, 11), (12, 11, 12)] 0

/-- Then its head moves back to `11`, whose block is replaced. -/
def parentAfterReorg : ParentView := parentBlockAt 11 [(11, 10, 21)] 0

/-- The committed finality: block `10`. -/
def committedTen : IPCParentFinality := ⟨10, [10]⟩

/-- A syncer started on the committed finality, with one validator of power `1`. -/
def syncerAtTen : LotusParentSyncer Nat :=
  ⟨⟨0, none, none, none⟩, FinalityWithNull.new ⟨0, none, none, none⟩ 0 (some committedTen),
    VoteTally.new [(1, 1)] (10, [10]), true⟩

/-- The heights cached by the provider and the heights of the tally's chain. -/
def cachedAndTallied (s : LotusParentSyncer Nat) : List Nat × List Nat :=
  ((List.range' s.provider.cachedData.lowerKey s.provider.cachedData.size), s.voteTally.chain.keys)

/-- Syncing caches `11` and `12` in both structures; the reorganisation resets the provider to `10`
but leaves the tally's chain at `12`; the next sync then fails with `NotSequential`, and so does the
one after it. -/
theorem sync_fails_after_reorg :
    (syncerAtTen.sync parentBeforeReorg committedTen).map cachedAndTallied =
        .ok ([11, 12], [10, 11, 12]) ∧
      (syncerAtTen.sync parentBeforeReorg committedTen >>= fun s =>
          s.sync parentAfterReorg committedTen).map cachedAndTallied =
        .ok ([], [10, 11, 12]) ∧
      (syncerAtTen.sync parentBeforeReorg committedTen >>= fun s =>
          s.sync parentAfterReorg committedTen >>= fun s =>
          s.sync parentAfterReorg committedTen).map (fun _ => ()) =
        .error (.failed .notSequential) ∧
      (syncerAtTen.sync parentBeforeReorg committedTen >>= fun s =>
          s.sync parentAfterReorg committedTen >>= fun s =>
          s.sync parentAfterReorg committedTen >>= fun s =>
          s.sync parentAfterReorg committedTen).map (fun _ => ()) =
        .error (.failed .notSequential) := by
  decide +kernel

end Ipc.Topdown
