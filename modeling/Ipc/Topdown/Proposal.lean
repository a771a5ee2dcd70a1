/-
**A node's own proposal against its own check.**

The provider's states are those reached from `new` by the syncer appending parent blocks — into an
empty cache at the height after the latest one it knows, as `latest_cached_data` makes it do — by
the interpreter committing finalities, and by resets (`ProviderStep`). In each of them the cache
holds only heights at or above the committed one, below `2^64` (`CacheAbove`, kept by every step:
`CacheAbove.step`).

From such a state a proposal is checked by the same node (`nextProposal_checked`): its height is
above the committed one and within both the cache and the proposal range, the cache holds a block
there with the proposed hash, and `checkProposal` accepts it — as long as the two `u64` operations
of `proposeNextHeight` do not wrap, which holds once the committed height is at least the proposal
delay and the range ends below `2^64`.

Near the parent's genesis the delay subtraction does wrap: with the committed finality at height
`0`, the first non-null height `1` minus the default delay `2` wraps to `2^64 - 1`, and the delayed
scan then returns the highest cached block, past the proposal range
(`nextProposal_wraps_below_delay`).
-/

import Ipc.Topdown.Finality
import Ipc.Lib.System

namespace Ipc.Topdown

open Ipc.Lib

namespace FinalityWithNull

/-! ### Scans and lookups -/

theorem isNonNull_iff {p : FinalityWithNull} {height : Nat} :
    p.isNonNull height = true ↔ ∃ payload, p.cachedData.getValue height = some (some payload) := by
  unfold isNonNull
  split <;> simp_all

/-- What `first_non_null_block` finds is a non-null height at most the scan's start. -/
theorem firstNonNullBlock_eq_some {p : FinalityWithNull} {height found : Nat}
    (scan : p.firstNonNullBlock height = some found) : p.isNonNull found = true ∧ found ≤ height := by
  unfold firstNonNullBlock at scan
  split at scan
  · exact nomatch scan
  · have found_mem := List.mem_of_find?_eq_some scan
    rw [List.mem_filter] at found_mem
    exact ⟨List.find?_some scan, of_decide_eq_true found_mem.2⟩

theorem getAtHeight_eq_some {p : FinalityWithNull} {height : Nat} {payload : ParentViewPayload} :
    p.getAtHeight height = some payload ↔ p.cachedData.getValue height = some (some payload) := by
  unfold getAtHeight
  split <;> simp_all

/-- Away from the committed height, the hash at a height is the hash of the block cached there. -/
theorem blockHashAtHeight_of_ne {p : FinalityWithNull} {f : IPCParentFinality} {height : Nat}
    (committed : p.lastCommittedFinality = some f) (above : f.height ≠ height) :
    p.blockHashAtHeight height = (p.getAtHeight height).map (·.blockHash) := by
  rw [blockHashAtHeight, committed]
  exact if_neg above

/-! ### Reachable states -/

/-- The operations run on the provider: the syncer appends a parent block or null round at a
`u64` height, into an empty cache only right after the latest height known; the interpreter commits
a finality; the syncer resets on a reorganisation. -/
inductive ProviderAction
  | newParentView (height : Nat) (maybePayload : Option ParentViewPayload)
  | setNewFinality (finality : IPCParentFinality)
  | reset (finality : IPCParentFinality)

/-- One step of the provider. -/
def ProviderStep (p : FinalityWithNull) : ProviderAction → FinalityWithNull → Prop
  | .newParentView height maybePayload, p' =>
    height < 2 ^ 64 ∧ (p.cachedData.values = [] → p.latestHeight = some (height - 1) ∧ 0 < height) ∧
      p.newParentView height maybePayload = .ok p'
  | .setNewFinality finality, p' => p' = p.setNewFinality finality
  | .reset finality, p' => p' = p.reset finality

/-- The cache holds only heights from the committed one on, and below `2^64`. -/
def CacheAbove (p : FinalityWithNull) : Prop :=
  ∃ f, p.lastCommittedFinality = some f ∧
    ∀ height, (p.cachedData.getValue height).isSome → f.height ≤ height ∧ height < 2 ^ 64

theorem newParentView_ok {p p' : FinalityWithNull} {height : Nat}
    {maybePayload : Option ParentViewPayload} (ok : p.newParentView height maybePayload = .ok p') :
    p.cachedData.append height maybePayload = .ok p'.cachedData ∧
      p'.lastCommittedFinality = p.lastCommittedFinality ∧ p'.config = p.config := by
  cases maybePayload with
  | none =>
    simp only [newParentView, parentNullRound] at ok
    split at ok
    case h_1 cache appended =>
      rw [← Except.ok.inj ok]
      exact ⟨appended, rfl, rfl⟩
    case h_2 => exact nomatch ok
  | some payload =>
    -- the sequence checks that ran passed; what is left is the append
    simp only [newParentView, parentBlockFilled] at ok
    split_ifs at ok <;> repeat obtain ⟨⟨⟩, -, ok⟩ := bind_eq_ok.mp ok
    all_goals
      split at ok
      case h_1 cache appended =>
        rw [← Except.ok.inj ok]
        exact ⟨appended, rfl, rfl⟩
      case h_2 => exact nomatch ok

/-- **Step lemma**: every operation keeps the cache at and above the committed height. -/
theorem CacheAbove.step {p p' : FinalityWithNull} {action : ProviderAction} (above : CacheAbove p)
    (step : ProviderStep p action p') : CacheAbove p' := by
  obtain ⟨f, committed, cached⟩ := above
  cases action with
  | newParentView height maybePayload =>
    obtain ⟨small, continues, ok⟩ := step
    obtain ⟨appended, sameCommitted, -⟩ := newParentView_ok ok
    obtain ⟨next, -, values⟩ := SequentialKeyCache.append_ok appended
    refine ⟨f, sameCommitted.trans committed, fun key present => ?_⟩
    rw [values] at present
    split_ifs at present with here
    · -- the appended height is above every cached one, or follows the committed one
      subst here
      cases bound : p.cachedData.upperBound with
      | some upper =>
        have last := (SequentialKeyCache.upperBound_eq_some.mp bound)
        have inCache : (p.cachedData.getValue upper).isSome := by
          rw [SequentialKeyCache.getValue_isSome_iff]
          have := List.length_pos_iff.mpr last.1
          omega
        have := (cached upper inCache).1
        exact ⟨by rw [next upper bound]; omega, small⟩
      | none =>
        obtain ⟨latest, positive⟩ := continues (SequentialKeyCache.upperBound_eq_none.mp bound)
        have follows : f.height = key - 1 := by
          simpa [latestHeight, latestHeightInCache, bound, committed] using latest
        exact ⟨by omega, small⟩
    · exact cached key present
  | setNewFinality finality =>
    rw [step]
    refine ⟨finality, rfl, fun key present => ?_⟩
    simp only [setNewFinality, SequentialKeyCache.getValue_removeKeyBelow] at present
    split_ifs at present with kept
    · exact ⟨kept, (cached key present).2⟩
    · exact nomatch present
  | reset finality =>
    rw [step]
    exact ⟨finality, rfl, fun key present => by simp [reset] at present⟩

/-- **Run lemma**: in every state reachable from a provider started on a committed finality, the
cache lies at and above the committed height. -/
theorem cacheAbove_of_reachable {config : Config} {genesisEpoch : Nat} {committed : IPCParentFinality}
    {p : FinalityWithNull}
    (reachable : Reachable (· = new config genesisEpoch (some committed)) ProviderStep p) :
    CacheAbove p :=
  reachable.invariant CacheAbove
    (fun _ (start : _ = new config genesisEpoch (some committed)) => by
      subst start
      exact ⟨committed, rfl, fun _ present => by simp [new] at present⟩)
    (fun _ _ _ above step => above.step step)

/-! ### The proposal passes the check -/

/-- What a proposed height is made of: the committed finality, the last cached height, and the two
scans of `proposeNextHeight`. -/
theorem proposeNextHeight_eq_some {p : FinalityWithNull} {height : Nat}
    (proposed : p.proposeNextHeight = .ok (some height)) :
    ∃ f latest first, p.lastCommittedFinality = some f ∧ p.latestHeightInCache = some latest ∧
      p.firstNonNullBlock (min ((f.height + p.config.getMaxProposalRange) % 2 ^ 64) latest) =
        some first ∧
      p.firstNonNullBlock ((first + 2 ^ 64 - p.config.getProposalDelay) % 2 ^ 64) = some height ∧
      f.height ≠ height := by
  unfold proposeNextHeight at proposed
  split at proposed
  · exact nomatch proposed
  case h_2 latest inCache =>
    split at proposed
    · exact nomatch proposed
    case h_2 f committed =>
      dsimp only at proposed
      split at proposed
      · exact nomatch proposed
      case h_2 first firstScan =>
        split at proposed
        · exact nomatch proposed
        case h_2 found delayedScan =>
          split_ifs at proposed with same
          · exact nomatch proposed
          obtain rfl : found = height := Option.some.inj (Except.ok.inj proposed)
          exact ⟨f, latest, first, committed, inCache, firstScan, delayedScan, same⟩

/-- A node's own proposal, from a reachable state where neither `u64` operation of
`proposeNextHeight` wraps: above the committed height, within the cache and the proposal range,
cached with its hash, and accepted by `checkProposal`. -/
theorem nextProposal_checked {config : Config} {genesisEpoch : Nat} {committed : IPCParentFinality}
    {p : FinalityWithNull}
    (reachable : Reachable (· = new config genesisEpoch (some committed)) ProviderStep p)
    {f : IPCParentFinality} (lastCommitted : p.lastCommittedFinality = some f)
    (delay_le : p.config.getProposalDelay ≤ f.height)
    (range_lt : f.height + p.config.getMaxProposalRange < 2 ^ 64)
    {proposal : IPCParentFinality} (proposed : p.nextProposal = .ok (some proposal)) :
    ∃ latest payload, p.latestHeightInCache = some latest ∧
      f.height < proposal.height ∧
      proposal.height ≤ min latest (f.height + p.config.getMaxProposalRange) ∧
      p.cachedData.getValue proposal.height = some (some payload) ∧
      payload.blockHash = proposal.blockHash ∧
      p.checkProposal proposal = true := by
  obtain ⟨f', committedNow, cached⟩ := cacheAbove_of_reachable reachable
  obtain rfl : f = f' := Option.some.inj (lastCommitted.symm.trans committedNow)
  -- peel `next_proposal` into the proposed height and its hash
  unfold nextProposal at proposed
  obtain ⟨heightResult, heightOk, proposed⟩ := bind_eq_ok.mp proposed
  cases heightResult with
  | none => exact nomatch proposed
  | some height =>
  dsimp only at proposed
  cases hash : p.blockHashAtHeight height with
  | none => rw [hash] at proposed; exact nomatch proposed
  | some blockHash =>
  rw [hash] at proposed
  obtain rfl : (⟨height, blockHash⟩ : IPCParentFinality) = proposal :=
    Option.some.inj (Except.ok.inj proposed)
  obtain ⟨f', latest, first, committed', inCache, firstScan, delayedScan, notCommitted⟩ :=
    proposeNextHeight_eq_some heightOk
  obtain rfl : f = f' := Option.some.inj (lastCommitted.symm.trans committed')
  -- both scans land on cached blocks, at or above the committed height
  obtain ⟨firstNonNull, firstBelow⟩ := firstNonNullBlock_eq_some firstScan
  obtain ⟨heightNonNull, heightBelow⟩ := firstNonNullBlock_eq_some delayedScan
  obtain ⟨firstPayload, firstCached⟩ := isNonNull_iff.mp firstNonNull
  obtain ⟨payload, heightCached⟩ := isNonNull_iff.mp heightNonNull
  have firstAbove := cached first (by rw [firstCached]; rfl)
  have heightAbove := cached height (by rw [heightCached]; rfl)
  -- without wrapping, the two sums are plain
  have rangeEnd : (f.height + p.config.getMaxProposalRange) % 2 ^ 64 =
      f.height + p.config.getMaxProposalRange := Nat.mod_eq_of_lt range_lt
  have delayed : (first + 2 ^ 64 - p.config.getProposalDelay) % 2 ^ 64 =
      first - p.config.getProposalDelay := by
    omega
  rw [rangeEnd] at firstBelow
  rw [delayed] at heightBelow
  have firstInRange : first ≤ f.height + p.config.getMaxProposalRange :=
    Nat.le_trans firstBelow (Nat.min_le_left _ _)
  have firstInCache : first ≤ latest := Nat.le_trans firstBelow (Nat.min_le_right _ _)
  have hashCached : p.blockHashAtHeight height = some payload.blockHash := by
    rw [blockHashAtHeight_of_ne lastCommitted notCommitted, getAtHeight_eq_some.mpr heightCached]
    rfl
  have sameHash : payload.blockHash = blockHash := Option.some.inj (hashCached.symm.trans hash)
  refine ⟨latest, payload, inCache, show f.height < height by omega,
    show height ≤ _ from Nat.le_min.mpr ⟨by omega, by omega⟩, heightCached, sameHash, ?_⟩
  -- the check reads the same committed height, cache bound and hash
  have heightChecked : p.checkHeight ⟨height, blockHash⟩ = true := by
    simp only [checkHeight, lastCommitted, inCache]
    rw [if_neg (by omega)]
    exact decide_eq_true (by omega)
  have hashChecked : p.checkBlockHash ⟨height, blockHash⟩ = true := by
    simp [checkBlockHash, hash]
  simp [checkProposal, heightChecked, hashChecked]

/-! ### Near the parent's genesis -/

/-- A provider with proposal range `1` and the default delay `2`, started on the finality at height
`0`, after the syncer appended non-null blocks at heights `1`, `2` and `3`. -/
def providerNearGenesis : Except Error FinalityWithNull := do
  let p := new ⟨0, some 1, none, none⟩ 0 (some ⟨0, [0]⟩)
  let p ← p.newParentView 1 (some ⟨[1], [], []⟩)
  let p ← p.newParentView 2 (some ⟨[2], [], []⟩)
  p.newParentView 3 (some ⟨[3], [], []⟩)

/-- The first non-null height below the candidate is `1`, less than the delay `2`: the
subtraction wraps, and the node proposes height `3`, beyond the committed height plus the range
`1`, which its own check then accepts. -/
theorem nextProposal_wraps_below_delay :
    providerNearGenesis.map (fun p =>
        (p.firstNonNullBlock 1, p.config.getProposalDelay, p.nextProposal,
          p.checkProposal ⟨3, [3]⟩)) =
      .ok (some 1, 2, .ok (some ⟨3, [3]⟩), true) := by
  decide +kernel

end FinalityWithNull

end Ipc.Topdown
