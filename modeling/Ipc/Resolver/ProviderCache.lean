/-
**The subnet provider cache of the IPLD resolver (`ipc_ipld_resolver::provider_cache`).**

The cache tracks which peers provide data for which subnets, from the signed provider records the
peers gossip. Only routable peers (those with a known address) are tracked. A record is taken only
when it is strictly newer than the last one taken from its peer, and it replaces the peer's subnets
everywhere. The number of subnets is kept under `max_subnets` by dropping the subnets with the fewest
providers, except the pinned ones. A peer made unroutable, directly or by `prune_providers` for a
record older than a cutoff, loses its timestamp and all its subnets.

Peers and subnets are of any types with decidable equality. The hash maps are association lists
(`Ipc.Lib.Maps`), the hash sets finite sets, a timestamp its `u64` as a number; `providers_of_subnet`
returns the set its vector lists. A hash map's iteration order is one of the orders a list may have:
it decides which of the subnets with equally few providers are pruned, and nothing proved here
depends on it.

* `addProvider_newer`, `providersOfSubnet_relisted` — taking a newer record makes its peer provide
  for exactly the subnets it lists, then prunes;
* `Consistent` — every provider is routable and has a timestamp, and every peer with a timestamp is
  routable; every call keeps it (`Consistent.apply`);
* `pruneSubnets_length_le`, `addProvider_newer_bound` — after pruning, at most `max_subnets`
  subnets are left, or only pinned ones; `mem_apply_of_pinned` — no call drops a pinned subnet.
-/

import Mathlib
import Ipc.Lib.Maps

namespace Ipc.Resolver

open Ipc.Lib

/-- `ProviderRecord`: a peer, the subnets it provides data for, and the record's timestamp. -/
structure ProviderRecord (P S : Type) where
  peerId : P
  subnetIds : List S
  timestamp : Nat
  deriving DecidableEq, Repr

/-- `ProviderDelta`: whether the peer had no timestamp, the subnets it joined and those it left. -/
structure ProviderDelta (S : Type) where
  isNew : Bool
  added : List S
  removed : List S
  deriving DecidableEq, Repr

/-- `SubnetProviderCache`, for peers `P` and subnets `S`. -/
structure SubnetProviderCache (P S : Type) [DecidableEq P] [DecidableEq S] where
  maxSubnets : Nat
  pinnedSubnets : Finset S
  routablePeers : Finset P
  subnetProviders : AList (fun _ : S => Finset P)
  peerTimestamps : AList (fun _ : P => Nat)

/-- A call on the cache. -/
inductive Call (P S : Type)
  | setRoutable (peerId : P)
  | setUnroutable (peerId : P)
  | pinSubnet (subnetId : S)
  | unpinSubnet (subnetId : S)
  | addProvider (record : ProviderRecord P S)
  | pruneProviders (cutoffTimestamp : Nat)
  deriving DecidableEq, Repr

namespace SubnetProviderCache

variable {P S : Type} [DecidableEq P] [DecidableEq S]

/-- `SubnetProviderCache::new`. -/
def new (maxSubnets : Nat) (staticSubnets : List S) : SubnetProviderCache P S :=
  ⟨maxSubnets, staticSubnets.toFinset, ∅, ∅, ∅⟩

/-- `pin_subnet`. -/
def pinSubnet (c : SubnetProviderCache P S) (subnetId : S) : SubnetProviderCache P S :=
  { c with pinnedSubnets := insert subnetId c.pinnedSubnets }

/-- `unpin_subnet`. -/
def unpinSubnet (c : SubnetProviderCache P S) (subnetId : S) : SubnetProviderCache P S :=
  { c with pinnedSubnets := c.pinnedSubnets.erase subnetId }

/-- `set_routable`. -/
def setRoutable (c : SubnetProviderCache P S) (peerId : P) : SubnetProviderCache P S :=
  { c with routablePeers := insert peerId c.routablePeers }

/-- `set_unroutable`: the peer loses its timestamp and leaves every subnet. -/
def setUnroutable (c : SubnetProviderCache P S) (peerId : P) : SubnetProviderCache P S :=
  { c with
    routablePeers := c.routablePeers.erase peerId
    peerTimestamps := c.peerTimestamps.erase peerId
    subnetProviders := mapValues (fun _ providers => providers.erase peerId) c.subnetProviders }

/-- `num_routable`. -/
def numRoutable (c : SubnetProviderCache P S) : Nat := c.routablePeers.card

/-- `is_routable`. -/
def isRoutable (c : SubnetProviderCache P S) (peerId : P) : Bool := decide (peerId ∈ c.routablePeers)

/-- `has_timestamp`. -/
def hasTimestamp (c : SubnetProviderCache P S) (peerId : P) : Bool :=
  decide (peerId ∈ c.peerTimestamps)

/-- The first loop of `add_provider`: the peer leaves every subnet the record does not list; the
subnets it left are returned. -/
def removeUnlisted (peerId : P) (subnetIds : Finset S) (providers : AList (fun _ : S => Finset P)) :
    AList (fun _ : S => Finset P) × List S :=
  (mapValues (fun subnetId peerIds => if subnetId ∉ subnetIds then peerIds.erase peerId else peerIds)
      providers,
    providers.entries.filterMap fun entry =>
      if entry.1 ∉ subnetIds ∧ peerId ∈ entry.2 then some entry.1 else none)

/-- The second loop of `add_provider`: the peer joins every subnet the record lists, a subnet not
yet tracked starting with no providers; the subnets it was new to are returned. -/
def addListed (peerId : P) :
    List S → AList (fun _ : S => Finset P) → List S → AList (fun _ : S => Finset P) × List S
  | [], providers, added => (providers, added)
  | subnetId :: subnetIds, providers, added =>
    let peerIds := (providers.lookup subnetId).getD ∅
    addListed peerId subnetIds (providers.insert subnetId (insert peerId peerIds))
      (if peerId ∈ peerIds then added else added ++ [subnetId])

/-- The loop of `prune_subnets` over the subnets by number of providers: a pinned subnet is
skipped, any other removed, until `toPrune` are removed. -/
def pruneLoop (pinnedSubnets : Finset S) (toPrune : Nat) :
    List (S × Nat) → AList (fun _ : S => Finset P) → Finset S →
      AList (fun _ : S => Finset P) × Finset S
  | [], providers, removed => (providers, removed)
  | (subnetId, _) :: counts, providers, removed =>
    if subnetId ∈ pinnedSubnets then pruneLoop pinnedSubnets toPrune counts providers removed
    else
      let removed := insert subnetId removed
      if removed.card = toPrune then (providers.erase subnetId, removed)
      else pruneLoop pinnedSubnets toPrune counts (providers.erase subnetId) removed

/-- `prune_subnets`: past `max_subnets` subnets, remove as many as are too many, fewest providers
first (a stable sort), never a pinned one; the removed subnets are returned. -/
def pruneSubnets (c : SubnetProviderCache P S) : SubnetProviderCache P S × Finset S :=
  let toPrune := c.subnetProviders.keys.length - c.maxSubnets
  if toPrune > 0 then
    let counts := (c.subnetProviders.entries.map fun entry => (entry.1, entry.2.card)).mergeSort
      fun a b => decide (a.2 ≤ b.2)
    let pruned := pruneLoop c.pinnedSubnets toPrune counts c.subnetProviders ∅
    ({ c with subnetProviders := pruned.1 }, pruned.2)
  else (c, ∅)

/-- `add_provider`: nothing for an unroutable peer. Otherwise the peer's timestamp is created
(`or_default`, at `0`) and, for a strictly newer record, set to the record's; the peer then leaves
the subnets the record does not list, joins those it lists, and the subnets are pruned. -/
def addProvider (c : SubnetProviderCache P S) (record : ProviderRecord P S) :
    Option (ProviderDelta S) × SubnetProviderCache P S :=
  if !c.isRoutable record.peerId then (none, c)
  else
    let isNew := !c.hasTimestamp record.peerId
    let timestamp := (c.peerTimestamps.lookup record.peerId).getD 0
    if timestamp < record.timestamp then
      let unlisted := removeUnlisted record.peerId record.subnetIds.toFinset c.subnetProviders
      let listed := addListed record.peerId record.subnetIds unlisted.1 []
      let pruned := pruneSubnets { c with
        peerTimestamps := c.peerTimestamps.insert record.peerId record.timestamp
        subnetProviders := listed.1 }
      (some ⟨isNew, listed.2.filter fun subnetId => subnetId ∉ pruned.2, unlisted.2⟩, pruned.1)
    else
      (some ⟨isNew, [], []⟩,
        { c with peerTimestamps := c.peerTimestamps.insert record.peerId timestamp })

/-- `prune_providers`: every peer whose timestamp is below the cutoff is made unroutable; the pruned
peers are returned. -/
def pruneProviders (c : SubnetProviderCache P S) (cutoffTimestamp : Nat) :
    List P × SubnetProviderCache P S :=
  let toPrune := c.peerTimestamps.entries.filterMap fun entry =>
    if entry.2 < cutoffTimestamp then some entry.1 else none
  (toPrune, toPrune.foldl setUnroutable c)

/-- `providers_of_subnet`: the providers of a subnet, none for a subnet not tracked. -/
def providersOfSubnet (c : SubnetProviderCache P S) (subnetId : S) : Finset P :=
  (c.subnetProviders.lookup subnetId).getD ∅

/-- The cache after a call. -/
def apply (c : SubnetProviderCache P S) : Call P S → SubnetProviderCache P S
  | .setRoutable peerId => c.setRoutable peerId
  | .setUnroutable peerId => c.setUnroutable peerId
  | .pinSubnet subnetId => c.pinSubnet subnetId
  | .unpinSubnet subnetId => c.unpinSubnet subnetId
  | .addProvider record => (c.addProvider record).2
  | .pruneProviders cutoffTimestamp => (c.pruneProviders cutoffTimestamp).2

/-- The cache after a sequence of calls. -/
def run (c : SubnetProviderCache P S) (calls : List (Call P S)) : SubnetProviderCache P S :=
  calls.foldl apply c

/-! ### What each call changes -/

@[simp] theorem new_routablePeers (maxSubnets : Nat) (staticSubnets : List S) :
    (new maxSubnets staticSubnets : SubnetProviderCache P S).routablePeers = ∅ := rfl

@[simp] theorem new_peerTimestamps (maxSubnets : Nat) (staticSubnets : List S) :
    (new maxSubnets staticSubnets : SubnetProviderCache P S).peerTimestamps = ∅ := rfl

@[simp] theorem new_subnetProviders (maxSubnets : Nat) (staticSubnets : List S) :
    (new maxSubnets staticSubnets : SubnetProviderCache P S).subnetProviders = ∅ := rfl

@[simp] theorem new_maxSubnets (maxSubnets : Nat) (staticSubnets : List S) :
    (new maxSubnets staticSubnets : SubnetProviderCache P S).maxSubnets = maxSubnets := rfl

theorem providersOfSubnet_eq (c : SubnetProviderCache P S) (subnetId : S) :
    c.providersOfSubnet subnetId = (c.subnetProviders.lookup subnetId).getD ∅ := rfl

theorem mem_providersOfSubnet {c : SubnetProviderCache P S} {subnetId : S} {peerId : P} :
    peerId ∈ c.providersOfSubnet subnetId ↔
      ∃ peerIds, c.subnetProviders.lookup subnetId = some peerIds ∧ peerId ∈ peerIds := by
  rw [providersOfSubnet_eq]
  cases c.subnetProviders.lookup subnetId <;> simp

theorem providersOfSubnet_setUnroutable (c : SubnetProviderCache P S) (peerId : P) (subnetId : S) :
    (c.setUnroutable peerId).providersOfSubnet subnetId = (c.providersOfSubnet subnetId).erase peerId := by
  rw [providersOfSubnet_eq, providersOfSubnet_eq, setUnroutable, lookup_mapValues]
  cases c.subnetProviders.lookup subnetId <;> rfl

@[simp] theorem setUnroutable_routablePeers (c : SubnetProviderCache P S) (peerId : P) :
    (c.setUnroutable peerId).routablePeers = c.routablePeers.erase peerId := rfl

@[simp] theorem setUnroutable_peerTimestamps (c : SubnetProviderCache P S) (peerId : P) :
    (c.setUnroutable peerId).peerTimestamps = c.peerTimestamps.erase peerId := rfl

@[simp] theorem setUnroutable_maxSubnets (c : SubnetProviderCache P S) (peerId : P) :
    (c.setUnroutable peerId).maxSubnets = c.maxSubnets := rfl

@[simp] theorem setUnroutable_pinnedSubnets (c : SubnetProviderCache P S) (peerId : P) :
    (c.setUnroutable peerId).pinnedSubnets = c.pinnedSubnets := rfl

theorem mem_setUnroutable_subnetProviders {c : SubnetProviderCache P S} {peerId : P}
    {subnetId : S} : subnetId ∈ (c.setUnroutable peerId).subnetProviders ↔ subnetId ∈ c.subnetProviders :=
  mem_mapValues

/-- Pruning the providers makes the pruned peers unroutable, one after the other. -/
theorem pruneProviders_eq (c : SubnetProviderCache P S) (cutoffTimestamp : Nat) :
    (c.pruneProviders cutoffTimestamp).2 = (c.pruneProviders cutoffTimestamp).1.foldl setUnroutable c :=
  rfl

/-- A peer routable after a run of `set_unroutable` was routable before, and not among those made
unroutable. -/
theorem routable_of_foldl_setUnroutable {c : SubnetProviderCache P S} {peerId : P} {peers : List P}
    (routable : peerId ∈ (peers.foldl setUnroutable c).routablePeers) :
    peerId ∈ c.routablePeers ∧ peerId ∉ peers := by
  induction peers generalizing c with
  | nil => exact ⟨routable, List.not_mem_nil⟩
  | cons other peers ih =>
    obtain ⟨routable', later⟩ := ih routable
    obtain ⟨apart, before⟩ := Finset.mem_erase.mp routable'
    exact ⟨before, List.not_mem_cons_of_ne_of_not_mem apart later⟩

/-- The loops of `add_provider` on one subnet: a listed subnet gets the peer among its providers,
any other loses it. -/
theorem lookup_addListed_removeUnlisted (peerId : P) (subnetIds : List S)
    (providers : AList (fun _ : S => Finset P)) (subnetId : S) :
    (addListed peerId subnetIds (removeUnlisted peerId subnetIds.toFinset providers).1 []).1.lookup
        subnetId =
      if subnetId ∈ subnetIds then some (insert peerId ((providers.lookup subnetId).getD ∅))
      else (providers.lookup subnetId).map (·.erase peerId) := by
  suffices listed : ∀ (ids : List S) (providers' : AList (fun _ : S => Finset P)) (added : List S),
      (addListed peerId ids providers' added).1.lookup subnetId =
        if subnetId ∈ ids then some (insert peerId ((providers'.lookup subnetId).getD ∅))
        else providers'.lookup subnetId by
    rw [listed, removeUnlisted, lookup_mapValues]
    by_cases member : subnetId ∈ subnetIds <;> cases providers.lookup subnetId <;> simp [member]
  intro ids
  induction ids with
  | nil => intro providers' added; rfl
  | cons first ids ih =>
    intro providers' added
    rw [addListed, ih]
    by_cases same : subnetId = first
    · subst same
      simp only [AList.lookup_insert, Option.getD_some, Finset.insert_idem, List.mem_cons_self,
        if_true, ite_self]
    · simp only [AList.lookup_insert_ne same, List.mem_cons, same, false_or]

/-- **Taking a newer record.** The peer's timestamp becomes the record's, the peer provides exactly
the listed subnets, and the subnets are pruned. -/
theorem addProvider_newer {c : SubnetProviderCache P S} {record : ProviderRecord P S}
    (routable : record.peerId ∈ c.routablePeers)
    (newer : (c.peerTimestamps.lookup record.peerId).getD 0 < record.timestamp) :
    (c.addProvider record).2 = (pruneSubnets { c with
      peerTimestamps := c.peerTimestamps.insert record.peerId record.timestamp
      subnetProviders := (addListed record.peerId record.subnetIds
        (removeUnlisted record.peerId record.subnetIds.toFinset c.subnetProviders).1 []).1 }).1 := by
  simp only [addProvider, isRoutable, routable, decide_true, Bool.not_true, Bool.false_eq_true,
    if_false, newer, if_true]

/-- An older record, or an equally old one, only creates the peer's timestamp. -/
theorem addProvider_older {c : SubnetProviderCache P S} {record : ProviderRecord P S}
    (routable : record.peerId ∈ c.routablePeers)
    (older : record.timestamp ≤ (c.peerTimestamps.lookup record.peerId).getD 0) :
    (c.addProvider record).2 =
      { c with
        peerTimestamps := c.peerTimestamps.insert record.peerId
          ((c.peerTimestamps.lookup record.peerId).getD 0) } := by
  simp only [addProvider, isRoutable, routable, decide_true, Bool.not_true, Bool.false_eq_true,
    if_false, Nat.not_lt.mpr older]

theorem addProvider_unroutable {c : SubnetProviderCache P S} {record : ProviderRecord P S}
    (unroutable : record.peerId ∉ c.routablePeers) : c.addProvider record = (none, c) := by
  simp [addProvider, isRoutable, unroutable]

/-! ### Pruning the subnets -/

section Pruning

variable (pinnedSubnets : Finset S) (toPrune : Nat)

omit [DecidableEq P] in
/-- The loop removes only subnets that are not pinned. -/
theorem lookup_pruneLoop (counts : List (S × Nat)) (providers : AList (fun _ : S => Finset P))
    (removed : Finset S) (subnetId : S) :
    (pruneLoop pinnedSubnets toPrune counts providers removed).1.lookup subnetId =
        providers.lookup subnetId ∨
      subnetId ∉ pinnedSubnets ∧
        (pruneLoop pinnedSubnets toPrune counts providers removed).1.lookup subnetId = none := by
  induction counts generalizing providers removed with
  | nil => exact .inl rfl
  | cons count counts ih =>
    obtain ⟨first, size⟩ := count
    rw [pruneLoop]
    by_cases pinned : first ∈ pinnedSubnets
    · rw [if_pos pinned]
      exact ih providers removed
    rw [if_neg pinned]
    -- the subnet removed now is not pinned; any other keeps its entry through the erase
    have erased : (providers.erase first).lookup subnetId = providers.lookup subnetId ∨
        subnetId ∉ pinnedSubnets ∧ (providers.erase first).lookup subnetId = none := by
      by_cases same : subnetId = first
      · subst same
        exact .inr ⟨pinned, AList.lookup_erase _ _⟩
      · exact .inl (AList.lookup_erase_ne same)
    dsimp only
    split
    · exact erased
    · rcases ih (providers.erase first) (insert first removed) with kept | gone
      · rw [kept]
        exact erased
      · exact .inr gone

omit [DecidableEq P] in
/-- **The pruning loop.** Over distinct tracked subnets that cover every unpinned one, the loop
removes one subnet per count it adds to `removed`, and stops with `toPrune` removed or with only
pinned subnets left. -/
theorem pruneLoop_spec (counts : List (S × Nat)) (providers : AList (fun _ : S => Finset P))
    (removed : Finset S) (distinct : (counts.map Prod.fst).Nodup)
    (tracked : ∀ count ∈ counts, count.1 ∈ providers) (fresh : ∀ s ∈ removed, s ∉ providers)
    (covered : ∀ s ∈ providers, s ∉ pinnedSubnets → s ∈ counts.map Prod.fst)
    (short : removed.card < toPrune) :
    (pruneLoop pinnedSubnets toPrune counts providers removed).1.keys.length +
        (pruneLoop pinnedSubnets toPrune counts providers removed).2.card =
      providers.keys.length + removed.card ∧
      ((pruneLoop pinnedSubnets toPrune counts providers removed).2.card = toPrune ∨
        ∀ s ∈ (pruneLoop pinnedSubnets toPrune counts providers removed).1, s ∈ pinnedSubnets) := by
  induction counts generalizing providers removed with
  | nil =>
    refine ⟨rfl, .inr fun s member => ?_⟩
    by_contra unpinned
    exact List.not_mem_nil (covered s member unpinned)
  | cons count counts ih =>
    obtain ⟨first, size⟩ := count
    rw [List.map_cons, List.nodup_cons] at distinct
    have firstTracked : first ∈ providers := tracked _ List.mem_cons_self
    have restTracked : ∀ count ∈ counts, count.1 ∈ providers := fun count member =>
      tracked count (List.mem_cons_of_mem _ member)
    rw [pruneLoop]
    by_cases pinned : first ∈ pinnedSubnets
    · rw [if_pos pinned]
      refine ih providers removed distinct.2 restTracked fresh (fun s member unpinned => ?_) short
      have listed := covered s member unpinned
      rw [List.map_cons, List.mem_cons] at listed
      exact listed.resolve_left fun same => unpinned (same ▸ pinned)
    rw [if_neg pinned]
    have newlyRemoved : (insert first removed).card = removed.card + 1 :=
      Finset.card_insert_of_notMem fun member => fresh first member firstTracked
    have shorter : (providers.erase first).keys.length + 1 = providers.keys.length := by
      rw [AList.keys_erase, List.length_erase_of_mem (AList.mem_keys.mp firstTracked)]
      have := List.length_pos_of_mem (AList.mem_keys.mp firstTracked)
      omega
    dsimp only
    split
    · next done =>
      refine ⟨?_, .inl done⟩
      dsimp only
      omega
    · next notDone =>
      have restFresh : ∀ s ∈ insert first removed, s ∉ providers.erase first := by
        intro s member
        rw [AList.mem_erase, not_and_or, not_not]
        rcases Finset.mem_insert.mp member with same | earlier
        · exact .inl same
        · exact .inr (fresh s earlier)
      have restInside : ∀ count ∈ counts, count.1 ∈ providers.erase first := by
        intro count member
        refine AList.mem_erase.mpr ⟨fun same => distinct.1 ?_, restTracked count member⟩
        rw [← same]
        exact List.mem_map.mpr ⟨count, member, rfl⟩
      have restCovered : ∀ s ∈ providers.erase first, s ∉ pinnedSubnets → s ∈ counts.map Prod.fst := by
        intro s member unpinned
        obtain ⟨other, member⟩ := AList.mem_erase.mp member
        have listed := covered s member unpinned
        rw [List.map_cons, List.mem_cons] at listed
        exact listed.resolve_left other
      obtain ⟨total, ends⟩ := ih (providers.erase first) (insert first removed) distinct.2 restInside
        restFresh restCovered (by omega)
      exact ⟨by omega, ends⟩

end Pruning

theorem pruneSubnets_of_le {c : SubnetProviderCache P S}
    (small : c.subnetProviders.keys.length ≤ c.maxSubnets) : c.pruneSubnets = (c, ∅) := by
  rw [pruneSubnets, if_neg (by omega)]

@[simp] theorem pruneSubnets_routablePeers (c : SubnetProviderCache P S) :
    c.pruneSubnets.1.routablePeers = c.routablePeers := by
  unfold pruneSubnets
  dsimp only
  split <;> rfl

@[simp] theorem pruneSubnets_peerTimestamps (c : SubnetProviderCache P S) :
    c.pruneSubnets.1.peerTimestamps = c.peerTimestamps := by
  unfold pruneSubnets
  dsimp only
  split <;> rfl

@[simp] theorem pruneSubnets_pinnedSubnets (c : SubnetProviderCache P S) :
    c.pruneSubnets.1.pinnedSubnets = c.pinnedSubnets := by
  unfold pruneSubnets
  dsimp only
  split <;> rfl

@[simp] theorem pruneSubnets_maxSubnets (c : SubnetProviderCache P S) :
    c.pruneSubnets.1.maxSubnets = c.maxSubnets := by
  unfold pruneSubnets
  dsimp only
  split <;> rfl

/-- Pruning keeps or drops each subnet's entry, and keeps every pinned subnet's. -/
theorem lookup_pruneSubnets (c : SubnetProviderCache P S) (subnetId : S) :
    c.pruneSubnets.1.subnetProviders.lookup subnetId = c.subnetProviders.lookup subnetId ∨
      subnetId ∉ c.pinnedSubnets ∧ c.pruneSubnets.1.subnetProviders.lookup subnetId = none := by
  unfold pruneSubnets
  dsimp only
  split
  · exact lookup_pruneLoop _ _ _ _ _ subnetId
  · exact .inl rfl

theorem mem_pruneSubnets_of_pinned {c : SubnetProviderCache P S} {subnetId : S}
    (pinned : subnetId ∈ c.pinnedSubnets) (tracked : subnetId ∈ c.subnetProviders) :
    subnetId ∈ c.pruneSubnets.1.subnetProviders := by
  rcases lookup_pruneSubnets c subnetId with kept | ⟨unpinned, -⟩
  · rw [← AList.lookup_isSome, kept, AList.lookup_isSome]
    exact tracked
  · exact absurd pinned unpinned

/-- **The bound.** After pruning, at most `max_subnets` subnets are tracked, or only pinned ones. -/
theorem pruneSubnets_length_le (c : SubnetProviderCache P S) :
    c.pruneSubnets.1.subnetProviders.keys.length ≤
      max c.maxSubnets (c.pinnedSubnets.filter (· ∈ c.pruneSubnets.1.subnetProviders)).card := by
  by_cases small : c.subnetProviders.keys.length ≤ c.maxSubnets
  · rw [pruneSubnets_of_le small]
    exact small.trans (Nat.le_max_left _ _)
  -- the counts are the entries with their sizes, in another order
  have sorted : List.Perm ((c.subnetProviders.entries.map fun entry => (entry.1, entry.2.card)).mergeSort
      (fun a b => decide (a.2 ≤ b.2))) (c.subnetProviders.entries.map fun entry => (entry.1, entry.2.card)) :=
    List.mergeSort_perm _ _
  have keysOfCounts : ((c.subnetProviders.entries.map fun entry => (entry.1, entry.2.card)).map
      Prod.fst) = c.subnetProviders.keys := by
    rw [List.map_map]
    rfl
  obtain ⟨total, ends⟩ := pruneLoop_spec c.pinnedSubnets
    (c.subnetProviders.keys.length - c.maxSubnets) _ c.subnetProviders ∅
    (by rw [(sorted.map Prod.fst).nodup_iff, keysOfCounts]; exact c.subnetProviders.keys_nodup)
    (fun count member => by
      rw [AList.mem_keys, ← keysOfCounts]
      exact List.mem_map_of_mem (sorted.subset member))
    (fun s member => absurd member (Finset.notMem_empty s))
    (fun s member _ => by
      rw [(sorted.map Prod.fst).mem_iff, keysOfCounts]
      exact AList.mem_keys.mp member)
    (by rw [Finset.card_empty]; omega)
  rw [pruneSubnets, if_pos (by omega)]
  dsimp only
  rcases ends with done | pinnedOnly
  · rw [Finset.card_empty, done] at total
    omega
  · -- only pinned subnets are left: each of the distinct keys is one of them
    refine le_trans ?_ (Nat.le_max_right _ _)
    rw [← List.toFinset_card_of_nodup (AList.keys_nodup _)]
    refine Finset.card_le_card fun s member => Finset.mem_filter.mpr ⟨pinnedOnly s ?_, ?_⟩ <;>
      exact AList.mem_keys.mpr (List.mem_toFinset.mp member)

/-! ### What taking a record does to the providers -/

theorem mem_addListed_removeUnlisted {peerId : P} {subnetIds : List S}
    {providers : AList (fun _ : S => Finset P)} {subnetId : S} :
    subnetId ∈ (addListed peerId subnetIds (removeUnlisted peerId subnetIds.toFinset providers).1 []).1 ↔
      subnetId ∈ subnetIds ∨ subnetId ∈ providers := by
  rw [← AList.lookup_isSome, lookup_addListed_removeUnlisted, ← AList.lookup_isSome]
  by_cases member : subnetId ∈ subnetIds <;> simp [member]

/-- Before pruning, a newer record leaves its peer providing for exactly the subnets it lists. -/
theorem providersOfSubnet_relisted (c : SubnetProviderCache P S) (record : ProviderRecord P S)
    (timestamps : AList (fun _ : P => Nat)) (subnetId : S) :
    ({ c with
        peerTimestamps := timestamps
        subnetProviders := (addListed record.peerId record.subnetIds
          (removeUnlisted record.peerId record.subnetIds.toFinset c.subnetProviders).1 []).1 } :
        SubnetProviderCache P S).providersOfSubnet subnetId =
      if subnetId ∈ record.subnetIds then insert record.peerId (c.providersOfSubnet subnetId)
      else (c.providersOfSubnet subnetId).erase record.peerId := by
  rw [providersOfSubnet_eq, providersOfSubnet_eq, lookup_addListed_removeUnlisted]
  split
  · rfl
  · cases c.subnetProviders.lookup subnetId <;> rfl

/-- Pruning adds no subnet. -/
theorem mem_of_mem_pruneSubnets {c : SubnetProviderCache P S} {subnetId : S}
    (tracked : subnetId ∈ c.pruneSubnets.1.subnetProviders) : subnetId ∈ c.subnetProviders := by
  rw [← AList.lookup_isSome] at tracked ⊢
  rcases lookup_pruneSubnets c subnetId with kept | ⟨-, gone⟩
  · rwa [kept] at tracked
  · rw [gone] at tracked
    cases tracked

/-- Pruning adds no provider. -/
theorem mem_providersOfSubnet_of_pruneSubnets {c : SubnetProviderCache P S} {peerId : P}
    {subnetId : S} (held : peerId ∈ c.pruneSubnets.1.providersOfSubnet subnetId) :
    peerId ∈ c.providersOfSubnet subnetId := by
  rw [providersOfSubnet_eq] at held ⊢
  rcases lookup_pruneSubnets c subnetId with kept | ⟨-, gone⟩
  · rwa [kept] at held
  · rw [gone] at held
    exact absurd held (Finset.notMem_empty peerId)

/-- Only the record's peer can join a subnet. -/
theorem mem_addProvider_providersOfSubnet {c : SubnetProviderCache P S}
    {record : ProviderRecord P S} {peerId : P} {subnetId : S}
    (held : peerId ∈ (c.addProvider record).2.providersOfSubnet subnetId) :
    peerId = record.peerId ∨ peerId ∈ c.providersOfSubnet subnetId := by
  by_cases routable : record.peerId ∈ c.routablePeers
  · by_cases newer : (c.peerTimestamps.lookup record.peerId).getD 0 < record.timestamp
    · rw [addProvider_newer routable newer] at held
      have relisted := mem_providersOfSubnet_of_pruneSubnets held
      rw [providersOfSubnet_relisted] at relisted
      split at relisted
      · exact Finset.mem_insert.mp relisted
      · exact .inr (Finset.mem_of_mem_erase relisted)
    · rw [addProvider_older routable (Nat.le_of_not_lt newer)] at held
      exact .inr held
  · rw [addProvider_unroutable routable] at held
    exact .inr held

/-- A record changes only the timestamps and the providers: the routable peers, the pinned subnets
and the bound stay. -/
theorem addProvider_config (c : SubnetProviderCache P S) (record : ProviderRecord P S) :
    (c.addProvider record).2.routablePeers = c.routablePeers ∧
      (c.addProvider record).2.pinnedSubnets = c.pinnedSubnets ∧
      (c.addProvider record).2.maxSubnets = c.maxSubnets := by
  unfold addProvider
  dsimp only
  split
  · exact ⟨rfl, rfl, rfl⟩
  · split
    · exact ⟨pruneSubnets_routablePeers _, pruneSubnets_pinnedSubnets _, pruneSubnets_maxSubnets _⟩
    · exact ⟨rfl, rfl, rfl⟩

@[simp] theorem addProvider_routablePeers (c : SubnetProviderCache P S) (record : ProviderRecord P S) :
    (c.addProvider record).2.routablePeers = c.routablePeers :=
  (addProvider_config c record).1

@[simp] theorem addProvider_pinnedSubnets (c : SubnetProviderCache P S) (record : ProviderRecord P S) :
    (c.addProvider record).2.pinnedSubnets = c.pinnedSubnets :=
  (addProvider_config c record).2.1

@[simp] theorem addProvider_maxSubnets (c : SubnetProviderCache P S) (record : ProviderRecord P S) :
    (c.addProvider record).2.maxSubnets = c.maxSubnets :=
  (addProvider_config c record).2.2

/-- A routable peer's record, newer or not, inserts a timestamp for the peer and changes no other
timestamp. -/
theorem addProvider_peerTimestamps {c : SubnetProviderCache P S} {record : ProviderRecord P S}
    (routable : record.peerId ∈ c.routablePeers) :
    ∃ timestamp, (c.addProvider record).2.peerTimestamps =
      c.peerTimestamps.insert record.peerId timestamp := by
  by_cases newer : (c.peerTimestamps.lookup record.peerId).getD 0 < record.timestamp
  · rw [addProvider_newer routable newer, pruneSubnets_peerTimestamps]
    exact ⟨record.timestamp, rfl⟩
  · rw [addProvider_older routable (Nat.le_of_not_lt newer)]
    exact ⟨_, rfl⟩

/-- A timestamp is created only for the record's peer, and only while it is routable. -/
theorem mem_addProvider_peerTimestamps {c : SubnetProviderCache P S} {record : ProviderRecord P S}
    {peerId : P} (held : peerId ∈ (c.addProvider record).2.peerTimestamps) :
    peerId ∈ c.peerTimestamps ∨ peerId = record.peerId ∧ record.peerId ∈ c.routablePeers := by
  by_cases routable : record.peerId ∈ c.routablePeers
  · obtain ⟨timestamp, inserted⟩ := addProvider_peerTimestamps routable
    rw [inserted] at held
    rcases (AList.mem_insert _).mp held with same | old
    · exact .inr ⟨same, routable⟩
    · exact .inl old
  · rw [addProvider_unroutable routable] at held
    exact .inl held

theorem mem_addProvider_peerTimestamps_of_mem {c : SubnetProviderCache P S}
    {record : ProviderRecord P S} {peerId : P} (held : peerId ∈ c.peerTimestamps) :
    peerId ∈ (c.addProvider record).2.peerTimestamps := by
  by_cases routable : record.peerId ∈ c.routablePeers
  · obtain ⟨timestamp, inserted⟩ := addProvider_peerTimestamps routable
    rw [inserted]
    exact (AList.mem_insert _).mpr (.inr held)
  · rw [addProvider_unroutable routable]
    exact held

/-! ### Consistency: providers are routable peers with a timestamp -/

/-- Every provider is routable and has a timestamp, and every peer with a timestamp is routable. -/
structure Consistent (c : SubnetProviderCache P S) : Prop where
  routable_of_provider :
    ∀ subnetId peerId, peerId ∈ c.providersOfSubnet subnetId → peerId ∈ c.routablePeers
  timestamped_of_provider :
    ∀ subnetId peerId, peerId ∈ c.providersOfSubnet subnetId → peerId ∈ c.peerTimestamps
  routable_of_timestamped : ∀ peerId, peerId ∈ c.peerTimestamps → peerId ∈ c.routablePeers

namespace Consistent

theorem new (maxSubnets : Nat) (staticSubnets : List S) :
    Consistent (new maxSubnets staticSubnets : SubnetProviderCache P S) where
  routable_of_provider _ _ held := absurd held (Finset.notMem_empty _)
  timestamped_of_provider _ _ held := absurd held (Finset.notMem_empty _)
  routable_of_timestamped _ held := absurd held (AList.notMem_empty _)

variable {c : SubnetProviderCache P S}

theorem setRoutable (consistent : Consistent c) (peerId : P) : Consistent (c.setRoutable peerId) where
  routable_of_provider subnetId p held :=
    Finset.mem_insert_of_mem (consistent.routable_of_provider subnetId p held)
  timestamped_of_provider := consistent.timestamped_of_provider
  routable_of_timestamped p held := Finset.mem_insert_of_mem (consistent.routable_of_timestamped p held)

theorem setUnroutable (consistent : Consistent c) (peerId : P) :
    Consistent (c.setUnroutable peerId) where
  routable_of_provider subnetId p held := by
    rw [providersOfSubnet_setUnroutable] at held
    obtain ⟨other, held⟩ := Finset.mem_erase.mp held
    exact Finset.mem_erase.mpr ⟨other, consistent.routable_of_provider subnetId p held⟩
  timestamped_of_provider subnetId p held := by
    rw [providersOfSubnet_setUnroutable] at held
    obtain ⟨other, held⟩ := Finset.mem_erase.mp held
    exact AList.mem_erase.mpr ⟨other, consistent.timestamped_of_provider subnetId p held⟩
  routable_of_timestamped p held := by
    obtain ⟨other, held⟩ := AList.mem_erase.mp held
    exact Finset.mem_erase.mpr ⟨other, consistent.routable_of_timestamped p held⟩

theorem addProvider (consistent : Consistent c) (record : ProviderRecord P S) :
    Consistent (c.addProvider record).2 where
  routable_of_provider subnetId p held := by
    rw [addProvider_routablePeers]
    rcases mem_addProvider_providersOfSubnet held with same | old
    · by_contra unroutable
      rw [same, addProvider_unroutable (same ▸ unroutable)] at held
      exact unroutable (consistent.routable_of_provider subnetId p (same ▸ held))
    · exact consistent.routable_of_provider subnetId p old
  timestamped_of_provider subnetId p held := by
    rcases mem_addProvider_providersOfSubnet held with same | old
    · by_cases routable : record.peerId ∈ c.routablePeers
      · obtain ⟨timestamp, inserted⟩ := addProvider_peerTimestamps routable
        rw [inserted, same]
        exact (AList.mem_insert _).mpr (.inl rfl)
      · rw [addProvider_unroutable routable] at held ⊢
        exact consistent.timestamped_of_provider subnetId p held
    · exact mem_addProvider_peerTimestamps_of_mem (consistent.timestamped_of_provider subnetId p old)
  routable_of_timestamped p held := by
    rw [addProvider_routablePeers]
    rcases mem_addProvider_peerTimestamps held with old | ⟨same, routable⟩
    · exact consistent.routable_of_timestamped p old
    · exact same ▸ routable

theorem pruneProviders (consistent : Consistent c) (cutoffTimestamp : Nat) :
    Consistent (c.pruneProviders cutoffTimestamp).2 := by
  rw [pruneProviders_eq]
  generalize (c.pruneProviders cutoffTimestamp).1 = peers
  induction peers generalizing c with
  | nil => exact consistent
  | cons peerId peers ih => exact ih (consistent.setUnroutable peerId)

/-- Every call keeps the cache consistent. -/
theorem apply (consistent : Consistent c) : ∀ call : Call P S, Consistent (c.apply call)
  | .setRoutable peerId => consistent.setRoutable peerId
  | .setUnroutable peerId => consistent.setUnroutable peerId
  | .pinSubnet _ => ⟨consistent.1, consistent.2, consistent.3⟩
  | .unpinSubnet _ => ⟨consistent.1, consistent.2, consistent.3⟩
  | .addProvider record => consistent.addProvider record
  | .pruneProviders cutoffTimestamp => consistent.pruneProviders cutoffTimestamp

theorem run (consistent : Consistent c) (calls : List (Call P S)) : Consistent (c.run calls) := by
  induction calls generalizing c with
  | nil => exact consistent
  | cons call calls ih => exact ih (consistent.apply call)

end Consistent

/-! ### Pinned subnets stay -/

/-- No call drops a pinned subnet: a pinned subnet tracked before a call is tracked after it. -/
theorem mem_apply_of_pinned {c : SubnetProviderCache P S} {subnetId : S}
    (pinned : subnetId ∈ c.pinnedSubnets) (tracked : subnetId ∈ c.subnetProviders) :
    ∀ call : Call P S, subnetId ∈ (c.apply call).subnetProviders
  | .setRoutable _ => tracked
  | .setUnroutable _ => mem_setUnroutable_subnetProviders.mpr tracked
  | .pinSubnet _ => tracked
  | .unpinSubnet _ => tracked
  | .addProvider record => by
    show subnetId ∈ (c.addProvider record).2.subnetProviders
    by_cases routable : record.peerId ∈ c.routablePeers
    · by_cases newer : (c.peerTimestamps.lookup record.peerId).getD 0 < record.timestamp
      · rw [addProvider_newer routable newer]
        exact mem_pruneSubnets_of_pinned pinned (mem_addListed_removeUnlisted.mpr (.inr tracked))
      · rw [addProvider_older routable (Nat.le_of_not_lt newer)]
        exact tracked
    · rw [addProvider_unroutable routable]
      exact tracked
  | .pruneProviders cutoffTimestamp => by
    show subnetId ∈ (c.pruneProviders cutoffTimestamp).2.subnetProviders
    rw [pruneProviders_eq]
    generalize (c.pruneProviders cutoffTimestamp).1 = peers
    induction peers generalizing c with
    | nil => exact tracked
    | cons peerId peers ih =>
      exact ih (show subnetId ∈ (c.setUnroutable peerId).pinnedSubnets from pinned)
        (mem_setUnroutable_subnetProviders.mpr tracked)

/-- **Pruning after a newer record.** At most `max_subnets` subnets stay tracked, or only pinned
ones, and every pinned subnet tracked before or listed by the record stays tracked. -/
theorem addProvider_newer_bound {c : SubnetProviderCache P S} {record : ProviderRecord P S}
    (routable : record.peerId ∈ c.routablePeers)
    (newer : (c.peerTimestamps.lookup record.peerId).getD 0 < record.timestamp) :
    (c.addProvider record).2.subnetProviders.keys.length ≤
        max c.maxSubnets ((c.addProvider record).2.pinnedSubnets.filter
          (· ∈ (c.addProvider record).2.subnetProviders)).card ∧
      ∀ subnetId ∈ c.pinnedSubnets, subnetId ∈ c.subnetProviders ∨ subnetId ∈ record.subnetIds →
        subnetId ∈ (c.addProvider record).2.subnetProviders := by
  rw [addProvider_newer routable newer]
  refine ⟨?_, fun subnetId pinned named => ?_⟩
  · rw [pruneSubnets_pinnedSubnets]
    exact pruneSubnets_length_le _
  exact mem_pruneSubnets_of_pinned pinned (mem_addListed_removeUnlisted.mpr named.symm)

end SubnetProviderCache

end Ipc.Resolver
