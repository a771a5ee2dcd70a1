/-
**What the subnet provider cache tracks over a run of calls.**

The cache never stores the records it has seen, only a timestamp per peer and the peers of each
subnet. Over any run, it still tracks the records exactly (`Tracks`): from the records `received`
about a peer since it last became routable, the peer's timestamp is the greatest timestamp among
them, and the peer provides for exactly the subnets of the first record with that timestamp, when
that timestamp is positive. A record only strictly newer than the cache's timestamp replaces the
peer's subnets, so the record the cache follows is the first of the newest (`FirstHeaviest` of
`Ipc.Lib.Selection`); a peer made unroutable forgets its timestamp, and records start over when it
turns routable again (`receivedSince`).

This needs a run that never prunes a subnet, as with `max_subnets = usize::MAX`: every subnet ever
named fits under the bound (`Tracks.run`). Pruning by itself keeps the bound of `max_subnets`, or of
the pinned subnets left, and never drops a pinned subnet (`Ipc.Resolver.ProviderCache`).
-/

import Mathlib
import Ipc.Resolver.ProviderCache
import Ipc.Lib.Selection

namespace Ipc.Resolver

open Ipc.Lib

variable {P S : Type} [DecidableEq P] [DecidableEq S]

/-- The subnets a call names: those of the record it delivers, if any. -/
def Call.subnetsNamed : Call P S → List S
  | .addProvider record => record.subnetIds
  | _ => []

/-- The record a call delivers about a peer, if any. -/
def Call.recordsAbout (peerId : P) : Call P S → List (ProviderRecord P S)
  | .addProvider record => if record.peerId = peerId then [record] else []
  | _ => []

namespace SubnetProviderCache

/-- The records received about `peerId` along a run from `c`, since the peer last turned from
unroutable to routable: `received` collects them, and is emptied when the peer turns routable. -/
def receivedSince (peerId : P) :
    SubnetProviderCache P S → List (Call P S) → List (ProviderRecord P S) → List (ProviderRecord P S)
  | _, [], received => received
  | c, call :: calls, received =>
    receivedSince peerId (c.apply call) calls
      (if c.isRoutable peerId = false ∧ (c.apply call).isRoutable peerId = true then []
        else received ++ call.recordsAbout peerId)

/-- The cache follows the records `received` about a peer: its timestamp is their greatest
timestamp, and the peer provides for exactly the subnets of the first record of that timestamp, if
it is positive. -/
structure Tracks (c : SubnetProviderCache P S) (peerId : P) (received : List (ProviderRecord P S)) :
    Prop where
  timestamp : c.peerTimestamps.lookup peerId =
    if received = [] then none else some (topWeight ProviderRecord.timestamp received)
  providers : ∀ subnetId, peerId ∈ c.providersOfSubnet subnetId ↔
    ∃ record, FirstHeaviest ProviderRecord.timestamp received record ∧ 0 < record.timestamp ∧
      subnetId ∈ record.subnetIds

/-! ### What each call keeps -/

@[simp] theorem apply_maxSubnets (c : SubnetProviderCache P S) :
    ∀ call : Call P S, (c.apply call).maxSubnets = c.maxSubnets
  | .setRoutable _ => rfl
  | .setUnroutable _ => rfl
  | .pinSubnet _ => rfl
  | .unpinSubnet _ => rfl
  | .addProvider record => addProvider_maxSubnets c record
  | .pruneProviders cutoffTimestamp => by
    show (c.pruneProviders cutoffTimestamp).2.maxSubnets = c.maxSubnets
    rw [pruneProviders_eq]
    generalize (c.pruneProviders cutoffTimestamp).1 = peers
    induction peers generalizing c with
    | nil => rfl
    | cons peerId peers ih => exact ih (c.setUnroutable peerId)

theorem run_maxSubnets (c : SubnetProviderCache P S) (calls : List (Call P S)) :
    (c.run calls).maxSubnets = c.maxSubnets := by
  induction calls generalizing c with
  | nil => rfl
  | cons call calls ih => exact (ih (c.apply call)).trans (apply_maxSubnets c call)

/-- A subnet is tracked after a call only if it was before, or the call names it. -/
theorem mem_apply_subnetProviders {c : SubnetProviderCache P S} {subnetId : S} :
    ∀ {call : Call P S}, subnetId ∈ (c.apply call).subnetProviders →
      subnetId ∈ c.subnetProviders ∨ subnetId ∈ call.subnetsNamed
  | .setRoutable _, tracked => .inl tracked
  | .setUnroutable _, tracked => .inl (mem_setUnroutable_subnetProviders.mp tracked)
  | .pinSubnet _, tracked => .inl tracked
  | .unpinSubnet _, tracked => .inl tracked
  | .addProvider record, tracked => by
    change subnetId ∈ (c.addProvider record).2.subnetProviders at tracked
    by_cases routable : record.peerId ∈ c.routablePeers
    · by_cases newer : (c.peerTimestamps.lookup record.peerId).getD 0 < record.timestamp
      · rw [addProvider_newer routable newer] at tracked
        exact (mem_addListed_removeUnlisted.mp (mem_of_mem_pruneSubnets tracked)).symm
      · rw [addProvider_older routable (Nat.le_of_not_lt newer)] at tracked
        exact .inl tracked
    · rw [addProvider_unroutable routable] at tracked
      exact .inl tracked
  | .pruneProviders cutoffTimestamp, tracked => by
    change subnetId ∈ (c.pruneProviders cutoffTimestamp).2.subnetProviders at tracked
    rw [pruneProviders_eq] at tracked
    generalize (c.pruneProviders cutoffTimestamp).1 = peers at tracked
    induction peers generalizing c with
    | nil => exact .inl tracked
    | cons peerId peers ih =>
      rcases ih tracked with before | named
      · exact .inl (mem_setUnroutable_subnetProviders.mp before)
      · exact .inr named

/-- With room for every subnet named, a newer record is taken without pruning. -/
theorem addProvider_newer_of_room {c : SubnetProviderCache P S} {record : ProviderRecord P S}
    {names : Finset S} (routable : record.peerId ∈ c.routablePeers)
    (newer : (c.peerTimestamps.lookup record.peerId).getD 0 < record.timestamp)
    (named : ∀ subnetId, subnetId ∈ c.subnetProviders ∨ subnetId ∈ record.subnetIds → subnetId ∈ names)
    (room : names.card ≤ c.maxSubnets) :
    (c.addProvider record).2 = { c with
      peerTimestamps := c.peerTimestamps.insert record.peerId record.timestamp
      subnetProviders := (addListed record.peerId record.subnetIds
        (removeUnlisted record.peerId record.subnetIds.toFinset c.subnetProviders).1 []).1 } := by
  rw [addProvider_newer routable newer, pruneSubnets_of_le]
  -- the tracked subnets are distinct, and each is one of the names
  refine le_trans ?_ room
  rw [← List.toFinset_card_of_nodup (AList.keys_nodup _)]
  refine Finset.card_le_card fun subnetId member => named subnetId ?_
  exact (mem_addListed_removeUnlisted.mp (AList.mem_keys.mpr (List.mem_toFinset.mp member))).symm

/-! ### Following the records of one peer -/

namespace Tracks

variable {c : SubnetProviderCache P S} {peerId : P} {received : List (ProviderRecord P S)}

/-- A peer that has received nothing is tracked by having no timestamp and no subnet. -/
theorem nil (untimed : c.peerTimestamps.lookup peerId = none)
    (unlisted : ∀ subnetId, peerId ∉ c.providersOfSubnet subnetId) : Tracks c peerId [] where
  timestamp := untimed
  providers subnetId := iff_of_false (unlisted subnetId) fun ⟨_, first, _⟩ =>
    not_firstHeaviest_nil _ first

/-- The timestamp the cache compares a new record with is the greatest one received. -/
theorem lookup_getD (tracks : Tracks c peerId received) :
    (c.peerTimestamps.lookup peerId).getD 0 = topWeight ProviderRecord.timestamp received := by
  rw [tracks.timestamp]
  split
  · next empty => rw [empty, topWeight_nil]; rfl
  · rfl

/-- Only the timestamps and the providers matter. -/
theorem congr {c' : SubnetProviderCache P S} (tracks : Tracks c peerId received)
    (timestamps : c'.peerTimestamps.lookup peerId = c.peerTimestamps.lookup peerId)
    (providers : ∀ subnetId, peerId ∈ c'.providersOfSubnet subnetId ↔
      peerId ∈ c.providersOfSubnet subnetId) : Tracks c' peerId received where
  timestamp := timestamps.trans tracks.timestamp
  providers subnetId := (providers subnetId).trans (tracks.providers subnetId)

theorem setUnroutable (tracks : Tracks c peerId received) {other : P} (apart : peerId ≠ other) :
    Tracks (c.setUnroutable other) peerId received :=
  tracks.congr (AList.lookup_erase_ne apart) fun subnetId => by
    rw [providersOfSubnet_setUnroutable, Finset.mem_erase, and_iff_right apart]

theorem foldl_setUnroutable (tracks : Tracks c peerId received) {peers : List P}
    (kept : peerId ∉ peers) :
    Tracks (peers.foldl SubnetProviderCache.setUnroutable c) peerId received := by
  induction peers generalizing c with
  | nil => exact tracks
  | cons other peers ih =>
    rw [List.mem_cons, not_or] at kept
    exact ih (tracks.setUnroutable kept.1) kept.2

/-- A record about another peer leaves this one as it was, when nothing is pruned. -/
theorem addProvider_other (tracks : Tracks c peerId received) {record : ProviderRecord P S}
    (apart : peerId ≠ record.peerId) {names : Finset S}
    (named : ∀ subnetId, subnetId ∈ c.subnetProviders ∨ subnetId ∈ record.subnetIds → subnetId ∈ names)
    (room : names.card ≤ c.maxSubnets) : Tracks (c.addProvider record).2 peerId received := by
  by_cases routable : record.peerId ∈ c.routablePeers
  · by_cases newer : (c.peerTimestamps.lookup record.peerId).getD 0 < record.timestamp
    · rw [addProvider_newer_of_room routable newer named room]
      refine tracks.congr (AList.lookup_insert_ne apart) fun subnetId => ?_
      rw [providersOfSubnet_relisted]
      split
      · rw [Finset.mem_insert, or_iff_right apart]
      · rw [Finset.mem_erase, and_iff_right apart]
    · rw [addProvider_older routable (Nat.le_of_not_lt newer)]
      exact tracks.congr (AList.lookup_insert_ne apart) fun _ => Iff.rfl
  · rw [addProvider_unroutable routable]
    exact tracks

/-- **A record about the peer.** A strictly newer one becomes the record followed; an older or
equally old one changes nothing the cache shows. -/
theorem addProvider_self (tracks : Tracks c peerId received) {record : ProviderRecord P S}
    (same : record.peerId = peerId) (routable : peerId ∈ c.routablePeers) {names : Finset S}
    (named : ∀ subnetId, subnetId ∈ c.subnetProviders ∨ subnetId ∈ record.subnetIds → subnetId ∈ names)
    (room : names.card ≤ c.maxSubnets) :
    Tracks (c.addProvider record).2 peerId (received ++ [record]) := by
  subst same
  have top := tracks.lookup_getD
  have grown : received ++ [record] ≠ [] := List.append_ne_nil_of_right_ne_nil _ (List.cons_ne_nil _ _)
  by_cases newer : (c.peerTimestamps.lookup record.peerId).getD 0 < record.timestamp
  · rw [top] at newer
    rw [addProvider_newer_of_room routable (top ▸ newer) named room]
    refine ⟨?_, fun subnetId => ?_⟩
    · rw [AList.lookup_insert, if_neg grown, topWeight_append_singleton, Nat.max_eq_right newer.le]
    · rw [providersOfSubnet_relisted]
      simp only [firstHeaviest_append_of_lt newer, exists_eq_left,
        Nat.lt_of_le_of_lt (Nat.zero_le _) newer, true_and]
      split
      · next listed => exact iff_of_true (Finset.mem_insert_self _ _) listed
      · next unlisted => exact iff_of_false (Finset.notMem_erase _ _) unlisted
  · rw [top] at newer
    rw [addProvider_older routable (top ▸ Nat.le_of_not_lt newer)]
    refine ⟨?_, fun subnetId => ?_⟩
    · rw [AList.lookup_insert, if_neg grown, topWeight_append_singleton,
        Nat.max_eq_left (Nat.le_of_not_lt newer), top]
    · change record.peerId ∈ c.providersOfSubnet subnetId ↔ _
      rw [tracks.providers]
      by_cases empty : received = []
      · -- the first record has timestamp `0`: no subnet either way
        subst empty
        refine iff_of_false (fun ⟨_, first, _⟩ => not_firstHeaviest_nil _ first) ?_
        rintro ⟨other, first, positive, -⟩
        rw [first.weight, List.nil_append, ← List.nil_append [record], topWeight_append_singleton,
          topWeight_nil] at positive
        rw [topWeight_nil] at newer
        omega
      · simp only [firstHeaviest_append_of_le empty (Nat.le_of_not_lt newer)]

end Tracks

/-- **One call.** A consistent cache with room for every subnet named keeps following the records
received about a routable peer. -/
theorem Tracks.apply {c : SubnetProviderCache P S} {peerId : P} {received : List (ProviderRecord P S)}
    {names : Finset S} (consistent : Consistent c)
    (small : ∀ subnetId ∈ c.subnetProviders, subnetId ∈ names) (room : names.card ≤ c.maxSubnets)
    (tracks : peerId ∈ c.routablePeers → Tracks c peerId received) :
    ∀ call : Call P S, (∀ subnetId ∈ call.subnetsNamed, subnetId ∈ names) →
      peerId ∈ (c.apply call).routablePeers →
      Tracks (c.apply call) peerId
        (if c.isRoutable peerId = false ∧ (c.apply call).isRoutable peerId = true then []
          else received ++ call.recordsAbout peerId)
  | .setRoutable other, _, routable => by
    by_cases before : peerId ∈ c.routablePeers
    · simp only [isRoutable, before, decide_true, Bool.true_eq_false, false_and, if_false,
        Call.recordsAbout, List.append_nil]
      exact (tracks before).congr rfl fun _ => Iff.rfl
    · -- the peer turns routable now: nothing received, no timestamp, no subnet yet
      simp only [isRoutable, before, routable, decide_false, decide_true, true_and, if_true]
      refine Tracks.nil ?_ fun subnetId held => before (consistent.routable_of_provider _ _ held)
      exact AList.lookup_eq_none.mpr fun timed => before (consistent.routable_of_timestamped _ timed)
  | .setUnroutable other, _, routable => by
    obtain ⟨apart, before⟩ := Finset.mem_erase.mp routable
    simp only [isRoutable, before, decide_true, Bool.true_eq_false, false_and, if_false,
      Call.recordsAbout, List.append_nil]
    exact (tracks before).setUnroutable apart
  | .pinSubnet _, _, routable => by
    simp only [isRoutable, show peerId ∈ c.routablePeers from routable, decide_true,
      Bool.true_eq_false, false_and, if_false, Call.recordsAbout, List.append_nil]
    exact (tracks routable).congr rfl fun _ => Iff.rfl
  | .unpinSubnet _, _, routable => by
    simp only [isRoutable, show peerId ∈ c.routablePeers from routable, decide_true,
      Bool.true_eq_false, false_and, if_false, Call.recordsAbout, List.append_nil]
    exact (tracks routable).congr rfl fun _ => Iff.rfl
  | .addProvider record, named, routable => by
    have before : peerId ∈ c.routablePeers := by
      rwa [SubnetProviderCache.apply, addProvider_routablePeers] at routable
    have fits : ∀ subnetId, subnetId ∈ c.subnetProviders ∨ subnetId ∈ record.subnetIds →
        subnetId ∈ names := fun subnetId member =>
      member.elim (small subnetId) (named subnetId)
    simp only [isRoutable, before, decide_true, Bool.true_eq_false, false_and, if_false,
      Call.recordsAbout]
    split
    · next same => exact (tracks before).addProvider_self same before fits room
    · next apart =>
      rw [List.append_nil]
      exact (tracks before).addProvider_other (Ne.symm apart) fits room
  | .pruneProviders cutoffTimestamp, _, routable => by
    change peerId ∈ (c.pruneProviders cutoffTimestamp).2.routablePeers at routable
    rw [pruneProviders_eq] at routable
    obtain ⟨before, unpruned⟩ := routable_of_foldl_setUnroutable routable
    simp only [isRoutable, before, decide_true, Bool.true_eq_false, false_and, if_false,
      Call.recordsAbout, List.append_nil]
    exact (tracks before).foldl_setUnroutable unpruned

/-- **A run.** From a consistent cache with room for every subnet the run names, the cache follows,
for a peer routable at the end, the records received since it last turned routable. -/
theorem Tracks.run (peerId : P) {names : Finset S} :
    ∀ (calls : List (Call P S)) (c : SubnetProviderCache P S) (received : List (ProviderRecord P S)),
      (∀ call ∈ calls, ∀ subnetId ∈ call.subnetsNamed, subnetId ∈ names) →
      Consistent c → (∀ subnetId ∈ c.subnetProviders, subnetId ∈ names) →
      names.card ≤ c.maxSubnets → (peerId ∈ c.routablePeers → Tracks c peerId received) →
      peerId ∈ (c.run calls).routablePeers →
      Tracks (c.run calls) peerId (receivedSince peerId c calls received)
  | [], _, _, _, _, _, _, tracks, routable => tracks routable
  | call :: calls, c, received, named, consistent, small, room, tracks, routable => by
    refine Tracks.run peerId calls (c.apply call) _
      (fun call' member => named call' (List.mem_cons_of_mem _ member)) (consistent.apply call)
      (fun subnetId tracked => ?_) (by rwa [apply_maxSubnets]) ?_ routable
    · rcases mem_apply_subnetProviders tracked with before | listed
      · exact small subnetId before
      · exact named call List.mem_cons_self subnetId listed
    · exact Tracks.apply consistent small room tracks call (named call List.mem_cons_self)

/-- From `new`, over a run naming at most `max_subnets` subnets in all, each subnet's providers are
the routable peers whose first newest record received since they turned routable lists it, with a
positive timestamp. -/
theorem mem_providersOfSubnet_run (maxSubnets : Nat) (staticSubnets : List S)
    (calls : List (Call P S)) (room : (calls.flatMap Call.subnetsNamed).toFinset.card ≤ maxSubnets)
    (subnetId : S) (peerId : P) :
    peerId ∈ ((new maxSubnets staticSubnets).run calls).providersOfSubnet subnetId ↔
      peerId ∈ ((new maxSubnets staticSubnets : SubnetProviderCache P S).run calls).routablePeers ∧
        ∃ record, FirstHeaviest ProviderRecord.timestamp
            (receivedSince peerId (new maxSubnets staticSubnets) calls []) record ∧
          0 < record.timestamp ∧ subnetId ∈ record.subnetIds := by
  have consistent : Consistent ((new maxSubnets staticSubnets : SubnetProviderCache P S).run calls) :=
    (Consistent.new maxSubnets staticSubnets).run calls
  have tracks : peerId ∈ ((new maxSubnets staticSubnets : SubnetProviderCache P S).run calls).routablePeers →
      Tracks ((new maxSubnets staticSubnets).run calls) peerId
        (receivedSince peerId (new maxSubnets staticSubnets) calls []) :=
    Tracks.run peerId calls (new maxSubnets staticSubnets) []
      (fun call member subnetId named => List.mem_toFinset.mpr (List.mem_flatMap.mpr ⟨call, member, named⟩))
      (Consistent.new maxSubnets staticSubnets)
      (fun subnetId tracked => absurd tracked (AList.notMem_empty subnetId)) room
      (fun routable => absurd routable (Finset.notMem_empty peerId))
  constructor
  · intro held
    have routable := consistent.routable_of_provider subnetId peerId held
    exact ⟨routable, ((tracks routable).providers subnetId).mp held⟩
  · rintro ⟨routable, latest⟩
    exact ((tracks routable).providers subnetId).mpr latest

theorem subnetProviderCache_tracks_latest (maxSubnets : Nat) (staticSubnets : List S)
    (calls : List (Call P S)) :
    let c := (new maxSubnets staticSubnets : SubnetProviderCache P S).run calls
    (∀ subnetId peerId, peerId ∈ c.providersOfSubnet subnetId →
        c.isRoutable peerId = true ∧ c.hasTimestamp peerId = true) ∧
      (∀ record : ProviderRecord P S, c.isRoutable record.peerId = true →
        (c.peerTimestamps.lookup record.peerId).getD 0 < record.timestamp →
        (c.addProvider record).2.subnetProviders.keys.length ≤
            max maxSubnets ((c.addProvider record).2.pinnedSubnets.filter
              (· ∈ (c.addProvider record).2.subnetProviders)).card ∧
          ∀ subnetId ∈ c.pinnedSubnets, subnetId ∈ c.subnetProviders ∨ subnetId ∈ record.subnetIds →
            subnetId ∈ (c.addProvider record).2.subnetProviders) ∧
      (∀ call subnetId, subnetId ∈ c.pinnedSubnets → subnetId ∈ c.subnetProviders →
        subnetId ∈ (c.apply call).subnetProviders) ∧
      (maxSubnets = 2 ^ 64 - 1 → (calls.flatMap Call.subnetsNamed).toFinset.card < 2 ^ 64 →
        ∀ subnetId peerId, peerId ∈ c.providersOfSubnet subnetId ↔
          c.isRoutable peerId = true ∧
            ∃ record, FirstHeaviest ProviderRecord.timestamp
                (receivedSince peerId (new maxSubnets staticSubnets) calls []) record ∧
              0 < record.timestamp ∧ subnetId ∈ record.subnetIds) := by
  intro c
  have consistent : Consistent c := (Consistent.new maxSubnets staticSubnets).run calls
  have bound : c.maxSubnets = maxSubnets := run_maxSubnets _ calls
  refine ⟨fun subnetId peerId held => ⟨decide_eq_true (consistent.routable_of_provider _ _ held),
      decide_eq_true (consistent.timestamped_of_provider _ _ held)⟩,
    fun record routable newer => ?_, fun call subnetId pinned tracked => mem_apply_of_pinned pinned tracked call,
    fun usizeMax named subnetId peerId => ?_⟩
  · rw [← bound]
    exact addProvider_newer_bound (of_decide_eq_true routable) newer
  · rw [mem_providersOfSubnet_run maxSubnets staticSubnets calls (by omega), isRoutable, decide_eq_true_iff]

/-- One peer turned routable with one record: a newer record about it is taken within the bound,
and the cache follows the first. -/
theorem subnetProviderCache_tracks_latest_one_record :
    let calls : List (Call Nat Nat) := [.setRoutable 1, .addProvider ⟨1, [10], 5⟩]
    let c := (new (2 ^ 64 - 1) [] : SubnetProviderCache Nat Nat).run calls
    ((c.addProvider ⟨1, [11], 6⟩).2.subnetProviders.keys.length ≤
        max (2 ^ 64 - 1) ((c.addProvider ⟨1, [11], 6⟩).2.pinnedSubnets.filter
          (· ∈ (c.addProvider ⟨1, [11], 6⟩).2.subnetProviders)).card ∧
      ∀ subnetId ∈ c.pinnedSubnets, subnetId ∈ c.subnetProviders ∨ subnetId ∈ [11] →
        subnetId ∈ (c.addProvider ⟨1, [11], 6⟩).2.subnetProviders) ∧
    ∀ subnetId peerId, peerId ∈ c.providersOfSubnet subnetId ↔
      c.isRoutable peerId = true ∧
        ∃ record, FirstHeaviest ProviderRecord.timestamp
            (receivedSince peerId (new (2 ^ 64 - 1) []) calls []) record ∧
          0 < record.timestamp ∧ subnetId ∈ record.subnetIds := by
  obtain ⟨-, bound, -, latest⟩ := subnetProviderCache_tracks_latest (2 ^ 64 - 1) []
    [.setRoutable 1, .addProvider ⟨1, [10], 5⟩]
  exact ⟨bound ⟨1, [11], 6⟩ (by decide) (by decide), latest rfl (by decide)⟩

end SubnetProviderCache

end Ipc.Resolver
