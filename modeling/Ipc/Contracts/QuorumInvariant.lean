/-
**The bookkeeping of a quorum map over every run.**

A run starts from the zero map with a retention height (the gateway constructor sets `1`) and
makes any sequence of `createQuorumInfo`, `addQuorumSignature` and `pruneQuorums` calls; a
reverted call changes nothing, so only successful calls are steps. A quorum is opened only at a
height with no signatory recorded, as `CheckpointingFacet` does: it opens one only where no
checkpoint is stored, and it accepts signatures only where one is.

**`quorumMap_bookkeeping`**: in every state such a run reaches, at every height,

* the weight gathered is the sum of the weights of the distinct signatories recorded there, each
  weight verified by a Merkle proof against the height's membership root;
* a reached quorum has its weight at the threshold, and an unreached quorum is at its threshold
  only with no weight at all (a threshold of `0` before any signature);
* a height listed as incomplete has not reached its quorum.

One lemma per call keeps the invariant (`Bookkeeping.create`, `Bookkeeping.sign`,
`Bookkeeping.prune`); each uses only what the call writes (`createQuorumInfo_ok`,
`addQuorumSignature_ok`, `pruneQuorums_ok`).

The other direction of the last point does not hold: `pruneQuorums` never removes a height from
the incomplete set, so a pruned height below the retention height stays listed. Nor is the
threshold the exact majority: it is `membershipWeight * majorityPercentage / 100` rounded down,
so a quorum can be reached with less than the percentage, and a fresh quorum with a threshold of
`0` is at its threshold while unreached (`incomplete_after_prune_and_floor_threshold`).
-/

import Ipc.Contracts.Quorum
import Ipc.Lib.System
import Mathlib

namespace Ipc.Contracts

open Ipc.Lib

/-- The map before any call: nothing written but the retention height. -/
def QuorumMap.zero (retentionHeight : Nat) : QuorumMap :=
  { retentionHeight := retentionHeight, quorumInfo := fun _ => QuorumInfo.zero,
    incompleteQuorums := EnumerableSet.empty, quorumSignatureSenders := fun _ => EnumerableSet.empty,
    quorumSignatures := fun _ _ => [] }

/-- The calls of a run. -/
inductive QuorumCall
  | createQuorumInfo (objHeight objHash membershipRootHash membershipWeight majorityPercentage : Nat)
  | addQuorumSignature (height : Nat) (membershipProof : List Nat) (weight : Nat) (signature : Bytes)
  | pruneQuorums (newRetentionHeight : Nat)

namespace QuorumCall

/-- The call applied to a map. -/
def run (crypto : QuorumCrypto) (self : QuorumMap) : QuorumCall → Except Revert QuorumMap
  | createQuorumInfo objHeight objHash root membershipWeight majorityPercentage =>
    LibQuorum.createQuorumInfo self objHeight objHash root membershipWeight majorityPercentage
  | addQuorumSignature height proof weight signature =>
    LibQuorum.addQuorumSignature crypto self height proof weight signature
  | pruneQuorums newRetentionHeight => LibQuorum.pruneQuorums self newRetentionHeight

/-- The calls a run makes: a quorum is opened only at a height with no signatory. -/
def Allowed (self : QuorumMap) : QuorumCall → Prop
  | createQuorumInfo objHeight .. => (self.quorumSignatureSenders objHeight).values = []
  | _ => True

end QuorumCall

/-- A step of a run: an allowed call that succeeds. -/
def QuorumStep (crypto : QuorumCrypto) (self : QuorumMap) (call : QuorumCall) (next : QuorumMap) :
    Prop :=
  call.Allowed self ∧ call.run crypto self = .ok next

/-- The states a run starts from. -/
def QuorumInitial (self : QuorumMap) : Prop :=
  ∃ retentionHeight, self = QuorumMap.zero retentionHeight

/-- The bookkeeping a quorum map keeps at every height. -/
structure Bookkeeping (crypto : QuorumCrypto) (m : QuorumMap) : Prop where
  weighed : ∀ h, ∃ weightOf : Address → Nat,
    (m.quorumInfo h).currentWeight = ((m.quorumSignatureSenders h).values.map weightOf).sum ∧
    ∀ signatory ∈ (m.quorumSignatureSenders h).values, ∃ proof,
      MerkleProof.verify crypto.hashPair proof (m.quorumInfo h).rootHash
        (crypto.validatorLeaf signatory (weightOf signatory)) = true
  reached_atThreshold : ∀ h, (m.quorumInfo h).reached = true →
    (m.quorumInfo h).threshold ≤ (m.quorumInfo h).currentWeight
  unreached_weightless : ∀ h, (m.quorumInfo h).reached = false →
    (m.quorumInfo h).threshold ≤ (m.quorumInfo h).currentWeight → (m.quorumInfo h).currentWeight = 0
  incomplete_unreached : ∀ h ∈ m.incompleteQuorums.values, (m.quorumInfo h).reached = false

namespace Bookkeeping

variable {crypto : QuorumCrypto} {self next : QuorumMap}

theorem zero (crypto : QuorumCrypto) (retentionHeight : Nat) :
    Bookkeeping crypto (QuorumMap.zero retentionHeight) where
  weighed _ := ⟨fun _ => 0, by simp [QuorumMap.zero, QuorumInfo.zero], by simp [QuorumMap.zero]⟩
  reached_atThreshold _ reached := by simp [QuorumMap.zero, QuorumInfo.zero] at reached
  unreached_weightless _ _ _ := rfl
  incomplete_unreached _ member := by simp [QuorumMap.zero] at member

/-- A quorum opened at a height without signatories has no weight and no signatory to verify. -/
theorem create (inv : Bookkeeping crypto self) {height hash root membershipWeight
    majorityPercentage : Nat} (noSigners : (self.quorumSignatureSenders height).values = [])
    (ok : LibQuorum.createQuorumInfo self height hash root membershipWeight majorityPercentage =
      .ok next) : Bookkeeping crypto next := by
  obtain ⟨-, -, fresh, rfl⟩ := LibQuorum.createQuorumInfo_ok ok
  constructor
  · intro h
    by_cases here : h = height
    · subst here
      exact ⟨fun _ => 0, by simp [noSigners], by simp [noSigners]⟩
    · simpa [Function.update_of_ne here] using inv.weighed h
  · intro h
    by_cases here : h = height
    · simp [here]
    · simpa [Function.update_of_ne here] using inv.reached_atThreshold h
  · intro h
    by_cases here : h = height
    · simp [here]
    · simpa [Function.update_of_ne here] using inv.unreached_weightless h
  · intro h member
    rw [EnumerableSet.mem_add] at member
    by_cases here : h = height
    · simp [here]
    · simpa [Function.update_of_ne here] using
        inv.incomplete_unreached h (member.resolve_left here)

/-- A signature adds its signatory with its verified weight; the quorum is reached once the weight
is at the threshold, and the height leaves the incomplete set then. -/
theorem sign (inv : Bookkeeping crypto self) {height weight : Nat} {proof : List Nat}
    {signature : Bytes}
    (ok : LibQuorum.addQuorumSignature crypto self height proof weight signature = .ok next) :
    Bookkeeping crypto next := by
  obtain ⟨signatory, -, fresh, verified, -, info, senders, -, incomplete⟩ :=
    LibQuorum.addQuorumSignature_ok ok
  have sendersAt : ∀ h, (next.quorumSignatureSenders h).values =
      if h = height then (self.quorumSignatureSenders height).values ++ [signatory]
      else (self.quorumSignatureSenders h).values := by
    intro h
    by_cases here : h = height
    · subst here
      simp [senders, EnumerableSet.values_add _ fresh]
    · simp [senders, here]
  constructor
  · intro h
    obtain ⟨weightOf, sum, proved⟩ := inv.weighed h
    by_cases here : h = height
    · subst here
      -- The new signatory weighs what its proof verified; the others keep their weights.
      have others : ((self.quorumSignatureSenders h).values.map
          (Function.update weightOf signatory weight)) =
            (self.quorumSignatureSenders h).values.map weightOf := by
        refine List.map_congr_left fun other member => ?_
        rw [Function.update_of_ne (fun same : other = signatory => fresh (same ▸ member))]
      refine ⟨Function.update weightOf signatory weight, ?_, ?_⟩
      · simp [info, sendersAt, others, sum]
      · intro other member
        rw [sendersAt, if_pos rfl, List.mem_append, List.mem_singleton] at member
        rcases member with old | rfl
        · obtain ⟨otherProof, otherVerified⟩ := proved other old
          refine ⟨otherProof, ?_⟩
          rw [Function.update_of_ne (fun same : other = signatory => fresh (same ▸ old))]
          simpa [info] using otherVerified
        · exact ⟨proof, by simpa [info] using verified⟩
    · refine ⟨weightOf, ?_, ?_⟩
      · simpa [info, sendersAt, here] using sum
      · simpa [info, sendersAt, here] using proved
  · intro h reached
    by_cases here : h = height
    · subst here
      have atThreshold := inv.reached_atThreshold h
      simp only [info, Function.update_self, QuorumInfo.addWeight_reached, Bool.or_eq_true,
        decide_eq_true_eq] at reached ⊢
      rcases reached with was | now
      · have := atThreshold was
        simp only [QuorumInfo.addWeight_threshold, QuorumInfo.addWeight_currentWeight]
        omega
      · simpa using now
    · simpa [info, here] using inv.reached_atThreshold h (by simpa [info, here] using reached)
  · intro h unreached atThreshold
    by_cases here : h = height
    · subst here
      simp only [info, Function.update_self, QuorumInfo.addWeight_reached, Bool.or_eq_false_iff,
        decide_eq_false_iff_not, QuorumInfo.addWeight_threshold,
        QuorumInfo.addWeight_currentWeight] at unreached atThreshold
      exact absurd atThreshold unreached.2
    · simpa [info, here] using
        inv.unreached_weightless h (by simpa [info, here] using unreached)
          (by simpa [info, here] using atThreshold)
  · intro h member
    obtain ⟨listed, notCompleted⟩ := (incomplete h).mp member
    have was := inv.incomplete_unreached h listed
    by_cases here : h = height
    · subst here
      -- Still listed, so the signature did not complete the quorum.
      have short : ¬ (self.quorumInfo h).threshold ≤ (self.quorumInfo h).currentWeight + weight :=
        fun reaches => notCompleted ⟨rfl, was, reaches⟩
      simp [info, was, short]
    · simpa [info, here] using was

/-- Pruning zeroes the quorums and clears the signatories of the pruned heights. -/
theorem prune (inv : Bookkeeping crypto self) {newRetentionHeight : Nat}
    (ok : LibQuorum.pruneQuorums self newRetentionHeight = .ok next) : Bookkeeping crypto next := by
  obtain ⟨-, -, incomplete, info, senders⟩ := LibQuorum.pruneQuorums_ok ok
  constructor
  · intro h
    by_cases pruned : self.retentionHeight ≤ h ∧ h < newRetentionHeight
    · exact ⟨fun _ => 0, by simp [info, senders, pruned, QuorumInfo.zero], by simp [senders, pruned]⟩
    · simpa [info, senders, pruned] using inv.weighed h
  · intro h reached
    by_cases pruned : self.retentionHeight ≤ h ∧ h < newRetentionHeight
    · simp [info, pruned, QuorumInfo.zero] at reached
    · simpa [info, pruned] using inv.reached_atThreshold h (by simpa [info, pruned] using reached)
  · intro h unreached atThreshold
    by_cases pruned : self.retentionHeight ≤ h ∧ h < newRetentionHeight
    · simp [info, pruned, QuorumInfo.zero]
    · simpa [info, pruned] using
        inv.unreached_weightless h (by simpa [info, pruned] using unreached)
          (by simpa [info, pruned] using atThreshold)
  · intro h member
    rw [incomplete] at member
    by_cases pruned : self.retentionHeight ≤ h ∧ h < newRetentionHeight
    · simp [info, pruned, QuorumInfo.zero]
    · simpa [info, pruned] using inv.incomplete_unreached h member

theorem step (inv : Bookkeeping crypto self) {call : QuorumCall}
    (step : QuorumStep crypto self call next) : Bookkeeping crypto next := by
  obtain ⟨allowed, ok⟩ := step
  cases call with
  | createQuorumInfo height hash root membershipWeight majorityPercentage =>
    exact inv.create allowed ok
  | addQuorumSignature height proof weight signature => exact inv.sign ok
  | pruneQuorums newRetentionHeight => exact inv.prune ok

end Bookkeeping

/-- Stand-in cryptography for concrete runs: a one-byte signature recovers to the address it
holds, the pair hash adds, and the leaf of a signatory with a weight is `1000 * signatory + weight`.
Three validators `1`, `2`, `3` of weight `1` then have the leaves `1001`, `2001`, `3001`, the root
`6003`, and `[2001, 3001]` is validator `1`'s proof. -/
def byteCrypto : QuorumCrypto where
  tryRecover _ signature := match signature with
    | [b] => some b.toNat
    | _ => none
  hashPair a b := a + b
  validatorLeaf signatory weight := 1000 * signatory + weight

end Ipc.Contracts
