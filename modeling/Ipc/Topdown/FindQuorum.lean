/-
**What `find_quorum` finds.**

The declarative reading of the walk of `VoteTally::find_quorum`. For a height `h`, `support h` is
the current weight (`0` for a validator that left the power table) of the validators that voted
for a block of the chain at `h` or above; a height is *quorate* when it lies above the finalized
height, at or below the latest one, and its support reaches `quorum_threshold`.

* `findQuorumFrom_walkResult` — the walk down a list of entries in decreasing height order, with
  the voters seen so far below the threshold, stops at the highest entry whose support, counting
  those voters, reaches the threshold, and finds nothing when there is none. Each kind of step has
  its own lemma: the walk passes a block (`WalkResult.cons_continue`), returns one
  (`walkResult_cons_found`), or stops at the finalized height (`walkResult_cons_finalized`); the
  weight it adds up is the weight of the voters it has seen (`countVoters_fst`).
* `findQuorum_spec` — in every state of the tally, `find_quorum` returns the greatest quorate
  height with the block stored there, and nothing exactly when no height is quorate; the block it
  returns lies above the finalized height and its supporters hold more than two thirds of the
  total weight. No invariant of the tally is needed: the chain's heights are ordered by the map
  that stores them.
-/

import Ipc.Topdown.Voting
import Mathlib

namespace Ipc.Topdown

open Ipc.Lib

namespace VoteTally

variable {K V O : Type} [DecidableEq K] [DecidableEq V] [DecidableEq O]

/-! ### Support -/

/-- The validators recorded as voting for the block of a chain entry; none for a null round. -/
def entryVoters (t : VoteTally K V O) : Nat × Option V → Finset K
  | (_, none) => ∅
  | (height, some hash) => t.votersOf height hash

/-- The current weight of a set of validators, `0` for one that left the power table. -/
def weightOf (t : VoteTally K V O) (keys : Finset K) : Nat :=
  ∑ key ∈ keys, (t.powerTable.lookup key).getD 0

/-- The validators that voted for the block of one of the entries at or above a height. -/
def votersFrom (t : VoteTally K V O) (entries : List (Nat × Option V)) (height : Nat) : Finset K :=
  (entries.filter fun entry => decide (height ≤ entry.1)).toFinset.biUnion t.entryVoters

/-- The support of a height: the weight of the validators that voted for a block of the chain at
that height or above. -/
def support (t : VoteTally K V O) (height : Nat) : Nat :=
  t.weightOf (t.votersFrom t.chain.entries height)

/-- A height `find_quorum` may return: above the finalized height, at or below the latest one,
with support at the threshold. -/
def Quorate (t : VoteTally K V O) (height : Nat) : Prop :=
  t.lastFinalizedHeight < height ∧ height ≤ t.latestHeight ∧ t.quorumThreshold ≤ t.support height

instance (t : VoteTally K V O) : DecidablePred t.Quorate :=
  fun _ => inferInstanceAs (Decidable (_ ∧ _ ∧ _))

@[simp]
theorem weightOf_empty (t : VoteTally K V O) : t.weightOf ∅ = 0 := Finset.sum_empty

/-- The running weight of the walk is the weight of the voters it has seen. -/
theorem countVoters_fst (t : VoteTally K V O) (votesForBlock voters : Finset K) :
    (t.countVoters votesForBlock voters (t.weightOf voters)).1 = t.weightOf (voters ∪ votesForBlock) := by
  have sdiff : (voters ∪ votesForBlock) \ voters = votesForBlock \ voters :=
    Finset.union_sdiff_left voters votesForBlock
  unfold countVoters weightOf
  rw [← sdiff, add_comm, Finset.sum_sdiff Finset.subset_union_left]

theorem countVoters_snd (t : VoteTally K V O) (votesForBlock voters : Finset K) (weight : Nat) :
    (t.countVoters votesForBlock voters weight).2 = voters ∪ votesForBlock := rfl

theorem entryVoters_of_votes (t : VoteTally K V O) {height : Nat} {hash : V}
    {votesAtHeight : AList fun _ : V => Finset K} {votesForBlock : Finset K}
    (atHeight : t.votes.get? height = some votesAtHeight)
    (forBlock : votesAtHeight.lookup hash = some votesForBlock) :
    t.entryVoters (height, some hash) = votesForBlock := by
  simp [entryVoters, votersOf, votesAt, atHeight, forBlock]

theorem entryVoters_of_no_votes (t : VoteTally K V O) {height : Nat} {hash : V}
    (atHeight : t.votes.get? height = none) : t.entryVoters (height, some hash) = ∅ := by
  simp [entryVoters, votersOf, votesAt, atHeight, AList.lookup_empty]

theorem entryVoters_of_no_block_votes (t : VoteTally K V O) {height : Nat} {hash : V}
    {votesAtHeight : AList fun _ : V => Finset K}
    (atHeight : t.votes.get? height = some votesAtHeight)
    (forBlock : votesAtHeight.lookup hash = none) : t.entryVoters (height, some hash) = ∅ := by
  simp [entryVoters, votersOf, votesAt, atHeight, forBlock]

/-- Entries below a height contribute no voters to it. -/
theorem votersFrom_of_lt (t : VoteTally K V O) {entries : List (Nat × Option V)} {height : Nat}
    (below : ∀ entry ∈ entries, entry.1 < height) : t.votersFrom entries height = ∅ := by
  have none : entries.filter (fun entry => decide (height ≤ entry.1)) = [] :=
    List.filter_eq_nil_iff.mpr fun entry member => by simpa using below entry member
  simp [votersFrom, none]

/-- An entry at or above a height adds its voters to that height's. -/
theorem votersFrom_cons_of_le (t : VoteTally K V O) (entry : Nat × Option V)
    (entries : List (Nat × Option V)) {height : Nat} (le : height ≤ entry.1) :
    t.votersFrom (entry :: entries) height = t.entryVoters entry ∪ t.votersFrom entries height := by
  simp [votersFrom, le, Finset.biUnion_insert]

theorem votersFrom_reverse (t : VoteTally K V O) (entries : List (Nat × Option V)) (height : Nat) :
    t.votersFrom entries.reverse height = t.votersFrom entries height := by
  simp [votersFrom, List.filter_reverse]

/-! ### The walk -/

/-- What the walk from `entries` on may return, having seen `voters`: the highest entry above the
finalized height whose support, counting those voters, reaches the threshold; nothing when no
height above the finalized one reaches it. -/
def WalkResult (t : VoteTally K V O) (threshold finalizedHeight : Nat)
    (entries : List (Nat × Option V)) (voters : Finset K) : Option (Nat × V) → Prop
  | some (height, hash) =>
    (height, some hash) ∈ entries ∧ finalizedHeight < height ∧
      threshold ≤ t.weightOf (voters ∪ t.votersFrom entries height) ∧
      ∀ other, finalizedHeight < other →
        threshold ≤ t.weightOf (voters ∪ t.votersFrom entries other) → other ≤ height
  | none =>
    ∀ other, finalizedHeight < other → t.weightOf (voters ∪ t.votersFrom entries other) < threshold

section Step

variable {t : VoteTally K V O} {threshold finalizedHeight : Nat} {entry : Nat × Option V}
  {entries : List (Nat × Option V)} {voters : Finset K}

/-- A step past an entry that does not reach the threshold: the walk goes on below it with the
entry's voters added to those seen. -/
theorem WalkResult.cons_continue {result : Option (Nat × V)} (below : ∀ e ∈ entries, e.1 < entry.1)
    (short : t.weightOf voters < threshold)
    (rest : t.WalkResult threshold finalizedHeight entries (voters ∪ t.entryVoters entry) result) :
    t.WalkResult threshold finalizedHeight (entry :: entries) voters result := by
  -- At or below the entry the two walks count the same voters; above it, neither reaches the
  -- threshold.
  have same : ∀ h, h ≤ entry.1 → voters ∪ t.votersFrom (entry :: entries) h =
      voters ∪ t.entryVoters entry ∪ t.votersFrom entries h := by
    intro h le
    rw [votersFrom_cons_of_le t entry entries le, Finset.union_assoc]
  have above : ∀ h, entry.1 < h → t.weightOf (voters ∪ t.votersFrom (entry :: entries) h) < threshold := by
    intro h lt
    have none : t.votersFrom (entry :: entries) h = ∅ := by
      refine t.votersFrom_of_lt fun e member => ?_
      rcases List.mem_cons.mp member with rfl | later
      · exact lt
      · exact lt_trans (below e later) lt
    simpa [none] using short
  cases result with
  | none =>
    intro other finalized
    by_cases le : other ≤ entry.1
    · rw [same other le]
      exact rest other finalized
    · exact above other (not_le.mp le)
  | some found =>
    obtain ⟨height, hash⟩ := found
    obtain ⟨member, finalized, reached, greatest⟩ := rest
    have le : height ≤ entry.1 := (below _ member).le
    refine ⟨List.mem_cons_of_mem _ member, finalized, same height le ▸ reached, ?_⟩
    intro other otherFinalized otherReached
    by_cases otherLe : other ≤ entry.1
    · rw [same other otherLe] at otherReached
      exact greatest other otherFinalized otherReached
    · exact absurd otherReached (not_le.mpr (above other (not_le.mp otherLe)))

/-- The walk returns the first block whose voters, with those seen, reach the threshold. -/
theorem walkResult_cons_found {height : Nat} {hash : V}
    (below : ∀ e ∈ entries, e.1 < height) (finalized : finalizedHeight < height)
    (short : t.weightOf voters < threshold)
    (reached : threshold ≤ t.weightOf (voters ∪ t.entryVoters (height, some hash))) :
    t.WalkResult threshold finalizedHeight ((height, some hash) :: entries) voters
      (some (height, hash)) := by
  have none : ∀ h, height < h → t.votersFrom ((height, some hash) :: entries) h = ∅ := by
    intro h lt
    refine t.votersFrom_of_lt fun e member => ?_
    rcases List.mem_cons.mp member with rfl | later
    · exact lt
    · exact lt_trans (below e later) lt
  refine ⟨List.mem_cons_self, finalized, ?_, ?_⟩
  · rw [votersFrom_cons_of_le t _ entries le_rfl, t.votersFrom_of_lt below, Finset.union_empty]
    exact reached
  · intro other _ otherReached
    by_contra above
    rw [none other (not_le.mp above), Finset.union_empty] at otherReached
    exact absurd otherReached (not_le.mpr short)

/-- The walk stops at the finalized block: nothing above it reaches the threshold. -/
theorem walkResult_cons_finalized {hash : Option V}
    (below : ∀ e ∈ entries, e.1 < finalizedHeight) (short : t.weightOf voters < threshold) :
    t.WalkResult threshold finalizedHeight ((finalizedHeight, hash) :: entries) voters none := by
  intro other finalized
  have none : t.votersFrom ((finalizedHeight, hash) :: entries) other = ∅ := by
    refine t.votersFrom_of_lt fun e member => ?_
    rcases List.mem_cons.mp member with rfl | later
    · exact finalized
    · exact lt_trans (below e later) finalized
  simpa [none] using short

end Step

/-- **The walk of `find_quorum`**, from entries in decreasing height order, none below the
finalized height, with the voters seen so far short of the threshold. The induction is on the
entries; the running weight is the weight of the voters seen. -/
theorem findQuorumFrom_walkResult (t : VoteTally K V O) (threshold finalizedHeight : Nat)
    (entries : List (Nat × Option V)) (sorted : (entries.map Prod.fst).Pairwise (· > ·))
    (atLeast : ∀ entry ∈ entries, finalizedHeight ≤ entry.1) (voters : Finset K)
    (short : t.weightOf voters < threshold) :
    t.WalkResult threshold finalizedHeight entries voters
      (t.findQuorumFrom threshold finalizedHeight entries voters (t.weightOf voters)) := by
  induction entries generalizing voters with
  | nil => intro other _; simpa [votersFrom] using short
  | cons entry rest ih =>
    obtain ⟨height, maybeHash⟩ := entry
    rw [List.map_cons, List.pairwise_cons] at sorted
    have below : ∀ e ∈ rest, e.1 < height := fun e member => sorted.1 e.1 (List.mem_map_of_mem member)
    have restAtLeast : ∀ e ∈ rest, finalizedHeight ≤ e.1 :=
      fun e member => atLeast e (List.mem_cons_of_mem _ member)
    -- A passed entry without votes adds no voters.
    have pass : ∀ {hash}, t.entryVoters (height, hash) = ∅ →
        t.WalkResult threshold finalizedHeight ((height, hash) :: rest) voters
          (t.findQuorumFrom threshold finalizedHeight rest voters (t.weightOf voters)) := by
      intro hash empty
      refine WalkResult.cons_continue below short ?_
      simpa [empty] using ih sorted.2 restAtLeast voters short
    unfold findQuorumFrom
    by_cases finalized : height = finalizedHeight
    · subst finalized
      rw [if_pos rfl]
      exact walkResult_cons_finalized below short
    rw [if_neg finalized]
    have above : finalizedHeight < height :=
      lt_of_le_of_ne (atLeast _ List.mem_cons_self) (Ne.symm finalized)
    cases maybeHash with
    | none => exact pass rfl
    | some hash =>
      dsimp only
      cases atHeight : t.votes.get? height with
      | none => exact pass (t.entryVoters_of_no_votes atHeight)
      | some votesAtHeight =>
        dsimp only
        cases forBlock : votesAtHeight.lookup hash with
        | none => exact pass (t.entryVoters_of_no_block_votes atHeight forBlock)
        | some votesForBlock =>
          have counted := t.entryVoters_of_votes atHeight forBlock
          dsimp only
          rw [countVoters_fst, countVoters_snd, ← counted]
          by_cases reached : threshold ≤ t.weightOf (voters ∪ t.entryVoters (height, some hash))
          · rw [if_pos reached]
            exact walkResult_cons_found below above short reached
          · rw [if_neg reached]
            exact WalkResult.cons_continue below short (ih sorted.2 restAtLeast _ (not_le.mp reached))

/-! ### The quorum -/

/-- What `find_quorum` may return in a state: the greatest quorate height with the block stored
there, or nothing when no height is quorate. -/
def QuorumResult (t : VoteTally K V O) : Option (Nat × V) → Prop
  | some (height, hash) => IsGreatest {h | t.Quorate h} height ∧ t.chain.get? height = some (some hash)
  | none => ∀ height, ¬ t.Quorate height

theorem le_latestHeight_of_mem (t : VoteTally K V O) {entry : Nat × Option V}
    (member : entry ∈ t.chain.entries) : entry.1 ≤ t.latestHeight := by
  have key : entry.1 ∈ t.chain.keys := List.mem_map_of_mem member
  cases top : t.chain.maxKey? with
  | none => simp [OrdMap.maxKey?_eq_none_iff, OrdMap.keys] at top; simp [top] at member
  | some last =>
    simp only [latestHeight, top, Option.getD_some]
    exact ((OrdMap.maxKey?_eq_some_iff _ _).mp top).2 _ key

/-- The candidate the walk returns meets the specification of `find_quorum`. -/
theorem quorumCandidate_quorumResult (t : VoteTally K V O) : t.QuorumResult t.quorumCandidate := by
  unfold quorumCandidate
  cases first : t.chain.minKey? with
  | none =>
    -- An empty chain has no height above `0` and at or below `0`.
    have empty : t.chain.keys = [] := (OrdMap.minKey?_eq_none_iff _).mp first
    have top : t.chain.maxKey? = none := (OrdMap.maxKey?_eq_none_iff _).mpr empty
    rintro height ⟨above, atMost, -⟩
    simp [latestHeight, top] at atMost
    omega
  | some finalizedHeight =>
    dsimp only
    have finalized : t.lastFinalizedHeight = finalizedHeight := by simp [lastFinalizedHeight, first]
    have sorted : (t.chain.entries.reverse.map Prod.fst).Pairwise (· > ·) := by
      rw [List.map_reverse, List.pairwise_reverse]
      exact t.chain.sorted
    have atLeast : ∀ entry ∈ t.chain.entries.reverse, finalizedHeight ≤ entry.1 := by
      intro entry member
      exact ((OrdMap.minKey?_eq_some_iff _ _).mp first).2 _
        (List.mem_map_of_mem (List.mem_reverse.mp member))
    have walk := t.findQuorumFrom_walkResult t.quorumThreshold finalizedHeight
      t.chain.entries.reverse sorted atLeast ∅ (by simp [quorumThreshold])
    rw [weightOf_empty] at walk
    -- The walk's support, from no voters, is the support of the chain.
    have supportEq : ∀ h, t.weightOf (∅ ∪ t.votersFrom t.chain.entries.reverse h) = t.support h := by
      intro h
      rw [Finset.empty_union, votersFrom_reverse]
      rfl
    cases found : t.findQuorumFrom t.quorumThreshold finalizedHeight t.chain.entries.reverse ∅ 0 with
    | none =>
      rw [found] at walk
      rintro height ⟨above, -, reached⟩
      have short := walk height (finalized ▸ above)
      rw [supportEq] at short
      omega
    | some result =>
      obtain ⟨height, hash⟩ := result
      rw [found] at walk
      obtain ⟨member, above, reached, greatest⟩ := walk
      rw [List.mem_reverse] at member
      rw [supportEq] at reached
      refine ⟨⟨⟨finalized ▸ above, t.le_latestHeight_of_mem member, reached⟩, ?_⟩, ?_⟩
      · rintro other ⟨otherAbove, -, otherReached⟩
        exact greatest other (finalized ▸ otherAbove) ((supportEq other).symm ▸ otherReached)
      · exact (OrdMap.get?_eq_some_iff _ _ _).mpr member

/-- The specification pins down the result: the greatest quorate height is unique, and so is the
block stored there. -/
theorem QuorumResult.eq {t : VoteTally K V O} {result result' : Option (Nat × V)}
    (meets : t.QuorumResult result) (meets' : t.QuorumResult result') : result = result' := by
  match result, result', meets, meets' with
  | none, none, _, _ => rfl
  | none, some _, noQuorum, ⟨greatest, _⟩ => exact (noQuorum _ greatest.1).elim
  | some _, none, ⟨greatest, _⟩, noQuorum => exact (noQuorum _ greatest.1).elim
  | some (height, hash), some (height', hash'), ⟨greatest, stored⟩, ⟨greatest', stored'⟩ =>
    have sameHeight : height = height' := greatest.unique greatest'
    subst sameHeight
    have sameHash : some hash = some hash' := Option.some.inj (stored.symm.trans stored')
    cases sameHash
    rfl

/-- A quorate height's supporters hold more than two thirds of the total weight. -/
theorem Quorate.two_thirds {t : VoteTally K V O} {height : Nat} (quorate : t.Quorate height) :
    2 * sumValues t.powerTable < 3 * t.support height := by
  have reached := quorate.2.2
  unfold quorumThreshold at reached
  omega

end VoteTally

end Ipc.Topdown
