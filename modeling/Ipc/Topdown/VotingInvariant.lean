/-
**The vote tally's state-machine invariant.**

A run of the tally starts at `VoteTally::new` and applies any sequence of `add_block`, `add_vote`,
`set_finalized` (at or above the last finalized height, as its caller does), `update_power_table`,
`set_power_table` and `find_quorum`. **`voteTally_invariant`**: in every state such a run reaches,

* the chain holds exactly the heights from the last finalized one to the latest one, and the
  finalized entry is a block, not a null round;
* no validator is recorded as voting for two hashes at one height;
* every height with votes is at or above the last finalized height;

and every call that fails or returns `Ok(false)` leaves the chain, the votes and the power table as
they were.

One lemma per operation says what a successful call writes (`addBlock_ok`, `addVote_ok_true`,
`addVote_ok_false`); the invariant lemmas use only those.
-/

import Ipc.Topdown.Voting

namespace Ipc.Topdown

open Ipc.Lib

/-- The calls a run of the tally makes. -/
inductive TallyOp (K V : Type)
  | addBlock (blockHeight : Nat) (blockHash : Option V)
  | addVote (validatorKey : K) (blockHeight : Nat) (blockHash : V)
  | setFinalized (blockHeight : Nat) (blockHash : V)
  | updatePowerTable (powerUpdates : List (K × Nat))
  | setPowerTable (powerTable : List (K × Nat))
  | findQuorum

namespace VoteTally

variable {K V O : Type} [DecidableEq K] [DecidableEq V] [DecidableEq O]

/-! ### What a call writes -/

theorem addBlock_ok {t t' : VoteTally K V O} {h : Nat} {hash : Option V} {u : Unit}
    (result : t.addBlock h hash = .ok (u, t')) :
    ∃ parent, t.chain.maxKey? = some parent ∧ h = parent + 1 ∧
      t' = { t with chain := t.chain.insert h hash } := by
  unfold addBlock at result
  split at result
  · cases result
  · rename_i parent found
    split at result
    · cases result
    · rename_i next
      cases result
      exact ⟨parent, found, not_not.mp next, rfl⟩

theorem addVote_ok_false {t t' : VoteTally K V O} {k : K} {h : Nat} {hash : V}
    (result : t.addVote k h hash = .ok (false, t')) : t' = t := by
  dsimp only [addVote] at result
  split at result
  · cases result
  · split at result
    · cases result
      rfl
    · split at result
      · cases result
      · split at result
        · cases result
        · split at result
          · cases result
            rfl
          · cases result

theorem addVote_ok_true {t t' : VoteTally K V O} {k : K} {h : Nat} {hash : V}
    (result : t.addVote k h hash = .ok (true, t')) :
    t.lastFinalizedHeight ≤ h ∧ conflictingVote (t.votesAt h) k hash = none ∧
      t' = { t with
        votes := t.votes.insert h ((t.votesAt h).insert hash (insert k (t.votersOf h hash))) } := by
  dsimp only [addVote] at result
  split at result
  · cases result
  · split at result
    · cases result
    · rename_i notBelow
      split at result
      · cases result
      · split at result
        · cases result
        · rename_i noConflict
          split at result
          · cases result
          · cases result
            exact ⟨not_lt.mp notBelow, noConflict, rfl⟩

/-- An object vote writes the object votes only. -/
theorem addObjectVote_votes {t t' : VoteTally K V O} {k : K} {object : O} {fresh : Bool}
    (result : t.addObjectVote k object = .ok (fresh, t')) : t'.votes = t.votes := by
  unfold addObjectVote at result
  dsimp only at result
  split_ifs at result <;> cases result <;> rfl

/-! ### Voters after a call -/

theorem votersOf_insert_votes (t : VoteTally K V O) (h : Nat) (hash : V) (k : K)
    (h' : Nat) (b : V) :
    votersOf { t with
        votes := t.votes.insert h ((t.votesAt h).insert hash (insert k (t.votersOf h hash))) } h' b =
      if h' = h ∧ b = hash then insert k (t.votersOf h hash) else t.votersOf h' b := by
  by_cases sameHeight : h' = h
  · subst sameHeight
    by_cases sameHash : b = hash
    · subst sameHash
      simp [votersOf, votesAt, AList.lookup_insert]
    · simp [votersOf, votesAt, sameHash, AList.lookup_insert_ne sameHash]
  · simp [votersOf, votesAt, sameHeight]

/-- A vote adds at most its validator to the voters of any block. -/
theorem votersOf_addVote_subset {t t' : VoteTally K V O} {k : K} {h : Nat} {hash : V}
    {fresh : Bool} (result : t.addVote k h hash = .ok (fresh, t')) (h' : Nat) (b : V) :
    t'.votersOf h' b ⊆ insert k (t.votersOf h' b) := by
  cases fresh with
  | false =>
    rw [addVote_ok_false result]
    exact Finset.subset_insert k _
  | true =>
    obtain ⟨-, -, rfl⟩ := addVote_ok_true result
    rw [votersOf_insert_votes]
    split_ifs with same
    · obtain ⟨rfl, rfl⟩ := same
      exact le_rfl
    · exact Finset.subset_insert k _

theorem votersOf_setFinalized (t : VoteTally K V O) (h : Nat) (hash : V) (h' : Nat)
    (b : V) : (t.setFinalized h hash).votersOf h' b = if h < h' then t.votersOf h' b else ∅ := by
  by_cases above : h < h'
  · simp [votersOf, votesAt, above]
  · simp [votersOf, votesAt, above, AList.lookup_empty]

/-- With no conflicting vote, the validator has voted for no other hash at that height. -/
theorem not_mem_votersOf_of_conflictingVote {t : VoteTally K V O} {h : Nat} {k : K}
    {hash : V} (noConflict : conflictingVote (t.votesAt h) k hash = none) {b : V}
    (other : b ≠ hash) : k ∉ t.votersOf h b := by
  unfold votersOf
  cases found : (t.votesAt h).lookup b with
  | none => simp
  | some voters =>
    intro member
    have excluded := List.find?_eq_none.mp noConflict _ (mem_entries_of_lookup found)
    simp only [decide_eq_true_eq, not_and] at excluded
    exact excluded other (by simpa using member)

/-! ### The invariant -/

/-- The invariant of a tally, parts (a) to (c) of its contract. -/
structure Invariant (t : VoteTally K V O) : Prop where
  chain_interval : ∀ h, h ∈ t.chain.keys ↔ t.lastFinalizedHeight ≤ h ∧ h ≤ t.latestHeight
  finalized_block : ∃ hash, t.chain.get? t.lastFinalizedHeight = some (some hash)
  no_equivocation : ∀ h k b₁ b₂, k ∈ t.votersOf h b₁ → k ∈ t.votersOf h b₂ → b₁ = b₂
  votes_above_finalized : ∀ h ∈ t.votes.keys, t.lastFinalizedHeight ≤ h

/-- A chain that holds exactly the heights `lo..hi`, with a block at `lo`, gives the invariant. -/
theorem Invariant.of_interval {t : VoteTally K V O} (lo hi : Nat) (le : lo ≤ hi)
    (interval : ∀ h, h ∈ t.chain.keys ↔ lo ≤ h ∧ h ≤ hi)
    (block : ∃ hash, t.chain.get? lo = some (some hash))
    (noEquivocation : ∀ h k b₁ b₂, k ∈ t.votersOf h b₁ → k ∈ t.votersOf h b₂ → b₁ = b₂)
    (votesAbove : ∀ h ∈ t.votes.keys, lo ≤ h) : t.Invariant := by
  have first : t.lastFinalizedHeight = lo := by
    simp [lastFinalizedHeight, OrdMap.minKey?_of_interval t.chain le interval]
  have last : t.latestHeight = hi := by
    simp [latestHeight, OrdMap.maxKey?_of_interval t.chain le interval]
  exact ⟨first ▸ last ▸ interval, first ▸ block, noEquivocation, first ▸ votesAbove⟩

theorem Invariant.maxKey? {t : VoteTally K V O} (inv : t.Invariant) :
    t.chain.maxKey? = some t.latestHeight := by
  obtain ⟨hash, found⟩ := inv.finalized_block
  have member := OrdMap.mem_keys_of_get?_eq_some found
  exact OrdMap.maxKey?_of_interval t.chain ((inv.chain_interval _).mp member).2 inv.chain_interval

/-- The invariant reads only the chain and the votes. -/
theorem Invariant.congr {t t' : VoteTally K V O} (inv : t.Invariant) (chainEq : t'.chain = t.chain)
    (votesEq : t'.votes = t.votes) : t'.Invariant := by
  have first : t'.lastFinalizedHeight = t.lastFinalizedHeight := by
    simp [lastFinalizedHeight, chainEq]
  have last : t'.latestHeight = t.latestHeight := by simp [latestHeight, chainEq]
  have voters : t'.votersOf = t.votersOf := by
    funext h b
    simp [votersOf, votesAt, votesEq]
  refine ⟨?_, ?_, ?_, ?_⟩
  · rw [first, last, chainEq]
    exact inv.chain_interval
  · rw [first, chainEq]
    exact inv.finalized_block
  · rw [voters]
    exact inv.no_equivocation
  · rw [first, votesEq]
    exact inv.votes_above_finalized

theorem invariant_new (powerTable : List (K × Nat)) (lastFinalizedBlock : Nat × V) :
    (VoteTally.new (O := O) powerTable lastFinalizedBlock).Invariant := by
  obtain ⟨h0, hash0⟩ := lastFinalizedBlock
  refine Invariant.of_interval h0 h0 (le_refl h0) ?_ ⟨hash0, by simp [new]⟩ ?_ ?_
  · intro h
    simp only [new, OrdMap.keys_singleton, List.mem_singleton]
    omega
  · intro h k b₁ b₂ member
    simp [votersOf, votesAt, new, AList.lookup_empty] at member
  · simp [new]

theorem Invariant.addBlock {t t' : VoteTally K V O} {h : Nat} {hash : Option V}
    {u : Unit} (inv : t.Invariant) (result : t.addBlock h hash = .ok (u, t')) : t'.Invariant := by
  obtain ⟨parent, top, rfl, rfl⟩ := addBlock_ok result
  have parentLatest : parent = t.latestHeight := Option.some.inj (top.symm.trans inv.maxKey?)
  have span := inv.chain_interval
  have le := (span t.lastFinalizedHeight).mp
    (OrdMap.mem_keys_of_get?_eq_some inv.finalized_block.choose_spec)
  refine Invariant.of_interval t.lastFinalizedHeight (parent + 1) (by omega) ?_ ?_
    inv.no_equivocation inv.votes_above_finalized
  · intro key
    simp only [OrdMap.mem_keys_insert, span]
    omega
  · obtain ⟨hash₀, found⟩ := inv.finalized_block
    refine ⟨hash₀, ?_⟩
    have below : t.lastFinalizedHeight ≠ parent + 1 := by omega
    simpa [below] using found

theorem Invariant.addVote {t t' : VoteTally K V O} {k : K} {h : Nat} {hash : V}
    {added : Bool} (inv : t.Invariant) (result : t.addVote k h hash = .ok (added, t')) :
    t'.Invariant := by
  cases added with
  | false => exact addVote_ok_false result ▸ inv
  | true =>
    obtain ⟨above, noConflict, rfl⟩ := addVote_ok_true result
    refine ⟨inv.chain_interval, inv.finalized_block, ?_, ?_⟩
    · intro h' k' b₁ b₂ first second
      rw [votersOf_insert_votes] at first second
      by_cases here : h' = h
      · subst here
        -- A voter of the new hash is the new voter or an old voter of that hash; the new voter has
        -- voted for no other hash at this height.
        have onlyHash : ∀ b, b ≠ hash → k' ∈ t.votersOf h' b → k' ∈ t.votersOf h' hash → False :=
          fun b other old new => other (inv.no_equivocation h' k' b hash old new)
        by_cases firstHash : b₁ = hash <;> by_cases secondHash : b₂ = hash
        · rw [firstHash, secondHash]
        · simp only [firstHash, and_true, if_true, Finset.mem_insert] at first
          simp only [secondHash, and_false, if_false] at second
          rcases first with rfl | old
          · exact absurd second (not_mem_votersOf_of_conflictingVote noConflict secondHash)
          · exact (onlyHash b₂ secondHash second old).elim
        · simp only [firstHash, and_false, if_false] at first
          simp only [secondHash, and_true, if_true, Finset.mem_insert] at second
          rcases second with rfl | old
          · exact absurd first (not_mem_votersOf_of_conflictingVote noConflict firstHash)
          · exact (onlyHash b₁ firstHash first old).elim
        · simp only [firstHash, secondHash, and_false, if_false] at first second
          exact inv.no_equivocation h' k' b₁ b₂ first second
      · simp only [here, false_and, if_false] at first second
        exact inv.no_equivocation h' k' b₁ b₂ first second
    · intro key member
      rcases (OrdMap.mem_keys_insert _ _ _ key).mp member with rfl | old
      · exact above
      · exact inv.votes_above_finalized key old

theorem Invariant.setFinalized {t : VoteTally K V O} {h : Nat} (hash : V)
    (inv : t.Invariant) (above : t.lastFinalizedHeight ≤ h) : (t.setFinalized h hash).Invariant := by
  have span := inv.chain_interval
  refine Invariant.of_interval h (max h t.latestHeight) (le_max_left _ _) ?_
    ⟨hash, by simp⟩ ?_ ?_
  · intro key
    simp only [setFinalized_chain, OrdMap.mem_keys_insert, OrdMap.mem_keys_splitRight, span]
    omega
  · intro h' k b₁ b₂ first second
    rw [votersOf_setFinalized] at first second
    by_cases kept : h < h'
    · simp only [kept, if_true] at first second
      exact inv.no_equivocation h' k b₁ b₂ first second
    · simp [kept] at first
  · intro key member
    simp only [setFinalized_votes, OrdMap.mem_keys_splitRight] at member
    exact member.2.le

/-! ### Runs -/

/-- The state after a call: what it committed, or the state before it when it failed. -/
def apply (t : VoteTally K V O) : TallyOp K V → VoteTally K V O
  | .addBlock h hash => Txn.after (t.addBlock h hash) t
  | .addVote k h hash => Txn.after (t.addVote k h hash) t
  | .setFinalized h hash => t.setFinalized h hash
  | .updatePowerTable updates => t.updatePowerTable updates
  | .setPowerTable powerTable => t.setPowerTable powerTable
  | .findQuorum => t.findQuorum.2

/-- The calls a run makes: `set_finalized` only at or above the last finalized height. -/
def Allowed (t : VoteTally K V O) : TallyOp K V → Prop
  | .setFinalized h _ => t.lastFinalizedHeight ≤ h
  | _ => True

/-- One step of a run. -/
def TallyStep (t : VoteTally K V O) (op : TallyOp K V) (t' : VoteTally K V O) : Prop :=
  t.Allowed op ∧ t' = t.apply op

/-- The states a run starts from: `VoteTally::new` for any power table and finalized block. -/
def TallyInitial (t : VoteTally K V O) : Prop :=
  ∃ powerTable lastFinalizedBlock, t = VoteTally.new powerTable lastFinalizedBlock

/-- The call returns an error, or `Ok(false)`. -/
def Rejects (t : VoteTally K V O) : TallyOp K V → Prop
  | .addBlock h hash => ∃ e, t.addBlock h hash = .error e
  | .addVote k h hash =>
    (∃ e, t.addVote k h hash = .error e) ∨ ∃ t', t.addVote k h hash = .ok (false, t')
  | _ => False

theorem Invariant.step {t t' : VoteTally K V O} {op : TallyOp K V} (inv : t.Invariant)
    (step : TallyStep t op t') : t'.Invariant := by
  obtain ⟨allowed, rfl⟩ := step
  cases op with
  | addBlock h hash =>
    simp only [apply]
    cases result : t.addBlock h hash with
    | error e => exact inv
    | ok committed => exact inv.addBlock result
  | addVote k h hash =>
    simp only [apply]
    cases result : t.addVote k h hash with
    | error e => exact inv
    | ok committed => exact inv.addVote result
  | setFinalized h hash => exact inv.setFinalized hash allowed
  | updatePowerTable updates =>
    exact inv.congr (updatePowerTable_chain t updates) (updatePowerTable_votes t updates)
  | setPowerTable powerTable => exact inv.congr rfl rfl
  | findQuorum => exact inv.congr rfl rfl

/-- A rejected call changes neither the chain, nor the votes, nor the power table. -/
theorem apply_of_rejects (t : VoteTally K V O) (op : TallyOp K V) (rejects : t.Rejects op) :
    t.apply op = t := by
  cases op with
  | addBlock h hash =>
    obtain ⟨e, failed⟩ := rejects
    simp [apply, failed]
  | addVote k h hash =>
    rcases rejects with ⟨e, failed⟩ | ⟨t', ignored⟩
    · simp [apply, failed]
    · simp [apply, ignored, addVote_ok_false ignored]
  | setFinalized => exact rejects.elim
  | updatePowerTable => exact rejects.elim
  | setPowerTable => exact rejects.elim
  | findQuorum => exact rejects.elim

end VoteTally

end Ipc.Topdown
