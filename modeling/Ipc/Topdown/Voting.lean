/-
**The parent-finality vote tally (`fendermint_vm_topdown::voting::VoteTally`).**

The tally keeps the finalized chain of the parent as this node observed it (`chain`, a null round
stored as `none`), the votes gossiped by validators indexed by height and block hash (`votes`), the
current power table, and the object votes. Every operation is one STM transaction: it reads the
fields, and either commits a result with the fields it writes, or aborts (or retries) and writes
nothing. Heights and weights are `u64` in the source and `Nat` here: no modelled operation comes near
`2^64`.

* `addBlock` extends the chain only at its maximum plus one;
* `addVote` ignores heights below the last finalized one and duplicates, rejects unpowered
  validators, and rejects a vote when the same validator already voted for another hash at that
  height;
* `setFinalized` keeps the chain and the votes strictly above the new finalized height and stores
  the finalized block at its height;
* `findQuorum` walks the chain down from its top, accumulating the current weights of the distinct
  voters of each non-null block, and stops at the finalized height.
-/

import Ipc.Lib.Maps
import Ipc.Lib.System
import Mathlib

namespace Ipc.Topdown

open Ipc.Lib

/-- The errors of the vote tally (`voting::Error`). -/
inductive VoteError (K V : Type)
  | uninitialized
  | unexpectedBlock (expected got : Nat)
  | unpoweredValidator (key : K)
  | equivocation (key : K) (height : Nat) (hash other : V)
  deriving DecidableEq, Repr

/-- The state of a `VoteTally<K, V, O>`: validator keys `K`, block hashes `V`, objects `O`. -/
structure VoteTally (K V O : Type) [DecidableEq K] [DecidableEq V] [DecidableEq O] where
  powerTable : AList (fun _ : K => Nat)
  chain : OrdMap Nat (Option V)
  votes : OrdMap Nat (AList (fun _ : V => Finset K))
  pauseVotes : Bool
  objectVotes : AList (fun _ : O => Finset K)
  pauseObjectVotes : Bool

namespace VoteTally

variable {K V O : Type} [DecidableEq K] [DecidableEq V] [DecidableEq O]

/-- The result of one tally transaction. -/
abbrev Result (K V O α : Type) [DecidableEq K] [DecidableEq V] [DecidableEq O] :=
  Except (StmError (VoteError K V)) (α × VoteTally K V O)

/-! ### Construction and queries -/

/-- `VoteTally::empty`: no power table, no chain; blocks cannot be added before finalization. -/
def empty : VoteTally K V O :=
  { powerTable := ∅, chain := OrdMap.empty, votes := OrdMap.empty, pauseVotes := false,
    objectVotes := ∅, pauseObjectVotes := false }

/-- `VoteTally::new`: the power table and the last finalized block from the ledger. -/
def new (powerTable : List (K × Nat)) (lastFinalizedBlock : Nat × V) :
    VoteTally K V O :=
  { powerTable := fromPairs powerTable,
    chain := OrdMap.singleton lastFinalizedBlock.1 (some lastFinalizedBlock.2),
    votes := OrdMap.empty, pauseVotes := false, objectVotes := ∅, pauseObjectVotes := false }

/-- `has_power`: a validator with positive weight, or anyone when the power table is empty (a
parentless subnet). -/
def hasPower (t : VoteTally K V O) (validatorKey : K) : Bool :=
  if t.powerTable.entries = [] then true
  else
    match t.powerTable.lookup validatorKey with
    | none => false
    | some weight => decide (0 < weight)

/-- `quorum_threshold`: the least weight that passes, `2/3` of the total plus one. -/
def quorumThreshold (t : VoteTally K V O) : Nat :=
  sumValues t.powerTable * 2 / 3 + 1

/-- `last_finalized_height`: the first height of the chain, `0` when it is empty. -/
def lastFinalizedHeight (t : VoteTally K V O) : Nat :=
  t.chain.minKey?.getD 0

/-- `latest_height`: the last height of the chain, `0` when it is empty. -/
def latestHeight (t : VoteTally K V O) : Nat :=
  t.chain.maxKey?.getD 0

/-- `block_hash`: the hash at a height, if the height is known and not a null round. -/
def blockHash (t : VoteTally K V O) (height : Nat) : Option V :=
  (t.chain.get? height).bind id

/-! ### Transactions -/

/-- `add_block`: extend the chain by the next height, with `none` for a null round. -/
def addBlock (t : VoteTally K V O) (blockHeight : Nat) (blockHash : Option V) :
    Result K V O Unit :=
  match t.chain.maxKey? with
  | none => .error (.abort .uninitialized)
  | some parentHeight =>
    if blockHeight ≠ parentHeight + 1 then
      .error (.abort (.unexpectedBlock (parentHeight + 1) blockHeight))
    else .ok ((), { t with chain := t.chain.insert blockHeight blockHash })

/-- The votes recorded at a height, empty when there are none (`entry(h).or_default()`). -/
def votesAt (t : VoteTally K V O) (blockHeight : Nat) : AList (fun _ : V => Finset K) :=
  (t.votes.get? blockHeight).getD ∅

/-- The validators recorded as voting for a hash at a height. -/
def votersOf (t : VoteTally K V O) (blockHeight : Nat) (blockHash : V) : Finset K :=
  ((t.votesAt blockHeight).lookup blockHash).getD ∅

/-- The first other hash at a height that the validator already voted for. -/
def conflictingVote (votesAtHeight : AList (fun _ : V => Finset K)) (validatorKey : K)
    (blockHash : V) : Option (Sigma fun _ : V => Finset K) :=
  votesAtHeight.entries.find? fun entry => decide (entry.1 ≠ blockHash ∧ validatorKey ∈ entry.2)

/-- `add_vote`: `true` when the vote is new, `false` when it is a duplicate or below the last
finalized height; an abort for an unpowered validator or an equivocation. -/
def addVote (t : VoteTally K V O) (validatorKey : K) (blockHeight : Nat) (blockHash : V) :
    Result K V O Bool :=
  if t.pauseVotes then .error .retry
  else if blockHeight < t.lastFinalizedHeight then .ok (false, t)
  else if !t.hasPower validatorKey then .error (.abort (.unpoweredValidator validatorKey))
  else
    let votesAtHeight := t.votesAt blockHeight
    match conflictingVote votesAtHeight validatorKey blockHash with
    | some other => .error (.abort (.equivocation validatorKey blockHeight blockHash other.1))
    | none =>
      let votesForBlock := (votesAtHeight.lookup blockHash).getD ∅
      if validatorKey ∈ votesForBlock then .ok (false, t)
      else
        .ok (true, { t with
          votes := t.votes.insert blockHeight
            (votesAtHeight.insert blockHash (insert validatorKey votesForBlock)) })

/-- `pause_votes_until_find_quorum`. -/
def pauseVotesUntilFindQuorum (t : VoteTally K V O) : VoteTally K V O :=
  { t with pauseVotes := true }

/-- The weight and voters after counting the voters of one block: only a voter not seen yet adds
its current weight (`0` when it left the power table). -/
def countVoters (t : VoteTally K V O) (votesForBlock voters : Finset K) (weight : Nat) :
    Nat × Finset K :=
  (weight + ∑ key ∈ votesForBlock \ voters, (t.powerTable.lookup key).getD 0,
    voters ∪ votesForBlock)

/-- The walk of `find_quorum` down the chain (its entries from the top), with the voters seen and
their weight so far. -/
def findQuorumFrom (t : VoteTally K V O) (threshold finalizedHeight : Nat) :
    List (Nat × Option V) → Finset K → Nat → Option (Nat × V)
  | [], _, _ => none
  | (blockHeight, maybeHash) :: lower, voters, weight =>
    if blockHeight = finalizedHeight then none
    else
      match maybeHash with
      | none => findQuorumFrom t threshold finalizedHeight lower voters weight
      | some blockHash =>
        match t.votes.get? blockHeight with
        | none => findQuorumFrom t threshold finalizedHeight lower voters weight
        | some votesAtHeight =>
          match votesAtHeight.lookup blockHash with
          | none => findQuorumFrom t threshold finalizedHeight lower voters weight
          | some votesForBlock =>
            let counted := t.countVoters votesForBlock voters weight
            if threshold ≤ counted.1 then some (blockHeight, blockHash)
            else findQuorumFrom t threshold finalizedHeight lower counted.2 counted.1

/-- The block `find_quorum` returns: the highest block of the chain above the finalized one whose
voters, together with the voters of the blocks above it, reach the threshold. -/
def quorumCandidate (t : VoteTally K V O) : Option (Nat × V) :=
  match t.chain.minKey? with
  | none => none
  | some finalizedHeight =>
    t.findQuorumFrom t.quorumThreshold finalizedHeight t.chain.entries.reverse ∅ 0

/-- `find_quorum`: unpause the votes, then look for the quorum. -/
def findQuorum (t : VoteTally K V O) : Option (Nat × V) × VoteTally K V O :=
  let unpaused := { t with pauseVotes := false }
  (unpaused.quorumCandidate, unpaused)

/-- `set_finalized`: keep the chain and the votes strictly above the finalized height, and store
the finalized block itself. -/
def setFinalized (t : VoteTally K V O) (blockHeight : Nat) (blockHash : V) :
    VoteTally K V O :=
  { t with
    chain := (t.chain.splitRight blockHeight).insert blockHeight (some blockHash),
    votes := t.votes.splitRight blockHeight }

/-- `add_object_vote`: `true` when the vote is new, `false` for a duplicate. -/
def addObjectVote (t : VoteTally K V O) (validatorKey : K) (object : O) :
    Except (StmError (VoteError K O)) (Bool × VoteTally K V O) :=
  if t.pauseObjectVotes then .error .retry
  else if !t.hasPower validatorKey then .error (.abort (.unpoweredValidator validatorKey))
  else
    let votesForObject := (t.objectVotes.lookup object).getD ∅
    if validatorKey ∈ votesForObject then .ok (false, t)
    else .ok (true, { t with objectVotes := t.objectVotes.insert object (insert validatorKey votesForObject) })

/-- `find_object_quorum`: unpause the object votes, then whether the current weights of the
object's distinct voters reach the threshold; with an empty power table (a parentless subnet),
whether anyone voted at all. -/
def findObjectQuorum (t : VoteTally K V O) (object : O) : Bool × VoteTally K V O :=
  let unpaused := { t with pauseObjectVotes := false }
  match unpaused.objectVotes.lookup object with
  | none => (false, unpaused)
  | some votesForObject =>
    let counted := unpaused.countVoters votesForObject ∅ 0
    if unpaused.powerTable.entries = [] ∧ counted.2 ≠ ∅ then (true, unpaused)
    else (decide (unpaused.quorumThreshold ≤ counted.1), unpaused)

/-- `set_power_table`: replace the power table by a new snapshot. -/
def setPowerTable (t : VoteTally K V O) (powerTable : List (K × Nat)) : VoteTally K V O :=
  { t with powerTable := fromPairs powerTable }

/-- One power update: weight `0` removes the validator, any other weight sets it. -/
def applyPowerUpdate (powerTable : AList (fun _ : K => Nat)) (update : K × Nat) :
    AList (fun _ : K => Nat) :=
  if update.2 = 0 then powerTable.erase update.1 else powerTable.insert update.1 update.2

/-- `update_power_table`: apply the updated weights, leaving everyone else untouched. -/
def updatePowerTable (t : VoteTally K V O) (powerUpdates : List (K × Nat)) : VoteTally K V O :=
  if powerUpdates = [] then t
  else { t with powerTable := powerUpdates.foldl applyPowerUpdate t.powerTable }

/-! ### Simp lemmas for the fields -/

@[simp] theorem setFinalized_chain (t : VoteTally K V O) (h : Nat) (hash : V) :
    (t.setFinalized h hash).chain = (t.chain.splitRight h).insert h (some hash) := rfl

@[simp] theorem setFinalized_votes (t : VoteTally K V O) (h : Nat) (hash : V) :
    (t.setFinalized h hash).votes = t.votes.splitRight h := rfl

@[simp] theorem setFinalized_powerTable (t : VoteTally K V O) (h : Nat) (hash : V) :
    (t.setFinalized h hash).powerTable = t.powerTable := rfl

@[simp] theorem setPowerTable_chain (t : VoteTally K V O) (pt : List (K × Nat)) :
    (t.setPowerTable pt).chain = t.chain := rfl

@[simp] theorem setPowerTable_votes (t : VoteTally K V O) (pt : List (K × Nat)) :
    (t.setPowerTable pt).votes = t.votes := rfl

theorem updatePowerTable_chain (t : VoteTally K V O) (updates : List (K × Nat)) :
    (t.updatePowerTable updates).chain = t.chain := by
  unfold updatePowerTable
  split <;> rfl

theorem updatePowerTable_votes (t : VoteTally K V O) (updates : List (K × Nat)) :
    (t.updatePowerTable updates).votes = t.votes := by
  unfold updatePowerTable
  split <;> rfl

@[simp] theorem findQuorum_chain (t : VoteTally K V O) : t.findQuorum.2.chain = t.chain := rfl

@[simp] theorem findQuorum_votes (t : VoteTally K V O) : t.findQuorum.2.votes = t.votes := rfl

@[simp] theorem findQuorum_powerTable (t : VoteTally K V O) :
    t.findQuorum.2.powerTable = t.powerTable := rfl

/-- Looking for an object quorum only unpauses the object votes. -/
theorem findObjectQuorum_snd (t : VoteTally K V O) (object : O) :
    (t.findObjectQuorum object).2 = { t with pauseObjectVotes := false } := by
  unfold findObjectQuorum
  dsimp only
  split
  · rfl
  · split <;> rfl

end VoteTally

end Ipc.Topdown
