/-
**The collateral release queue as stored (`LibAddressStakingReleases`, `LibStakingReleaseQueue`).**

Each validator's releases sit in a ring over a `uint16`-keyed mapping: `length` releases from
`startIdx` on. `push` writes at `startIdx + length`; `compact`, which `claim` calls, pays the
releases due at the current block from the front, deletes them and moves `startIdx` past them.
The subnet actor's `StakingReleaseQueue` is this ring read in order (`pending`): a push appends to
it (`addNewRelease_pending`).

`compact`'s loop runs while `i < length`, `i` starting at `startIdx`, so it looks at the releases
at indices below `length` only: the first `length - startIdx` pending ones, all of them exactly
when `startIdx = 0` (`compact_ok`). Once a claim has paid part of the queue, `startIdx` is past
`0` and the last releases are out of the loop's reach: a release that has matured is then not paid
by the next claim (`claim_skips_matured_release`).
-/

import Ipc.Contracts.SubnetActor

namespace Ipc.Contracts

open Ipc.Lib

/-- A validator's releases as stored (`AddressStakingReleases`): `length` releases from index
`startIdx` of the `releases` mapping. -/
structure AddressStakingReleases where
  length : Nat
  startIdx : Nat
  releases : Nat → StakingRelease

/-- Whether a release is due at a block. -/
def StakingRelease.due (blockNumber : Nat) (release : StakingRelease) : Bool :=
  release.releaseAt ≤ blockNumber

namespace AddressStakingReleases

/-- A ring with nothing stored. -/
def empty : AddressStakingReleases := ⟨0, 0, fun _ => ⟨0, 0⟩⟩

/-- The releases of a ring, in the order they were pushed. -/
def pending (self : AddressStakingReleases) : List StakingRelease :=
  (List.range self.length).map fun j => self.releases (self.startIdx + j)

/-- `push`: write the release after the last one. -/
def push (self : AddressStakingReleases) (release : StakingRelease) : AddressStakingReleases :=
  let nextIdx := self.startIdx + self.length
  { self with releases := Function.update self.releases nextIdx release, length := self.length + 1 }

/-- The loop of `compact`, with at most `fuel` rounds: while `i < length` (the length when the call
began), pay and delete the release at `i` if it is due at `blockNumber`. The ring's `startIdx` and
`length` stand for the loop's `i` and `newLength`, which `compact` writes back at the end. -/
def compactLoop (blockNumber length : Nat) :
    Nat → AddressStakingReleases → Nat → AddressStakingReleases × Nat
  | 0, self, amount => (self, amount)
  | fuel + 1, self, amount =>
    if self.startIdx < length then
      let release := self.releases self.startIdx
      if release.releaseAt > blockNumber then (self, amount)
      else
        compactLoop blockNumber length fuel
          { self with
            releases := Function.update self.releases self.startIdx ⟨0, 0⟩,
            startIdx := self.startIdx + 1, length := self.length - 1 }
          (amount + release.amount)
    else (self, amount)

/-- `compact` at block `blockNumber`: the amount paid, the releases left and the ring after. The
loop runs at most `length` rounds. -/
def compact (self : AddressStakingReleases) (blockNumber : Nat) :
    Except Revert (Nat × Nat × AddressStakingReleases) :=
  if self.length = 0 then .error .noCollateralToWithdraw
  else
    let (compacted, amount) := compactLoop blockNumber self.length self.length self 0
    .ok (amount, compacted.length, compacted)

/-! ### The ring read in order -/

@[simp]
theorem length_pending (self : AddressStakingReleases) : self.pending.length = self.length := by
  simp [pending]

theorem push_pending (self : AddressStakingReleases) (release : StakingRelease) :
    (self.push release).pending = self.pending ++ [release] := by
  simp only [pending, push, List.range_succ, List.map_append, List.map_singleton,
    Function.update_self]
  congr 1
  apply List.map_congr_left
  intro j member
  rw [List.mem_range] at member
  rw [Function.update_of_ne (by omega)]

/-- Paying the front release leaves the rest of the ring in order. -/
theorem pending_payFront (self : AddressStakingReleases) (nonempty : 0 < self.length) :
    self.pending = self.releases self.startIdx ::
      ({ self with
          releases := Function.update self.releases self.startIdx ⟨0, 0⟩,
          startIdx := self.startIdx + 1, length := self.length - 1 } : AddressStakingReleases).pending := by
  obtain ⟨n, hn⟩ : ∃ n, self.length = n + 1 := ⟨self.length - 1, by omega⟩
  simp only [pending, hn, List.range_succ_eq_map, List.map_cons, List.map_map, Nat.add_zero,
    Nat.add_sub_cancel, List.cons.injEq, true_and]
  apply List.map_congr_left
  intro j _
  simp only [Function.comp_apply]
  rw [Function.update_of_ne (by omega)]
  congr 1
  omega

/-! ### What a claim pays -/

/-- **The loop of `compact`.** From index `i` with the loop bound `length`, it pays the releases
due at the front of the first `length - i` pending ones, deletes them, and moves past them. -/
theorem compactLoop_eq (blockNumber length : Nat) :
    ∀ (fuel : Nat) (self : AddressStakingReleases) (amount : Nat),
      length - self.startIdx ≤ fuel → length - self.startIdx ≤ self.length →
      let paid := (self.pending.take (length - self.startIdx)).takeWhile
        (StakingRelease.due blockNumber)
      (compactLoop blockNumber length fuel self amount).2 =
          amount + (paid.map StakingRelease.amount).sum ∧
        (compactLoop blockNumber length fuel self amount).1.startIdx =
          self.startIdx + paid.length ∧
        (compactLoop blockNumber length fuel self amount).1.pending = self.pending.drop paid.length
  | 0, self, amount, enough, _ => by
    -- no fuel: the bound is already reached
    have reached : length - self.startIdx = 0 := by omega
    simp [compactLoop, reached]
  | fuel + 1, self, amount, enough, within => by
    by_cases inside : self.startIdx < length
    · have nonempty : 0 < self.length := by omega
      have front := pending_payFront self nonempty
      have window : length - self.startIdx = length - (self.startIdx + 1) + 1 := by omega
      by_cases later : (self.releases self.startIdx).releaseAt > blockNumber
      · -- the front release is not due: nothing is paid
        have notDue : StakingRelease.due blockNumber (self.releases self.startIdx) = false := by
          simp only [StakingRelease.due, decide_eq_false_iff_not, Nat.not_le]
          exact later
        simp only [compactLoop, if_pos inside, if_pos later]
        rw [front, window, List.take_succ_cons, List.takeWhile_cons_of_neg (by simp [notDue])]
        simp
      · -- the front release is paid, and the loop goes on from the next index
        have due : StakingRelease.due blockNumber (self.releases self.startIdx) = true := by
          simp only [StakingRelease.due, decide_eq_true_eq]
          exact Nat.le_of_not_gt later
        simp only [compactLoop, if_pos inside, if_neg later]
        obtain ⟨paidRest, startRest, pendingRest⟩ :=
          compactLoop_eq blockNumber length fuel
            { self with
              releases := Function.update self.releases self.startIdx ⟨0, 0⟩,
              startIdx := self.startIdx + 1, length := self.length - 1 }
            (amount + (self.releases self.startIdx).amount)
            (show length - (self.startIdx + 1) ≤ fuel by omega)
            (show length - (self.startIdx + 1) ≤ self.length - 1 by omega)
        rw [front, window, List.take_succ_cons, List.takeWhile_cons_of_pos (by simp [due])]
        refine ⟨?_, ?_, ?_⟩
        · rw [paidRest]
          simp [Nat.add_assoc]
        · rw [startRest]
          simp only [List.length_cons]
          omega
        · rw [pendingRest]
          simp
    · -- the bound is reached: nothing is paid
      have reached : length - self.startIdx = 0 := by omega
      simp [compactLoop, inside, reached]

/-- **What `compact` pays.** A claim pays the releases due at the front of the first
`length - startIdx` pending ones — of all of them when `startIdx = 0` — and leaves the others
pending in order. -/
theorem compact_ok (self : AddressStakingReleases) (blockNumber : Nat) (nonempty : 0 < self.length) :
    let paid := (self.pending.take (self.length - self.startIdx)).takeWhile
      (StakingRelease.due blockNumber)
    ∃ compacted, self.compact blockNumber =
        .ok ((paid.map StakingRelease.amount).sum, compacted.length, compacted) ∧
      compacted.pending = self.pending.drop paid.length := by
  obtain ⟨paidSum, -, pendingAfter⟩ :=
    compactLoop_eq blockNumber self.length self.length self 0 (by omega) (by omega)
  rcases looped : compactLoop blockNumber self.length self.length self 0 with ⟨compacted, amount⟩
  rw [looped] at paidSum pendingAfter
  refine ⟨compacted, ?_, pendingAfter⟩
  unfold compact
  rw [if_neg (by omega), looped]
  simp only at paidSum
  rw [paidSum, Nat.zero_add]

end AddressStakingReleases

namespace LibStakingReleaseQueue

open AddressStakingReleases

/-- `addNewRelease` at block `blockNumber`: the amount becomes claimable `lockingDuration` blocks
later. -/
def addNewRelease (lockingDuration : Nat) (releases : Address → AddressStakingReleases)
    (validator : Address) (amount blockNumber : Nat) : Address → AddressStakingReleases :=
  Function.update releases validator
    ((releases validator).push ⟨blockNumber + lockingDuration, amount⟩)

/-- `claim` at block `blockNumber`: compact the validator's ring and pay the amount. A ring left
empty is deleted, which clears its `length` and `startIdx` but not the mapping inside it. -/
def claim (releases : Address → AddressStakingReleases) (validator : Address) (blockNumber : Nat) :
    Except Revert (Nat × (Address → AddressStakingReleases)) := do
  let (amount, newLength, compacted) ← (releases validator).compact blockNumber
  let kept := if newLength = 0 then { compacted with length := 0, startIdx := 0 } else compacted
  pure (amount, Function.update releases validator kept)

/-- The stored queue refines the subnet actor's: read in order, a new release is appended to the
validator's list. -/
theorem addNewRelease_pending (lockingDuration : Nat) (releases : Address → AddressStakingReleases)
    (validator : Address) (amount blockNumber : Nat) :
    (fun v => (addNewRelease lockingDuration releases validator amount blockNumber v).pending) =
      (StakingReleaseQueue.addNewRelease ⟨lockingDuration, fun v => (releases v).pending⟩
        validator amount blockNumber).releases := by
  funext v
  by_cases same : v = validator
  · subst same
    simp [addNewRelease, StakingReleaseQueue.addNewRelease, push_pending]
  · simp [addNewRelease, StakingReleaseQueue.addNewRelease, Function.update_of_ne same]

/-- Two releases of validator `1` with a locking duration of `10`: one of `1` at block `0`, one of
`2` at block `5`, claimable at `10` and `15`. -/
def twoReleases : Address → AddressStakingReleases :=
  addNewRelease 10 (addNewRelease 10 (fun _ => AddressStakingReleases.empty) 1 1 0) 1 2 5

/-- A claim at block `12` pays the first release; a claim at block `20` then pays nothing, though
the second release matured at `15` and is still pending. -/
theorem claim_skips_matured_release :
    (do
        let (first, afterFirst) ← claim twoReleases 1 12
        let (second, afterSecond) ← claim afterFirst 1 20
        pure (first, second, (afterSecond 1).pending)) =
      (.ok (1, 0, [⟨15, 2⟩]) : Except Revert (Nat × Nat × List StakingRelease)) := by
  decide +kernel

end LibStakingReleaseQueue

end Ipc.Contracts
