/-
**Indexed binary heaps of validators (`LibPQ`, `LibMinPQ`, `LibMaxPQ`).**

A queue stores its size and two mappings, from address to position and from position to address,
positions running over `1..size` and `0` meaning absent. The min queue keeps the active validators
with the least power on top, the max queue the waiting validators with the most. Both run one heap
algorithm, parameterised by a `HeapOrder`: when a parent's value and a child's value are out of
order (`firstValueLarger` against `firstValueSmaller`), and how the first child of a position is
computed — `pos * 2`, checked `uint16` arithmetic that reverts past `2^16 - 1`, in the min queue,
and `pos << 1`, a shift that wraps at `2^16`, in the max queue.

The loops of `swim` and `sink` are bounded by a fuel argument (`swim` by the position, as it halves
each round; `sink` by the size, as it at least doubles while the child position does not wrap); a
loop that would outrun its fuel reverts with `outOfGas`.
-/

import Ipc.Contracts.Basic

namespace Ipc.Contracts

/-- The inner data of a priority queue (`PQ`). -/
structure PQ where
  size : Nat
  addressToPos : Address → Nat
  posToAddress : Nat → Address

/-- When a parent and a child value are out of order, and how a first child position is made. -/
structure HeapOrder where
  outOfOrder : Nat → Nat → Bool
  firstChild : Nat → Except Revert Nat

namespace PQ

/-- The queue with nothing in it. -/
def empty : PQ := ⟨0, fun _ => 0, fun _ => 0⟩

/-- `contains`: the address has a position. -/
def contains (pq : PQ) (validator : Address) : Bool := pq.addressToPos validator ≠ 0

/-- `getPosOrRevert`. -/
def getPosOrRevert (pq : PQ) (validator : Address) : Except Revert Nat :=
  if pq.addressToPos validator = 0 then .error .pqDoesNotContainAddress
  else .ok (pq.addressToPos validator)

/-- `requireNotEmpty`. -/
def requireNotEmpty (pq : PQ) : Except Revert Unit :=
  if pq.size = 0 then .error .pqEmpty else .ok ()

/-- `del`: clear a position and the position of the address it held. -/
def del (pq : PQ) (pos : Nat) : PQ :=
  { pq with
    posToAddress := Function.update pq.posToAddress pos 0,
    addressToPos := Function.update pq.addressToPos (pq.posToAddress pos) 0 }

@[simp]
theorem del_size (pq : PQ) (pos : Nat) : (pq.del pos).size = pq.size := rfl

theorem del_addressToPos (pq : PQ) (pos : Nat) (a : Address) :
    (pq.del pos).addressToPos a = if a = pq.posToAddress pos then 0 else pq.addressToPos a := by
  simp only [del, Function.update_apply]

theorem del_posToAddress (pq : PQ) (pos i : Nat) :
    (pq.del pos).posToAddress i = if i = pos then 0 else pq.posToAddress i := by
  simp only [del, Function.update_apply]

theorem requireNotEmpty_eq_ok (pq : PQ) (u : Unit) : pq.requireNotEmpty = .ok u ↔ pq.size ≠ 0 := by
  unfold requireNotEmpty
  split <;> simp [*]

theorem getPosOrRevert_eq_ok (pq : PQ) (validator : Address) (pos : Nat) :
    pq.getPosOrRevert validator = .ok pos ↔
      pq.addressToPos validator ≠ 0 ∧ pos = pq.addressToPos validator := by
  unfold getPosOrRevert
  split
  · simp [*]
  · rename_i present
    rw [Except.ok.injEq]
    exact ⟨fun same => ⟨present, same.symm⟩, fun ⟨_, same⟩ => same.symm⟩

/-- `exchange`: swap the addresses at two positions, both asserted to be within the queue. -/
def exchange (pq : PQ) (pos1 pos2 : Nat) : Except Revert PQ :=
  if pos1 ≤ pq.size ∧ pos2 ≤ pq.size then
    let addr1 := pq.posToAddress pos1
    let addr2 := pq.posToAddress pos2
    .ok { pq with
      addressToPos := Function.update (Function.update pq.addressToPos addr1 pos2) addr2 pos1,
      posToAddress := Function.update (Function.update pq.posToAddress pos2 addr1) pos1 addr2 }
  else .error .panic

/-- The position holding the value that should be nearer the top, with that value
(`smallerPosition`, `largerPosition`). -/
def betterPosition (order : HeapOrder) (power : Address → Nat) (pq : PQ) (pos1 pos2 : Nat) :
    Nat × Nat :=
  let value1 := power (pq.posToAddress pos1)
  let value2 := power (pq.posToAddress pos2)
  if !order.outOfOrder value1 value2 then (pos1, value1) else (pos2, value2)

/-- The rounds of `swim`, with at most `fuel` rounds left: move the entry at `pos`, of value
`value`, above its parent while the two are out of order. -/
def swimFrom (order : HeapOrder) (power : Address → Nat) (value : Nat) :
    Nat → PQ → Nat → Except Revert PQ
  | fuel, pq, pos =>
    if 1 < pos then
      match fuel with
      | 0 => .error .outOfGas
      | fuel + 1 =>
        let parentPos := pos / 2
        if order.outOfOrder (power (pq.posToAddress parentPos)) value then
          match pq.exchange parentPos pos with
          | .error e => .error e
          | .ok pq => swimFrom order power value fuel pq parentPos
        else .ok pq
    else .ok pq

/-- `swim`: the position halves each round, so `pos` rounds are enough. -/
def swim (order : HeapOrder) (power : Address → Nat) (pq : PQ) (pos value : Nat) :
    Except Revert PQ :=
  swimFrom order power value pos pq pos

/-- The child to compare with in `sink`: the better of the two children when the second one is
within the queue, else the first. -/
def betterChild (order : HeapOrder) (power : Address → Nat) (pq : PQ) (childPos : Nat) :
    Nat × Nat :=
  if childPos < pq.size then betterPosition order power pq childPos (childPos + 1)
  else (childPos, power (pq.posToAddress childPos))

/-- The rounds of `sink`, with at most `fuel` rounds left: move the entry at `pos`, of value
`value`, below its better child while the two are out of order. -/
def sinkFrom (order : HeapOrder) (power : Address → Nat) (value : Nat) :
    Nat → PQ → Nat → Nat → Except Revert PQ
  | fuel, pq, pos, childPos =>
    if childPos ≤ pq.size then
      match fuel with
      | 0 => .error .outOfGas
      | fuel + 1 =>
        let child := betterChild order power pq childPos
        if order.outOfOrder value child.2 then
          match pq.exchange child.1 pos with
          | .error e => .error e
          | .ok pq =>
            match order.firstChild child.1 with
            | .error e => .error e
            | .ok next => sinkFrom order power value fuel pq child.1 next
        else .ok pq
    else .ok pq

/-- `sink`: while the child position doubles, `size` rounds are enough. -/
def sink (order : HeapOrder) (power : Address → Nat) (pq : PQ) (pos value : Nat) :
    Except Revert PQ :=
  match order.firstChild pos with
  | .error e => .error e
  | .ok childPos => sinkFrom order power value pq.size pq pos childPos

/-- `insert`: append the address at the next position (a `uint16` size) and swim it up. The caller
makes sure the address is not in the queue. -/
def insert (order : HeapOrder) (power : Address → Nat) (pq : PQ) (validator : Address) :
    Except Revert PQ :=
  let size := pq.size + 1
  if 2 ^ 16 ≤ size then .error .panic
  else
    swim order power
      { size := size,
        addressToPos := Function.update pq.addressToPos validator size,
        posToAddress := Function.update pq.posToAddress size validator }
      size (power validator)

/-- `pop`: move the last entry to the top, drop the former top, and sink the new top. -/
def pop (order : HeapOrder) (power : Address → Nat) (pq : PQ) : Except Revert PQ := do
  pq.requireNotEmpty
  let exchanged ← pq.exchange 1 pq.size
  let shrunk := ({ exchanged with size := pq.size - 1 } : PQ).del pq.size
  sink order power shrunk 1 (power (shrunk.posToAddress 1))

/-- `deleteReheapify`: move the last entry into the deleted position, then swim it and sink what
is there after the swim. -/
def deleteReheapify (order : HeapOrder) (power : Address → Nat) (pq : PQ) (validator : Address) :
    Except Revert PQ := do
  let pos ← pq.getPosOrRevert validator
  let exchanged ← pq.exchange pos pq.size
  let shrunk := ({ exchanged with size := pq.size - 1 } : PQ).del pq.size
  if pq.size = pos then return shrunk
  let swum ← swim order power shrunk pos (power (shrunk.posToAddress pos))
  sink order power swum pos (power (swum.posToAddress pos))

/-- The top entry and its value (`min`, `max`). -/
def top (power : Address → Nat) (pq : PQ) : Except Revert (Address × Nat) := do
  pq.requireNotEmpty
  return (pq.posToAddress 1, power (pq.posToAddress 1))

end PQ

/-- The order of `LibMinPQ`: a parent larger than its child is out of order (`firstValueLarger`),
and `childPos = pos * 2` is checked `uint16` arithmetic. -/
def minOrder : HeapOrder where
  outOfOrder v1 v2 := decide (v2 < v1)
  firstChild pos := if pos * 2 < 2 ^ 16 then .ok (pos * 2) else .error .panic

/-- The order of `LibMaxPQ`: a parent smaller than its child is out of order
(`firstValueSmaller`), and `childPos = pos << 1` wraps at `2^16`. -/
def maxOrder : HeapOrder where
  outOfOrder v1 v2 := decide (v1 < v2)
  firstChild pos := .ok ((pos <<< 1) % 2 ^ 16)

namespace LibMinPQ

/-- `LibMinPQ.insert`. -/
def insert (power : Address → Nat) (pq : PQ) (validator : Address) : Except Revert PQ :=
  pq.insert minOrder power validator

/-- `LibMinPQ.pop`. -/
def pop (power : Address → Nat) (pq : PQ) : Except Revert PQ := pq.pop minOrder power

/-- `LibMinPQ.deleteReheapify`. -/
def deleteReheapify (power : Address → Nat) (pq : PQ) (validator : Address) : Except Revert PQ :=
  pq.deleteReheapify minOrder power validator

/-- `LibMinPQ.increaseReheapify`: a larger value sinks in a min heap. -/
def increaseReheapify (power : Address → Nat) (pq : PQ) (validator : Address) :
    Except Revert PQ := do
  let pos ← pq.getPosOrRevert validator
  pq.sink minOrder power pos (power validator)

/-- `LibMinPQ.decreaseReheapify`: a smaller value swims in a min heap. -/
def decreaseReheapify (power : Address → Nat) (pq : PQ) (validator : Address) :
    Except Revert PQ := do
  let pos ← pq.getPosOrRevert validator
  pq.swim minOrder power pos (power validator)

/-- `LibMinPQ.min`. -/
def min (power : Address → Nat) (pq : PQ) : Except Revert (Address × Nat) := pq.top power

end LibMinPQ

namespace LibMaxPQ

/-- `LibMaxPQ.insert`. -/
def insert (power : Address → Nat) (pq : PQ) (validator : Address) : Except Revert PQ :=
  pq.insert maxOrder power validator

/-- `LibMaxPQ.pop`. -/
def pop (power : Address → Nat) (pq : PQ) : Except Revert PQ := pq.pop maxOrder power

/-- `LibMaxPQ.deleteReheapify`. -/
def deleteReheapify (power : Address → Nat) (pq : PQ) (validator : Address) : Except Revert PQ :=
  pq.deleteReheapify maxOrder power validator

/-- `LibMaxPQ.increaseReheapify`: a larger value swims in a max heap. -/
def increaseReheapify (power : Address → Nat) (pq : PQ) (validator : Address) :
    Except Revert PQ := do
  let pos ← pq.getPosOrRevert validator
  pq.swim maxOrder power pos (power validator)

/-- `LibMaxPQ.decreaseReheapify`: a smaller value sinks in a max heap. -/
def decreaseReheapify (power : Address → Nat) (pq : PQ) (validator : Address) :
    Except Revert PQ := do
  let pos ← pq.getPosOrRevert validator
  pq.sink maxOrder power pos (power validator)

/-- `LibMaxPQ.max`. -/
def max (power : Address → Nat) (pq : PQ) : Except Revert (Address × Nat) := pq.top power

end LibMaxPQ

end Ipc.Contracts
