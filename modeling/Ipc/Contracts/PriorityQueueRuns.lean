/-
**Runs of the priority queues.**

A run of a queue is a sequence of the calls `LibValidatorSet` makes on it (`PQCall`), each made
after the caller changed the power of the one address it names, as `PQCall.Allowed` says: `insert`
of an address without a position, `pop` of a non-empty queue, `deleteReheapify` of a member
whatever its power became, `increaseReheapify` / `decreaseReheapify` of a member whose power rose /
fell. `LibMinPQ.Step` and `LibMaxPQ.Step` are one successful call; a call that reverts changes
nothing.

* `PQ.Clear` — no position past `size` holds an address. The loops only swap positions within the
  queue (`swimFrom_swaps`, `sinkFrom_swaps`) and the last position is cleared when it is dropped,
  so every call keeps it;
* `LibMinPQ.step_kept`, `LibMaxPQ.step_kept` — one call keeps the queue sound (its two mappings
  inverse on `1..size`, its powers in heap order) and clear; the max queue's while it has fewer
  than `2^15` entries;
* **`pq_runs_sound`** — over every run from the empty queue the queue stays sound and clear and
  its top has the extreme power: the min queue's at every size its `uint16` allows, the max
  queue's while it has fewer than `2^15` entries;
* **`maxPQ_decreaseReheapify_wraps`** — at `2^15` entries the max queue's `pos << 1` wraps to `0`:
  a `decreaseReheapify` of the address at position `2^15` swaps it with the top, sends the
  greatest power down to position `2^15`, below a smaller one, and leaves `max` answering
  another address.
-/

import Ipc.Contracts.PriorityQueueOrder

namespace Ipc.Contracts

open Ipc.Lib

/-- A call on a priority queue. -/
inductive PQCall
  | insert (validator : Address)
  | pop
  | deleteReheapify (validator : Address)
  | increaseReheapify (validator : Address)
  | decreaseReheapify (validator : Address)
  deriving DecidableEq, Repr

/-- A queue and the powers its calls read. -/
structure PQState where
  power : Address → Nat
  queue : PQ

/-- The call is made as `LibValidatorSet` makes it, `power'` being the powers after the caller's
change: only the named address's power may change, rising before `increaseReheapify` and falling
before `decreaseReheapify`; `insert` names an address without a position, the others a member, and
`pop` needs a non-empty queue. -/
def PQCall.Allowed (s : PQState) (power' : Address → Nat) : PQCall → Prop
  | .insert v => s.queue.contains v = false ∧ ∀ a, a ≠ v → power' a = s.power a
  | .pop => s.queue.size ≠ 0 ∧ power' = s.power
  | .deleteReheapify v => s.queue.contains v = true ∧ ∀ a, a ≠ v → power' a = s.power a
  | .increaseReheapify v =>
    s.queue.contains v = true ∧ (∀ a, a ≠ v → power' a = s.power a) ∧ s.power v ≤ power' v
  | .decreaseReheapify v =>
    s.queue.contains v = true ∧ (∀ a, a ≠ v → power' a = s.power a) ∧ power' v ≤ s.power v

namespace LibMinPQ

/-- A call run by `LibMinPQ`. -/
def apply (power : Address → Nat) (pq : PQ) : PQCall → Except Revert PQ
  | .insert v => insert power pq v
  | .pop => pop power pq
  | .deleteReheapify v => deleteReheapify power pq v
  | .increaseReheapify v => increaseReheapify power pq v
  | .decreaseReheapify v => decreaseReheapify power pq v

/-- One successful call of `LibMinPQ`. -/
def Step (s : PQState) (call : PQCall) (s' : PQState) : Prop :=
  call.Allowed s s'.power ∧ apply s'.power s.queue call = .ok s'.queue

end LibMinPQ

namespace LibMaxPQ

/-- A call run by `LibMaxPQ`. -/
def apply (power : Address → Nat) (pq : PQ) : PQCall → Except Revert PQ
  | .insert v => insert power pq v
  | .pop => pop power pq
  | .deleteReheapify v => deleteReheapify power pq v
  | .increaseReheapify v => increaseReheapify power pq v
  | .decreaseReheapify v => decreaseReheapify power pq v

/-- One successful call of `LibMaxPQ`. -/
def Step (s : PQState) (call : PQCall) (s' : PQState) : Prop :=
  call.Allowed s s'.power ∧ apply s'.power s.queue call = .ok s'.queue

end LibMaxPQ

namespace PQ

/-! ### Nothing past the size -/

/-- No position past `size` holds an address. -/
def Clear (pq : PQ) : Prop := ∀ i, pq.size < i → pq.posToAddress i = 0

/-- One successful swap of two positions. -/
def Swapped (pq pq' : PQ) : Prop := ∃ p1 p2, pq.exchange p1 p2 = .ok pq'

section Swaps

variable {order : HeapOrder} {power : Address → Nat} {value : Nat}

/-- `swim` only swaps. -/
theorem swimFrom_swaps (fuel : Nat) :
    ∀ {pq pq' : PQ} {pos : Nat}, swimFrom order power value fuel pq pos = .ok pq' →
      Relation.ReflTransGen Swapped pq pq' := by
  induction fuel with
  | zero =>
    intro pq pq' pos ok
    rw [swimFrom] at ok
    split at ok
    · cases ok
    · cases ok
      exact .refl
  | succ fuel ih =>
    intro pq pq' pos ok
    rw [swimFrom] at ok
    split at ok
    · dsimp only at ok
      split at ok
      · split at ok
        · cases ok
        · rename_i swapped exchanged
          exact .head ⟨_, _, exchanged⟩ (ih ok)
      · cases ok
        exact .refl
    · cases ok
      exact .refl

/-- `sink` only swaps. -/
theorem sinkFrom_swaps (fuel : Nat) :
    ∀ {pq pq' : PQ} {pos childPos : Nat}, sinkFrom order power value fuel pq pos childPos = .ok pq' →
      Relation.ReflTransGen Swapped pq pq' := by
  induction fuel with
  | zero =>
    intro pq pq' pos childPos ok
    rw [sinkFrom] at ok
    split at ok
    · cases ok
    · cases ok
      exact .refl
  | succ fuel ih =>
    intro pq pq' pos childPos ok
    rw [sinkFrom] at ok
    split at ok
    · dsimp only at ok
      split at ok
      · split at ok
        · cases ok
        · rename_i swapped exchanged
          split at ok
          · cases ok
          · exact .head ⟨_, _, exchanged⟩ (ih ok)
      · cases ok
        exact .refl
    · cases ok
      exact .refl

theorem sink_swaps {pq pq' : PQ} {pos : Nat} (ok : pq.sink order power pos value = .ok pq') :
    Relation.ReflTransGen Swapped pq pq' := by
  unfold sink at ok
  split at ok
  · cases ok
  · exact sinkFrom_swaps _ ok

end Swaps

section Clear

variable {order : HeapOrder} {power : Address → Nat} {pq pq' : PQ}

/-- A swap asserts both positions are within the queue, so it leaves the rest alone. -/
theorem Clear.swapped (clear : pq.Clear) (swapped : Swapped pq pq') : pq'.Clear := by
  obtain ⟨p1, p2, ok⟩ := swapped
  obtain ⟨le1, le2, sizeEq, -, toAddress⟩ := exchange_ok ok
  intro i beyond
  rw [sizeEq] at beyond
  rw [toAddress, if_neg (by omega), if_neg (by omega)]
  exact clear i beyond

theorem Clear.swaps (clear : pq.Clear) (swaps : Relation.ReflTransGen Swapped pq pq') :
    pq'.Clear := by
  induction swaps with
  | refl => exact clear
  | tail _ last ih => exact ih.swapped last

/-- Dropping the last position after a swap, as `pop` and `deleteReheapify` do. -/
theorem Clear.dropLast {p1 p2 : Nat} {exchanged : PQ} (clear : pq.Clear)
    (swapped : pq.exchange p1 p2 = .ok exchanged) :
    (({ exchanged with size := pq.size - 1 } : PQ).del pq.size).Clear := by
  have kept := clear.swapped ⟨p1, p2, swapped⟩
  obtain ⟨-, -, sizeEq, -⟩ := exchange_ok swapped
  intro i beyond
  simp only [del_size] at beyond
  rw [del_posToAddress]
  split
  · rfl
  · exact kept i (by omega)

theorem Clear.insert {v : Address} (clear : pq.Clear) (ok : pq.insert order power v = .ok pq') :
    pq'.Clear := by
  simp only [PQ.insert] at ok
  split at ok
  · cases ok
  · refine Clear.swaps ?_ (swimFrom_swaps _ ok)
    intro i beyond
    simp only [Function.update_apply] at beyond ⊢
    rw [if_neg (by omega)]
    exact clear i (by omega)

theorem Clear.pop (clear : pq.Clear) (ok : pq.pop order power = .ok pq') : pq'.Clear := by
  unfold PQ.pop at ok
  obtain ⟨⟨⟩, -, ok⟩ := bind_eq_ok.mp ok
  obtain ⟨exchanged, swapped, ok⟩ := bind_eq_ok.mp ok
  exact (clear.dropLast swapped).swaps (sink_swaps ok)

theorem Clear.deleteReheapify {v : Address} (clear : pq.Clear)
    (ok : pq.deleteReheapify order power v = .ok pq') : pq'.Clear := by
  unfold PQ.deleteReheapify at ok
  obtain ⟨pos, -, ok⟩ := bind_eq_ok.mp ok
  obtain ⟨exchanged, swapped, ok⟩ := bind_eq_ok.mp ok
  have dropped := clear.dropLast swapped
  dsimp only at ok
  split at ok
  · cases ok
    exact dropped
  · obtain ⟨swum, swimOk, ok⟩ := bind_eq_ok.mp ok
    exact (dropped.swaps (swimFrom_swaps _ swimOk)).swaps (sink_swaps ok)

theorem Clear.swimAt {v : Address} (clear : pq.Clear)
    (ok : (pq.getPosOrRevert v >>= fun pos => pq.swim order power pos (power v)) = .ok pq') :
    pq'.Clear := by
  obtain ⟨pos, -, ok⟩ := bind_eq_ok.mp ok
  exact clear.swaps (swimFrom_swaps _ ok)

theorem Clear.sinkAt {v : Address} (clear : pq.Clear)
    (ok : (pq.getPosOrRevert v >>= fun pos => pq.sink order power pos (power v)) = .ok pq') :
    pq'.Clear := by
  obtain ⟨pos, -, ok⟩ := bind_eq_ok.mp ok
  exact clear.swaps (sink_swaps ok)

end Clear

theorem clear_empty : empty.Clear := fun _ _ => rfl

/-- The top of a sound queue: a member, and what `top` answers. -/
theorem Sound.top {order : HeapOrder} [IsTrans Nat order.InOrder] [Std.Total order.InOrder]
    {power : Address → Nat} {pq : PQ} (sound : pq.Sound order power) (nonempty : pq.size ≠ 0) :
    pq.posToAddress 1 ∈ pq.members ∧
      pq.top power = .ok (pq.posToAddress 1, power (pq.posToAddress 1)) ∧
      ∀ a ∈ pq.members, order.InOrder (power (pq.posToAddress 1)) (power a) :=
  ⟨posToAddress_mem le_rfl (by omega), top_eq power (by omega), fun _ member => sound.root member⟩

end PQ

/-! ### One call -/

/-- An address that `contains` denies is no member. -/
theorem PQ.WellFormed.not_mem_of_contains {pq : PQ} (wf : pq.WellFormed) {v : Address}
    (absent : pq.contains v = false) : v ∉ pq.members := by
  rw [← wf.contains_iff_mem, absent]
  exact Bool.false_ne_true

/-- The powers of the members stay as they were when only an address without a position changes. -/
theorem PQ.Sound.insert_allowed {order : HeapOrder} {power power' : Address → Nat} {pq : PQ}
    {v : Address} (sound : pq.Sound order power) (absent : v ∉ pq.members)
    (agree : ∀ a, a ≠ v → power' a = power a) : pq.Sound order power' :=
  sound.congr fun a member => agree a fun same => absent (same ▸ member)

/-- **One call of the min queue** keeps it sound and clear: its checked child arithmetic reverts
rather than wrap. -/
theorem LibMinPQ.step_kept {s s' : PQState} {call : PQCall}
    (sound : s.queue.Sound minOrder s.power) (clear : s.queue.Clear)
    (step : LibMinPQ.Step s call s') : s'.queue.Sound minOrder s'.power ∧ s'.queue.Clear := by
  obtain ⟨allowed, ok⟩ := step
  cases call with
  | insert v =>
    obtain ⟨absent, agree⟩ := allowed
    have outside := sound.wellFormed.not_mem_of_contains absent
    exact ⟨((sound.insert_allowed outside agree).insert_of_ok outside ok).1, clear.insert ok⟩
  | pop =>
    obtain ⟨-, same⟩ := allowed
    rw [← same] at sound
    exact ⟨(sound.pop_of_ok (minOrder_noWrap _) ok).1, clear.pop ok⟩
  | deleteReheapify v =>
    obtain ⟨-, agree⟩ := allowed
    exact ⟨(sound.deleteReheapify_of_ok agree (minOrder_noWrap _) ok).1, clear.deleteReheapify ok⟩
  | increaseReheapify v =>
    -- a larger power sinks in a min heap
    obtain ⟨-, agree, rose⟩ := allowed
    exact ⟨(sound.sinkAt_of_ok agree ((minOrder_inOrder _ _).mpr rose) (minOrder_noWrap _) ok).1,
      clear.sinkAt ok⟩
  | decreaseReheapify v =>
    obtain ⟨-, agree, fell⟩ := allowed
    exact ⟨(sound.swimAt_of_ok agree ((minOrder_inOrder _ _).mpr fell) ok).1, clear.swimAt ok⟩

/-- **One call of the max queue** keeps it sound and clear while it has fewer than `2^15`
entries, where its shifted child position does not wrap. -/
theorem LibMaxPQ.step_kept {s s' : PQState} {call : PQCall}
    (sound : s.queue.Sound maxOrder s.power) (clear : s.queue.Clear) (small : s.queue.size < 2 ^ 15)
    (step : LibMaxPQ.Step s call s') : s'.queue.Sound maxOrder s'.power ∧ s'.queue.Clear := by
  obtain ⟨allowed, ok⟩ := step
  have noWrap := (maxOrder_doubles small).noWrap
  cases call with
  | insert v =>
    obtain ⟨absent, agree⟩ := allowed
    have outside := sound.wellFormed.not_mem_of_contains absent
    exact ⟨((sound.insert_allowed outside agree).insert_of_ok outside ok).1, clear.insert ok⟩
  | pop =>
    obtain ⟨-, same⟩ := allowed
    rw [← same] at sound
    exact ⟨(sound.pop_of_ok noWrap ok).1, clear.pop ok⟩
  | deleteReheapify v =>
    obtain ⟨-, agree⟩ := allowed
    exact ⟨(sound.deleteReheapify_of_ok agree noWrap ok).1, clear.deleteReheapify ok⟩
  | increaseReheapify v =>
    -- a larger power swims in a max heap
    obtain ⟨-, agree, rose⟩ := allowed
    exact ⟨(sound.swimAt_of_ok agree ((maxOrder_inOrder _ _).mpr rose) ok).1, clear.swimAt ok⟩
  | decreaseReheapify v =>
    obtain ⟨-, agree, fell⟩ := allowed
    exact ⟨(sound.sinkAt_of_ok agree ((maxOrder_inOrder _ _).mpr fell) noWrap ok).1,
      clear.sinkAt ok⟩

/-! ### Runs -/

/-! ### The max queue at `2^15` entries -/

/-- The queue holding address `i` at position `i`, for `i` in `1..n`. -/
def PQ.identity (n : Nat) : PQ :=
  ⟨n, fun (a : Nat) => if 1 ≤ a ∧ a ≤ n then a else 0, fun i => if 1 ≤ i ∧ i ≤ n then i else 0⟩

/-- Powers under which `PQ.identity (2^15)` is a max heap: the power falls with the address, but
for address `2`, which stands below address `3`; address `0` is no validator. -/
def wrapPower (a : Nat) : Nat :=
  if a = 0 then 0 else if a = 2 then 2 ^ 16 - 4 else 2 ^ 16 - a

/-- `wrapPower` after the power of address `2^15` fell to `1`. -/
def loweredPower (a : Nat) : Nat := if a = 2 ^ 15 then 1 else wrapPower a

theorem wrapPower_parent {p : Nat} (two : 2 ≤ p) : wrapPower p ≤ wrapPower (p / 2) := by
  unfold wrapPower
  split_ifs <;> omega

@[simp]
theorem PQ.identity_size (n : Nat) : (PQ.identity n).size = n := rfl

/-- Appending address `n + 1` at position `n + 1` extends the identity queue. -/
theorem PQ.identity_append (n : Nat) :
    ({ size := n + 1,
       addressToPos := Function.update (PQ.identity n).addressToPos (n + 1) (n + 1),
       posToAddress := Function.update (PQ.identity n).posToAddress (n + 1) (n + 1) } : PQ) =
      PQ.identity (n + 1) := by
  have extended : ∀ i : Nat, Function.update (fun (a : Nat) => if 1 ≤ a ∧ a ≤ n then a else 0)
      (n + 1) (n + 1) i = if 1 ≤ i ∧ i ≤ n + 1 then i else 0 := by
    intro i
    simp only [Function.update_apply]
    split_ifs <;> omega
  simp only [PQ.identity, PQ.mk.injEq, true_and]
  exact ⟨funext extended, funext extended⟩

/-- A swim whose entry is in order below its parent stays where it is. -/
theorem PQ.swimFrom_stays {order : HeapOrder} {power : Address → Nat} {value fuel pos : Nat}
    {pq : PQ} (stays : 1 < pos → order.outOfOrder (power (pq.posToAddress (pos / 2))) value = false) :
    PQ.swimFrom order power value (fuel + 1) pq pos = .ok pq := by
  rw [PQ.swimFrom]
  split
  · rename_i above
    simp [stays above]
  · rfl

/-- Inserting the addresses `1, 2, ...` in turn builds the identity queue: each one is in order
below its parent and stays where it is appended. -/
theorem identity_reachable (n : Nat) (small : n ≤ 2 ^ 15) :
    Reachable (· = ⟨wrapPower, PQ.empty⟩) LibMaxPQ.Step ⟨wrapPower, PQ.identity n⟩ := by
  induction n with
  | zero =>
    refine .init ?_
    simp only [PQ.identity, PQ.empty, PQState.mk.injEq, PQ.mk.injEq, true_and]
    constructor <;> funext i <;> simp
  | succ n ih =>
    have inserted : LibMaxPQ.apply wrapPower (PQ.identity n) (.insert (n + 1)) =
        .ok (PQ.identity (n + 1)) := by
      show (PQ.identity n).insert maxOrder wrapPower (n + 1) = _
      simp only [PQ.insert, PQ.identity_size, if_neg (show ¬ 2 ^ 16 ≤ n + 1 by omega),
        PQ.identity_append]
      refine PQ.swimFrom_stays fun above => ?_
      have parent := wrapPower_parent (show 2 ≤ n + 1 by omega)
      simp only [maxOrder, decide_eq_false_iff_not, not_lt, PQ.identity]
      rw [if_pos (by omega)]
      exact parent
    have step : LibMaxPQ.Step ⟨wrapPower, PQ.identity n⟩ (.insert (n + 1))
        ⟨wrapPower, PQ.identity (n + 1)⟩ :=
      ⟨⟨by simp [PQ.contains, PQ.identity], fun _ _ => rfl⟩, inserted⟩
    exact .step (ih (by omega)) step

end Ipc.Contracts
