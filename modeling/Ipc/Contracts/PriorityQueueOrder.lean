/-
**The priority queues keep heap order.**

Read through its positions, a queue is a binary heap of powers (`Ipc.Lib.BinaryHeap`): `values`
gives the power at each position, and a `HeapOrder` orders parent and child values by `InOrder`,
which is `≤` in the min queue and `≥` in the max queue (`minOrder_inOrder`, `maxOrder_inOrder`). A
queue is `Sound` when it is well formed and in heap order.

* `swimFrom_heap`, `sinkFrom_heap` — the loops of `swim` and `sink`, run from a heap ready to move
  the entry, succeed within their fuel and leave the heap ordered; a swim from a heap that is only
  loose at the entry leaves one ready to sink it (`swim_sinkReady`), which is how
  `deleteReheapify` goes on. For `sink` the two halves are apart: it returns (`sinkFrom_ok`), and
  what it returns is ordered (`sinkFrom_heap_of_ok`) also where its child arithmetic may revert;
* `Sound.insert`, `Sound.pop`, `Sound.deleteReheapify`, `Sound.swimAt`, `Sound.sinkAt` — the
  operations succeed on a sound queue and leave it sound, with the members they should have; the
  last three also after the power of one address changed (the deleted one, or the one moved up or
  down). Their `_of_ok` forms say the same of whatever an operation returns, and need only that the
  child arithmetic never wraps (`HeapOrder.NoWrap`);
* `Sound.root` — the top of a sound queue may stand above every member: it has the least power in
  the min queue and the greatest in the max queue.

`sink` returns when the first child of a position is its double (`HeapOrder.Doubles`), which both
queues' child arithmetic gives below `2^15` entries; what it returns is ordered when that
arithmetic never yields another position (`HeapOrder.NoWrap`), which the min queue's checked
`pos * 2` gives at every size (`minOrder_noWrap`).
-/

import Ipc.Contracts.PriorityQueueInvariant
import Ipc.Lib.BinaryHeap

namespace Ipc.Contracts

open Ipc.Lib Ipc.Lib.BinaryHeap

/-- A parent value `v1` and a child value `v2` are in order. -/
def HeapOrder.InOrder (order : HeapOrder) (v1 v2 : Nat) : Prop := order.outOfOrder v1 v2 = false

/-- The first child of every position up to `bound` is its double. -/
def HeapOrder.Doubles (order : HeapOrder) (bound : Nat) : Prop :=
  ∀ p, 1 ≤ p → p ≤ bound → order.firstChild p = .ok (2 * p)

theorem HeapOrder.Doubles.mono {order : HeapOrder} {bound bound' : Nat}
    (doubles : order.Doubles bound) (le : bound' ≤ bound) : order.Doubles bound' :=
  fun p positive inside => doubles p positive (Nat.le_trans inside le)

theorem HeapOrder.Doubles.childPositive {order : HeapOrder} {bound : Nat}
    (doubles : order.Doubles bound) : order.ChildPositive bound := by
  intro p c positive inside first
  rw [doubles p positive inside, Except.ok.injEq] at first
  omega

theorem HeapOrder.inOrder_iff (order : HeapOrder) (v1 v2 : Nat) :
    order.InOrder v1 v2 ↔ ¬ order.outOfOrder v1 v2 = true := by
  rw [HeapOrder.InOrder, Bool.not_eq_true]

theorem minOrder_inOrder (v1 v2 : Nat) : minOrder.InOrder v1 v2 ↔ v1 ≤ v2 := by
  simp [HeapOrder.InOrder, minOrder]

theorem maxOrder_inOrder (v1 v2 : Nat) : maxOrder.InOrder v1 v2 ↔ v2 ≤ v1 := by
  simp [HeapOrder.InOrder, maxOrder]

instance : IsTrans Nat minOrder.InOrder :=
  ⟨fun a b c first second => by rw [minOrder_inOrder] at *; omega⟩

instance : Std.Total minOrder.InOrder :=
  ⟨fun a b => by rw [minOrder_inOrder, minOrder_inOrder]; omega⟩

instance : IsTrans Nat maxOrder.InOrder :=
  ⟨fun a b c first second => by rw [maxOrder_inOrder] at *; omega⟩

instance : Std.Total maxOrder.InOrder :=
  ⟨fun a b => by rw [maxOrder_inOrder, maxOrder_inOrder]; omega⟩

/-- The checked `pos * 2` of the min queue does not revert below `2^15` entries. -/
theorem minOrder_doubles {bound : Nat} (small : bound < 2 ^ 15) : minOrder.Doubles bound := by
  intro p _ inside
  simp only [minOrder]
  rw [if_pos (by omega), Nat.mul_comm]

/-- The shift `pos << 1` of the max queue does not wrap below `2^15` entries. -/
theorem maxOrder_doubles {bound : Nat} (small : bound < 2 ^ 15) : maxOrder.Doubles bound := by
  intro p _ inside
  simp only [maxOrder, Except.ok.injEq]
  rw [Nat.shiftLeft_eq, Nat.mod_eq_of_lt (by omega)]
  omega

/-- Every first child computed for a position up to `bound` is its double: the child arithmetic
may revert, but never yields another position. -/
def HeapOrder.NoWrap (order : HeapOrder) (bound : Nat) : Prop :=
  ∀ p c, 1 ≤ p → p ≤ bound → order.firstChild p = .ok c → c = 2 * p

theorem HeapOrder.NoWrap.mono {order : HeapOrder} {bound bound' : Nat}
    (noWrap : order.NoWrap bound) (le : bound' ≤ bound) : order.NoWrap bound' :=
  fun p c positive inside first => noWrap p c positive (Nat.le_trans inside le) first

theorem HeapOrder.NoWrap.childPositive {order : HeapOrder} {bound : Nat}
    (noWrap : order.NoWrap bound) : order.ChildPositive bound := by
  intro p c positive inside first
  rw [noWrap p c positive inside first]
  omega

theorem HeapOrder.Doubles.noWrap {order : HeapOrder} {bound : Nat}
    (doubles : order.Doubles bound) : order.NoWrap bound := by
  intro p c positive inside first
  rw [doubles p positive inside, Except.ok.injEq] at first
  exact first.symm

/-- The checked `pos * 2` of the min queue reverts rather than wrap, at every size. -/
theorem minOrder_noWrap (bound : Nat) : minOrder.NoWrap bound := by
  intro p c _ _ first
  simp only [minOrder] at first
  split at first
  · rw [Except.ok.injEq] at first
    omega
  · cases first

namespace PQ

/-- The power at each position. -/
def values (power : Address → Nat) (pq : PQ) (i : Nat) : Nat := power (pq.posToAddress i)

/-- The powers at the positions `1..size` are in heap order. -/
def Heap (order : HeapOrder) (power : Address → Nat) (pq : PQ) : Prop :=
  Ordered order.InOrder (pq.values power) pq.size

/-- A well-formed queue in heap order. -/
structure Sound (order : HeapOrder) (power : Address → Nat) (pq : PQ) : Prop where
  wellFormed : pq.WellFormed
  heap : pq.Heap order power

theorem sound_empty (order : HeapOrder) (power : Address → Nat) : empty.Sound order power :=
  ⟨wellFormed_empty, fun i two inside => absurd inside (by simp [empty]; omega)⟩

/-! ### Positions and members -/

section Members

variable {pq : PQ}

theorem WellFormed.card_members (wf : pq.WellFormed) : pq.members.card = pq.size := by
  rw [members, Finset.card_image_of_injOn, Nat.card_Icc, Nat.add_sub_cancel]
  intro i hi j hj same
  rw [Finset.coe_Icc, Set.mem_Icc] at hi hj
  exact wf.posToAddress_injective hi.1 hi.2 hj.1 hj.2 same

theorem posToAddress_mem {i : Nat} (positive : 1 ≤ i) (inside : i ≤ pq.size) :
    pq.posToAddress i ∈ pq.members :=
  Finset.mem_image_of_mem _ (Finset.mem_Icc.mpr ⟨positive, inside⟩)

/-- A member's position: within `1..size`, and holding it. -/
theorem WellFormed.position (wf : pq.WellFormed) {a : Address} (member : a ∈ pq.members) :
    1 ≤ pq.addressToPos a ∧ pq.addressToPos a ≤ pq.size ∧ pq.posToAddress (pq.addressToPos a) = a := by
  have contained := (wf.mem_members a).mp member
  obtain ⟨inside, back⟩ := wf.posToAddress_addressToPos a contained
  exact ⟨by omega, inside, back⟩

/-- Off an address's position, the positions hold other addresses. -/
theorem WellFormed.posToAddress_ne (wf : pq.WellFormed) {a : Address} {i : Nat} (positive : 1 ≤ i) (inside : i ≤ pq.size) (other : i ≠ pq.addressToPos a) :
    pq.posToAddress i ≠ a := by
  intro same
  apply other
  rw [← same, wf.addressToPos_posToAddress i positive inside]

theorem WellFormed.contains_iff_mem (wf : pq.WellFormed) (a : Address) :
    pq.contains a = true ↔ a ∈ pq.members := by
  rw [contains_eq_true, wf.mem_members]

theorem getPosOrRevert_of_mem (wf : pq.WellFormed) {a : Address} (member : a ∈ pq.members) :
    pq.getPosOrRevert a = .ok (pq.addressToPos a) := by
  rw [getPosOrRevert_eq_ok]
  exact ⟨(wf.mem_members a).mp member, rfl⟩

theorem top_eq (power : Address → Nat) (nonempty : 1 ≤ pq.size) :
    pq.top power = .ok (pq.posToAddress 1, power (pq.posToAddress 1)) := by
  unfold top
  rw [(requireNotEmpty_eq_ok pq ()).mpr (by omega), ok_bind]
  rfl

/-- The members of a well-formed queue, read from its `addressToPos`. -/
theorem WellFormed.members_eq (wf : pq.WellFormed) {s : Finset Address}
    (contains : ∀ a, pq.addressToPos a ≠ 0 ↔ a ∈ s) : pq.members = s := by
  ext a
  rw [wf.mem_members, contains]

end Members

/-- What a swap does to the values: they are read through the swap of the two positions. -/
theorem exchange_values {pq pq' : PQ} {p1 p2 : Nat} (ok : pq.exchange p1 p2 = .ok pq')
    (power : Address → Nat) : pq'.values power = pq.values power ∘ Equiv.swap p1 p2 := by
  obtain ⟨-, -, -, -, toAddress⟩ := exchange_ok ok
  funext i
  rw [values, toAddress, Function.comp_apply, Equiv.swap_apply_def]
  split_ifs <;> rfl

theorem exchange_eq_ok {pq : PQ} {p1 p2 : Nat} (le1 : p1 ≤ pq.size) (le2 : p2 ≤ pq.size) :
    ∃ pq', pq.exchange p1 p2 = .ok pq' := by
  unfold exchange
  rw [if_pos ⟨le1, le2⟩]
  exact ⟨_, rfl⟩

/-- The child `sink` compares with: a child of `pos`, within the queue, that may stand above every
child of `pos`. -/
theorem betterChild_spec (order : HeapOrder) [IsTrans Nat order.InOrder] [Std.Total order.InOrder]
    (power : Address → Nat) {pq : PQ} {pos : Nat} (inside : 2 * pos ≤ pq.size) :
    ∃ c, betterChild order power pq (2 * pos) = (c, pq.values power c) ∧ c / 2 = pos ∧
      c ≤ pq.size ∧ ∀ c', 2 ≤ c' → c' ≤ pq.size → c' / 2 = pos →
        order.InOrder (pq.values power c) (pq.values power c') := by
  have children : ∀ c', c' / 2 = pos → c' = 2 * pos ∨ c' = 2 * pos + 1 := by omega
  unfold betterChild betterPosition
  by_cases second : 2 * pos < pq.size
  · rw [if_pos second]
    by_cases first : order.outOfOrder (pq.values power (2 * pos)) (pq.values power (2 * pos + 1))
    · refine ⟨2 * pos + 1, by simp only [values] at first ⊢; simp [first], by omega, by omega,
        fun c' _ _ child => ?_⟩
      rcases children c' child with rfl | rfl
      · exact (total_of order.InOrder _ _).resolve_right (by rwa [order.inOrder_iff, not_not])
      · exact refl_of order.InOrder _
    · refine ⟨2 * pos, by simp only [values] at first ⊢; simp [first], by omega, by omega,
        fun c' _ _ child => ?_⟩
      rcases children c' child with rfl | rfl
      · exact refl_of order.InOrder _
      · exact (order.inOrder_iff _ _).mpr first
  · rw [if_neg second]
    refine ⟨2 * pos, rfl, by omega, inside, fun c' _ within child => ?_⟩
    rcases children c' child with rfl | rfl
    · exact refl_of order.InOrder _
    · omega

/-! ### The loops -/

section Loops

variable {order : HeapOrder} [IsTrans Nat order.InOrder] [Std.Total order.InOrder]
  {power : Address → Nat} {value : Nat}

/-- **Swim.** From a heap ready to swim the entry at `pos`, with `pos` rounds of fuel, the loop
succeeds and leaves the heap ordered: each round swaps the entry with its parent (`swap_up`) or
stops where the two are in order. -/
theorem swimFrom_heap (fuel : Nat) :
    ∀ {pq : PQ} {pos : Nat}, 1 ≤ pos → pos ≤ pq.size → pos ≤ fuel →
      SwimReady order.InOrder (pq.values power) pq.size pos → pq.values power pos = value →
      ∃ pq', PQ.swimFrom order power value fuel pq pos = .ok pq' ∧ pq'.size = pq.size ∧
        pq'.Heap order power := by
  induction fuel with
  | zero =>
    intro pq pos positive _ enough
    omega
  | succ fuel ih =>
    intro pq pos positive inside enough ready atPos
    rw [PQ.swimFrom]
    by_cases below : 1 < pos
    · rw [if_pos below]
      by_cases out : order.outOfOrder (power (pq.posToAddress (pos / 2))) value
      · obtain ⟨swapped, exchanged⟩ := exchange_eq_ok (show pos / 2 ≤ pq.size by omega) inside
        obtain ⟨-, -, sizeEq, -⟩ := exchange_ok exchanged
        have moved := ready.swap_up (by omega) inside
          (by rw [order.inOrder_iff, atPos, not_not]; exact out)
        rw [← exchange_values exchanged, ← sizeEq] at moved
        have atParent : swapped.values power (pos / 2) = value := by
          rw [exchange_values exchanged, Function.comp_apply, Equiv.swap_apply_left, atPos]
        simp only [if_pos out, exchanged]
        obtain ⟨pq', swum, size, heap⟩ := ih (by omega) (by omega) (by omega) moved atParent
        exact ⟨pq', swum, size.trans sizeEq, heap⟩
      · simp only [if_neg out]
        refine ⟨pq, rfl, rfl, ready.finish fun _ _ => ?_⟩
        rwa [order.inOrder_iff, atPos]
    · rw [if_neg below]
      exact ⟨pq, rfl, rfl, ready.finish fun two _ => absurd two (by omega)⟩

/-- A swim from a heap that is only loose at `pos` leaves a heap ready to sink at `pos`: either
the first round swaps, and the rest of the swim orders the heap, or it stops at once with the
entry in order below its parent. -/
theorem swim_sinkReady {pq : PQ} {pos : Nat} (positive : 1 ≤ pos) (inside : pos ≤ pq.size)
    (loose : LooseAt order.InOrder (pq.values power) pq.size pos) :
    ∃ pq', pq.swim order power pos (pq.values power pos) = .ok pq' ∧ pq'.size = pq.size ∧
      SinkReady order.InOrder (pq'.values power) pq'.size pos := by
  obtain ⟨fuel, rfl⟩ : ∃ fuel, pos = fuel + 1 := ⟨pos - 1, by omega⟩
  unfold PQ.swim
  rw [PQ.swimFrom]
  by_cases below : 1 < fuel + 1
  · rw [if_pos below]
    by_cases out : order.outOfOrder (power (pq.posToAddress ((fuel + 1) / 2)))
        (pq.values power (fuel + 1))
    · obtain ⟨swapped, exchanged⟩ :=
        exchange_eq_ok (show (fuel + 1) / 2 ≤ pq.size by omega) inside
      obtain ⟨-, -, sizeEq, -⟩ := exchange_ok exchanged
      have moved := loose.swap_up (by omega) inside (by rw [order.inOrder_iff, not_not]; exact out)
      rw [← exchange_values exchanged, ← sizeEq] at moved
      have atParent : swapped.values power ((fuel + 1) / 2) = pq.values power (fuel + 1) := by
        rw [exchange_values exchanged, Function.comp_apply, Equiv.swap_apply_left]
      simp only [if_pos out, exchanged]
      obtain ⟨pq', swum, size, heap⟩ :=
        swimFrom_heap fuel (by omega) (by omega) (by omega) moved atParent
      exact ⟨pq', swum, size.trans sizeEq, heap.sinkReady _⟩
    · simp only [if_neg out]
      exact ⟨pq, rfl, rfl, { loose with above := fun _ _ => (order.inOrder_iff _ _).mpr out }⟩
  · rw [if_neg below]
    exact ⟨pq, rfl, rfl, { loose with above := fun two _ => absurd two (by omega) }⟩

/-- **Sink returns.** With more fuel than rounds (the child position at least doubles each round)
and child arithmetic that doubles, the loop returns. -/
theorem sinkFrom_ok (fuel : Nat) :
    ∀ {pq : PQ} {pos : Nat}, order.Doubles pq.size → 1 ≤ pos → pq.size < pos + fuel →
      ∃ pq', PQ.sinkFrom order power value fuel pq pos (2 * pos) = .ok pq' := by
  induction fuel with
  | zero =>
    intro pq pos _ _ enough
    rw [PQ.sinkFrom, if_neg (by omega)]
    exact ⟨pq, rfl⟩
  | succ fuel ih =>
    intro pq pos doubles positive enough
    rw [PQ.sinkFrom]
    by_cases hasChild : 2 * pos ≤ pq.size
    · rw [if_pos hasChild]
      obtain ⟨c, better, child, cInside, -⟩ := betterChild_spec order power hasChild
      by_cases out : order.outOfOrder value (pq.values power c)
      · obtain ⟨swapped, exchanged⟩ := exchange_eq_ok cInside (show pos ≤ pq.size by omega)
        obtain ⟨-, -, sizeEq, -⟩ := exchange_ok exchanged
        simp only [better, if_pos out, exchanged, doubles c (by omega) cInside]
        exact ih (sizeEq ▸ doubles) (by omega) (by omega)
      · simp only [better, if_neg out]
        exact ⟨pq, rfl⟩
    · rw [if_neg hasChild]
      exact ⟨pq, rfl⟩

/-- **Sink orders.** Whatever the loop returns from a heap ready to sink the entry at `pos` is
ordered, as long as the child arithmetic never wraps: each round swaps the entry with its better
child (`swap_down`) or stops where it may stand above both, and a loop that runs out of fuel, or
whose arithmetic reverts, returns nothing. -/
theorem sinkFrom_heap_of_ok (fuel : Nat) :
    ∀ {pq pq' : PQ} {pos : Nat}, order.NoWrap pq.size → 1 ≤ pos →
      SinkReady order.InOrder (pq.values power) pq.size pos → pq.values power pos = value →
      PQ.sinkFrom order power value fuel pq pos (2 * pos) = .ok pq' → pq'.Heap order power := by
  induction fuel with
  | zero =>
    intro pq pq' pos _ _ ready _ ok
    rw [PQ.sinkFrom] at ok
    split at ok
    · cases ok
    · cases ok
      exact ready.finish fun c' _ within child => absurd within (by omega)
  | succ fuel ih =>
    intro pq pq' pos noWrap positive ready atPos ok
    rw [PQ.sinkFrom] at ok
    by_cases hasChild : 2 * pos ≤ pq.size
    · obtain ⟨c, better, child, cInside, best⟩ := betterChild_spec order power hasChild
      simp only [if_pos hasChild, better] at ok
      by_cases out : order.outOfOrder value (pq.values power c)
      · obtain ⟨swapped, exchanged⟩ := exchange_eq_ok cInside (show pos ≤ pq.size by omega)
        obtain ⟨-, -, sizeEq, -⟩ := exchange_ok exchanged
        have moved := ready.swap_down positive child cInside best
          (by rw [order.inOrder_iff, atPos, not_not]; exact out)
        rw [← exchange_values exchanged, ← sizeEq] at moved
        have atChild : swapped.values power c = value := by
          rw [exchange_values exchanged, Function.comp_apply, Equiv.swap_apply_left, atPos]
        simp only [if_pos out, exchanged] at ok
        split at ok
        · cases ok
        · rename_i next first
          rw [noWrap c next (by omega) cInside first] at ok
          exact ih (sizeEq ▸ noWrap) (by omega) moved atChild ok
      · simp only [if_neg out, Except.ok.injEq] at ok
        subst ok
        refine ready.finish fun c' two within sibling => ?_
        have settled : order.InOrder (pq.values power pos) (pq.values power c) := by
          rwa [order.inOrder_iff, atPos]
        exact trans_of order.InOrder settled (best c' two within sibling)
    · simp only [if_neg hasChild, Except.ok.injEq] at ok
      subst ok
      exact ready.finish fun c' _ within child => absurd within (by omega)

/-- **Sink.** From a heap ready to sink the entry at `pos`, with more fuel than rounds and child
arithmetic that doubles, the loop succeeds and leaves the heap ordered. -/
theorem sinkFrom_heap (fuel : Nat) :
    ∀ {pq : PQ} {pos : Nat}, order.Doubles pq.size → 1 ≤ pos → pq.size < pos + fuel →
      SinkReady order.InOrder (pq.values power) pq.size pos → pq.values power pos = value →
      ∃ pq', PQ.sinkFrom order power value fuel pq pos (2 * pos) = .ok pq' ∧
        pq'.Heap order power := by
  intro pq pos doubles positive enough ready atPos
  have returns : ∃ pq', PQ.sinkFrom order power value fuel pq pos (2 * pos) = .ok pq' :=
    sinkFrom_ok fuel doubles positive enough
  obtain ⟨pq', ok⟩ := returns
  exact ⟨pq', ok, sinkFrom_heap_of_ok fuel doubles.noWrap positive ready atPos ok⟩

end Loops

/-- Only the powers of the members matter. -/
theorem Sound.congr {order : HeapOrder} {power power0 : Address → Nat} {pq : PQ}
    (sound : pq.Sound order power0)
    (agree : ∀ a ∈ pq.members, power a = power0 a) : pq.Sound order power :=
  ⟨sound.wellFormed, sound.heap.congr fun _ positive inside =>
    agree _ (posToAddress_mem positive inside)⟩

/-! ### The operations -/

section Operations

variable {order : HeapOrder} [IsTrans Nat order.InOrder] [Std.Total order.InOrder]
  {power : Address → Nat} {pq : PQ}

/-- **Top.** The address at position `1` may stand above every member. -/
theorem Sound.root (sound : pq.Sound order power) {a : Address} (member : a ∈ pq.members) :
    order.InOrder (power (pq.posToAddress 1)) (power a) := by
  obtain ⟨positive, inside, back⟩ := sound.wellFormed.position member
  have top := sound.heap.root _ positive inside
  rwa [values, values, back] at top

/-- The top of a sound min queue has the least power. -/
theorem Sound.top_le {pq : PQ} {power : Address → Nat} (sound : pq.Sound minOrder power)
    {a : Address} (member : a ∈ pq.members) : power (pq.posToAddress 1) ≤ power a :=
  (minOrder_inOrder _ _).mp (sound.root member)

/-- The top of a sound max queue has the greatest power. -/
theorem Sound.le_top {pq : PQ} {power : Address → Nat} (sound : pq.Sound maxOrder power)
    {a : Address} (member : a ∈ pq.members) : power a ≤ power (pq.posToAddress 1) :=
  (maxOrder_inOrder _ _).mp (sound.root member)

/-- **Insert.** An address without a position, appended at `size + 1` and swum up, leaves a sound
queue with the address as its one new member. -/
theorem Sound.insert (sound : pq.Sound order power) {v : Address} (absent : v ∉ pq.members)
    (room : pq.size + 1 < 2 ^ 16) :
    ∃ pq', pq.insert order power v = .ok pq' ∧ pq'.Sound order power ∧
      pq'.members = Insert.insert v pq.members := by
  have free : pq.addressToPos v = 0 := by
    by_contra contained
    exact absent ((sound.wellFormed.mem_members v).mpr contained)
  let appended : PQ := ⟨pq.size + 1, Function.update pq.addressToPos v (pq.size + 1),
    Function.update pq.posToAddress (pq.size + 1) v⟩
  have ready : SwimReady order.InOrder (appended.values power) (pq.size + 1) (pq.size + 1) :=
    sound.heap.swimReady_append fun i _ inside => by
      simp only [appended, values, Function.update_of_ne (show i ≠ pq.size + 1 by omega)]
  have atEnd : appended.values power (pq.size + 1) = power v := by
    simp only [appended, values, Function.update_self]
  obtain ⟨pq', swum, -, heap⟩ :=
    swimFrom_heap (pq.size + 1) (Nat.le_add_left 1 pq.size) le_rfl le_rfl ready atEnd
  have ok : pq.insert order power v = .ok pq' := by
    unfold PQ.insert
    rw [if_neg (show ¬ 2 ^ 16 ≤ pq.size + 1 by omega)]
    exact swum
  obtain ⟨wf, -, contains⟩ := sound.wellFormed.insert free ok
  refine ⟨pq', ok, ⟨wf, heap⟩, wf.members_eq fun a => ?_⟩
  rw [contains, Finset.mem_insert, ← sound.wellFormed.mem_members, or_comm]

/-- `insert`, as far as it goes: what it returns is sound, with the address as its one new
member. -/
theorem Sound.insert_of_ok {pq' : PQ} (sound : pq.Sound order power) {v : Address}
    (absent : v ∉ pq.members) (ok : pq.insert order power v = .ok pq') :
    pq'.Sound order power ∧ pq'.members = Insert.insert v pq.members := by
  -- `insert` reverts where a `uint16` size would overflow
  have room : pq.size + 1 < 2 ^ 16 := by
    simp only [PQ.insert] at ok
    split at ok
    · cases ok
    · omega
  obtain ⟨pq'', ok', sound', members⟩ := sound.insert absent room
  rw [ok, Except.ok.injEq] at ok'
  subst ok'
  exact ⟨sound', members⟩

omit [Std.Total order.InOrder] in
/-- After `pop`'s swap of the top with the last entry and the removal of the last position, the
heap is ready to sink the new top. -/
theorem Heap.pop_sinkReady {exchanged : PQ} (heap : pq.Heap order power)
    (swapped : pq.exchange 1 pq.size = .ok exchanged) :
    SinkReady order.InOrder
      ((({ exchanged with size := pq.size - 1 } : PQ).del pq.size).values power) (pq.size - 1) 1 := by
  obtain ⟨-, -, -, -, toAddress⟩ := exchange_ok swapped
  have kept : ∀ i, 1 ≤ i → i ≤ pq.size - 1 → i ≠ 1 →
      (({ exchanged with size := pq.size - 1 } : PQ).del pq.size).values power i =
        pq.values power i := by
    intro i _ inside other
    simp only [values, del_posToAddress, if_neg (show i ≠ pq.size by omega), toAddress,
      if_neg other]
  exact { (heap.mono (Nat.sub_le pq.size 1)).looseAt_of_agree kept with
    above := fun two _ => absurd two (by omega) }

/-- `pop`, as far as it goes: what it returns is sound without the former top. -/
theorem Sound.pop_of_ok {pq' : PQ} (sound : pq.Sound order power) (noWrap : order.NoWrap pq.size)
    (ok : pq.pop order power = .ok pq') :
    pq'.Sound order power ∧ pq'.members = pq.members.erase (pq.posToAddress 1) := by
  obtain ⟨wf, -, contains⟩ := sound.wellFormed.pop noWrap.childPositive ok
  refine ⟨⟨wf, ?_⟩, wf.members_eq fun a => ?_⟩
  · unfold PQ.pop at ok
    obtain ⟨⟨⟩, nonempty, ok⟩ := bind_eq_ok.mp ok
    obtain ⟨exchanged, swapped, ok⟩ := bind_eq_ok.mp ok
    rw [requireNotEmpty_eq_ok] at nonempty
    dsimp only at ok
    unfold PQ.sink at ok
    split at ok
    · cases ok
    · rename_i childPos first
      rw [noWrap 1 childPos le_rfl (by omega) first] at ok
      exact sinkFrom_heap_of_ok _ (noWrap.mono (Nat.sub_le pq.size 1)) le_rfl
        (sound.heap.pop_sinkReady swapped) rfl ok
  · rw [contains, Finset.mem_erase, ← sound.wellFormed.mem_members, and_comm]

/-- **Pop.** Moving the last entry to the top and sinking it leaves a sound queue without the
former top. -/
theorem Sound.pop (sound : pq.Sound order power) (nonempty : 1 ≤ pq.size)
    (doubles : order.Doubles pq.size) :
    ∃ pq', pq.pop order power = .ok pq' ∧ pq'.Sound order power ∧
      pq'.members = pq.members.erase (pq.posToAddress 1) := by
  obtain ⟨exchanged, swapped⟩ := exchange_eq_ok nonempty (le_refl pq.size)
  have returns : ∃ pq', pq.pop order power = .ok pq' := by
    unfold PQ.pop
    rw [(requireNotEmpty_eq_ok pq ()).mpr (by omega), ok_bind, swapped, ok_bind]
    unfold PQ.sink
    rw [doubles 1 le_rfl nonempty]
    refine sinkFrom_ok _ (doubles.mono (Nat.sub_le pq.size 1)) le_rfl ?_
    simp only [del_size]
    omega
  obtain ⟨pq', ok⟩ := returns
  exact ⟨pq', ok, sound.pop_of_ok doubles.noWrap ok⟩

/-- Off the deleted position, `deleteReheapify`'s swap with the last entry and the removal of the
last position leave every entry where it stood, none of them the deleted address. -/
theorem WellFormed.delete_kept {power0 : Address → Nat} {exchanged : PQ} (wf : pq.WellFormed)
    {v : Address} (agree : ∀ a, a ≠ v → power a = power0 a)
    (swapped : pq.exchange (pq.addressToPos v) pq.size = .ok exchanged) :
    ∀ i, 1 ≤ i → i ≤ pq.size - 1 → i ≠ pq.addressToPos v →
      (({ exchanged with size := pq.size - 1 } : PQ).del pq.size).values power i =
        pq.values power0 i := by
  obtain ⟨-, -, -, -, toAddress⟩ := exchange_ok swapped
  intro i low high other
  simp only [values, del_posToAddress, if_neg (show i ≠ pq.size by omega), toAddress,
    if_neg other]
  exact agree _ (wf.posToAddress_ne low (by omega) other)

/-- `deleteReheapify`, as far as it goes: what it returns is sound without the deleted address,
also when that address's power changed, as no position holds it any more. -/
theorem Sound.deleteReheapify_of_ok {power0 : Address → Nat} {pq' : PQ}
    (sound : pq.Sound order power0) {v : Address} (agree : ∀ a, a ≠ v → power a = power0 a)
    (noWrap : order.NoWrap pq.size) (ok : pq.deleteReheapify order power v = .ok pq') :
    pq'.Sound order power ∧ pq'.members = pq.members.erase v := by
  obtain ⟨contained, wf, -, contains⟩ := sound.wellFormed.deleteReheapify noWrap.childPositive ok
  refine ⟨⟨wf, ?_⟩, wf.members_eq fun a => ?_⟩
  · have member := (sound.wellFormed.mem_members v).mpr contained
    obtain ⟨positive, inside, _⟩ := sound.wellFormed.position member
    unfold PQ.deleteReheapify at ok
    rw [getPosOrRevert_of_mem sound.wellFormed member, ok_bind] at ok
    obtain ⟨exchanged, swapped, ok⟩ := bind_eq_ok.mp ok
    have kept := sound.wellFormed.delete_kept agree swapped
    have heap := sound.heap.mono (Nat.sub_le pq.size 1)
    dsimp only at ok
    by_cases last : pq.size = pq.addressToPos v
    · -- the deleted address was last: nothing moves
      rw [if_pos last] at ok
      cases ok
      exact heap.congr fun i low high => kept i low high (by omega)
    · rw [if_neg last] at ok
      obtain ⟨swum, swimOk, swumSize, ready⟩ :=
        swim_sinkReady positive (show pq.addressToPos v ≤ pq.size - 1 by omega)
          (heap.looseAt_of_agree kept)
      obtain ⟨swum', swimOk', ok⟩ := bind_eq_ok.mp ok
      obtain rfl : swum' = swum := Except.ok.inj (swimOk'.symm.trans swimOk)
      unfold PQ.sink at ok
      split at ok
      · cases ok
      · rename_i childPos first
        rw [noWrap _ childPos positive inside first] at ok
        exact sinkFrom_heap_of_ok _ (noWrap.mono (by rw [swumSize]; exact Nat.sub_le pq.size 1))
          positive ready rfl ok
  · rw [contains, Finset.mem_erase, ← sound.wellFormed.mem_members, and_comm]

/-- **Delete.** Moving the last entry into the deleted address's position, then swimming and
sinking it, leaves a sound queue without that address, also when its power changed. -/
theorem Sound.deleteReheapify {power0 : Address → Nat} (sound : pq.Sound order power0)
    {v : Address} (agree : ∀ a, a ≠ v → power a = power0 a) (member : v ∈ pq.members)
    (doubles : order.Doubles pq.size) :
    ∃ pq', pq.deleteReheapify order power v = .ok pq' ∧ pq'.Sound order power ∧
      pq'.members = pq.members.erase v := by
  obtain ⟨positive, inside, _⟩ := sound.wellFormed.position member
  obtain ⟨exchanged, swapped⟩ := exchange_eq_ok inside (le_refl pq.size)
  have returns : ∃ pq', pq.deleteReheapify order power v = .ok pq' := by
    unfold PQ.deleteReheapify
    rw [getPosOrRevert_of_mem sound.wellFormed member, ok_bind, swapped, ok_bind]
    by_cases last : pq.size = pq.addressToPos v
    · rw [if_pos last]
      exact ⟨_, rfl⟩
    · rw [if_neg last]
      obtain ⟨swum, swimOk, swumSize, -⟩ :=
        swim_sinkReady positive (show pq.addressToPos v ≤ pq.size - 1 by omega)
          ((sound.heap.mono (Nat.sub_le pq.size 1)).looseAt_of_agree
            (sound.wellFormed.delete_kept agree swapped))
      have sinks : ∃ pq', swum.sink order power (pq.addressToPos v)
          (power (swum.posToAddress (pq.addressToPos v))) = .ok pq' := by
        unfold PQ.sink
        rw [doubles _ positive inside]
        refine sinkFrom_ok _ (doubles.mono (by rw [swumSize]; exact Nat.sub_le pq.size 1))
          positive ?_
        omega
      obtain ⟨pq', sunk⟩ := sinks
      exact ⟨pq', bind_eq_ok.mpr ⟨swum, swimOk, sunk⟩⟩
  obtain ⟨pq', ok⟩ := returns
  exact ⟨pq', ok, sound.deleteReheapify_of_ok agree doubles.noWrap ok⟩

/-- **Moved up.** A member whose power moved toward the top, swum from its position, leaves a
sound queue with the same members. -/
theorem Sound.swimAt {power0 : Address → Nat} (sound : pq.Sound order power0) {v : Address}
    (agree : ∀ a, a ≠ v → power a = power0 a) (toward : order.InOrder (power v) (power0 v))
    (member : v ∈ pq.members) :
    ∃ pq', (pq.getPosOrRevert v >>= fun pos => pq.swim order power pos (power v)) = .ok pq' ∧
      pq'.Sound order power ∧ pq'.members = pq.members := by
  obtain ⟨positive, inside, back⟩ := sound.wellFormed.position member
  have kept : ∀ i, 1 ≤ i → i ≤ pq.size → i ≠ pq.addressToPos v →
      pq.values power i = pq.values power0 i :=
    fun i low high other => agree _ (sound.wellFormed.posToAddress_ne low high other)
  have atV : pq.values power (pq.addressToPos v) = power v := by rw [values, back]
  have ready := sound.heap.swimReady_of_agree kept (by rw [atV, values, back]; exact toward)
  obtain ⟨pq', swum, -, heap⟩ := swimFrom_heap (pq.addressToPos v) positive inside le_rfl ready atV
  rw [getPosOrRevert_of_mem sound.wellFormed member, ok_bind]
  have moved := sound.wellFormed.swim swum
  exact ⟨pq', swum, ⟨moved.wellFormed, heap⟩, members_eq_of_permutes sound.wellFormed moved⟩

/-- `swimAt`, as far as it goes: the swim of an address without a position reverts. -/
theorem Sound.swimAt_of_ok {power0 : Address → Nat} {pq' : PQ} (sound : pq.Sound order power0)
    {v : Address} (agree : ∀ a, a ≠ v → power a = power0 a)
    (toward : order.InOrder (power v) (power0 v))
    (ok : (pq.getPosOrRevert v >>= fun pos => pq.swim order power pos (power v)) = .ok pq') :
    pq'.Sound order power ∧ pq'.members = pq.members := by
  obtain ⟨pos, found, -⟩ := bind_eq_ok.mp ok
  obtain ⟨contained, -⟩ := (getPosOrRevert_eq_ok pq v pos).mp found
  obtain ⟨pq'', ok', sound', members⟩ :=
    sound.swimAt agree toward ((sound.wellFormed.mem_members v).mpr contained)
  rw [ok, Except.ok.injEq] at ok'
  subst ok'
  exact ⟨sound', members⟩

/-- `sinkAt`, as far as it goes: what the sink of a member whose power moved toward the bottom
returns is sound with the same members. -/
theorem Sound.sinkAt_of_ok {power0 : Address → Nat} {pq' : PQ} (sound : pq.Sound order power0)
    {v : Address} (agree : ∀ a, a ≠ v → power a = power0 a)
    (away : order.InOrder (power0 v) (power v)) (noWrap : order.NoWrap pq.size)
    (ok : (pq.getPosOrRevert v >>= fun pos => pq.sink order power pos (power v)) = .ok pq') :
    pq'.Sound order power ∧ pq'.members = pq.members := by
  obtain ⟨pos, found, ok⟩ := bind_eq_ok.mp ok
  obtain ⟨contained, rfl⟩ := (getPosOrRevert_eq_ok pq v pos).mp found
  obtain ⟨positive, inside, back⟩ :=
    sound.wellFormed.position ((sound.wellFormed.mem_members v).mpr contained)
  have moved := sound.wellFormed.sink noWrap.childPositive positive ok
  refine ⟨⟨moved.wellFormed, ?_⟩, members_eq_of_permutes sound.wellFormed moved⟩
  have kept : ∀ i, 1 ≤ i → i ≤ pq.size → i ≠ pq.addressToPos v →
      pq.values power i = pq.values power0 i :=
    fun i low high other => agree _ (sound.wellFormed.posToAddress_ne low high other)
  have atV : pq.values power (pq.addressToPos v) = power v := by rw [values, back]
  have ready := sound.heap.sinkReady_of_agree kept (by rw [atV, values, back]; exact away)
  unfold PQ.sink at ok
  split at ok
  · cases ok
  · rename_i childPos first
    rw [noWrap _ childPos positive inside first] at ok
    exact sinkFrom_heap_of_ok _ noWrap positive ready atV ok

/-- **Moved down.** A member whose power moved toward the bottom, sunk from its position, leaves a
sound queue with the same members. -/
theorem Sound.sinkAt {power0 : Address → Nat} (sound : pq.Sound order power0) {v : Address}
    (agree : ∀ a, a ≠ v → power a = power0 a) (away : order.InOrder (power0 v) (power v))
    (member : v ∈ pq.members) (doubles : order.Doubles pq.size) :
    ∃ pq', (pq.getPosOrRevert v >>= fun pos => pq.sink order power pos (power v)) = .ok pq' ∧
      pq'.Sound order power ∧ pq'.members = pq.members := by
  obtain ⟨positive, inside, _⟩ := sound.wellFormed.position member
  have returns : ∃ pq',
      (pq.getPosOrRevert v >>= fun pos => pq.sink order power pos (power v)) = .ok pq' := by
    rw [getPosOrRevert_of_mem sound.wellFormed member, ok_bind]
    unfold PQ.sink
    rw [doubles _ positive inside]
    refine sinkFrom_ok _ doubles positive ?_
    omega
  obtain ⟨pq', ok⟩ := returns
  exact ⟨pq', ok, sound.sinkAt_of_ok agree away doubles.noWrap ok⟩

end Operations

end PQ

end Ipc.Contracts
