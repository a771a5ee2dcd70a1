/-
**The two mappings of a priority queue stay inverse.**

A queue is `WellFormed` when `addressToPos` and `posToAddress` are inverse on the positions
`1..size`: every position holds an address that points back to it, and every address with a
position holds one of them. The heap operations only ever swap two positions, append at
`size + 1` and clear the last position, so they keep this whatever the values are:

* `WellFormed.exchange`, `WellFormed.swim`, `WellFormed.sink` — a swap, and the loops made of
  swaps, move addresses between positions (`Permutes`);
* `WellFormed.insert`, `WellFormed.pop`, `WellFormed.deleteReheapify` — the members grow by the
  inserted address, or lose the top or the deleted address.

`sink` needs every first child of a position to be a position (`HeapOrder.ChildPositive`): the min
queue's checked `pos * 2` always is, the max queue's `pos << 1` is below `2^15` entries
(`maxOrder_childPositive`), past which it wraps to `0`.

For a well-formed queue the addresses at the positions are the members, each once
(`WellFormed.mem_members`), so a sum over positions is a sum over members
(`WellFormed.sum_positions`).
-/

import Ipc.Contracts.PriorityQueue
import Ipc.Lib.System
import Mathlib

namespace Ipc.Contracts

open Ipc.Lib

/-- Every first child of a position up to `bound` is a position. -/
def HeapOrder.ChildPositive (order : HeapOrder) (bound : Nat) : Prop :=
  ∀ p c, 1 ≤ p → p ≤ bound → order.firstChild p = .ok c → 1 ≤ c

theorem HeapOrder.ChildPositive.mono {order : HeapOrder} {bound bound' : Nat}
    (positive : order.ChildPositive bound) (le : bound' ≤ bound) : order.ChildPositive bound' :=
  fun p c hp below => positive p c hp (below.trans le)

theorem minOrder_childPositive (bound : Nat) : minOrder.ChildPositive bound := by
  intro p c positive _ child
  simp only [minOrder] at child
  split at child
  · cases child; omega
  · cases child

/-- The max queue's shifted child position is a position while the queue is below `2^15`. -/
theorem maxOrder_childPositive {bound : Nat} (small : bound < 2 ^ 15) :
    maxOrder.ChildPositive bound := by
  intro p c positive below child
  simp only [maxOrder, Except.ok.injEq] at child
  rw [← child, Nat.shiftLeft_eq]
  omega

namespace PQ

/-- The addresses at the positions `1..size`. -/
def members (pq : PQ) : Finset Address := (Finset.Icc 1 pq.size).image pq.posToAddress

/-- The two mappings are inverse on the positions `1..size`. -/
structure WellFormed (pq : PQ) : Prop where
  addressToPos_posToAddress :
    ∀ i, 1 ≤ i → i ≤ pq.size → pq.addressToPos (pq.posToAddress i) = i
  posToAddress_addressToPos : ∀ a, pq.addressToPos a ≠ 0 →
    pq.addressToPos a ≤ pq.size ∧ pq.posToAddress (pq.addressToPos a) = a

/-- `pq'` is well formed and holds the addresses of `pq`, at positions that may differ. -/
structure Permutes (pq pq' : PQ) : Prop where
  wellFormed : pq'.WellFormed
  size_eq : pq'.size = pq.size
  contains_iff : ∀ a, pq'.addressToPos a ≠ 0 ↔ pq.addressToPos a ≠ 0

@[simp]
theorem contains_eq_true (pq : PQ) (a : Address) :
    pq.contains a = true ↔ pq.addressToPos a ≠ 0 := by
  simp [contains]

theorem wellFormed_empty : empty.WellFormed :=
  ⟨fun i positive below => by simp [empty] at below; omega, fun a contained => by simp [empty] at contained⟩

theorem Permutes.refl {pq : PQ} (wf : pq.WellFormed) : Permutes pq pq :=
  ⟨wf, rfl, fun _ => Iff.rfl⟩

theorem Permutes.trans {pq pq' pq'' : PQ} (first : Permutes pq pq') (second : Permutes pq' pq'') :
    Permutes pq pq'' :=
  ⟨second.wellFormed, second.size_eq.trans first.size_eq,
    fun a => (second.contains_iff a).trans (first.contains_iff a)⟩

/-! ### Members -/

namespace WellFormed

variable {pq : PQ}

theorem posToAddress_injective (wf : pq.WellFormed) {i j : Nat} (hi : 1 ≤ i) (hi' : i ≤ pq.size)
    (hj : 1 ≤ j) (hj' : j ≤ pq.size) (same : pq.posToAddress i = pq.posToAddress j) : i = j := by
  rw [← wf.addressToPos_posToAddress i hi hi', same, wf.addressToPos_posToAddress j hj hj']

theorem mem_members (wf : pq.WellFormed) (a : Address) :
    a ∈ pq.members ↔ pq.addressToPos a ≠ 0 := by
  constructor
  · intro member
    obtain ⟨i, range, rfl⟩ := Finset.mem_image.mp member
    rw [Finset.mem_Icc] at range
    rw [wf.addressToPos_posToAddress i range.1 range.2]
    omega
  · intro contained
    obtain ⟨below, back⟩ := wf.posToAddress_addressToPos a contained
    exact Finset.mem_image.mpr ⟨pq.addressToPos a, Finset.mem_Icc.mpr ⟨by omega, below⟩, back⟩

/-- A sum over the positions of a well-formed queue is a sum over its members. -/
theorem sum_positions (wf : pq.WellFormed) (f : Address → Nat) :
    ∑ i ∈ Finset.Icc 1 pq.size, f (pq.posToAddress i) = ∑ a ∈ pq.members, f a := by
  rw [members, Finset.sum_image]
  intro i hi j hj same
  rw [Finset.coe_Icc, Set.mem_Icc] at hi hj
  exact wf.posToAddress_injective hi.1 hi.2 hj.1 hj.2 same

end WellFormed

/-- Two well-formed queues with the same members have the same member set. -/
theorem members_eq_of_permutes {pq pq' : PQ} (wf : pq.WellFormed) (permutes : Permutes pq pq') :
    pq'.members = pq.members := by
  ext a
  rw [permutes.wellFormed.mem_members, wf.mem_members, permutes.contains_iff]

/-! ### One swap -/

/-- What a successful `exchange` asserted and wrote. -/
theorem exchange_ok {pq pq' : PQ} {p1 p2 : Nat} (ok : pq.exchange p1 p2 = .ok pq') :
    p1 ≤ pq.size ∧ p2 ≤ pq.size ∧ pq'.size = pq.size ∧
      (∀ a, pq'.addressToPos a = if a = pq.posToAddress p2 then p1
        else if a = pq.posToAddress p1 then p2 else pq.addressToPos a) ∧
      (∀ i, pq'.posToAddress i = if i = p1 then pq.posToAddress p2
        else if i = p2 then pq.posToAddress p1 else pq.posToAddress i) := by
  unfold exchange at ok
  split at ok
  · rename_i inside
    cases ok
    refine ⟨inside.1, inside.2, rfl, fun a => ?_, fun i => ?_⟩ <;> simp only [Function.update_apply]
  · cases ok

/-- A swap of two positions of a well-formed queue moves two addresses and keeps the rest. -/
theorem WellFormed.exchange {pq pq' : PQ} {p1 p2 : Nat} (wf : pq.WellFormed) (h1 : 1 ≤ p1)
    (h2 : 1 ≤ p2) (ok : pq.exchange p1 p2 = .ok pq') : Permutes pq pq' := by
  obtain ⟨le1, le2, size_eq, toPos, toAddress⟩ := exchange_ok ok
  have pos1 := wf.addressToPos_posToAddress p1 h1 le1
  have pos2 := wf.addressToPos_posToAddress p2 h2 le2
  -- the two swapped addresses differ unless the positions do
  have distinct : pq.posToAddress p1 = pq.posToAddress p2 → p1 = p2 :=
    wf.posToAddress_injective h1 le1 h2 le2
  refine ⟨⟨fun i positive below => ?_, fun a contained => ?_⟩, size_eq, fun a => ?_⟩
  · rw [size_eq] at below
    rw [toAddress i, toPos]
    by_cases at1 : i = p1
    · rw [if_pos at1, if_pos rfl, at1]
    · by_cases at2 : i = p2
      · have ne : pq.posToAddress p1 ≠ pq.posToAddress p2 := by
          intro same
          exact at1 (at2.trans (distinct same).symm)
        rw [if_neg at1, if_pos at2, if_neg ne, if_pos rfl, at2]
      · have back := wf.addressToPos_posToAddress i positive below
        have ne2 : pq.posToAddress i ≠ pq.posToAddress p2 := by
          intro same
          exact at2 (by rw [← back, same, pos2])
        have ne1 : pq.posToAddress i ≠ pq.posToAddress p1 := by
          intro same
          exact at1 (by rw [← back, same, pos1])
        rw [if_neg at1, if_neg at2, if_neg ne2, if_neg ne1, back]
  · rw [size_eq]
    rw [toPos] at contained ⊢
    by_cases is2 : a = pq.posToAddress p2
    · rw [if_pos is2, toAddress, if_pos rfl]
      exact ⟨le1, is2.symm⟩
    · by_cases is1 : a = pq.posToAddress p1
      · have ne : p2 ≠ p1 := by
          intro same
          exact is2 (by rw [is1, same])
        rw [if_neg is2, if_pos is1, toAddress, if_neg ne, if_pos rfl]
        exact ⟨le2, is1.symm⟩
      · rw [if_neg is2, if_neg is1] at contained ⊢
        obtain ⟨below, back⟩ := wf.posToAddress_addressToPos a contained
        have ne1 : pq.addressToPos a ≠ p1 := fun same => is1 (by rw [← back, same])
        have ne2 : pq.addressToPos a ≠ p2 := fun same => is2 (by rw [← back, same])
        rw [toAddress, if_neg ne1, if_neg ne2]
        exact ⟨below, back⟩
  · rw [toPos]
    by_cases is2 : a = pq.posToAddress p2
    · rw [if_pos is2, is2, pos2]
      omega
    · by_cases is1 : a = pq.posToAddress p1
      · rw [if_neg is2, if_pos is1, is1, pos1]
        omega
      · rw [if_neg is2, if_neg is1]

/-! ### The loops -/

section Loops

variable {order : HeapOrder} {power : Address → Nat} {value : Nat}

theorem le_betterChild_fst (pq : PQ) (childPos : Nat) :
    childPos ≤ (betterChild order power pq childPos).1 := by
  unfold betterChild betterPosition
  split
  · dsimp only
    split <;> simp
  · exact le_refl _

/-- `swim` only swaps a position with its parent, both positions when the first is above `1`. -/
theorem WellFormed.swimFrom (fuel : Nat) :
    ∀ {pq pq' : PQ} {pos : Nat}, pq.WellFormed →
      PQ.swimFrom order power value fuel pq pos = .ok pq' → Permutes pq pq' := by
  induction fuel with
  | zero =>
    intro pq pq' pos wf ok
    rw [PQ.swimFrom] at ok
    split at ok
    · cases ok
    · cases ok
      exact .refl wf
  | succ fuel ih =>
    intro pq pq' pos wf ok
    rw [PQ.swimFrom] at ok
    split at ok
    · rename_i above
      dsimp only at ok
      split at ok
      · split at ok
        · cases ok
        · rename_i swapped exchanged
          have moved := wf.exchange (by omega) (by omega) exchanged
          exact moved.trans (ih moved.wellFormed ok)
      · cases ok
        exact .refl wf
    · cases ok
      exact .refl wf

theorem WellFormed.swim {pq pq' : PQ} {pos : Nat} (wf : pq.WellFormed)
    (ok : pq.swim order power pos value = .ok pq') : Permutes pq pq' :=
  wf.swimFrom pos ok

/-- `sink` swaps a position with one of its children, a position when the parent is one. -/
theorem WellFormed.sinkFrom (fuel : Nat) :
    ∀ {pq pq' : PQ} {pos childPos : Nat}, pq.WellFormed → order.ChildPositive pq.size →
      1 ≤ pos → (pos ≤ pq.size → 1 ≤ childPos) →
      PQ.sinkFrom order power value fuel pq pos childPos = .ok pq' → Permutes pq pq' := by
  induction fuel with
  | zero =>
    intro pq pq' pos childPos wf _ _ _ ok
    rw [PQ.sinkFrom] at ok
    split at ok
    · cases ok
    · cases ok
      exact .refl wf
  | succ fuel ih =>
    intro pq pq' pos childPos wf child_pos positive child_positive ok
    rw [PQ.sinkFrom] at ok
    split at ok
    · dsimp only at ok
      split at ok
      · split at ok
        · cases ok
        · rename_i swapped exchanged
          split at ok
          · cases ok
          · rename_i next first
            obtain ⟨child_le, pos_le, -⟩ := exchange_ok exchanged
            have child_ge : 1 ≤ (betterChild order power pq childPos).1 :=
              (child_positive pos_le).trans (le_betterChild_fst pq childPos)
            have moved := wf.exchange child_ge positive exchanged
            have next_positive : 1 ≤ next := child_pos _ _ child_ge child_le first
            exact moved.trans (ih moved.wellFormed (moved.size_eq ▸ child_pos) child_ge
              (fun _ => next_positive) ok)
      · cases ok
        exact .refl wf
    · cases ok
      exact .refl wf

theorem WellFormed.sink {pq pq' : PQ} {pos : Nat} (wf : pq.WellFormed)
    (child_pos : order.ChildPositive pq.size) (positive : 1 ≤ pos)
    (ok : pq.sink order power pos value = .ok pq') : Permutes pq pq' := by
  unfold PQ.sink at ok
  split at ok
  · cases ok
  · rename_i childPos first
    exact wf.sinkFrom _ child_pos positive (fun below => child_pos _ _ positive below first) ok

end Loops

/-! ### Growing and shrinking -/

section Resize

variable {order : HeapOrder} {power : Address → Nat}

/-- Appending an address without a position at `size + 1`, as `insert` does before its swim. -/
theorem WellFormed.append {pq : PQ} (wf : pq.WellFormed) {v : Address}
    (absent : pq.addressToPos v = 0) :
    ({ size := pq.size + 1,
       addressToPos := Function.update pq.addressToPos v (pq.size + 1),
       posToAddress := Function.update pq.posToAddress (pq.size + 1) v } : PQ).WellFormed := by
  constructor
  · intro i positive below
    simp only [Function.update_apply] at below ⊢
    by_cases last : i = pq.size + 1
    · rw [if_pos last, if_pos rfl, last]
    · have back := wf.addressToPos_posToAddress i positive (by omega)
      have ne : pq.posToAddress i ≠ v := by
        intro same
        rw [same, absent] at back
        omega
      rw [if_neg last, if_neg ne, back]
  · intro a contained
    simp only [Function.update_apply] at contained ⊢
    by_cases is_new : a = v
    · rw [if_pos is_new, if_pos rfl, is_new]
      exact ⟨le_refl _, rfl⟩
    · rw [if_neg is_new] at contained ⊢
      obtain ⟨below, back⟩ := wf.posToAddress_addressToPos a contained
      have ne : pq.addressToPos a ≠ pq.size + 1 := by omega
      rw [if_neg ne]
      exact ⟨by omega, back⟩

/-- `insert` of an address without a position makes it the one new member. -/
theorem WellFormed.insert {pq pq' : PQ} {v : Address} (wf : pq.WellFormed)
    (absent : pq.addressToPos v = 0) (ok : pq.insert order power v = .ok pq') :
    pq'.WellFormed ∧ pq'.size = pq.size + 1 ∧
      ∀ a, pq'.addressToPos a ≠ 0 ↔ pq.addressToPos a ≠ 0 ∨ a = v := by
  unfold PQ.insert at ok
  dsimp only at ok
  split at ok
  · cases ok
  · have swum := (wf.append absent).swim ok
    refine ⟨swum.wellFormed, swum.size_eq, fun a => ?_⟩
    rw [swum.contains_iff]
    dsimp only
    rw [Function.update_apply]
    by_cases is_new : a = v
    · simp [is_new]
    · simp [is_new]

/-- Clearing the last position, as `pop` and `deleteReheapify` do after their swap. -/
theorem WellFormed.dropLast {pq : PQ} (wf : pq.WellFormed) (nonempty : 1 ≤ pq.size) :
    (({ pq with size := pq.size - 1 } : PQ).del pq.size).WellFormed ∧
      ∀ a, (({ pq with size := pq.size - 1 } : PQ).del pq.size).addressToPos a ≠ 0 ↔
        pq.addressToPos a ≠ 0 ∧ a ≠ pq.posToAddress pq.size := by
  have last := wf.addressToPos_posToAddress pq.size nonempty (le_refl _)
  refine ⟨⟨fun i positive below => ?_, fun a contained => ?_⟩, fun a => ?_⟩
  · simp only [del_size] at below
    have back := wf.addressToPos_posToAddress i positive (by omega)
    have ne : pq.posToAddress i ≠ pq.posToAddress pq.size := by
      intro same
      rw [same, last] at back
      omega
    rw [del_posToAddress, if_neg (by omega), del_addressToPos, if_neg ne, back]
  · rw [del_addressToPos] at contained ⊢
    split at contained
    · exact absurd rfl contained
    · rename_i not_last
      obtain ⟨below, back⟩ := wf.posToAddress_addressToPos a contained
      have ne : pq.addressToPos a ≠ pq.size := by
        intro same
        exact not_last (by rw [← back, same])
      rw [if_neg not_last, del_size, del_posToAddress, if_neg ne]
      exact ⟨by simp only; omega, back⟩
  · rw [del_addressToPos]
    split
    · simp [*]
    · simp [*]

/-- `pop` drops the top address. -/
theorem WellFormed.pop {pq pq' : PQ} (wf : pq.WellFormed) (child_pos : order.ChildPositive pq.size)
    (ok : pq.pop order power = .ok pq') :
    pq'.WellFormed ∧ pq'.size = pq.size - 1 ∧
      ∀ a, pq'.addressToPos a ≠ 0 ↔ pq.addressToPos a ≠ 0 ∧ a ≠ pq.posToAddress 1 := by
  unfold PQ.pop at ok
  obtain ⟨⟨⟩, nonempty, ok⟩ := bind_eq_ok.mp ok
  obtain ⟨exchanged, swapped, ok⟩ := bind_eq_ok.mp ok
  rw [requireNotEmpty_eq_ok] at nonempty
  have moved := wf.exchange (le_refl 1) (by omega) swapped
  obtain ⟨-, -, size_eq, -, toAddress⟩ := exchange_ok swapped
  -- after the swap the former top is last
  have top_last : exchanged.posToAddress exchanged.size = pq.posToAddress 1 := by
    rw [toAddress, size_eq]
    by_cases single : pq.size = 1
    · rw [if_pos single, single]
    · rw [if_neg single, if_pos rfl]
  dsimp only at ok
  rw [← size_eq] at ok
  have dropped := moved.wellFormed.dropLast (by omega)
  have sunk := dropped.1.sink (child_pos.mono (by simp; omega)) (le_refl 1) ok
  refine ⟨sunk.wellFormed, by rw [sunk.size_eq, del_size, size_eq], fun a => ?_⟩
  rw [sunk.contains_iff, dropped.2, moved.contains_iff, top_last]

/-- `deleteReheapify` drops the given address, which had a position. -/
theorem WellFormed.deleteReheapify {pq pq' : PQ} {v : Address} (wf : pq.WellFormed)
    (child_pos : order.ChildPositive pq.size) (ok : pq.deleteReheapify order power v = .ok pq') :
    pq.addressToPos v ≠ 0 ∧ pq'.WellFormed ∧ pq'.size = pq.size - 1 ∧
      ∀ a, pq'.addressToPos a ≠ 0 ↔ pq.addressToPos a ≠ 0 ∧ a ≠ v := by
  unfold PQ.deleteReheapify at ok
  obtain ⟨pos, found, ok⟩ := bind_eq_ok.mp ok
  obtain ⟨present, rfl⟩ := (getPosOrRevert_eq_ok pq v pos).mp found
  obtain ⟨below, back⟩ := wf.posToAddress_addressToPos v present
  obtain ⟨exchanged, swapped, ok⟩ := bind_eq_ok.mp ok
  have moved := wf.exchange (by omega) (by omega) swapped
  obtain ⟨-, -, size_eq, -, toAddress⟩ := exchange_ok swapped
  -- after the swap the deleted address is last
  have v_last : exchanged.posToAddress exchanged.size = v := by
    rw [toAddress, size_eq]
    by_cases at_end : pq.size = pq.addressToPos v
    · rw [if_pos at_end, at_end, back]
    · rw [if_neg at_end, if_pos rfl, back]
  have dropped := moved.wellFormed.dropLast (by omega)
  have members : ∀ a, (({ exchanged with size := exchanged.size - 1 } : PQ).del
      exchanged.size).addressToPos a ≠ 0 ↔ pq.addressToPos a ≠ 0 ∧ a ≠ v := by
    intro a
    rw [dropped.2, moved.contains_iff, v_last]
  dsimp only at ok
  rw [← size_eq] at ok
  refine ⟨present, ?_⟩
  split at ok
  · cases ok
    exact ⟨dropped.1, by rw [del_size, size_eq], members⟩
  · rename_i not_last
    obtain ⟨swum_pq, swum_ok, ok⟩ := bind_eq_ok.mp ok
    have swum := dropped.1.swim swum_ok
    have sunk := swum.wellFormed.sink
      (child_pos.mono (by rw [swum.size_eq, del_size]; dsimp only; omega)) (by omega) ok
    refine ⟨sunk.wellFormed, by rw [sunk.size_eq, swum.size_eq, del_size, size_eq], fun a => ?_⟩
    rw [sunk.contains_iff, swum.contains_iff, members]

end Resize

end PQ

end Ipc.Contracts
