/-
**Enumerable sets: a set kept as the array of its values.**

The shape of a set that can list its values (`EnumerableSet` of the standard contracts library):
the values sit in an array, each once; `add` appends a value that is not there yet, and `remove`
moves the last value into the freed slot and pops the array (`swapPop`). Both report whether they
changed the set. The set carries `nodup` as a field, so no value is ever listed twice.

* `swapPop_perm` — swapping the last value into a slot and popping leaves the other values;
* `mem_add`, `add_fst`, `values_add` — `add` appends a value exactly when it is new;
* `mem_remove`, `remove_fst` — `remove` takes a value out exactly when it is there.
-/

import Mathlib

namespace Ipc.Lib

variable {α : Type} [DecidableEq α]

/-- The values with the one at index `i` replaced by the last value, and the last slot dropped
(`fill` stands for the last value of an empty array, which no caller reads). -/
def swapPop (values : List α) (i : Nat) (fill : α) : List α :=
  (values.set i (values.getLast?.getD fill)).dropLast

/-- Swap-and-pop at the first index of a value takes that value out and keeps the others. -/
theorem swapPop_perm (fill : α) {l : List α} {a : α} {i : Nat}
    (found : l.findIdx? (· == a) = some i) : (swapPop l i fill).Perm (l.erase a) := by
  obtain ⟨inside, at_i, before⟩ := List.findIdx?_eq_some_iff_getElem.mp found
  -- the value first occurs at `i`, after a prefix `t` that does not hold it
  obtain ⟨t, r, rfl, rfl, notIn⟩ :
      ∃ t r, l = t ++ a :: r ∧ i = t.length ∧ a ∉ t := by
    refine ⟨l.take i, l.drop (i + 1), ?_, by simp; omega, ?_⟩
    · have top : l[i] = a := by simpa using at_i
      rw [← top, ← List.drop_eq_getElem_cons inside, List.take_append_drop]
    · intro mem
      obtain ⟨j, hj, entry⟩ := List.mem_iff_getElem.mp mem
      have hj' : j < i := by simp at hj; omega
      apply before j hj'
      simp [← entry, List.getElem_take]
  unfold swapPop
  rw [List.erase_append_right _ notIn, List.erase_cons_head]
  -- the last value moves into the freed slot
  rcases List.eq_nil_or_concat r with rfl | ⟨r, z, rfl⟩
  · simp [List.set_append_right]
  · rw [List.concat_eq_append]
    have last : (t ++ a :: (r ++ [z])).getLast? = some z := by
      rw [← List.cons_append, ← List.append_assoc, List.getLast?_concat]
    rw [last, Option.getD_some, List.set_append_right _ _ (Nat.le_refl _), Nat.sub_self,
      List.set_cons_zero, ← List.cons_append, ← List.append_assoc, List.dropLast_concat]
    exact List.Perm.append_left t (List.perm_append_singleton z r).symm

/-- A set of values kept as an array that lists each value once. -/
structure EnumerableSet (α : Type) [DecidableEq α] where
  values : List α
  nodup : values.Nodup

namespace EnumerableSet

/-- The empty set. -/
def empty : EnumerableSet α := ⟨[], List.nodup_nil⟩

/-- `contains`. -/
def contains (s : EnumerableSet α) (value : α) : Bool := s.values.contains value

/-- `add`: append a value that is not there yet; `false` when it was. -/
def add (s : EnumerableSet α) (value : α) : Bool × EnumerableSet α :=
  if present : value ∈ s.values then (false, s)
  else (true, ⟨s.values ++ [value], List.Nodup.append s.nodup (List.nodup_singleton value)
    (by simpa using present)⟩)

/-- `remove`: move the last value into the slot of the value and pop; `false` when the value was
not there. -/
def remove (s : EnumerableSet α) (value : α) : Bool × EnumerableSet α :=
  match found : s.values.findIdx? (· == value) with
  | some i =>
    (true, ⟨swapPop s.values i value, ((swapPop_perm value found).nodup_iff).mpr (s.nodup.erase value)⟩)
  | none => (false, s)

@[simp]
theorem values_empty : (empty : EnumerableSet α).values = [] := rfl

@[simp]
theorem contains_iff (s : EnumerableSet α) (value : α) : s.contains value = true ↔ value ∈ s.values := by
  simp [contains]

theorem add_fst (s : EnumerableSet α) (value : α) : (s.add value).1 = !s.contains value := by
  unfold add contains
  split <;> simp_all

theorem values_add (s : EnumerableSet α) {value : α} (fresh : value ∉ s.values) :
    (s.add value).2.values = s.values ++ [value] := by
  simp [add, fresh]

@[simp]
theorem mem_add (s : EnumerableSet α) (value other : α) :
    other ∈ (s.add value).2.values ↔ other = value ∨ other ∈ s.values := by
  unfold add
  split
  · rename_i present
    constructor
    · exact Or.inr
    · rintro (rfl | member) <;> assumption
  · simp [or_comm]

theorem remove_fst (s : EnumerableSet α) (value : α) : (s.remove value).1 = s.contains value := by
  unfold remove contains
  split
  · rename_i i found
    obtain ⟨inside, at_i, -⟩ := List.findIdx?_eq_some_iff_getElem.mp found
    have : s.values[i] = value := by simpa using at_i
    simp [← this, List.getElem_mem]
  · rename_i missing
    have absent : value ∉ s.values := fun mem => by
      simpa using List.findIdx?_eq_none_iff.mp missing value mem
    simp [absent]

@[simp]
theorem mem_remove (s : EnumerableSet α) (value other : α) :
    other ∈ (s.remove value).2.values ↔ other ≠ value ∧ other ∈ s.values := by
  unfold remove
  split
  · rename_i i found
    rw [(swapPop_perm value found).mem_iff, s.nodup.mem_erase_iff]
  · rename_i missing
    have absent : value ∉ s.values := fun mem => by
      simpa using List.findIdx?_eq_none_iff.mp missing value mem
    constructor
    · intro member
      exact ⟨fun same => absent (same ▸ member), member⟩
    · exact And.right

end EnumerableSet

end Ipc.Lib
