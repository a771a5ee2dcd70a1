/-
**The sequential key cache (`fendermint_vm_topdown::cache::SequentialKeyCache`).**

The finality provider caches the parent's blocks in a deque of `(height, value)` pairs whose keys
go up by one: an entry is appended only at the last key plus one, or at any key when the cache is
empty, and entries leave from the front (`remove_key_below`). The model keeps the key of the front
entry and the values in order, so the keys are consecutive by construction: the `i`-th value sits
at `lowerKey + i`. The code modelled here builds only `sequential()` caches, whose increment is one.

* `getValue_eq_some` — what a lookup finds, as an index into the values;
* `getValue_removeKeyBelow` — removing the keys below `key` forgets exactly those entries;
* `append_ok` — an append that succeeds puts its value at the key one above the last, or starts an
  empty cache at its key.
-/

import Mathlib

namespace Ipc.Topdown

/-- Why an append is refused (`SequentialAppendError`). -/
inductive SequentialAppendError
  | aboveBound
  | alreadyInserted
  | belowBound
  deriving DecidableEq, Repr

/-- A `SequentialKeyCache<u64, V>` with increment one: the front key and the values from it on. -/
structure SequentialKeyCache (V : Type) where
  /-- The key of the front entry; it means nothing when the cache is empty. -/
  lowerKey : Nat
  values : List V
  deriving DecidableEq, Repr

namespace SequentialKeyCache

variable {V : Type}

/-- `sequential()`: the empty cache. -/
def sequential : SequentialKeyCache V := ⟨0, []⟩

/-- `size`. -/
def size (c : SequentialKeyCache V) : Nat := c.values.length

/-- `lower_bound`: the key of the front entry. -/
def lowerBound (c : SequentialKeyCache V) : Option Nat :=
  if c.values = [] then none else some c.lowerKey

/-- `upper_bound`: the key of the back entry. -/
def upperBound (c : SequentialKeyCache V) : Option Nat :=
  if c.values = [] then none else some (c.lowerKey + c.values.length - 1)

/-- `within_bound`. -/
def withinBound (c : SequentialKeyCache V) (k : Nat) : Bool :=
  match c.lowerBound, c.upperBound with
  | some lower, some upper => lower ≤ k && k ≤ upper
  | _, _ => false

/-- `get_value`: the value at a key inside the bounds, by its index from the front. -/
def getValue (c : SequentialKeyCache V) (key : Nat) : Option V :=
  if c.withinBound key then c.values[key - c.lowerKey]? else none

/-- The loop of `remove_key_below`: pop the front entry while its key is below `key`. -/
def removeKeyBelowFrom (key : Nat) : Nat → List V → SequentialKeyCache V
  | lower, [] => ⟨lower, []⟩
  | lower, v :: rest =>
    if lower < key then removeKeyBelowFrom key (lower + 1) rest else ⟨lower, v :: rest⟩

/-- `remove_key_below`: drop every entry whose key is below `key`. -/
def removeKeyBelow (c : SequentialKeyCache V) (key : Nat) : SequentialKeyCache V :=
  removeKeyBelowFrom key c.lowerKey c.values

/-- `append`: accept the key one above the last, or any key into an empty cache. -/
def append (c : SequentialKeyCache V) (key : Nat) (val : V) :
    Except SequentialAppendError (SequentialKeyCache V) :=
  match c.upperBound with
  | none => .ok ⟨key, [val]⟩
  | some upper =>
    if upper + 1 = key then .ok { c with values := c.values ++ [val] }
    else if upper + 1 < key then .error .aboveBound
    else if key < c.lowerKey then .error .belowBound
    else .error .alreadyInserted

/-! ### Lookups -/

@[simp]
theorem getValue_sequential (key : Nat) : (sequential : SequentialKeyCache V).getValue key = none :=
  rfl

theorem withinBound_iff (c : SequentialKeyCache V) (k : Nat) :
    c.withinBound k = true ↔ c.lowerKey ≤ k ∧ k < c.lowerKey + c.values.length := by
  unfold withinBound lowerBound upperBound
  by_cases empty : c.values = []
  · simp [empty]
  · have : 0 < c.values.length := List.length_pos_iff.mpr empty
    simp only [empty, if_false, Bool.and_eq_true, decide_eq_true_eq]
    omega

/-- A lookup finds the value at the key's index from the front. -/
theorem getValue_eq (c : SequentialKeyCache V) (key : Nat) :
    c.getValue key = if c.lowerKey ≤ key then c.values[key - c.lowerKey]? else none := by
  unfold getValue
  by_cases inside : c.withinBound key = true
  · rw [if_pos inside, if_pos ((withinBound_iff c key).mp inside).1]
  · rw [if_neg inside]
    rw [withinBound_iff] at inside
    split_ifs with above
    · rw [List.getElem?_eq_none]
      omega
    · rfl

theorem getValue_mk (lower : Nat) (values : List V) (k : Nat) :
    (⟨lower, values⟩ : SequentialKeyCache V).getValue k =
      if lower ≤ k then values[k - lower]? else none :=
  getValue_eq _ k

theorem getValue_eq_some {c : SequentialKeyCache V} {key : Nat} {v : V} :
    c.getValue key = some v ↔ c.lowerKey ≤ key ∧ c.values[key - c.lowerKey]? = some v := by
  rw [getValue_eq]
  split_ifs with above <;> simp [above]

theorem getValue_isSome_iff (c : SequentialKeyCache V) (key : Nat) :
    (c.getValue key).isSome ↔ c.lowerKey ≤ key ∧ key < c.lowerKey + c.values.length := by
  rw [getValue_eq]
  split_ifs with above
  · rw [Option.isSome_iff_ne_none, ne_eq, List.getElem?_eq_none_iff]
    omega
  · simp only [Option.isSome_none, Bool.false_eq_true, false_iff, not_and]
    intro below
    omega

theorem upperBound_eq_some {c : SequentialKeyCache V} {upper : Nat} :
    c.upperBound = some upper ↔ c.values ≠ [] ∧ upper = c.lowerKey + c.values.length - 1 := by
  unfold upperBound
  split_ifs with empty <;> simp [empty, eq_comm]

theorem upperBound_eq_none {c : SequentialKeyCache V} : c.upperBound = none ↔ c.values = [] := by
  unfold upperBound
  split_ifs with empty <;> simp [empty]

/-! ### Removing the front -/

/-- The loop of `remove_key_below` drops the values below `key` and moves the front key up to it.
-/
theorem removeKeyBelowFrom_eq (key : Nat) (lower : Nat) (values : List V) :
    removeKeyBelowFrom key lower values =
      if values.length ≤ key - lower then ⟨lower + values.length, []⟩
      else ⟨lower + (key - lower), values.drop (key - lower)⟩ := by
  -- induction on the values, one popped entry per step
  induction values generalizing lower with
  | nil => simp [removeKeyBelowFrom]
  | cons v rest ih =>
    unfold removeKeyBelowFrom
    by_cases below : lower < key
    · rw [if_pos below, ih]
      have step : key - lower = key - (lower + 1) + 1 := by omega
      simp only [List.length_cons, step, List.drop_succ_cons, Nat.add_le_add_iff_right]
      split_ifs <;> congr 1 <;> omega
    · rw [if_neg below]
      have none : key - lower = 0 := by omega
      simp [none]

/-- After `remove_key_below key` the cache holds exactly the entries at keys from `key` on. -/
theorem getValue_removeKeyBelow (c : SequentialKeyCache V) (key k : Nat) :
    (c.removeKeyBelow key).getValue k = if key ≤ k then c.getValue k else none := by
  unfold removeKeyBelow
  rw [removeKeyBelowFrom_eq, getValue_eq c k]
  by_cases gone : c.values.length ≤ key - c.lowerKey
  · -- every entry was popped
    rw [if_pos gone, getValue_mk, List.getElem?_nil, ite_self]
    split_ifs with above inside
    · rw [List.getElem?_eq_none (by omega)]
    all_goals rfl
  · -- the front key moved up to `key`, or stayed above it
    rw [if_neg gone, getValue_mk, List.getElem?_drop]
    by_cases above : key ≤ k ∧ c.lowerKey ≤ k
    · have index : key - c.lowerKey + (k - (c.lowerKey + (key - c.lowerKey))) = k - c.lowerKey := by
        omega
      rw [if_pos (by omega), if_pos above.1, if_pos above.2, index]
    · rw [if_neg (by omega)]
      split_ifs <;> first | rfl | omega

/-! ### Appending -/

/-- An append that succeeds writes its value at its key, one above the last key of a non-empty
cache, and changes no other entry. -/
theorem append_ok {c c' : SequentialKeyCache V} {key : Nat} {val : V}
    (ok : c.append key val = .ok c') :
    (∀ upper, c.upperBound = some upper → key = upper + 1) ∧
      c'.upperBound = some key ∧
      ∀ k, c'.getValue k = if k = key then some val else c.getValue k := by
  unfold append at ok
  cases bound : c.upperBound with
  | none =>
    -- an empty cache starts at the key
    rw [bound] at ok
    rw [← Except.ok.inj ok]
    have empty := upperBound_eq_none.mp bound
    refine ⟨fun _ same => by simp at same, rfl, fun k => ?_⟩
    rw [getValue_mk, getValue_eq, empty, List.getElem?_nil, ite_self]
    by_cases here : k = key
    · subst here
      simp
    · rw [if_neg here]
      split_ifs with above
      · rw [List.getElem?_eq_none (by simp; omega)]
      · rfl
  | some upper =>
    rw [bound] at ok
    dsimp only at ok
    split_ifs at ok with next
    rw [← Except.ok.inj ok]
    obtain ⟨nonempty, last⟩ := upperBound_eq_some.mp bound
    have length : 0 < c.values.length := List.length_pos_iff.mpr nonempty
    have key_eq : key = c.lowerKey + c.values.length := by omega
    refine ⟨fun other same => by rw [Option.some.inj same.symm] at *; omega, ?_, fun k => ?_⟩
    · rw [upperBound_eq_some]
      simp only [List.length_append, List.length_singleton, ne_eq, List.append_eq_nil_iff,
        List.cons_ne_self, and_false, not_false_eq_true, true_and]
      omega
    · -- the values up to the last key are kept, the new one sits one above
      rw [getValue_mk, getValue_eq]
      by_cases here : k = key
      · rw [if_pos here, if_pos (by omega), List.getElem?_append_right (by omega)]
        simp [here, key_eq]
      · rw [if_neg here]
        split_ifs with above
        · by_cases inside : k - c.lowerKey < c.values.length
          · rw [List.getElem?_append_left inside]
          · rw [List.getElem?_eq_none (by simp; omega), List.getElem?_eq_none (by omega)]
        · rfl

end SequentialKeyCache

end Ipc.Topdown
