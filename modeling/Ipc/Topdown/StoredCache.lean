/-
**The sequential key cache as stored (`SequentialKeyCache<K, V>`), with any increment.**

The cache is a deque of `(key, value)` pairs and an increment `d`. `append` pushes at the back
when the cache is empty or the key is the last key plus `d`, computed in `u64`, so a release
build wraps it at `2 ^ 64`; `remove_key_below` and `remove_key_above` pop from the front and
the back while the key there is beyond the bound; `get_value` indexes the deque at
`(key - lower) / d`.

* `Spaced` — the representation invariant: the keys run from the front key in steps of `d`, below
  `2 ^ 64`; every call keeps it as long as no append passes `2 ^ 64` (`spaced_of_reachable`);
* `Spaced.getValue_eq_some` — a lookup inside the bounds finds the entry whose step holds the key:
  the entry at the key itself when the key is aligned with the front key, a neighbour otherwise;
* `sequentialKeyCache_contract` — over every such run the cache meets its `Contract`: increasing
  keys `d` apart, an append accepted exactly at the last key plus `d`, aligned lookups exact;
* `getValue_neighbour_and_wrap` — what the contract leaves out: an unaligned key finds its
  neighbour's value, and an append at the last `u64` key wraps the expected next key to `0`;
* `toStored` — the increment-one cache of `Ipc.Topdown.Cache` is this cache read as its front key
  and values: lookups, bounds, appends and `remove_key_below` commute with the reading.
-/

import Ipc.Lib.System
import Ipc.Topdown.Cache

namespace Ipc.Topdown.Stored

open Ipc.Lib

/-- The cache as stored: the key increment and the entries from front to back. -/
structure SequentialKeyCache (V : Type) where
  increment : Nat
  data : List (Nat × V)
  deriving DecidableEq, Repr

namespace SequentialKeyCache

variable {V : Type}

/-- `new(increment)`: the empty cache. -/
def new (increment : Nat) : SequentialKeyCache V := ⟨increment, []⟩

/-- `sequential()`: the empty cache with increment one. -/
def sequential : SequentialKeyCache V := new 1

/-- `upper_bound`: the key at the back. -/
def upperBound (c : SequentialKeyCache V) : Option Nat := c.data.getLast?.map Prod.fst

/-- `lower_bound`: the key at the front. -/
def lowerBound (c : SequentialKeyCache V) : Option Nat := c.data.head?.map Prod.fst

/-- `within_bound`. The bounds are both set or both unset, so the source's `unreachable!` arm
is never taken. -/
def withinBound (c : SequentialKeyCache V) (k : Nat) : Bool :=
  match c.lowerBound, c.upperBound with
  | some lower, some upper => lower ≤ k && k ≤ upper
  | _, _ => false

/-- `get_value`: inside the bounds, the entry at index `(key - lower) / increment`. -/
def getValue (c : SequentialKeyCache V) (key : Nat) : Option V :=
  if c.withinBound key then
    match c.lowerBound with
    | some lower => (c.data[(key - lower) / c.increment]?).map Prod.snd
    | none => none
  else none

/-- `remove_key_below`: pop the front while its key is below `key`. -/
def removeKeyBelow (c : SequentialKeyCache V) (key : Nat) : SequentialKeyCache V :=
  { c with data := c.data.dropWhile fun entry => entry.1 < key }

/-- `remove_key_above`: pop the back while its key is above `key`. -/
def removeKeyAbove (c : SequentialKeyCache V) (key : Nat) : SequentialKeyCache V :=
  { c with data := (c.data.reverse.dropWhile fun entry => key < entry.1).reverse }

/-- `append`: push at the back when the cache is empty or the key is the expected next key,
`upper + increment` in `u64`. A refused append writes nothing. -/
def append (c : SequentialKeyCache V) (key : Nat) (val : V) :
    Except SequentialAppendError (SequentialKeyCache V) :=
  match c.upperBound with
  | none => .ok { c with data := c.data ++ [(key, val)] }
  | some upper =>
    let expectedNextKey := (upper + c.increment) % 2 ^ 64
    if expectedNextKey = key then .ok { c with data := c.data ++ [(key, val)] }
    else if expectedNextKey < key then .error .aboveBound
    else
      -- the front is set whenever the back is
      match c.lowerBound with
      | some lower => if key < lower then .error .belowBound else .error .alreadyInserted
      | none => .error .alreadyInserted

/-! ### Calls on the cache -/

/-- A call that changes the cache. -/
inductive CacheOp (V : Type)
  | append (key : Nat) (val : V)
  | removeKeyBelow (key : Nat)
  | removeKeyAbove (key : Nat)
  deriving DecidableEq, Repr

/-- The cache after a call; a refused append leaves it as it was. -/
def apply (c : SequentialKeyCache V) : CacheOp V → SequentialKeyCache V
  | .append key val =>
    match c.append key val with
    | .ok next => next
    | .error _ => c
  | .removeKeyBelow key => c.removeKeyBelow key
  | .removeKeyAbove key => c.removeKeyAbove key

/-- A call with a `u64` key whose append does not pass `2 ^ 64`. -/
def CacheOp.Fits (c : SequentialKeyCache V) : CacheOp V → Prop
  | .append key _ => key < 2 ^ 64 ∧ ∀ upper, c.upperBound = some upper → upper + c.increment < 2 ^ 64
  | .removeKeyBelow _ => True
  | .removeKeyAbove _ => True

/-- One call on the cache, in a run where no append passes `2 ^ 64`. -/
def CacheStep (c : SequentialKeyCache V) (op : CacheOp V) (next : SequentialKeyCache V) : Prop :=
  op.Fits c ∧ next = c.apply op

/-! ### The invariant -/

/-- The keys from front to back. -/
def keys (c : SequentialKeyCache V) : List Nat := c.data.map Prod.fst

/-- **The representation invariant**: the keys run from the front key in steps of the increment,
and they fit in `u64`. -/
structure Spaced (c : SequentialKeyCache V) : Prop where
  progression : ∃ lower, c.keys = List.range' lower c.data.length c.increment
  fits : ∀ key ∈ c.keys, key < 2 ^ 64

@[simp]
theorem length_keys (c : SequentialKeyCache V) : c.keys.length = c.data.length := by
  simp [keys]

theorem lowerBound_eq (c : SequentialKeyCache V) : c.lowerBound = c.keys.head? := by
  simp [lowerBound, keys, List.head?_map]

theorem upperBound_eq (c : SequentialKeyCache V) : c.upperBound = c.keys.getLast? := by
  simp [upperBound, keys, List.getLast?_map]

theorem spaced_new (increment : Nat) : (new increment : SequentialKeyCache V).Spaced :=
  ⟨⟨0, rfl⟩, by simp [new, keys]⟩

/-- A key progression read at an index. -/
theorem fst_getElem_of_keys {c : SequentialKeyCache V} {lower : Nat}
    (progression : c.keys = List.range' lower c.data.length c.increment) (i : Nat)
    (inside : i < c.data.length) : c.data[i].1 = lower + c.increment * i := by
  have entry := List.getElem_of_eq progression (show i < c.keys.length by simpa using inside)
  simpa [keys] using entry

/-- The bounds of a cache whose keys run from `lower` in steps of the increment: the front key,
and `length - 1` steps above it. -/
theorem bounds_of_keys {c : SequentialKeyCache V} {lower : Nat}
    (progression : c.keys = List.range' lower c.data.length c.increment) (nonempty : c.data ≠ []) :
    c.lowerBound = some lower ∧
      c.upperBound = some (lower + c.increment * (c.data.length - 1)) := by
  obtain ⟨n, length⟩ : ∃ n, c.data.length = n + 1 :=
    ⟨c.data.length - 1, by have := List.length_pos_iff.mpr nonempty; omega⟩
  constructor
  · rw [lowerBound_eq, progression, length, List.range'_succ, List.head?_cons]
  · rw [upperBound_eq, progression, length, List.range'_concat, List.getLast?_concat,
      Nat.add_sub_cancel]

theorem Spaced.bounds {c : SequentialKeyCache V} (spaced : c.Spaced) (nonempty : c.data ≠ []) :
    ∃ lower, c.keys = List.range' lower c.data.length c.increment ∧
      c.lowerBound = some lower ∧
      c.upperBound = some (lower + c.increment * (c.data.length - 1)) := by
  obtain ⟨lower, progression⟩ := spaced.progression
  exact ⟨lower, progression, bounds_of_keys progression nonempty⟩

/-- Dropping entries from the front keeps the invariant. -/
theorem Spaced.drop {c : SequentialKeyCache V} (spaced : c.Spaced) (m : Nat) :
    ({ c with data := c.data.drop m } : SequentialKeyCache V).Spaced := by
  obtain ⟨lower, progression⟩ := spaced.progression
  constructor
  · refine ⟨lower + m * c.increment, ?_⟩
    simp only [keys, List.map_drop, List.length_drop] at progression ⊢
    rw [progression, List.drop_range']
  · intro key mem
    simp only [keys, List.map_drop] at mem
    exact spaced.fits key (List.mem_of_mem_drop mem)

/-- Taking entries from the front keeps the invariant. -/
theorem Spaced.take {c : SequentialKeyCache V} (spaced : c.Spaced) (m : Nat) :
    ({ c with data := c.data.take m } : SequentialKeyCache V).Spaced := by
  obtain ⟨lower, progression⟩ := spaced.progression
  constructor
  · refine ⟨lower, ?_⟩
    simp only [keys, List.map_take, List.length_take] at progression ⊢
    rw [progression]
    by_cases short : m ≤ c.data.length
    · rw [List.take_range'_of_length_ge short, Nat.min_eq_left short]
    · rw [List.take_range'_of_length_le (by omega), Nat.min_eq_right (by omega)]
  · intro key mem
    simp only [keys, List.map_take] at mem
    exact spaced.fits key (List.mem_of_mem_take mem)

theorem Spaced.removeKeyBelow {c : SequentialKeyCache V} (spaced : c.Spaced) (key : Nat) :
    (c.removeKeyBelow key).Spaced := by
  unfold SequentialKeyCache.removeKeyBelow
  rw [List.dropWhile_eq_drop_findIdx_not]
  exact spaced.drop _

theorem Spaced.removeKeyAbove {c : SequentialKeyCache V} (spaced : c.Spaced) (key : Nat) :
    (c.removeKeyAbove key).Spaced := by
  unfold SequentialKeyCache.removeKeyAbove
  rw [List.dropWhile_eq_drop_findIdx_not, List.drop_reverse, List.reverse_reverse]
  exact spaced.take _

/-- `append` at a cache with bounds `lower` and `upper` whose expected next key fits in `u64`. -/
theorem append_of_bounds {c : SequentialKeyCache V} {lower upper : Nat}
    (front : c.lowerBound = some lower) (back : c.upperBound = some upper)
    (noWrap : upper + c.increment < 2 ^ 64) (key : Nat) (val : V) :
    c.append key val =
      if upper + c.increment = key then .ok { c with data := c.data ++ [(key, val)] }
      else if upper + c.increment < key then .error .aboveBound
      else if key < lower then .error .belowBound
      else .error .alreadyInserted := by
  simp only [append, back, front, Nat.mod_eq_of_lt noWrap]

theorem upperBound_eq_none {c : SequentialKeyCache V} : c.upperBound = none ↔ c.data = [] := by
  simp [upperBound]

/-- An append that does not pass `2 ^ 64` keeps the invariant. -/
theorem Spaced.append {c next : SequentialKeyCache V} {key : Nat} {val : V} (spaced : c.Spaced)
    (fits : (CacheOp.append key val).Fits c) (ok : c.append key val = .ok next) :
    next.Spaced := by
  obtain ⟨small, noWrap⟩ := fits
  cases back : c.upperBound with
  | none =>
    -- an empty cache starts at the key
    have empty := upperBound_eq_none.mp back
    simp only [SequentialKeyCache.append, back, Except.ok.injEq] at ok
    subst ok
    exact ⟨⟨key, by simp [keys, empty]⟩, by simpa [keys, empty] using small⟩
  | some upper =>
    have nonempty : c.data ≠ [] := fun empty => by simp [upperBound_eq_none.mpr empty] at back
    obtain ⟨lower, progression, front, last⟩ := spaced.bounds nonempty
    obtain ⟨m, length⟩ : ∃ m, c.data.length = m + 1 :=
      ⟨c.data.length - 1, by have := List.length_pos_iff.mpr nonempty; omega⟩
    have upper_eq : upper = lower + c.increment * m := by
      rw [back, length, Nat.add_sub_cancel] at last
      exact Option.some.inj last
    rw [append_of_bounds front back (noWrap upper back)] at ok
    split_ifs at ok with expected
    cases ok
    -- the pushed key is the next term of the progression
    have key_eq : key = lower + c.increment * (m + 1) := by
      rw [Nat.mul_succ]
      omega
    constructor
    · refine ⟨lower, ?_⟩
      have appended : (c.data ++ [(key, val)]).map Prod.fst = c.keys ++ [key] := by
        simp [keys]
      simp only [keys, List.length_append, List.length_singleton] at appended ⊢
      rw [appended, List.range'_concat, ← keys, progression, length, key_eq]
    · intro k mem
      simp only [keys, List.map_append, List.map_cons, List.map_nil, List.mem_append,
        List.mem_singleton] at mem
      rcases mem with old | rfl
      · exact spaced.fits k old
      · exact small

/-- An append that succeeds pushes its entry at the back. -/
theorem append_eq_ok {c next : SequentialKeyCache V} {key : Nat} {val : V}
    (ok : c.append key val = .ok next) : next = { c with data := c.data ++ [(key, val)] } := by
  cases back : c.upperBound with
  | none =>
    simp only [SequentialKeyCache.append, back, Except.ok.injEq] at ok
    exact ok.symm
  | some upper =>
    simp only [SequentialKeyCache.append, back] at ok
    split_ifs at ok with expected
    · exact (Except.ok.inj ok).symm
    · -- the refusals
      cases front : c.lowerBound with
      | none => simp [front] at ok
      | some lower =>
        simp only [front] at ok
        split_ifs at ok

@[simp]
theorem increment_apply (c : SequentialKeyCache V) (op : CacheOp V) :
    (c.apply op).increment = c.increment := by
  cases op with
  | append key val =>
    cases appended : c.append key val with
    | ok next => simp only [SequentialKeyCache.apply, appended, append_eq_ok appended]
    | error e => simp only [SequentialKeyCache.apply, appended]
  | removeKeyBelow key => rfl
  | removeKeyAbove key => rfl

/-- **Step lemma**: every call of a run keeps the invariant. -/
theorem Spaced.step {c next : SequentialKeyCache V} {op : CacheOp V} (spaced : c.Spaced)
    (step : CacheStep c op next) : next.Spaced := by
  obtain ⟨fits, rfl⟩ := step
  cases op with
  | append key val =>
    cases appended : c.append key val with
    | ok after =>
      simp only [SequentialKeyCache.apply, appended]
      exact spaced.append fits appended
    | error e =>
      simp only [SequentialKeyCache.apply, appended]
      exact spaced
  | removeKeyBelow key => exact spaced.removeKeyBelow key
  | removeKeyAbove key => exact spaced.removeKeyAbove key

/-- **Run lemma**: every cache reached from `new d` is spaced, with increment `d`. -/
theorem spaced_of_reachable {d : Nat} {c : SequentialKeyCache V}
    (reachable : Reachable (· = new d) CacheStep c) : c.Spaced ∧ c.increment = d := by
  refine reachable.invariant (fun c => c.Spaced ∧ c.increment = d) ?_ ?_
  · rintro _ rfl
    exact ⟨spaced_new d, rfl⟩
  · rintro c op next ⟨spaced, increment⟩ step
    refine ⟨spaced.step step, ?_⟩
    rw [step.2, increment_apply, increment]

/-! ### Lookups -/

/-- `get_value` at a cache with bounds `lower` and `upper`. -/
theorem getValue_of_bounds {c : SequentialKeyCache V} {lower upper : Nat}
    (front : c.lowerBound = some lower) (back : c.upperBound = some upper) (key : Nat) :
    c.getValue key =
      if lower ≤ key ∧ key ≤ upper then (c.data[(key - lower) / c.increment]?).map Prod.snd
      else none := by
  simp only [getValue, withinBound, front, back, Bool.and_eq_true, decide_eq_true_eq]

/-- A stored entry of a spaced cache sits at its index's step above the front key. -/
theorem exists_index_of_mem {c : SequentialKeyCache V} {lower : Nat}
    (progression : c.keys = List.range' lower c.data.length c.increment) {k : Nat} {v : V}
    (mem : (k, v) ∈ c.data) :
    ∃ i, ∃ inside : i < c.data.length, c.data[i] = (k, v) ∧ k = lower + c.increment * i := by
  obtain ⟨i, inside, entry⟩ := List.mem_iff_getElem.mp mem
  refine ⟨i, inside, entry, ?_⟩
  rw [← fst_getElem_of_keys progression i inside, entry]

/-- **What a lookup finds.** At a spaced cache, `get_value` finds a value exactly for the keys up
to the upper bound that lie in the step of a stored entry, `k ≤ key < k + increment`, and the
value is that entry's. A key aligned with the front key finds the entry at the key itself; any
other key inside the bounds finds the entry below it. -/
theorem Spaced.getValue_eq_some {c : SequentialKeyCache V} (spaced : c.Spaced)
    (positive : 0 < c.increment) {key : Nat} {v : V} :
    c.getValue key = some v ↔
      ∃ k, (k, v) ∈ c.data ∧ k ≤ key ∧ key < k + c.increment ∧
        ∀ upper, c.upperBound = some upper → key ≤ upper := by
  by_cases empty : c.data = []
  · simp [getValue, withinBound, lowerBound, empty]
  obtain ⟨lower, progression, front, back⟩ := spaced.bounds empty
  rw [getValue_of_bounds front back]
  constructor
  · -- the entry at the computed index
    intro found
    split_ifs at found with inside
    obtain ⟨⟨k, v'⟩, entry, rfl⟩ := Option.map_eq_some_iff.mp found
    obtain ⟨index, stored⟩ := List.getElem?_eq_some_iff.mp entry
    have at_index := fst_getElem_of_keys progression _ index
    rw [stored] at at_index
    have split := Nat.div_add_mod (key - lower) c.increment
    have remainder := Nat.mod_lt (key - lower) positive
    refine ⟨k, stored ▸ List.getElem_mem index, by omega, by omega, ?_⟩
    intro upper bound
    rw [back] at bound
    rw [← Option.some.inj bound]
    exact inside.2
  · -- the computed index is the entry's
    rintro ⟨k, mem, le, lt, below⟩
    obtain ⟨i, inside, stored, at_index⟩ := exists_index_of_mem progression mem
    have within : lower ≤ key ∧ key ≤ lower + c.increment * (c.data.length - 1) :=
      ⟨by omega, below _ back⟩
    have index : (key - lower) / c.increment = i := by
      apply Nat.div_eq_of_lt_le
      · rw [Nat.mul_comm]
        omega
      · rw [Nat.succ_mul, Nat.mul_comm]
        omega
    rw [if_pos within, index, List.getElem?_eq_getElem inside, stored]
    rfl

/-- Every stored key is at most the upper bound. -/
theorem Spaced.le_upperBound {c : SequentialKeyCache V} (spaced : c.Spaced) {k : Nat} {v : V}
    (mem : (k, v) ∈ c.data) : ∀ upper, c.upperBound = some upper → k ≤ upper := by
  intro upper bound
  obtain ⟨lower, progression, -, back⟩ := spaced.bounds (List.ne_nil_of_mem mem)
  obtain ⟨i, inside, -, at_index⟩ := exists_index_of_mem progression mem
  rw [back] at bound
  rw [← Option.some.inj bound, at_index]
  have steps : c.increment * i ≤ c.increment * (c.data.length - 1) :=
    Nat.mul_le_mul_left _ (by omega)
  omega

/-- At a key aligned with the front key, a lookup finds exactly the stored value. -/
theorem Spaced.getValue_eq_some_iff_mem {c : SequentialKeyCache V} (spaced : c.Spaced)
    (positive : 0 < c.increment) {key : Nat} {v : V}
    (aligned : ∀ lower, c.lowerBound = some lower → lower ≤ key → c.increment ∣ key - lower) :
    c.getValue key = some v ↔ (key, v) ∈ c.data := by
  rw [spaced.getValue_eq_some positive]
  constructor
  · rintro ⟨k, mem, le, lt, -⟩
    obtain ⟨lower, progression, front, -⟩ := spaced.bounds (List.ne_nil_of_mem mem)
    obtain ⟨i, -, -, at_index⟩ := exists_index_of_mem progression mem
    obtain ⟨j, steps⟩ := aligned lower front (by omega)
    -- both `k` and `key` are steps above the front key, less than one step apart
    have same : i = j := by
      have below : c.increment * i ≤ c.increment * j := by omega
      have above : c.increment * j < c.increment * (i + 1) := by rw [Nat.mul_succ]; omega
      have := Nat.le_of_mul_le_mul_left below positive
      have := Nat.lt_of_mul_lt_mul_left above
      omega
    have : k = key := by rw [at_index, same]; omega
    rwa [← this]
  · intro mem
    exact ⟨key, mem, Nat.le_refl key, by omega, spaced.le_upperBound mem⟩

/-! ### The contract over every run -/

theorem Spaced.lower_le_upper {c : SequentialKeyCache V} (spaced : c.Spaced) {lower upper : Nat}
    (front : c.lowerBound = some lower) (back : c.upperBound = some upper) : lower ≤ upper := by
  have nonempty : c.data ≠ [] := fun empty => by simp [upperBound_eq_none.mpr empty] at back
  obtain ⟨lower', -, front', back'⟩ := spaced.bounds nonempty
  rw [front'] at front
  rw [back'] at back
  rw [← Option.some.inj front, ← Option.some.inj back]
  omega

/-- The contract of a cache of increment `d`: its keys go up in steps of `d`, an append succeeds
exactly at an empty cache or at the last key plus `d` and otherwise names the bound it misses,
and a lookup at a key aligned with the front key finds exactly what is stored. A refused append
returns no cache, so it leaves the cache as it was. -/
structure Contract (d : Nat) (c : SequentialKeyCache V) : Prop where
  increasing : c.keys.Pairwise (· < ·)
  consecutive : ∀ i (next : i + 1 < c.data.length), c.data[i + 1].1 = c.data[i].1 + d
  appendEmpty : ∀ key val, c.data = [] → c.append key val = .ok { c with data := [(key, val)] }
  appendBounded : ∀ lower upper, c.lowerBound = some lower → c.upperBound = some upper →
    upper + d < 2 ^ 64 → ∀ key val,
      (key = upper + d → c.append key val = .ok { c with data := c.data ++ [(key, val)] }) ∧
      (upper + d < key → c.append key val = .error .aboveBound) ∧
      (key < lower → c.append key val = .error .belowBound) ∧
      (lower ≤ key → key < upper + d → c.append key val = .error .alreadyInserted)
  getValueAligned : ∀ key v, (∀ lower, c.lowerBound = some lower → lower ≤ key → d ∣ key - lower) →
    (c.getValue key = some v ↔ (key, v) ∈ c.data)

/-- **The cache's contract over every run**: from `new d` with `d > 0`, through any calls whose
appends stay below `2 ^ 64`, the cache meets its contract. -/
theorem sequentialKeyCache_contract {d : Nat} (positive : 0 < d) {c : SequentialKeyCache V}
    (reachable : Reachable (· = new d) CacheStep c) : Contract d c := by
  obtain ⟨spaced, rfl⟩ := spaced_of_reachable reachable
  obtain ⟨lower, progression⟩ := spaced.progression
  constructor
  · rw [progression]
    exact List.pairwise_lt_range' _ positive
  · intro i next
    rw [fst_getElem_of_keys progression _ next, fst_getElem_of_keys progression i (by omega),
      Nat.mul_succ, Nat.add_assoc]
  · intro key val empty
    simp [append, upperBound, empty]
  · intro lower upper front back noWrap key val
    have ordered := spaced.lower_le_upper front back
    rw [append_of_bounds front back noWrap]
    refine ⟨fun next => ?_, fun above => ?_, fun below => ?_, fun inside outside => ?_⟩
    · rw [if_pos next.symm]
    · rw [if_neg (by omega), if_pos above]
    · rw [if_neg (by omega), if_neg (by omega), if_pos below]
    · rw [if_neg (by omega), if_neg (by omega), if_neg (by omega)]
  · intro key v aligned
    exact spaced.getValue_eq_some_iff_mem positive aligned

/-- A cache of increment `2` after appends at `4` and `6`. -/
def evenCache : SequentialKeyCache Nat := ((new 2).apply (.append 4 40)).apply (.append 6 60)

theorem reachable_evenCache : Reachable (· = new 2) CacheStep evenCache := by
  have first : CacheStep (new 2) (.append 4 40) ((new 2).apply (.append 4 40)) :=
    ⟨⟨by decide, fun upper back => by simp [new, upperBound] at back⟩, rfl⟩
  have second : CacheStep ((new 2).apply (.append 4 40)) (.append 6 60) evenCache := by
    refine ⟨⟨by decide, fun upper back => ?_⟩, rfl⟩
    have last : upper = 4 := by
      simpa [SequentialKeyCache.apply, append, new, upperBound] using back.symm
    rw [increment_apply, last]
    decide
  exact .step (.step (.init rfl) first) second

theorem sequentialKeyCache_contract_evenCache : Contract 2 evenCache :=
  sequentialKeyCache_contract (by decide) reachable_evenCache

/-- Increment `2`, entries at `0` and `2`. -/
def twoApart : SequentialKeyCache Nat := ((new 2).apply (.append 0 10)).apply (.append 2 20)

/-- Increment one, an entry at the last `u64` key, then an append at `0`. -/
def wrappedCache : SequentialKeyCache Nat :=
  (sequential.apply (.append (2 ^ 64 - 1) 1)).apply (.append 0 2)

/-- The key `1`, between the entries at `0` and `2`, finds the value stored at `0`; and with
increment one the key after `2 ^ 64 - 1` is `0`, so the keys stop going up. -/
theorem getValue_neighbour_and_wrap :
    twoApart.getValue 1 = some 10 ∧ (1, 10) ∉ twoApart.data ∧
      wrappedCache.keys = [2 ^ 64 - 1, 0] := by
  decide

end SequentialKeyCache

end Ipc.Topdown.Stored

namespace Ipc.Topdown.SequentialKeyCache

variable {V : Type}

/-! ### The increment-one cache as stored -/

/-- The increment-one cache as stored: its values keyed from the front key up. -/
def toStored (a : SequentialKeyCache V) : Stored.SequentialKeyCache V :=
  ⟨1, (List.range' a.lowerKey a.values.length).zip a.values⟩

@[simp]
theorem increment_toStored (a : SequentialKeyCache V) : a.toStored.increment = 1 := rfl

@[simp]
theorem length_toStored (a : SequentialKeyCache V) : a.toStored.data.length = a.values.length := by
  simp [toStored]

theorem map_snd_toStored (a : SequentialKeyCache V) : a.toStored.data.map Prod.snd = a.values :=
  List.map_snd_zip (by simp)

theorem keys_toStored (a : SequentialKeyCache V) :
    a.toStored.keys = List.range' a.lowerKey a.toStored.data.length a.toStored.increment := by
  simp only [Stored.SequentialKeyCache.keys, increment_toStored, length_toStored]
  exact List.map_fst_zip (by simp)

theorem toStored_sequential :
    (sequential : SequentialKeyCache V).toStored = Stored.SequentialKeyCache.sequential := rfl

/-- The stored reading has the same bounds. -/
theorem bounds_toStored (a : SequentialKeyCache V) :
    a.toStored.lowerBound = a.lowerBound ∧ a.toStored.upperBound = a.upperBound := by
  by_cases empty : a.values = []
  · simp [toStored, lowerBound, upperBound, Stored.SequentialKeyCache.lowerBound,
      Stored.SequentialKeyCache.upperBound, empty]
  have nonempty : a.toStored.data ≠ [] := by
    rw [← List.length_pos_iff, length_toStored]
    exact List.length_pos_iff.mpr empty
  obtain ⟨front, back⟩ := Stored.SequentialKeyCache.bounds_of_keys (keys_toStored a) nonempty
  have length := List.length_pos_iff.mpr empty
  rw [front, back, lowerBound, upperBound, if_neg empty, if_neg empty, increment_toStored,
    length_toStored]
  constructor
  · rfl
  · congr 1
    omega

/-- Lookups in the stored reading find what the cache holds. -/
theorem getValue_toStored (a : SequentialKeyCache V) (key : Nat) :
    a.toStored.getValue key = a.getValue key := by
  by_cases empty : a.values = []
  · simp [toStored, getValue_eq, Stored.SequentialKeyCache.getValue,
      Stored.SequentialKeyCache.withinBound, Stored.SequentialKeyCache.lowerBound, empty]
  have nonempty : a.toStored.data ≠ [] := by
    rw [← List.length_pos_iff, length_toStored]
    exact List.length_pos_iff.mpr empty
  obtain ⟨front, back⟩ := Stored.SequentialKeyCache.bounds_of_keys (keys_toStored a) nonempty
  rw [Stored.SequentialKeyCache.getValue_of_bounds front back, getValue_eq, increment_toStored,
    Nat.div_one, ← List.getElem?_map, map_snd_toStored, length_toStored]
  by_cases above : a.lowerKey ≤ key
  · rw [if_pos above]
    by_cases inside : key ≤ a.lowerKey + 1 * (a.values.length - 1)
    · rw [if_pos ⟨above, inside⟩]
    · -- past the last key there is nothing at that index
      rw [if_neg (fun within => inside within.2), List.getElem?_eq_none (by omega)]
  · rw [if_neg (fun within => above within.1), if_neg above]

/-- The loop of `remove_key_below` read as stored. -/
theorem toStored_removeKeyBelowFrom (key lower : Nat) (values : List V) :
    (removeKeyBelowFrom key lower values).toStored =
      ⟨1, ((List.range' lower values.length).zip values).dropWhile fun entry => entry.1 < key⟩ := by
  -- induction on the values, one popped entry per step, as the loop runs
  induction values generalizing lower with
  | nil => rfl
  | cons v rest ih =>
    unfold removeKeyBelowFrom
    rw [List.length_cons, List.range'_succ, List.zip_cons_cons, List.dropWhile_cons]
    by_cases below : lower < key
    · rw [if_pos below, ih]
      simp [below]
    · rw [if_neg below]
      simp [below, toStored, List.range'_succ]

/-- `remove_key_below` commutes with the stored reading. -/
theorem removeKeyBelow_toStored (a : SequentialKeyCache V) (key : Nat) :
    a.toStored.removeKeyBelow key = (a.removeKeyBelow key).toStored := by
  rw [removeKeyBelow, toStored_removeKeyBelowFrom]
  rfl

/-- Pushing a value at the back, read as stored, pushes it at the key after the last. -/
theorem toStored_push (a : SequentialKeyCache V) (val : V) :
    ({ a with values := a.values ++ [val] } : SequentialKeyCache V).toStored =
      { a.toStored with data := a.toStored.data ++ [(a.lowerKey + a.values.length, val)] } := by
  simp [toStored, List.range'_concat, List.zip_append]

/-- An append that does not pass `2 ^ 64` commutes with the stored reading: the stored cache
accepts the same keys, refuses the others with the same error, and holds the same entries
after. -/
theorem append_toStored (a : SequentialKeyCache V) (key : Nat) (val : V)
    (noWrap : ∀ upper, a.upperBound = some upper → upper + 1 < 2 ^ 64) :
    a.toStored.append key val = (a.append key val).map toStored := by
  by_cases empty : a.values = []
  · -- both start at the key
    simp [append, Stored.SequentialKeyCache.append, upperBound,
      Stored.SequentialKeyCache.upperBound, toStored, empty, Except.map]
  have nonempty : a.toStored.data ≠ [] := by
    rw [← List.length_pos_iff, length_toStored]
    exact List.length_pos_iff.mpr empty
  obtain ⟨front, back⟩ := Stored.SequentialKeyCache.bounds_of_keys (keys_toStored a) nonempty
  have length := List.length_pos_iff.mpr empty
  have upper : a.upperBound = some (a.lowerKey + a.values.length - 1) :=
    upperBound_eq_some.mpr ⟨empty, rfl⟩
  have last := noWrap _ upper
  have next : a.lowerKey + a.toStored.increment * (a.toStored.data.length - 1) +
      a.toStored.increment = a.lowerKey + a.values.length := by
    simp only [increment_toStored, length_toStored]
    omega
  rw [Stored.SequentialKeyCache.append_of_bounds front back (by omega), next]
  unfold append
  rw [upper]
  dsimp only
  have expected : a.lowerKey + a.values.length - 1 + 1 = a.lowerKey + a.values.length := by omega
  rw [expected]
  split_ifs with pushed
  · subst pushed
    show _ = Except.ok (toStored _)
    rw [toStored_push]
  all_goals rfl

end Ipc.Topdown.SequentialKeyCache
