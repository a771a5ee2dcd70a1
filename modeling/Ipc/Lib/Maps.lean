/-
**Ordered maps as sorted association lists, hash maps as association lists.**

`OrdMap κ ν` is a finite map kept as its entries in strictly increasing key order: the shape of a
persistent ordered map such as `im::OrdMap` or a B-tree map. It offers what those maps offer to the
code modelled here: a lookup, an insertion that keeps the order and replaces the entry at its key,
the entries with the smallest and the largest key, and `split k`, the entries below and above `k`
with the entry at `k` itself dropped.

* `get?_insert`, `mem_keys_insert` — an insertion changes exactly the entry at its key;
* `get?_splitRight`, `mem_keys_splitRight` — the right half of a split is the map restricted to
  the keys above the split key;
* `minKey?_eq_some_iff`, `maxKey?_eq_some_iff` — the first and last entries carry the least and the
  greatest key (`minKey?_of_interval`, `maxKey?_of_interval` for keys filling an interval);
* `insert_of_lt_keys`, `insert_of_keys_lt` — inserting past either end is a push at that end.

A hash map is Mathlib's `AList`, a list of entries with distinct keys; its iteration order is one
of the orders a hash map may have, and nothing modelled here depends on which. `fromPairs` builds
one from pairs as `from_iter` does, a later pair overwriting an earlier one; `mapValues` changes
every value in place.
-/

import Mathlib

namespace Ipc.Lib

variable {κ ν : Type}

/-! ### Entry lists -/

section Entries

variable [LinearOrder κ]

/-- The value stored at `k` in a list of entries (the first entry with that key). -/
def lookupEntry (k : κ) : List (κ × ν) → Option ν
  | [] => none
  | e :: rest => if e.1 = k then some e.2 else lookupEntry k rest

/-- Insert `(k, v)` into entries kept in increasing key order, replacing the entry at `k`. -/
def insertEntry (k : κ) (v : ν) : List (κ × ν) → List (κ × ν)
  | [] => [(k, v)]
  | e :: rest =>
    if k < e.1 then (k, v) :: e :: rest
    else if k = e.1 then (k, v) :: rest
    else e :: insertEntry k v rest

theorem mem_keys_insertEntry (k : κ) (v : ν) (entries : List (κ × ν)) (key : κ) :
    key ∈ (insertEntry k v entries).map Prod.fst ↔ key = k ∨ key ∈ entries.map Prod.fst := by
  induction entries with
  | nil => simp [insertEntry]
  | cons e rest ih =>
    unfold insertEntry
    by_cases below : k < e.1
    · simp [below]
    · by_cases same : k = e.1
      · subst same
        simp
      · simp only [below, same, if_false, List.map_cons, List.mem_cons, ih]
        exact or_left_comm

theorem sorted_insertEntry (k : κ) (v : ν) {entries : List (κ × ν)}
    (sorted : (entries.map Prod.fst).Pairwise (· < ·)) :
    ((insertEntry k v entries).map Prod.fst).Pairwise (· < ·) := by
  induction entries with
  | nil => simp [insertEntry]
  | cons e rest ih =>
    rw [List.map_cons, List.pairwise_cons] at sorted
    obtain ⟨headBelow, restSorted⟩ := sorted
    unfold insertEntry
    by_cases below : k < e.1
    · simp only [below, if_true, List.map_cons, List.pairwise_cons, List.mem_cons]
      refine ⟨?_, headBelow, restSorted⟩
      rintro key (rfl | member)
      · exact below
      · exact lt_trans below (headBelow key member)
    · by_cases same : k = e.1
      · subst same
        simp only [lt_irrefl, if_false, if_true, List.map_cons, List.pairwise_cons]
        exact ⟨headBelow, restSorted⟩
      · have above : e.1 < k := lt_of_le_of_ne (not_lt.mp below) (Ne.symm same)
        simp only [below, same, if_false, List.map_cons, List.pairwise_cons]
        refine ⟨?_, ih restSorted⟩
        intro key member
        rcases (mem_keys_insertEntry k v rest key).mp member with rfl | old
        · exact above
        · exact headBelow key old

@[simp]
theorem lookupEntry_insertEntry (k : κ) (v : ν) (entries : List (κ × ν)) (key : κ) :
    lookupEntry key (insertEntry k v entries) =
      if key = k then some v else lookupEntry key entries := by
  induction entries with
  | nil => simp [insertEntry, lookupEntry, eq_comm]
  | cons e rest ih =>
    unfold insertEntry
    by_cases below : k < e.1
    · simp [below, lookupEntry, eq_comm]
    · by_cases same : k = e.1
      · rw [if_neg below, if_pos same]
        by_cases hit : key = k
        · simp [hit, lookupEntry]
        · have miss : e.1 ≠ key := fun eq => hit (eq.symm.trans same.symm)
          simp [hit, Ne.symm hit, lookupEntry, miss]
      · simp only [below, same, if_false, lookupEntry, ih]
        by_cases hit : e.1 = key
        · have : key ≠ k := fun eq => same (eq ▸ hit.symm)
          simp [hit, this]
        · simp [hit]

theorem lookupEntry_filter (p : κ → Bool) (entries : List (κ × ν)) (key : κ) :
    lookupEntry key (entries.filter fun e => p e.1) =
      if p key then lookupEntry key entries else none := by
  induction entries with
  | nil => simp [lookupEntry]
  | cons e rest ih =>
    by_cases keep : p e.1
    · by_cases hit : e.1 = key
      · subst hit
        simp [lookupEntry, keep]
      · simp [lookupEntry, hit, keep, ih]
    · by_cases hit : e.1 = key
      · subst hit
        simp [keep, ih]
      · simp [lookupEntry, hit, keep, ih]

theorem lookupEntry_isSome_iff (entries : List (κ × ν)) (key : κ) :
    (lookupEntry key entries).isSome ↔ key ∈ entries.map Prod.fst := by
  induction entries with
  | nil => simp [lookupEntry]
  | cons e rest ih =>
    by_cases hit : e.1 = key
    · simp [lookupEntry, hit]
    · simp [lookupEntry, hit, ih, Ne.symm hit]

/-- In entries with distinct keys, the value found at a key is the value of its entry. -/
theorem lookupEntry_eq_some_iff {entries : List (κ × ν)} (distinct : (entries.map Prod.fst).Nodup)
    (key : κ) (v : ν) : lookupEntry key entries = some v ↔ (key, v) ∈ entries := by
  induction entries with
  | nil => simp [lookupEntry]
  | cons e rest ih =>
    rw [List.map_cons, List.nodup_cons] at distinct
    obtain ⟨fresh, restDistinct⟩ := distinct
    by_cases hit : e.1 = key
    · -- the key is the head's, so it is no key of the rest
      have notLater : (key, v) ∉ rest := fun member => fresh (hit ▸ List.mem_map_of_mem member)
      obtain ⟨k, w⟩ := e
      simp only at hit
      subst hit
      simp [lookupEntry, notLater, eq_comm]
    · have notHead : (key, v) ≠ e := fun eq => hit (eq ▸ rfl)
      simp [lookupEntry, hit, ih restDistinct, notHead]

/-- Inserting a key above every key appends the entry. -/
theorem insertEntry_of_lt_keys (k : κ) (v : ν) (entries : List (κ × ν))
    (above : ∀ key ∈ entries.map Prod.fst, key < k) :
    insertEntry k v entries = entries ++ [(k, v)] := by
  induction entries with
  | nil => rfl
  | cons e rest ih =>
    have headBelow : e.1 < k := above e.1 (by simp)
    have rest_above : ∀ key ∈ rest.map Prod.fst, key < k :=
      fun key member => above key (List.mem_cons_of_mem _ member)
    simp [insertEntry, not_lt.mpr headBelow.le, ne_of_gt headBelow, ih rest_above]

/-- Inserting a key below every key puts the entry first. -/
theorem insertEntry_of_keys_lt (k : κ) (v : ν) (entries : List (κ × ν))
    (below : ∀ key ∈ entries.map Prod.fst, k < key) :
    insertEntry k v entries = (k, v) :: entries := by
  cases entries with
  | nil => rfl
  | cons e rest => simp [insertEntry, below e.1 (by simp)]

end Entries

/-! ### Ordered maps -/

/-- A finite map whose entries are kept in strictly increasing key order. -/
structure OrdMap (κ ν : Type) [LinearOrder κ] where
  entries : List (κ × ν)
  sorted : (entries.map Prod.fst).Pairwise (· < ·)

namespace OrdMap

variable [LinearOrder κ]

/-- The map with no entries. -/
def empty : OrdMap κ ν := ⟨[], List.Pairwise.nil⟩

/-- The map with the single entry `(k, v)`. -/
def singleton (k : κ) (v : ν) : OrdMap κ ν := ⟨[(k, v)], by simp⟩

/-- The keys, in increasing order. -/
def keys (m : OrdMap κ ν) : List κ := m.entries.map Prod.fst

/-- The value at `k`. -/
def get? (m : OrdMap κ ν) (k : κ) : Option ν := lookupEntry k m.entries

/-- Store `v` at `k`, replacing what was there. -/
def insert (m : OrdMap κ ν) (k : κ) (v : ν) : OrdMap κ ν :=
  ⟨insertEntry k v m.entries, sorted_insertEntry k v m.sorted⟩

/-- The entries with keys above `k` (the right half of `split k`, which drops `k` itself). -/
def splitRight (m : OrdMap κ ν) (k : κ) : OrdMap κ ν :=
  ⟨m.entries.filter fun e => decide (k < e.1),
    List.Pairwise.sublist (List.Sublist.map _ List.filter_sublist) m.sorted⟩

/-- The entries with keys below `k` (the left half of `split k`). -/
def splitLeft (m : OrdMap κ ν) (k : κ) : OrdMap κ ν :=
  ⟨m.entries.filter fun e => decide (e.1 < k),
    List.Pairwise.sublist (List.Sublist.map _ List.filter_sublist) m.sorted⟩

/-- The two halves of the map around `k`; the entry at `k` belongs to neither. -/
def split (m : OrdMap κ ν) (k : κ) : OrdMap κ ν × OrdMap κ ν := (m.splitLeft k, m.splitRight k)

/-- The least key, if any. -/
def minKey? (m : OrdMap κ ν) : Option κ := m.keys.head?

/-- The greatest key, if any. -/
def maxKey? (m : OrdMap κ ν) : Option κ := m.keys.getLast?

@[simp]
theorem keys_empty : (empty : OrdMap κ ν).keys = [] := rfl

@[simp]
theorem get?_empty (key : κ) : (empty : OrdMap κ ν).get? key = none := rfl

@[simp]
theorem keys_singleton (k : κ) (v : ν) : (singleton k v).keys = [k] := rfl

@[simp]
theorem get?_singleton (k : κ) (v : ν) (key : κ) :
    (singleton k v).get? key = if key = k then some v else none := by
  unfold singleton get?
  by_cases hit : key = k
  · simp [lookupEntry, hit]
  · simp [lookupEntry, hit, Ne.symm hit]

@[simp]
theorem get?_insert (m : OrdMap κ ν) (k : κ) (v : ν) (key : κ) :
    (m.insert k v).get? key = if key = k then some v else m.get? key :=
  lookupEntry_insertEntry k v m.entries key

@[simp]
theorem mem_keys_insert (m : OrdMap κ ν) (k : κ) (v : ν) (key : κ) :
    key ∈ (m.insert k v).keys ↔ key = k ∨ key ∈ m.keys :=
  mem_keys_insertEntry k v m.entries key

@[simp]
theorem get?_splitRight (m : OrdMap κ ν) (k key : κ) :
    (m.splitRight k).get? key = if k < key then m.get? key else none := by
  unfold get? splitRight
  simpa using lookupEntry_filter (fun key => decide (k < key)) m.entries key

@[simp]
theorem mem_keys_splitRight (m : OrdMap κ ν) (k key : κ) :
    key ∈ (m.splitRight k).keys ↔ key ∈ m.keys ∧ k < key := by
  simp only [keys, splitRight, List.mem_map, List.mem_filter, decide_eq_true_eq]
  constructor
  · rintro ⟨e, ⟨member, above⟩, rfl⟩
    exact ⟨⟨e, member, rfl⟩, above⟩
  · rintro ⟨⟨e, member, rfl⟩, above⟩
    exact ⟨e, ⟨member, above⟩, rfl⟩

theorem isSome_get?_iff (m : OrdMap κ ν) (key : κ) : (m.get? key).isSome ↔ key ∈ m.keys :=
  lookupEntry_isSome_iff m.entries key

theorem get?_eq_none_iff (m : OrdMap κ ν) (key : κ) : m.get? key = none ↔ key ∉ m.keys := by
  rw [← isSome_get?_iff, Option.not_isSome_iff_eq_none]

theorem mem_keys_of_get?_eq_some {m : OrdMap κ ν} {key : κ} {v : ν} (found : m.get? key = some v) :
    key ∈ m.keys :=
  (isSome_get?_iff m key).mp (by simp [found])

/-- A map holds `v` at `key` exactly when `(key, v)` is one of its entries. -/
theorem get?_eq_some_iff (m : OrdMap κ ν) (key : κ) (v : ν) :
    m.get? key = some v ↔ (key, v) ∈ m.entries :=
  lookupEntry_eq_some_iff (m.sorted.imp ne_of_lt) key v

/-- The first key of a map is below every other key. -/
theorem minKey?_eq_some_iff (m : OrdMap κ ν) (k : κ) :
    m.minKey? = some k ↔ k ∈ m.keys ∧ ∀ key ∈ m.keys, k ≤ key := by
  have sorted : m.keys.Pairwise (· < ·) := m.sorted
  unfold minKey?
  cases hkeys : m.keys with
  | nil => simp
  | cons first rest =>
    rw [hkeys, List.pairwise_cons] at sorted
    simp only [List.head?_cons, Option.some.injEq, List.mem_cons, forall_eq_or_imp]
    constructor
    · rintro rfl
      exact ⟨Or.inl rfl, le_rfl, fun key member => (sorted.1 key member).le⟩
    · rintro ⟨rfl | member, atMost, -⟩
      · rfl
      · exact le_antisymm (atMost) (sorted.1 k member).le |>.symm

/-- The last key of a map is above every other key. -/
theorem maxKey?_eq_some_iff (m : OrdMap κ ν) (k : κ) :
    m.maxKey? = some k ↔ k ∈ m.keys ∧ ∀ key ∈ m.keys, key ≤ k := by
  have sorted : m.keys.Pairwise (· < ·) := m.sorted
  unfold maxKey?
  constructor
  · intro last
    have member : k ∈ m.keys := List.mem_of_getLast? last
    refine ⟨member, fun key keyMember => ?_⟩
    obtain ⟨front, split⟩ := List.getLast?_eq_some_iff.mp last
    rw [split, List.pairwise_append] at sorted
    rw [split, List.mem_append] at keyMember
    rcases keyMember with inFront | inLast
    · exact (sorted.2.2 key inFront k (by simp)).le
    · simp only [List.mem_singleton] at inLast
      exact inLast.le
  · rintro ⟨member, atLeast⟩
    cases hlast : m.keys.getLast? with
    | none => simp_all
    | some last =>
      have lastMember : last ∈ m.keys := List.mem_of_getLast? hlast
      obtain ⟨front, split⟩ := List.getLast?_eq_some_iff.mp hlast
      have lastAbove : k ≤ last := by
        rw [split, List.pairwise_append] at sorted
        have : k ∈ front ++ [last] := split ▸ member
        rcases List.mem_append.mp this with inFront | inLast
        · exact (sorted.2.2 k inFront last (by simp)).le
        · simp only [List.mem_singleton] at inLast
          exact inLast.le
      exact congrArg some (le_antisymm (atLeast last lastMember) lastAbove)

/-- A map whose keys are exactly an interval starts at its lower end. -/
theorem minKey?_of_interval (m : OrdMap κ ν) {lo hi : κ} (le : lo ≤ hi)
    (interval : ∀ key, key ∈ m.keys ↔ lo ≤ key ∧ key ≤ hi) : m.minKey? = some lo :=
  (minKey?_eq_some_iff m lo).mpr
    ⟨(interval lo).mpr ⟨le_rfl, le⟩, fun key member => ((interval key).mp member).1⟩

/-- A map whose keys are exactly an interval ends at its upper end. -/
theorem maxKey?_of_interval (m : OrdMap κ ν) {lo hi : κ} (le : lo ≤ hi)
    (interval : ∀ key, key ∈ m.keys ↔ lo ≤ key ∧ key ≤ hi) : m.maxKey? = some hi :=
  (maxKey?_eq_some_iff m hi).mpr
    ⟨(interval hi).mpr ⟨le, le_rfl⟩, fun key member => ((interval key).mp member).2⟩

theorem minKey?_eq_none_iff (m : OrdMap κ ν) : m.minKey? = none ↔ m.keys = [] := by
  simp [minKey?]

theorem maxKey?_eq_none_iff (m : OrdMap κ ν) : m.maxKey? = none ↔ m.keys = [] := by
  simp [maxKey?]

/-- Inserting a key above every key appends the entry. -/
theorem insert_of_lt_keys (m : OrdMap κ ν) (k : κ) (v : ν) (above : ∀ key ∈ m.keys, key < k) :
    (m.insert k v).entries = m.entries ++ [(k, v)] :=
  insertEntry_of_lt_keys k v m.entries above

/-- Inserting a key below every key puts the entry first. -/
theorem insert_of_keys_lt (m : OrdMap κ ν) (k : κ) (v : ν) (below : ∀ key ∈ m.keys, k < key) :
    (m.insert k v).entries = (k, v) :: m.entries :=
  insertEntry_of_keys_lt k v m.entries below

end OrdMap

/-! ### Hash maps -/

section HashMaps

variable [DecidableEq κ]

/-- The map of a list of pairs, a later pair overwriting an earlier one (`from_iter`). -/
def fromPairs (pairs : List (κ × ν)) : AList (fun _ : κ => ν) :=
  pairs.foldl (fun map pair => map.insert pair.1 pair.2) ∅

/-- The sum of the values of a map with numeric values (`values().sum()`). -/
def sumValues (map : AList (fun _ : κ => Nat)) : Nat :=
  (map.entries.map Sigma.snd).sum

theorem mem_entries_of_lookup {map : AList (fun _ : κ => ν)} {k : κ} {v : ν}
    (found : map.lookup k = some v) : (⟨k, v⟩ : Sigma fun _ : κ => ν) ∈ map.entries :=
  AList.mem_lookup_iff.mp found

/-- What `fromPairs` finds at a key was one of the pairs. -/
theorem mem_of_lookup_fromPairs {pairs : List (κ × ν)} {k : κ} {v : ν}
    (found : (fromPairs pairs).lookup k = some v) : (k, v) ∈ pairs := by
  -- The fold starts from a map with nothing at `k`, so the value comes from some pair.
  suffices loop : ∀ (map : AList (fun _ : κ => ν)),
      (pairs.foldl (fun map pair => map.insert pair.1 pair.2) map).lookup k = some v →
        map.lookup k = some v ∨ (k, v) ∈ pairs by
    simpa using loop ∅ found
  clear found
  induction pairs with
  | nil => exact fun map found => .inl found
  | cons pair pairs ih =>
    intro map found
    rw [List.foldl_cons] at found
    rcases ih _ found with inserted | later
    · by_cases atKey : k = pair.1
      · subst atKey
        rw [AList.lookup_insert, Option.some.injEq] at inserted
        exact .inr (by simp [← inserted])
      · rw [AList.lookup_insert_ne atKey] at inserted
        exact .inl inserted
    · exact .inr (List.mem_cons_of_mem _ later)

/-- A key that one of the pairs carries is in `fromPairs`. -/
theorem lookup_fromPairs_isSome {pairs : List (κ × ν)} {k : κ} {v : ν} (listed : (k, v) ∈ pairs) :
    ((fromPairs pairs).lookup k).isSome := by
  -- Once the key is in the map, later insertions keep it there.
  suffices loop : ∀ (map : AList (fun _ : κ => ν)), (map.lookup k).isSome ∨ (k, v) ∈ pairs →
      ((pairs.foldl (fun map pair => map.insert pair.1 pair.2) map).lookup k).isSome from
    loop ∅ (.inr listed)
  clear listed
  induction pairs with
  | nil =>
    intro map present
    simpa using present
  | cons pair pairs ih =>
    intro map present
    rw [List.foldl_cons]
    apply ih
    by_cases atKey : k = pair.1
    · subst atKey
      exact .inl (by rw [AList.lookup_insert]; rfl)
    rcases present with present | listed
    · exact .inl (by rw [AList.lookup_insert_ne atKey]; exact present)
    · rcases List.mem_cons.mp listed with here | later
      · exact absurd (congrArg Prod.fst here) atKey
      · exact .inr later

omit [DecidableEq κ] in
/-- The map with `f` applied to the value of every entry, the keys and their order kept (a loop
over `values_mut`). -/
def mapValues {ν' : Type} (f : κ → ν → ν') (map : AList (fun _ : κ => ν)) :
    AList (fun _ : κ => ν') :=
  ⟨map.entries.map (@Sigma.map κ κ (fun _ => ν) (fun _ => ν') id f), by
    have sameKeys :
        (map.entries.map (@Sigma.map κ κ (fun _ => ν) (fun _ => ν') id f)).keys = map.entries.keys := by
      rw [List.keys, List.keys, List.map_map]
      rfl
    rw [List.NodupKeys, sameKeys]
    exact map.nodupKeys⟩

theorem lookup_mapValues {ν' : Type} (f : κ → ν → ν') (map : AList (fun _ : κ => ν)) (k : κ) :
    (mapValues f map).lookup k = (map.lookup k).map (f k) :=
  List.dlookup_map₂ k

theorem mem_mapValues {ν' : Type} {f : κ → ν → ν'} {map : AList (fun _ : κ => ν)} {k : κ} :
    k ∈ mapValues f map ↔ k ∈ map := by
  rw [← AList.lookup_isSome, ← AList.lookup_isSome, lookup_mapValues, Option.isSome_map]

omit [DecidableEq κ] in
/-- Keeping, for some entries of a map, one item stored under the entry's key gives items with
distinct keys. -/
theorem nodup_map_filterMap_entries {α : Type} (map : AList (fun _ : κ => ν))
    (keep : (Sigma fun _ : κ => ν) → Option α) (key : α → κ)
    (keepsKey : ∀ e ∈ map.entries, ∀ a, keep e = some a → key a = e.1) :
    ((map.entries.filterMap keep).map key).Nodup := by
  rw [List.map_filterMap, List.Nodup, List.pairwise_filterMap]
  -- Distinct keys of two entries stay distinct keys of what is kept from them.
  refine (List.nodupKeys_iff_pairwise.mp map.nodupKeys).imp_of_mem ?_
  intro e e' listed listed' distinct k kept k' kept'
  obtain ⟨a, found, rfl⟩ := Option.map_eq_some_iff.mp kept
  obtain ⟨a', found', rfl⟩ := Option.map_eq_some_iff.mp kept'
  rw [keepsKey e listed a found, keepsKey e' listed' a' found']
  exact distinct

end HashMaps

/-! ### Loops of single-key updates

A loop that applies `step` to a map once per item, where the step for item `a` sets the entry at
`key a` to `effect a` (a value, or nothing) and leaves every other entry as it was. -/

section Updates

variable [DecidableEq κ] {α : Type} (step : AList (fun _ : κ => ν) → α → AList (fun _ : κ => ν))
  (key : α → κ) (effect : α → Option ν)
  (stepLookup : ∀ map a k, (step map a).lookup k = if k = key a then effect a else map.lookup k)

include stepLookup

/-- A key that no item names keeps its entry. -/
theorem lookup_foldl_of_not_mem (items : List α) (map : AList (fun _ : κ => ν)) {k : κ}
    (absent : k ∉ items.map key) : (items.foldl step map).lookup k = map.lookup k := by
  induction items generalizing map with
  | nil => rfl
  | cons a items ih =>
    simp only [List.map_cons, List.mem_cons, not_or] at absent
    rw [List.foldl_cons, ih _ absent.2, stepLookup, if_neg absent.1]

/-- Over items with distinct keys, each item's key ends with that item's effect. -/
theorem lookup_foldl_of_mem {items : List α} (distinct : (items.map key).Nodup)
    (map : AList (fun _ : κ => ν)) {a : α} (named : a ∈ items) :
    (items.foldl step map).lookup (key a) = effect a := by
  induction items generalizing map with
  | nil => cases named
  | cons b items ih =>
    rw [List.map_cons, List.nodup_cons] at distinct
    rw [List.foldl_cons]
    rcases List.mem_cons.mp named with rfl | later
    · rw [lookup_foldl_of_not_mem step key effect stepLookup items _ distinct.1, stepLookup,
        if_pos rfl]
    · exact ih distinct.2 _ later

/-- The loop's result at each key depends on the starting map only through its entry there. -/
theorem lookup_foldl_congr (items : List α) {map map' : AList (fun _ : κ => ν)}
    (same : ∀ k, map.lookup k = map'.lookup k) (k : κ) :
    (items.foldl step map).lookup k = (items.foldl step map').lookup k := by
  induction items generalizing map map' with
  | nil => exact same k
  | cons a items ih =>
    refine ih fun k' => ?_
    rw [stepLookup, stepLookup, same]

end Updates

end Ipc.Lib
