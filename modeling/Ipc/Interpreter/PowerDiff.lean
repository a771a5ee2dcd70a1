/-
**The power updates the interpreter hands to CometBFT (`power_diff`).**

At a checkpoint that confirms a new configuration, the interpreter compares the ledger's power
table before and after and returns to CometBFT only what changed: a power of 0 for every validator
that left, and the new entry of every validator that joined or whose power changed. Both tables
are first turned into maps keyed by public key (`into_power_map`). CometBFT reads an update of
power 0 as a removal and any other as an insertion (`power_update` of the tests).

* `mem_powerRemovals`, `mem_powerChanges` — what each of the two loops of `power_diff` emits;
* `mem_keys_powerDiff` — the diff names exactly the keys whose entries differ, and
  `powerDiff_keys_nodup` each of them once;
* `lookup_powerUpdate_powerDiff`, `powerDiff_minimal_patch` — applying the diff to the current
  map gives the next one, when no validator of the next table has power 0; no two tables need
  distinct keys for this, since only their maps are compared;
* `powerDiff_eq_nil_iff` — the diff is empty exactly when the two tables are the same map;
* `Consensus.tracks_reachable` — over every run of checkpoints, CometBFT's validator set is the
  ledger's power table.

A public key is the map's key as it is, where the code keys by its 65-byte serialisation; that
serialisation is injective, so the maps are the same.
-/

import Mathlib
import Ipc.Lib.Maps
import Ipc.Lib.System

namespace Ipc.Interpreter

open Ipc.Lib

/-- `Validator<Power>`: a public key and its voting power. -/
@[ext]
structure Validator (κ : Type) where
  publicKey : κ
  power : Nat
  deriving DecidableEq, Repr

/-- `PowerTable`: the validators of a configuration with their power. -/
abbrev PowerTable (κ : Type) := List (Validator κ)

/-- `PowerUpdates`: the changes to a power table, as CometBFT takes them. -/
abbrev PowerUpdates (κ : Type) := List (Validator κ)

/-- A power table keyed by public key (`HashMap<[u8; 65], Validator<Power>>`). -/
abbrev PowerMap (κ : Type) := AList fun _ : κ => Validator κ

variable {κ : Type} [DecidableEq κ]

/-! ### The model -/

/-- `into_power_map`: the validators keyed by their public key, a later entry of a key replacing an
earlier one. -/
def intoPowerMap (value : PowerTable κ) : PowerMap κ :=
  fromPairs (value.map fun v => (v.publicKey, v))

/-- The first loop of `power_diff`: validators in `current` but not in `next` are removed, with a
power of 0. -/
def powerRemovals (current next : PowerMap κ) : PowerUpdates κ :=
  current.entries.filterMap fun e =>
    if e.1 ∈ next then none else some ⟨e.2.publicKey, 0⟩

/-- The `insert` of the second loop of `power_diff` for an entry of `next`: its validator, unless
`current` holds the same one. -/
def powerChange (current : PowerMap κ) (e : Sigma fun _ : κ => Validator κ) :
    Option (Validator κ) :=
  match current.lookup e.1 with
  | some w => if w = e.2 then none else some e.2
  | none => some e.2

/-- The second loop of `power_diff`: validators in `next` that differ from `current` are
updated. -/
def powerChanges (current next : PowerMap κ) : PowerUpdates κ :=
  next.entries.filterMap (powerChange current)

/-- `power_diff`: the removals, then the insertions and changes. -/
def powerDiff (current next : PowerTable κ) : PowerUpdates κ :=
  let current := intoPowerMap current
  let next := intoPowerMap next
  powerRemovals current next ++ powerChanges current next

/-- One update as CometBFT applies it: power 0 removes the key, any other power stores the
validator at its key. -/
def applyUpdate (current : PowerMap κ) (v : Validator κ) : PowerMap κ :=
  if v.power = 0 then current.erase v.publicKey else current.insert v.publicKey v

/-- `power_update` of the tests: the updates applied in order to a map. -/
def powerUpdate (current : PowerMap κ) (updates : PowerUpdates κ) : PowerMap κ :=
  updates.foldl applyUpdate current

/-- What an update leaves at its key: nothing for power 0, the validator otherwise. -/
def Validator.entry (v : Validator κ) : Option (Validator κ) :=
  if v.power = 0 then none else some v

theorem lookup_applyUpdate (current : PowerMap κ) (v : Validator κ) (k : κ) :
    (applyUpdate current v).lookup k = if k = v.publicKey then v.entry else current.lookup k := by
  unfold applyUpdate Validator.entry
  by_cases atKey : k = v.publicKey
  · subst atKey
    rw [if_pos rfl]
    split_ifs <;> simp [AList.lookup_erase, AList.lookup_insert]
  · rw [if_neg atKey]
    split_ifs <;> simp [AList.lookup_erase_ne atKey, AList.lookup_insert_ne atKey]

/-! ### Maps keyed by public key -/

/-- Every validator of the map is stored at its own public key, as `into_power_map` stores it. -/
def PowerMap.Keyed (map : PowerMap κ) : Prop :=
  ∀ ⦃k v⦄, map.lookup k = some v → v.publicKey = k

/-- What `into_power_map` finds at a key is a validator of the table with that key. -/
theorem mem_of_lookup_intoPowerMap {value : PowerTable κ} {k : κ} {v : Validator κ}
    (found : (intoPowerMap value).lookup k = some v) : v ∈ value ∧ v.publicKey = k := by
  obtain ⟨v', listed, same⟩ := List.mem_map.mp (mem_of_lookup_fromPairs found)
  cases same
  exact ⟨listed, rfl⟩

theorem intoPowerMap_keyed (value : PowerTable κ) : (intoPowerMap value).Keyed :=
  fun _ _ found => (mem_of_lookup_intoPowerMap found).2

theorem PowerMap.Keyed.entry {map : PowerMap κ} (keyed : map.Keyed) {e : Sigma fun _ : κ => Validator κ}
    (listed : e ∈ map.entries) : e.2.publicKey = e.1 :=
  keyed (AList.mem_lookup_iff.mpr listed)

/-! ### The two loops -/

section Loops

variable {current next : PowerMap κ}

/-- The first loop emits power 0 for exactly the keys of `current` missing from `next`. -/
theorem mem_powerRemovals (keyed : current.Keyed) {u : Validator κ} :
    u ∈ powerRemovals current next ↔
      u.power = 0 ∧ u.publicKey ∈ current ∧ u.publicKey ∉ next := by
  simp only [powerRemovals, List.mem_filterMap, Option.ite_none_left_eq_some, Option.some.injEq]
  constructor
  · rintro ⟨e, listed, missing, rfl⟩
    rw [keyed.entry listed]
    exact ⟨rfl, AList.mem_keys.mpr (List.mem_map_of_mem listed), missing⟩
  · rintro ⟨zero, present, missing⟩
    obtain ⟨w, found⟩ := Option.isSome_iff_exists.mp (AList.lookup_isSome.mpr present)
    refine ⟨⟨u.publicKey, w⟩, AList.mem_lookup_iff.mp found, missing, ?_⟩
    rw [keyed found]
    cases u
    simp only at zero
    rw [zero]

theorem powerChange_eq_some {current : PowerMap κ} {e : Sigma fun _ : κ => Validator κ}
    {u : Validator κ} :
    powerChange current e = some u ↔ current.lookup e.1 ≠ some e.2 ∧ e.2 = u := by
  unfold powerChange
  -- Each arm of the match emits `e.2` or nothing.
  split <;> simp [*]

/-- The second loop emits the entry of `next` at exactly the keys where `current` holds another
one or none. -/
theorem mem_powerChanges (keyed : next.Keyed) {u : Validator κ} :
    u ∈ powerChanges current next ↔
      next.lookup u.publicKey = some u ∧ current.lookup u.publicKey ≠ some u := by
  simp only [powerChanges, List.mem_filterMap, powerChange_eq_some]
  constructor
  · rintro ⟨e, listed, differs, rfl⟩
    rw [keyed.entry listed]
    exact ⟨AList.mem_lookup_iff.mpr listed, differs⟩
  · rintro ⟨found, differs⟩
    exact ⟨⟨u.publicKey, u⟩, AList.mem_lookup_iff.mp found, differs, rfl⟩

end Loops

/-! ### The diff -/

section Diff

variable (current next : PowerTable κ)

theorem mem_powerDiff {u : Validator κ} :
    u ∈ powerDiff current next ↔
      (u.power = 0 ∧ u.publicKey ∈ intoPowerMap current ∧ u.publicKey ∉ intoPowerMap next) ∨
        ((intoPowerMap next).lookup u.publicKey = some u ∧
          (intoPowerMap current).lookup u.publicKey ≠ some u) := by
  rw [powerDiff, List.mem_append, mem_powerRemovals (intoPowerMap_keyed current),
    mem_powerChanges (intoPowerMap_keyed next)]

/-- **Minimality**: the diff names exactly the keys whose entries differ between the two maps. -/
theorem mem_keys_powerDiff (k : κ) :
    k ∈ (powerDiff current next).map Validator.publicKey ↔
      (intoPowerMap current).lookup k ≠ (intoPowerMap next).lookup k := by
  constructor
  · intro named
    obtain ⟨u, listed, rfl⟩ := List.mem_map.mp named
    rcases (mem_powerDiff current next).mp listed with ⟨-, present, missing⟩ | ⟨found, differs⟩
    · rw [AList.lookup_eq_none.mpr missing, ← Option.isSome_iff_ne_none]
      exact AList.lookup_isSome.mpr present
    · rwa [found]
  · intro differs
    cases found : (intoPowerMap next).lookup k with
    | none =>
      -- The key left: the first loop removes it.
      have present : k ∈ intoPowerMap current := by
        rw [← AList.lookup_isSome, Option.isSome_iff_ne_none]
        rwa [found] at differs
      have removed : (⟨k, 0⟩ : Validator κ) ∈ powerDiff current next :=
        (mem_powerDiff current next).mpr (.inl ⟨rfl, present, AList.lookup_eq_none.mp found⟩)
      exact List.mem_map_of_mem removed
    | some v =>
      -- The key holds a new entry: the second loop emits it.
      obtain rfl : v.publicKey = k := intoPowerMap_keyed next found
      rw [found] at differs
      exact List.mem_map_of_mem ((mem_powerDiff current next).mpr (.inr ⟨found, differs⟩))

/-- The diff names each key once. -/
theorem powerDiff_keys_nodup : ((powerDiff current next).map Validator.publicKey).Nodup := by
  rw [powerDiff, List.map_append, List.nodup_append]
  refine ⟨nodup_map_filterMap_entries _ _ _ ?_, nodup_map_filterMap_entries _ _ _ ?_, ?_⟩
  · intro e listed u emitted
    rw [Option.ite_none_left_eq_some, Option.some.injEq] at emitted
    rw [← emitted.2]
    exact (intoPowerMap_keyed current).entry listed
  · intro e listed u emitted
    rw [← (powerChange_eq_some.mp emitted).2]
    exact (intoPowerMap_keyed next).entry listed
  · intro k removedKey k' changedKey same
    obtain ⟨u, removed, rfl⟩ := List.mem_map.mp removedKey
    obtain ⟨u', changed, rfl⟩ := List.mem_map.mp changedKey
    have missing := ((mem_powerRemovals (intoPowerMap_keyed current)).mp removed).2.2
    have found := ((mem_powerChanges (intoPowerMap_keyed next)).mp changed).1
    rw [same, ← AList.lookup_eq_none, found] at missing
    cases missing

/-- **Patch**: applying the diff to the current map gives the next one, when no validator of the
next table has power 0. -/
theorem lookup_powerUpdate_powerDiff (nonzero : ∀ v ∈ next, v.power ≠ 0) (k : κ) :
    (powerUpdate (intoPowerMap current) (powerDiff current next)).lookup k =
      (intoPowerMap next).lookup k := by
  by_cases named : k ∈ (powerDiff current next).map Validator.publicKey
  · -- The one update at `k` decides: a removal of a key that left, or the next entry.
    obtain ⟨u, listed, rfl⟩ := List.mem_map.mp named
    rw [powerUpdate, lookup_foldl_of_mem applyUpdate Validator.publicKey Validator.entry
      lookup_applyUpdate (powerDiff_keys_nodup current next) _ listed]
    rcases (mem_powerDiff current next).mp listed with ⟨zero, -, missing⟩ | ⟨found, -⟩
    · rw [Validator.entry, if_pos zero, AList.lookup_eq_none.mpr missing]
    · rw [Validator.entry, if_neg (nonzero u (mem_of_lookup_intoPowerMap found).1), found]
  · -- No update names `k`, so the two maps already agree there.
    rw [powerUpdate, lookup_foldl_of_not_mem applyUpdate Validator.publicKey Validator.entry
      lookup_applyUpdate _ _ named]
    exact not_not.mp (mt (mem_keys_powerDiff current next k).mpr named)

/-- The diff is empty exactly when the two tables are the same map. -/
theorem powerDiff_eq_nil_iff :
    powerDiff current next = [] ↔ (intoPowerMap current).toFinmap = (intoPowerMap next).toFinmap := by
  constructor
  · intro empty
    refine Finmap.ext_lookup fun k => ?_
    rw [Finmap.lookup_toFinmap, Finmap.lookup_toFinmap]
    by_contra differs
    have named := (mem_keys_powerDiff current next k).mpr differs
    rw [empty] at named
    cases named
  · intro same
    refine List.eq_nil_iff_forall_not_mem.mpr fun u listed => ?_
    apply (mem_keys_powerDiff current next u.publicKey).mp (List.mem_map_of_mem listed)
    rw [← Finmap.lookup_toFinmap, ← Finmap.lookup_toFinmap, same]

/-- Applied to the current table, the diff gives the next one as a map, and it leaves out every key
whose power stays. -/
theorem powerDiff_minimal_patch (current next : PowerTable κ)
    (nonzero : ∀ v ∈ next, v.power ≠ 0) :
    (powerUpdate (intoPowerMap current) (powerDiff current next)).toFinmap =
        (intoPowerMap next).toFinmap ∧
      ∀ u ∈ powerDiff current next, ∀ w v,
        (intoPowerMap current).lookup u.publicKey = some w →
          (intoPowerMap next).lookup u.publicKey = some v → w.power ≠ v.power := by
  refine ⟨Finmap.ext_lookup fun k => ?_, ?_⟩
  · rw [Finmap.lookup_toFinmap, Finmap.lookup_toFinmap]
    exact lookup_powerUpdate_powerDiff current next nonzero k
  · intro u listed w v before after samePower
    -- Both entries sit at the same key, so the same power makes them the same validator.
    have sameKey : w.publicKey = v.publicKey :=
      (intoPowerMap_keyed current before).trans (intoPowerMap_keyed next after).symm
    apply (mem_keys_powerDiff current next u.publicKey).mp (List.mem_map_of_mem listed)
    rw [before, after, Validator.ext sameKey samePower]

/-- Validator `1` leaves, `2` keeps its power and `3` joins: the diff removes `1`, adds `3` and
leaves `2` out. -/
theorem powerDiff_minimal_patch_join_leave :
    let current : PowerTable Nat := [⟨1, 5⟩, ⟨2, 3⟩]
    let next : PowerTable Nat := [⟨2, 3⟩, ⟨3, 7⟩]
    powerDiff current next = [⟨1, 0⟩, ⟨3, 7⟩] ∧ (∀ v ∈ next, v.power ≠ 0) ∧
      ((powerUpdate (intoPowerMap current) (powerDiff current next)).toFinmap =
          (intoPowerMap next).toFinmap ∧
        ∀ u ∈ powerDiff current next, ∀ w v,
          (intoPowerMap current).lookup u.publicKey = some w →
            (intoPowerMap next).lookup u.publicKey = some v → w.power ≠ v.power) :=
  ⟨by decide, by decide, powerDiff_minimal_patch _ _ (by decide)⟩

end Diff

/-! ### CometBFT's validator set over a run -/

/-- What the ledger and CometBFT hold between blocks: the ledger's power table and the validator
set CometBFT has been given. -/
structure Consensus (κ : Type) where
  powerTable : PowerTable κ
  validators : PowerMap κ

namespace Consensus

/-- A checkpoint at which the ledger's power table becomes `next`: the interpreter returns the
diff of the two tables, and CometBFT applies it. -/
def checkpoint (s : Consensus κ) (next : PowerTable κ) : Consensus κ :=
  ⟨next, powerUpdate s.validators (powerDiff s.powerTable next)⟩

/-- A step of the run: a checkpoint to a power table whose validators all have power. -/
def Step (s : Consensus κ) (next : PowerTable κ) (s' : Consensus κ) : Prop :=
  (∀ v ∈ next, v.power ≠ 0) ∧ s' = s.checkpoint next

/-- CometBFT's validator set is the ledger's power table, as a map. -/
def Tracks (s : Consensus κ) : Prop :=
  s.validators.toFinmap = (intoPowerMap s.powerTable).toFinmap

/-- A checkpoint keeps CometBFT in step with the ledger. -/
theorem Tracks.checkpoint {s : Consensus κ} (tracks : s.Tracks) {next : PowerTable κ}
    (nonzero : ∀ v ∈ next, v.power ≠ 0) : (s.checkpoint next).Tracks := by
  have same : ∀ k, s.validators.lookup k = (intoPowerMap s.powerTable).lookup k := fun k => by
    rw [← Finmap.lookup_toFinmap, ← Finmap.lookup_toFinmap, tracks]
  refine Finmap.ext_lookup fun k => ?_
  rw [Finmap.lookup_toFinmap, Finmap.lookup_toFinmap, Consensus.checkpoint, powerUpdate,
    lookup_foldl_congr applyUpdate Validator.publicKey Validator.entry lookup_applyUpdate _ same]
  exact lookup_powerUpdate_powerDiff s.powerTable next nonzero k

/-- **CometBFT follows the ledger**: from the genesis power table given to both, every run of
checkpoints leaves CometBFT holding the ledger's power table. -/
theorem tracks_reachable (genesis : PowerTable κ) {s : Consensus κ}
    (reachable : Reachable (· = ⟨genesis, intoPowerMap genesis⟩) Step s) : s.Tracks := by
  refine reachable.invariant Tracks ?_ ?_
  · rintro _ rfl
    rfl
  · rintro s next _ tracks ⟨nonzero, rfl⟩
    exact tracks.checkpoint nonzero

end Consensus

end Ipc.Interpreter
