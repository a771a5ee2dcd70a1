/-
**The IPFS resolution pool (`fendermint_vm_ipfs_resolver::pool::ResolvePool`).**

The pool maps a resolution key (a CID) to a `ResolveStatus`: a resolution flag and the set of items
that resolve to that key. The flag is a `TVar<bool>` shared with the `ResolveTask` queued when the
status was created, and the background resolver flips it through the task. Here every flag the pool
has created lives in `flags`, and a status or a task names its flag by its index there. Removing a
key drops its status and so its flag: a task still in flight for the old status then flips a flag
that no status reads any more.

The pool carries one invariant as a field: every item sits under its own key (`Keyed`).

* `mem_members` — an item is in the pool when the status under its key holds it;
* `mem_add` — adding an item adds exactly it;
* `mem_remove` — removing an item removes every item under its key, so every item with the same
  content, whatever else it differs in;
* `mem_collectResolved` — the items collected are those under a key whose flag is set.
-/

import Mathlib

namespace Ipc.Resolver

/-- `ResolveStatus<T>`: the resolution flag, by its index in the pool's flags, and the items that
resolve to the same key. -/
structure ResolveStatus (T : Type) where
  isResolved : Nat
  items : List T
  deriving DecidableEq, Repr

/-- `ResolveTask`: the content to resolve and the flag to flip when done. -/
structure ResolveTask (C : Type) where
  key : C
  isResolved : Nat
  deriving DecidableEq, Repr

section Keyed

variable {T C : Type} [DecidableEq C]

/-- Every status holds only items whose key is the key it is stored under. -/
def Keyed (resolveKey : T → C) (items : AList fun _ : C => ResolveStatus T) : Prop :=
  ∀ key status, items.lookup key = some status → ∀ item ∈ status.items, resolveKey item = key

theorem Keyed.insert {resolveKey : T → C} {items : AList fun _ : C => ResolveStatus T}
    (keyed : Keyed resolveKey items) {key : C} {status : ResolveStatus T}
    (own : ∀ item ∈ status.items, resolveKey item = key) :
    Keyed resolveKey (items.insert key status) := by
  intro key' status' found
  by_cases same : key' = key
  · subst same
    rw [AList.lookup_insert, Option.some_inj] at found
    subst found
    exact own
  · rw [AList.lookup_insert_ne same] at found
    exact keyed key' status' found

theorem Keyed.erase {resolveKey : T → C} {items : AList fun _ : C => ResolveStatus T}
    (keyed : Keyed resolveKey items) (key : C) : Keyed resolveKey (items.erase key) := by
  intro key' status' found
  by_cases same : key' = key
  · subst same
    rw [AList.lookup_erase] at found
    cases found
  · rw [AList.lookup_erase_ne same] at found
    exact keyed key' status' found

end Keyed

/-- `ResolvePool<T>`, for items resolved by `resolveKey` (`From<&T> for ResolveKey`): the statuses
by key, the queue of tasks for the background resolver, and the flags created so far. -/
structure ResolvePool (T C : Type) [DecidableEq C] (resolveKey : T → C) where
  items : AList fun _ : C => ResolveStatus T
  queue : List (ResolveTask C)
  flags : List Bool
  keyed : Keyed resolveKey items

namespace ResolvePool

variable {T C : Type} [DecidableEq C] {resolveKey : T → C}

/-- `ResolvePool::new`. -/
def new : ResolvePool T C resolveKey :=
  ⟨∅, [], [], fun key status found => by rw [AList.lookup_empty] at found; cases found⟩

/-- `ResolveStatus::is_resolved`: the flag the status names. -/
def isResolved (pool : ResolvePool T C resolveKey) (status : ResolveStatus T) : Bool :=
  pool.flags.getD status.isResolved false

/-- `add`: a new item joins the status under its key, or opens a status with a fresh flag and
queues a task for it. The status is returned. -/
def add [DecidableEq T] (pool : ResolvePool T C resolveKey) (item : T) :
    ResolveStatus T × ResolvePool T C resolveKey :=
  let key := resolveKey item
  match found : pool.items.lookup key with
  | some status =>
    let status' := { status with items := status.items.insert item }
    (status', { pool with
      items := pool.items.insert key status'
      keyed := pool.keyed.insert fun other mem => by
        rcases List.mem_insert_iff.mp mem with rfl | old
        · rfl
        · exact pool.keyed key status found other old })
  | none =>
    let status : ResolveStatus T := ⟨pool.flags.length, [item]⟩
    (status, ⟨pool.items.insert key status, pool.queue ++ [⟨key, pool.flags.length⟩],
      pool.flags ++ [false], pool.keyed.insert fun other mem => by
        rw [List.mem_singleton.mp mem]⟩)

/-- `get_status`: the status under the item's key. -/
def getStatus (pool : ResolvePool T C resolveKey) (item : T) : Option (ResolveStatus T) :=
  pool.items.lookup (resolveKey item)

/-- `collect_resolved`: the items of every status whose flag is set; they stay in the pool. -/
def collectResolved (pool : ResolvePool T C resolveKey) : List T :=
  (pool.items.entries.filter fun entry => pool.isResolved entry.2).flatMap fun entry =>
    entry.2.items

/-- `next`: the task at the head of the queue, taken off it. -/
def next (pool : ResolvePool T C resolveKey) : Option (ResolveTask C × ResolvePool T C resolveKey) :=
  match pool.queue with
  | [] => none
  | task :: rest => some (task, { pool with queue := rest })

/-- `remove`: drop the status under the item's key, with all its items. -/
def remove (pool : ResolvePool T C resolveKey) (item : T) : ResolvePool T C resolveKey :=
  { pool with
    items := pool.items.erase (resolveKey item)
    keyed := pool.keyed.erase _ }

/-- `ResolveTask::set_resolved`: flip the task's flag. -/
def setResolved (pool : ResolvePool T C resolveKey) (task : ResolveTask C) :
    ResolvePool T C resolveKey :=
  { pool with flags := pool.flags.set task.isResolved true }

/-- `schedule_retry`: put a task back at the end of the queue. -/
def requeue (pool : ResolvePool T C resolveKey) (task : ResolveTask C) :
    ResolvePool T C resolveKey :=
  { pool with queue := pool.queue ++ [task] }

/-- The items in the pool, under every key. -/
def members (pool : ResolvePool T C resolveKey) : List T :=
  pool.items.entries.flatMap fun entry => entry.2.items

/-! ### Membership -/

theorem mem_members {pool : ResolvePool T C resolveKey} {item : T} :
    item ∈ pool.members ↔
      ∃ status, pool.items.lookup (resolveKey item) = some status ∧ item ∈ status.items := by
  rw [members, List.mem_flatMap]
  constructor
  · rintro ⟨⟨key, status⟩, entry, held⟩
    have found : pool.items.lookup key = some status := AList.mem_lookup_iff.mpr entry
    rw [pool.keyed key status found item held]
    exact ⟨status, found, held⟩
  · rintro ⟨status, found, held⟩
    exact ⟨⟨resolveKey item, status⟩, AList.mem_lookup_iff.mp found, held⟩

/-- Adding an item puts a status under its key: the old one joined by the item, or a new one with
the item alone; every other key keeps its status. -/
theorem add_items [DecidableEq T] (pool : ResolvePool T C resolveKey) (item : T) :
    ∃ status, (pool.add item).2.items = pool.items.insert (resolveKey item) status ∧
      ∀ other, other ∈ status.items ↔
        other = item ∨ ∃ old, pool.items.lookup (resolveKey item) = some old ∧ other ∈ old.items := by
  unfold add
  dsimp only
  split
  · next old found =>
    refine ⟨_, rfl, fun other => ?_⟩
    simp only [List.mem_insert_iff, found, Option.some_inj, exists_eq_left']
  · next found =>
    refine ⟨_, rfl, fun other => ?_⟩
    simp only [List.mem_singleton, found, reduceCtorEq, false_and, exists_false, or_false]

/-- Adding an item adds exactly it. -/
theorem mem_add [DecidableEq T] {pool : ResolvePool T C resolveKey} {item other : T} :
    other ∈ (pool.add item).2.members ↔ other = item ∨ other ∈ pool.members := by
  obtain ⟨status, inserted, held⟩ := pool.add_items item
  rw [mem_members, mem_members, inserted]
  by_cases same : resolveKey other = resolveKey item
  · rw [same, AList.lookup_insert]
    simp only [Option.some_inj, exists_eq_left', held]
  · have apart : other ≠ item := fun equal => same (congrArg resolveKey equal)
    rw [AList.lookup_insert_ne same]
    simp only [apart, false_or]

@[simp] theorem remove_items (pool : ResolvePool T C resolveKey) (item : T) :
    (pool.remove item).items = pool.items.erase (resolveKey item) := rfl

/-- Removing an item removes every item under its key, and only those. -/
theorem mem_remove {pool : ResolvePool T C resolveKey} {item other : T} :
    other ∈ (pool.remove item).members ↔
      other ∈ pool.members ∧ resolveKey other ≠ resolveKey item := by
  rw [mem_members, mem_members, remove_items]
  by_cases same : resolveKey other = resolveKey item
  · rw [same, AList.lookup_erase]
    simp only [reduceCtorEq, false_and, exists_false, ne_eq, not_true_eq_false, and_false]
  · rw [AList.lookup_erase_ne same]
    simp only [ne_eq, same, not_false_eq_true, and_true]

/-- The items collected are those under a key whose flag is set. -/
theorem mem_collectResolved {pool : ResolvePool T C resolveKey} {item : T} :
    item ∈ pool.collectResolved ↔
      ∃ status, pool.items.lookup (resolveKey item) = some status ∧ item ∈ status.items ∧
        pool.isResolved status = true := by
  rw [collectResolved, List.mem_flatMap]
  constructor
  · rintro ⟨⟨key, status⟩, kept, held⟩
    obtain ⟨entry, flagged⟩ := List.mem_filter.mp kept
    have found : pool.items.lookup key = some status := AList.mem_lookup_iff.mpr entry
    rw [pool.keyed key status found item held]
    exact ⟨status, found, held, flagged⟩
  · rintro ⟨status, found, held, flagged⟩
    exact ⟨⟨resolveKey item, status⟩, List.mem_filter.mpr ⟨AList.mem_lookup_iff.mp found, flagged⟩,
      held⟩

theorem members_of_mem_collectResolved {pool : ResolvePool T C resolveKey} {item : T}
    (collected : item ∈ pool.collectResolved) : item ∈ pool.members := by
  obtain ⟨status, found, held, -⟩ := mem_collectResolved.mp collected
  exact mem_members.mpr ⟨status, found, held⟩

@[simp] theorem items_setResolved (pool : ResolvePool T C resolveKey) (task : ResolveTask C) :
    (pool.setResolved task).items = pool.items := rfl

@[simp] theorem items_requeue (pool : ResolvePool T C resolveKey) (task : ResolveTask C) :
    (pool.requeue task).items = pool.items := rfl

theorem items_next {pool pool' : ResolvePool T C resolveKey} {task : ResolveTask C}
    (taken : pool.next = some (task, pool')) : pool'.items = pool.items := by
  unfold next at taken
  split at taken
  · cases taken
  · cases taken
    rfl

end ResolvePool

end Ipc.Resolver
