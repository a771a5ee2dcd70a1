/-
**The object store actor (`fendermint_actor_objectstore::{State, Actor}`).**

An object store is a machine with an owner, a write access (`OnlyOwner` or `Public`) and a HAMT from
keys to objects. An object records the CID of its content and whether the content has been
resolved; its size and metadata are read by nothing modelled here and are left out. A user adds an
object unresolved (`add_object`, replacing one already under its key only with `overwrite`) and
deletes one by key (`delete_object`), both subject to the write access. The chain marks an object
resolved through the system actor (`resolve_object`), and only while the object under the key still
has the CID being resolved.

* `get_add`, `get_resolve`, `get_delete` — what each change leaves under every key;
* `pending_resolve` — resolving another key, or another CID, leaves a pending object pending;
* `listObjects` — `list_objects` is the listing of `Ipc.Objectstore.List` over the HAMT's entries.
-/

import Mathlib
import Ipc.Objectstore.List

namespace Ipc.Objectstore

open Ipc.Api (Fault)

/-- `WriteAccess`. -/
inductive WriteAccess
  | onlyOwner
  | «public»
  deriving DecidableEq, Repr

/-- The stored `Object`: the CID of its content, as bytes, and whether it has been resolved. -/
structure Object where
  cid : List UInt8
  resolved : Bool
  deriving DecidableEq, Repr

/-- The object store's `State`, with owners of address type `A`. -/
structure State (A : Type) where
  owner : A
  writeAccess : WriteAccess
  objects : AList fun _ : List UInt8 => Object

/-- `AddParams`, without the size and the metadata. -/
structure AddParams where
  key : List UInt8
  cid : List UInt8
  overwrite : Bool
  deriving DecidableEq, Repr

/-- An `ActorError` of the methods modelled. -/
inductive ActorError
  | forbidden
  | illegalState (msg : String)
  deriving DecidableEq, Repr

/-- A call a user message makes on an object store. -/
inductive StoreCall
  | addObject (params : AddParams)
  | deleteObject (key : List UInt8)
  deriving DecidableEq, Repr

namespace State

variable {A : Type}

/-- `State::add`: an unresolved object under the key, replacing one already there only with
`overwrite` (`set` or `set_if_absent`). -/
def add (st : State A) (key cid : List UInt8) (overwrite : Bool) : State A :=
  let object : Object := ⟨cid, false⟩
  if overwrite then { st with objects := st.objects.insert key object }
  else if (st.objects.lookup key).isSome then st
  else { st with objects := st.objects.insert key object }

/-- `State::resolve`: mark the object under the key resolved if it still has the CID; a changed or
deleted object is left as it is. -/
def resolve (st : State A) (key value : List UInt8) : State A :=
  match st.objects.lookup key with
  | some object =>
    if object.cid = value then
      { st with objects := st.objects.insert key { object with resolved := true } }
    else st
  | none => st

/-- `State::delete`: the object removed, or an error for a key not there. -/
def delete (st : State A) (key : List UInt8) : Except String (Option Object × State A) :=
  if (st.objects.lookup key).isSome then
    .ok (st.objects.lookup key, { st with objects := st.objects.erase key })
  else .error "key not found"

/-- `State::get`. -/
def get (st : State A) (key : List UInt8) : Option Object :=
  st.objects.lookup key

/-- `ensure_write_allowed`: with `OnlyOwner` the caller must be the owner (whose id the runtime
resolves from its address; the model compares the addresses). -/
def ensureWriteAllowed [DecidableEq A] (st : State A) (caller : A) : Except ActorError Unit :=
  match st.writeAccess with
  | .onlyOwner => if caller = st.owner then .ok () else .error .forbidden
  | .«public» => .ok ()

/-- `Actor::add_object`. -/
def addObject [DecidableEq A] (st : State A) (caller : A) (params : AddParams) : Except ActorError (State A) := do
  st.ensureWriteAllowed caller
  pure (st.add params.key params.cid params.overwrite)

/-- `Actor::delete_object`. -/
def deleteObject [DecidableEq A] (st : State A) (caller : A) (key : List UInt8) :
    Except ActorError (Option Object × State A) := do
  st.ensureWriteAllowed caller
  (st.delete key).mapError fun e => .illegalState ("failed to delete object: " ++ e)

/-- `Actor::resolve_object`, called by the system actor only. -/
def resolveObject (st : State A) (key value : List UInt8) : State A :=
  st.resolve key value

/-- `Actor::get_object`. -/
def getObject (st : State A) (key : List UInt8) : Option Object :=
  st.get key

/-- `Actor::list_objects`: the listing over the HAMT's entries in their iteration order. -/
def listObjects (st : State A) (keyPrefix delimiter : List UInt8) (offset limit : UInt64) :
    Except Fault (ObjectList Object) :=
  list (st.objects.entries.map fun entry => (entry.1, entry.2)) keyPrefix delimiter offset limit

/-- What a user's call leaves in the store: the new state, or the old one when the call fails. -/
def invoke [DecidableEq A] (st : State A) (caller : A) : StoreCall → State A
  | .addObject params => match st.addObject caller params with
    | .ok st' => st'
    | .error _ => st
  | .deleteObject key => match st.deleteObject caller key with
    | .ok (_, st') => st'
    | .error _ => st

/-! ### What each change leaves under a key -/

theorem get_add (st : State A) (key cid : List UInt8) (overwrite : Bool) (k : List UInt8) :
    (st.add key cid overwrite).get k =
      if k = key ∧ (overwrite ∨ st.get k = none) then some ⟨cid, false⟩ else st.get k := by
  unfold add get
  by_cases same : k = key
  · subst same
    cases overwrite <;> cases found : st.objects.lookup k <;>
      simp [found, AList.lookup_insert]
  · simp only [same, false_and, if_false]
    split
    · exact AList.lookup_insert_ne same
    · split
      · rfl
      · exact AList.lookup_insert_ne same

theorem get_resolve (st : State A) (key value k : List UInt8) :
    (st.resolve key value).get k =
      if k = key then (st.get k).map fun object =>
        if object.cid = value then { object with resolved := true } else object
      else st.get k := by
  unfold resolve get
  by_cases same : k = key
  · subst same
    cases found : st.objects.lookup k with
    | none => simp only [found, Option.map_none, if_true]
    | some object =>
      by_cases current : object.cid = value
      · simp only [current, if_true, AList.lookup_insert, Option.map_some]
      · simp only [found, current, if_false, if_true, Option.map_some]
  · simp only [same, if_false]
    split
    · split
      · exact AList.lookup_insert_ne same
      · rfl
    · rfl

theorem get_delete {st st' : State A} {key : List UInt8} {removed : Option Object}
    (deleted : st.delete key = .ok (removed, st')) (k : List UInt8) :
    st'.get k = if k = key then none else st.get k := by
  unfold delete at deleted
  split at deleted
  · cases deleted
    unfold get
    by_cases same : k = key
    · subst same
      simp only [AList.lookup_erase, if_true]
    · simp only [AList.lookup_erase_ne same, same, if_false]
  · cases deleted

/-- An object pending under a key stays pending when another key, or another CID, is resolved. -/
theorem pending_resolve {st : State A} {key cid key' value : List UInt8}
    (pending : st.get key = some ⟨cid, false⟩) (other : key' ≠ key ∨ value ≠ cid) :
    (st.resolve key' value).get key = some ⟨cid, false⟩ := by
  rw [get_resolve]
  by_cases same : key = key'
  · subst same
    have changed : value ≠ cid := other.resolve_left (not_not.mpr rfl)
    simp only [if_true, pending, Option.map_some, Ne.symm changed, if_false]
  · simp only [same, if_false, pending]

end State

end Ipc.Objectstore
