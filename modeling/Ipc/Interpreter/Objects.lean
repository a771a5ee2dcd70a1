/-
**Objects between the pool, the vote tally and the object stores (`ChainMessageInterpreter`,
`IpfsResolver`).**

A signed message may carry an object to resolve: its store's address, its key, and the CID of its
content. When a block delivers the message with a valid signature, every validator adds the object
to its `ObjectPool`, keyed by the CID. A validator's IPFS resolver takes the tasks the pool queues,
fetches the content, sets the status's flag and votes for the CID. A proposer's `prepare` turns
every locally resolved object that is not yet finalized and has a quorum of votes into an
`ObjectResolved` message; `process` checks such a message on every validator; delivering it marks
the object resolved in its store.

Each validator is modelled with its own `ChainEnv`, its resolver's key and tasks in flight, and its
copy of the committed object stores. A network step is one validator's step, or a block committed by
all of them (`Network.step`); any sequence of steps is a run.

The pool forgets objects in two places, both keyed by CID:

* `left_prepare` — `prepare` drops every object that shares its CID with a collected object that
  is already finalized;
* `left_process` — `process` drops every object that shares its CID with an `ObjectResolved` it has
  checked, at the moment it checks it: whether or not the proposal is accepted later, or committed.

Nothing else removes an object (`members_commit`, `members_takeTask`, `members_finishTask`,
`members_receiveObjectVote`), and once no pool holds an object no idle round proposes it again, so a
pending object then stays pending for ever (`idleRounds_keep_pending`).
-/

import Mathlib
import Ipc.Resolver.IpfsPool
import Ipc.Resolver.Votes
import Ipc.Objectstore.State
import Ipc.VmMessage.Signed

namespace Ipc.Interpreter

open Ipc.Lib Ipc.Topdown Ipc.Resolver
open Ipc.VmMessage (Object Message Address SigningEnv SignedMessage)
open Ipc.Objectstore (StoreCall)

/-! ### The object pool and the messages -/

/-- `ObjectPoolItem`. -/
structure ObjectPoolItem where
  obj : Object
  deriving DecidableEq, Repr

/-- `From<&ObjectPoolItem> for ResolveKey`: the object's CID. -/
def ObjectPoolItem.resolveKey (item : ObjectPoolItem) : List UInt8 := item.obj.value

/-- `ObjectPool`. -/
abbrev ObjectPool := ResolvePool ObjectPoolItem (List UInt8) ObjectPoolItem.resolveKey

/-- The chain messages that reach the pool or the object stores: a signed user message and
`IpcMessage::ObjectResolved`. Top-down and bottom-up messages touch neither. -/
inductive ChainMessage
  | signed (msg : SignedMessage)
  | objectResolved (obj : Object)
  deriving DecidableEq, Repr

/-- The part of `ChainEnv` the object steps use: the object pool and the vote tally. -/
structure ChainEnv (K : Type) [DecidableEq K] where
  objectPool : ObjectPool
  parentFinalityVotes : NodeTally K

/-- The object store actors of the committed state, by address. -/
abbrev Stores := Address → Option (Objectstore.State Address)

/-- A validator's node: its `ChainEnv`, its resolver's key and tasks in flight, and its copy of
the committed state. -/
structure Node (K : Type) [DecidableEq K] where
  key : K
  env : ChainEnv K
  inFlight : List (ResolveTask (List UInt8))
  stores : Stores

/-- What the steps run with: the chain id and signing environment signed messages are verified
in, and how the FVM dispatches a user message to an object store (its address and the call). -/
structure ExecEnv where
  signing : SigningEnv
  chainId : Nat
  storeCall : Message → Option (Address × StoreCall)

variable {K : Type} [DecidableEq K]

/-! ### Delivering a block -/

/-- A user message run by the FVM, as the object stores see it: the call it makes on a store, by
its sender; a call to an address without a store fails and changes nothing. -/
def applyMessage (exec : ExecEnv) (stores : Stores) (msg : Message) : Stores :=
  match exec.storeCall msg with
  | none => stores
  | some (address, call) =>
    match stores address with
    | none => stores
    | some st => Function.update stores address (some (st.invoke msg.fromAddr call))

/-- The implicit `ResolveObject` call of `ObjectResolved`. -/
def resolveStores (stores : Stores) (obj : Object) : Stores :=
  match stores obj.address with
  | none => stores
  | some st => Function.update stores obj.address (some (st.resolveObject obj.key obj.value))

/-- `ChainMessageInterpreter::deliver` on one validator. A signed message goes through the
signature check first: one that cannot be decoded fails the delivery, one with a bad signature is a
failed result with nothing run; otherwise the FVM runs it, and its object joins the pool whatever
the exit code. -/
def deliver (exec : ExecEnv) (env : ChainEnv K) (stores : Stores) :
    ChainMessage → Except String (ChainEnv K × Stores)
  | .signed msg =>
    match msg.verify exec.signing exec.chainId with
    | .error (.ipld e) => .error e
    | .error _ => .ok (env, stores)
    | .ok () =>
      let stores := applyMessage exec stores msg.message
      match msg.object with
      | some obj => .ok ({ env with objectPool := (env.objectPool.add ⟨obj⟩).2 }, stores)
      | none => .ok (env, stores)
  | .objectResolved obj => .ok (env, resolveStores stores obj)

/-- A validator delivers a committed block; a validator whose delivery fails halts, modelled as
keeping its state. -/
def Node.commit (exec : ExecEnv) (v : Node K) (block : List ChainMessage) : Node K :=
  match block.foldlM (fun (acc : ChainEnv K × Stores) msg => deliver exec acc.1 acc.2 msg)
      (v.env, v.stores) with
  | .ok (env, stores) => { v with env, stores }
  | .error _ => v

/-! ### Proposals -/

/-- `is_object_finalized`: whether the store holds the object's key resolved, or no longer holds
it; reading a store that is not there fails. -/
def isObjectFinalized (stores : Stores) (item : ObjectPoolItem) : Except String Bool :=
  match stores item.obj.address with
  | none => .error "error parsing as Option<Object>"
  | some st =>
    match st.getObject item.obj.key with
    | some object => .ok object.resolved
    | none => .ok true

/-- The loop of `prepare` over the locally resolved objects: a finalized one is removed from the
pool, one with a quorum is proposed. The pool and the tally keep what the loop did before an
error. -/
def prepareObjects (stores : Stores) :
    List ObjectPoolItem → ChainEnv K → Except String (List ChainMessage) × ChainEnv K
  | [], env => (.ok [], env)
  | item :: rest, env =>
    match isObjectFinalized stores item with
    | .error e => (.error e, env)
    | .ok true => prepareObjects stores rest { env with objectPool := env.objectPool.remove item }
    | .ok false =>
      let (globallyResolved, votes) := env.parentFinalityVotes.findObjectQuorum item.obj.value
      let (objects, env) := prepareObjects stores rest { env with parentFinalityVotes := votes }
      (objects.map fun objects =>
        if globallyResolved then .objectResolved item.obj :: objects else objects, env)

/-- `prepare`, as far as objects go: the mempool's messages, then the objects to resolve. The
top-down finality and the checkpoints it also proposes are not modelled. -/
def Node.prepare (v : Node K) (msgs : List ChainMessage) :
    Except String (List ChainMessage) × Node K :=
  let (objects, env) := prepareObjects v.stores v.env.objectPool.collectResolved v.env
  (objects.map (msgs ++ ·), { v with env })

/-- The loop of `process` over a proposal. An `ObjectResolved` is refused when its object is
finalized or has no quorum; when it passes and the object is locally resolved, the object's CID is
removed from the pool there and then, before the rest of the proposal is checked. -/
def processObjects (stores : Stores) :
    List ChainMessage → ChainEnv K → Except String Bool × ChainEnv K
  | [], env => (.ok true, env)
  | .signed _ :: rest, env => processObjects stores rest env
  | .objectResolved obj :: rest, env =>
    match isObjectFinalized stores ⟨obj⟩ with
    | .error e => (.error e, env)
    | .ok true => (.ok false, env)
    | .ok false =>
      let (globallyResolved, votes) := env.parentFinalityVotes.findObjectQuorum obj.value
      let env := { env with parentFinalityVotes := votes }
      if !globallyResolved then (.ok false, env)
      else
        let locallyResolved := match env.objectPool.getStatus ⟨obj⟩ with
          | none => false
          | some status => env.objectPool.isResolved status
        processObjects stores rest
          (if locallyResolved then { env with objectPool := env.objectPool.remove ⟨obj⟩ } else env)

/-- `process`: whether the validator accepts the proposal, and its state after checking it. -/
def Node.process (v : Node K) (proposal : List ChainMessage) :
    Except String Bool × Node K :=
  let (accepted, env) := processObjects v.stores proposal v.env
  (accepted, { v with env })

/-! ### The resolver and the votes -/

/-- The resolver's loop takes the next task off the queue and starts resolving it. -/
def Node.takeTask (v : Node K) : Node K :=
  match v.env.objectPool.next with
  | none => v
  | some (task, pool) =>
    { v with env := { v.env with objectPool := pool }, inFlight := v.inFlight ++ [task] }

/-- A resolution in flight ends. On success the task's flag is set and the validator adds its own
vote for the CID (`add_object_vote`; the object votes are never paused, and an abort is only
logged); on failure the task goes back to the queue (`schedule_retry`). -/
def Node.finishTask (v : Node K) (i : Nat) (success : Bool) : Node K :=
  match v.inFlight[i]? with
  | none => v
  | some task =>
    if success then
      { v with
        env := { objectPool := v.env.objectPool.setResolved task
                 parentFinalityVotes := afterVote v.env.parentFinalityVotes
                   (v.env.parentFinalityVotes.addObjectVote v.key task.key) }
        inFlight := v.inFlight.eraseIdx i }
    else
      { v with
        env := { v.env with objectPool := v.env.objectPool.requeue task }
        inFlight := v.inFlight.eraseIdx i }

/-- `dispatch_vote` of a gossiped object vote. -/
def Node.receiveObjectVote (v : Node K) (voter : K) (cid : List UInt8) :
    Node K :=
  let votes := v.env.parentFinalityVotes
  { v with env := { v.env with parentFinalityVotes := afterVote votes (votes.addObjectVote voter cid) } }

/-! ### The network -/

/-- A step of the network: a block committed by every validator, or one validator's step. -/
inductive Event (N K : Type)
  | commit (block : List ChainMessage)
  | takeTask (v : N)
  | finishTask (v : N) (i : Nat) (success : Bool)
  | receiveObjectVote (v : N) (voter : K) (cid : List UInt8)
  | prepare (v : N) (msgs : List ChainMessage)
  | process (v : N) (proposal : List ChainMessage)

/-- The validators' nodes. -/
abbrev Network (N K : Type) [DecidableEq K] := N → Node K

variable {N : Type} [DecidableEq N]

/-- One step of the network. -/
def Network.step (exec : ExecEnv) (net : Network N K) : Event N K → Network N K
  | .commit block => fun v => (net v).commit exec block
  | .takeTask v => Function.update net v (net v).takeTask
  | .finishTask v i success => Function.update net v ((net v).finishTask i success)
  | .receiveObjectVote v voter cid => Function.update net v ((net v).receiveObjectVote voter cid)
  | .prepare v msgs => Function.update net v ((net v).prepare msgs).2
  | .process v proposal => Function.update net v ((net v).process proposal).2

/-- A run: the steps in order. -/
def Network.run (exec : ExecEnv) (net : Network N K) (events : List (Event N K)) : Network N K :=
  events.foldl (Network.step exec) net

/-- A round without user messages: the proposer prepares, every validator processes the
proposal, and every validator commits it. A proposer whose `prepare` fails proposes nothing. -/
def Network.round (exec : ExecEnv) (net : Network N K) (proposer : N) : Network N K :=
  match (net proposer).prepare [] with
  | (.error _, prepared) => Function.update net proposer prepared
  | (.ok proposal, prepared) =>
    let net := Function.update net proposer prepared
    fun v => ((net v).process proposal).2.commit exec proposal

/-- The committed stores hold the object's key with its CID, unresolved. -/
def pending (stores : Stores) (obj : Object) : Bool :=
  match stores obj.address with
  | some st => st.getObject obj.key == some ⟨obj.value, false⟩
  | none => false

/-- No node's pool holds the object, and every node's committed stores hold it pending. -/
def Forgotten (net : Network N K) (obj : Object) : Prop :=
  ∀ v, (⟨obj⟩ : ObjectPoolItem) ∉ (net v).env.objectPool.members ∧ pending (net v).stores obj = true

/-- Idle rounds, one for each proposer in turn. -/
def Network.idleRounds (exec : ExecEnv) (net : Network N K) (proposers : List N) : Network N K :=
  proposers.foldl (Network.round exec) net

/-! ### Delivering and resolving keep the pool -/

section Keep

variable {exec : ExecEnv} {item : ObjectPoolItem}

/-- Delivering a message keeps every object of the pool. -/
theorem mem_deliver {env env' : ChainEnv K} {stores stores' : Stores} {msg : ChainMessage}
    (delivered : deliver exec env stores msg = .ok (env', stores'))
    (pooled : item ∈ env.objectPool.members) : item ∈ env'.objectPool.members := by
  cases msg with
  | signed msg =>
    cases verified : msg.verify exec.signing exec.chainId with
    | error e =>
      rw [deliver, verified] at delivered
      cases e <;> cases delivered
      all_goals exact pooled
    | ok u =>
      rw [deliver, verified] at delivered
      cases carried : msg.object with
      | none =>
        rw [carried] at delivered
        cases delivered
        exact pooled
      | some obj =>
        rw [carried] at delivered
        cases delivered
        exact ResolvePool.mem_add.mpr (Or.inr pooled)
  | objectResolved obj =>
    cases delivered
    exact pooled

/-- Committing a block keeps every object of the pool. -/
theorem members_commit {v : Node K} (block : List ChainMessage)
    (pooled : item ∈ v.env.objectPool.members) :
    item ∈ (v.commit exec block).env.objectPool.members := by
  unfold Node.commit
  split
  · next env stores folded =>
    exact foldlM_invariant (fun acc : ChainEnv K × Stores => item ∈ acc.1.objectPool.members)
      (fun _ _ _ _ holds delivered => mem_deliver delivered holds) pooled folded
  · exact pooled

theorem members_takeTask (v : Node K) :
    v.takeTask.env.objectPool.members = v.env.objectPool.members := by
  unfold Node.takeTask
  split
  · rfl
  · next task pool taken =>
    unfold ResolvePool.members
    rw [ResolvePool.items_next taken]

theorem members_finishTask (v : Node K) (i : Nat) (success : Bool) :
    (v.finishTask i success).env.objectPool.members = v.env.objectPool.members := by
  unfold Node.finishTask
  split
  · rfl
  · split <;> rfl

theorem members_receiveObjectVote (v : Node K) (voter : K) (cid : List UInt8) :
    (v.receiveObjectVote voter cid).env.objectPool.members = v.env.objectPool.members := rfl

end Keep

/-! ### Where the pool forgets objects -/

section Forget

variable {stores : Stores} {item : ObjectPoolItem}

theorem prepareObjects_finalized {x : ObjectPoolItem} {rest : List ObjectPoolItem}
    {env : ChainEnv K} (finalized : isObjectFinalized stores x = .ok true) :
    prepareObjects stores (x :: rest) env =
      prepareObjects stores rest { env with objectPool := env.objectPool.remove x } := by
  rw [prepareObjects, finalized]

theorem prepareObjects_pending {x : ObjectPoolItem} {rest : List ObjectPoolItem}
    {env : ChainEnv K} (finalized : isObjectFinalized stores x = .ok false) :
    (prepareObjects stores (x :: rest) env).2 =
      (prepareObjects stores rest { env with parentFinalityVotes :=
        (env.parentFinalityVotes.findObjectQuorum x.obj.value).2 }).2 := by
  rw [prepareObjects, finalized]

/-- The loop of `prepare` only removes objects, and an object leaves only with a finalized object
of the same CID among those it went through. -/
theorem prepareObjects_members (xs : List ObjectPoolItem) :
    ∀ env : ChainEnv K,
      (item ∈ (prepareObjects stores xs env).2.objectPool.members →
        item ∈ env.objectPool.members) ∧
      (item ∈ env.objectPool.members → item ∉ (prepareObjects stores xs env).2.objectPool.members →
        ∃ finalized ∈ xs, finalized.resolveKey = item.resolveKey ∧
          isObjectFinalized stores finalized = .ok true) := by
  induction xs with
  | nil => exact fun env => ⟨id, fun pooled gone => absurd pooled gone⟩
  | cons x rest ih =>
    intro env
    cases finalized : isObjectFinalized stores x with
    | error e =>
      have unchanged : (prepareObjects stores (x :: rest) env).2 = env := by
        rw [prepareObjects, finalized]
      rw [unchanged]
      exact ⟨id, fun pooled gone => absurd pooled gone⟩
    | ok isFinal =>
      cases isFinal with
      | true =>
        rw [prepareObjects_finalized finalized]
        obtain ⟨shrinks, leaves⟩ := ih { env with objectPool := env.objectPool.remove x }
        refine ⟨fun kept => (ResolvePool.mem_remove.mp (shrinks kept)).1, fun pooled gone => ?_⟩
        by_cases sameKey : item.resolveKey = x.resolveKey
        · exact ⟨x, List.mem_cons_self, sameKey.symm, finalized⟩
        · obtain ⟨other, listed, otherKey, otherFinal⟩ :=
            leaves (ResolvePool.mem_remove.mpr ⟨pooled, sameKey⟩) gone
          exact ⟨other, List.mem_cons_of_mem x listed, otherKey, otherFinal⟩
      | false =>
        rw [prepareObjects_pending finalized]
        obtain ⟨shrinks, leaves⟩ := ih { env with parentFinalityVotes :=
          (env.parentFinalityVotes.findObjectQuorum x.obj.value).2 }
        refine ⟨shrinks, fun pooled gone => ?_⟩
        obtain ⟨other, listed, otherKey, otherFinal⟩ := leaves pooled gone
        exact ⟨other, List.mem_cons_of_mem x listed, otherKey, otherFinal⟩

/-- The loop of `process` only removes objects, and an object leaves only with an `ObjectResolved`
of the same CID that it checked and found not finalized, whatever follows in the proposal. -/
theorem processObjects_members (proposal : List ChainMessage) :
    ∀ env : ChainEnv K,
      (item ∈ (processObjects stores proposal env).2.objectPool.members →
        item ∈ env.objectPool.members) ∧
      (item ∈ env.objectPool.members →
        item ∉ (processObjects stores proposal env).2.objectPool.members →
        ∃ obj, .objectResolved obj ∈ proposal ∧ obj.value = item.obj.value ∧
          isObjectFinalized stores ⟨obj⟩ = .ok false) := by
  induction proposal with
  | nil => exact fun env => ⟨id, fun pooled gone => absurd pooled gone⟩
  | cons msg rest ih =>
    intro env
    cases msg with
    | signed msg =>
      obtain ⟨shrinks, leaves⟩ := ih env
      refine ⟨shrinks, fun pooled gone => ?_⟩
      obtain ⟨obj, listed, sameKey, notFinal⟩ := leaves pooled gone
      exact ⟨obj, List.mem_cons_of_mem _ listed, sameKey, notFinal⟩
    | objectResolved obj =>
      cases finalized : isObjectFinalized stores ⟨obj⟩ with
      | error e =>
        rw [processObjects, finalized]
        exact ⟨id, fun pooled gone => absurd pooled gone⟩
      | ok isFinal =>
        cases isFinal with
        | true =>
          rw [processObjects, finalized]
          exact ⟨id, fun pooled gone => absurd pooled gone⟩
        | false =>
          rw [processObjects, finalized]
          dsimp only
          split
          · exact ⟨id, fun pooled gone => absurd pooled gone⟩
          · split
            · -- locally resolved: the whole CID leaves the pool before the rest is checked
              obtain ⟨shrinks, leaves⟩ := ih _
              refine ⟨fun kept => (ResolvePool.mem_remove.mp (shrinks kept)).1,
                fun pooled gone => ?_⟩
              by_cases sameKey : item.resolveKey = (⟨obj⟩ : ObjectPoolItem).resolveKey
              · exact ⟨obj, List.mem_cons_self, sameKey.symm, finalized⟩
              · obtain ⟨other, listed, otherKey, otherFinal⟩ :=
                  leaves (ResolvePool.mem_remove.mpr ⟨pooled, sameKey⟩) gone
                exact ⟨other, List.mem_cons_of_mem _ listed, otherKey, otherFinal⟩
            · obtain ⟨shrinks, leaves⟩ := ih _
              refine ⟨shrinks, fun pooled gone => ?_⟩
              obtain ⟨other, listed, otherKey, otherFinal⟩ := leaves pooled gone
              exact ⟨other, List.mem_cons_of_mem _ listed, otherKey, otherFinal⟩

/-- The objects a proposal of the loop of `prepare` resolves are among those it went through. -/
theorem prepareObjects_proposal (xs : List ObjectPoolItem) :
    ∀ (env : ChainEnv K) (objects : List ChainMessage),
      (prepareObjects stores xs env).1 = .ok objects →
      ∀ msg ∈ objects, ∃ x ∈ xs, msg = .objectResolved x.obj := by
  induction xs with
  | nil =>
    intro env objects proposed msg listed
    cases proposed
    cases listed
  | cons x rest ih =>
    intro env objects proposed msg listed
    cases finalized : isObjectFinalized stores x with
    | error e =>
      rw [prepareObjects, finalized] at proposed
      cases proposed
    | ok isFinal =>
      cases isFinal with
      | true =>
        rw [prepareObjects_finalized finalized] at proposed
        obtain ⟨y, inRest, same⟩ := ih _ objects proposed msg listed
        exact ⟨y, List.mem_cons_of_mem x inRest, same⟩
      | false =>
        rw [prepareObjects, finalized] at proposed
        obtain ⟨later, made, rfl⟩ := map_eq_ok.mp proposed
        -- the object itself, when it has a quorum, then the rest's
        have fromRest : msg ∈ later → ∃ y ∈ x :: rest, msg = .objectResolved y.obj := fun inLater =>
          have ⟨y, inRest, same⟩ := ih _ later made msg inLater
          ⟨y, List.mem_cons_of_mem x inRest, same⟩
        split at listed
        · rcases List.mem_cons.mp listed with rfl | inLater
          · exact ⟨x, List.mem_cons_self, rfl⟩
          · exact fromRest inLater
        · exact fromRest listed

end Forget

/-! ### A validator's steps -/

section Steps

variable {item : ObjectPoolItem}

@[simp] theorem prepare_stores (v : Node K) (msgs : List ChainMessage) :
    (v.prepare msgs).2.stores = v.stores := rfl

theorem prepare_env (v : Node K) (msgs : List ChainMessage) :
    (v.prepare msgs).2.env = (prepareObjects v.stores v.env.objectPool.collectResolved v.env).2 :=
  rfl

@[simp] theorem process_stores (v : Node K) (proposal : List ChainMessage) :
    (v.process proposal).2.stores = v.stores := rfl

theorem process_env (v : Node K) (proposal : List ChainMessage) :
    (v.process proposal).2.env = (processObjects v.stores proposal v.env).2 := rfl

/-- An object leaves a pool in `prepare` only with a collected object of the same CID that is
finalized. -/
theorem left_prepare {v : Node K} {msgs : List ChainMessage}
    (pooled : item ∈ v.env.objectPool.members)
    (gone : item ∉ (v.prepare msgs).2.env.objectPool.members) :
    ∃ finalized ∈ v.env.objectPool.collectResolved, finalized.resolveKey = item.resolveKey ∧
      isObjectFinalized v.stores finalized = .ok true := by
  rw [prepare_env] at gone
  exact (prepareObjects_members _ v.env).2 pooled gone

/-- An object leaves a pool in `process` as soon as the validator checks an `ObjectResolved` of
the same CID that is not finalized: the proposal may still be refused, or never committed. -/
theorem left_process {v : Node K} {proposal : List ChainMessage}
    (pooled : item ∈ v.env.objectPool.members)
    (gone : item ∉ (v.process proposal).2.env.objectPool.members) :
    ∃ obj, .objectResolved obj ∈ proposal ∧ obj.value = item.obj.value ∧
      isObjectFinalized v.stores ⟨obj⟩ = .ok false := by
  rw [process_env] at gone
  exact (processObjects_members proposal v.env).2 pooled gone

theorem members_prepare {v : Node K} {msgs : List ChainMessage}
    (kept : item ∈ (v.prepare msgs).2.env.objectPool.members) :
    item ∈ v.env.objectPool.members := by
  rw [prepare_env] at kept
  exact (prepareObjects_members _ v.env).1 kept

theorem members_process {v : Node K} {proposal : List ChainMessage}
    (kept : item ∈ (v.process proposal).2.env.objectPool.members) :
    item ∈ v.env.objectPool.members := by
  rw [process_env] at kept
  exact (processObjects_members proposal v.env).1 kept

/-- A proposal holds the mempool's messages and `ObjectResolved` for locally resolved objects. -/
theorem prepare_proposal {v : Node K} {msgs proposal : List ChainMessage}
    (proposed : (v.prepare msgs).1 = .ok proposal) :
    ∀ msg ∈ proposal, msg ∈ msgs ∨
      ∃ x ∈ v.env.objectPool.collectResolved, msg = .objectResolved x.obj := by
  obtain ⟨objects, made, rfl⟩ := map_eq_ok.mp proposed
  intro msg listed
  rcases List.mem_append.mp listed with fromPool | fromObjects
  · exact Or.inl fromPool
  · exact Or.inr (prepareObjects_proposal _ v.env objects made msg fromObjects)

end Steps

/-! ### An object no pool holds stays pending -/

section Pending

variable {exec : ExecEnv} {obj : Object}

/-- Resolving another object leaves a pending object pending. -/
theorem pending_resolveStores {stores : Stores} {other : Object}
    (holds : pending stores obj = true) (apart : other ≠ obj) :
    pending (resolveStores stores other) obj = true := by
  cases atOther : stores other.address with
  | none =>
    have unchanged : resolveStores stores other = stores := by
      unfold resolveStores
      rw [atOther]
    rw [unchanged]
    exact holds
  | some st =>
    have updated : resolveStores stores other =
        Function.update stores other.address (some (st.resolveObject other.key other.value)) := by
      unfold resolveStores
      rw [atOther]
    rw [updated]
    by_cases sameStore : obj.address = other.address
    · have pendingHere : st.getObject obj.key = some ⟨obj.value, false⟩ := by
        unfold pending at holds
        rw [sameStore, atOther] at holds
        exact beq_iff_eq.mp holds
      -- the same store: another key, or the same key with another CID
      have differs : other.key ≠ obj.key ∨ other.value ≠ obj.value := by
        by_contra both
        rw [not_or, not_not, not_not] at both
        exact apart (by cases other; cases obj; simp_all)
      unfold pending
      rw [sameStore, Function.update_self]
      exact beq_iff_eq.mpr (Objectstore.State.pending_resolve pendingHere differs)
    · unfold pending at holds ⊢
      rw [Function.update_of_ne sameStore]
      exact holds

/-- A block of `ObjectResolved` for other objects keeps a node's pool and a pending object. -/
theorem commit_resolved_only {v : Node K} {block : List ChainMessage}
    (only : ∀ msg ∈ block, ∃ other, msg = .objectResolved other ∧ other ≠ obj)
    (holds : pending v.stores obj = true) :
    (v.commit exec block).env = v.env ∧ pending (v.commit exec block).stores obj = true := by
  unfold Node.commit
  split
  · next env stores folded =>
    exact foldlM_invariant (fun acc : ChainEnv K × Stores => acc.1 = v.env ∧ pending acc.2 obj = true)
      (fun msg listed acc acc' held delivered => by
        obtain ⟨other, rfl, apart⟩ := only msg listed
        cases delivered
        exact ⟨held.1, pending_resolveStores held.2 apart⟩) ⟨rfl, holds⟩ folded
  · exact ⟨rfl, holds⟩

/-- An idle round keeps an object forgotten: the proposer can only propose objects its pool
holds. -/
theorem round_forgotten {net : Network N K} (forgotten : Forgotten net obj) (proposer : N) :
    Forgotten (net.round exec proposer) obj := by
  have prepared : Forgotten (Function.update net proposer ((net proposer).prepare []).2) obj := by
    intro v
    by_cases isProposer : v = proposer
    · subst isProposer
      rw [Function.update_self, prepare_stores]
      exact ⟨fun kept => (forgotten v).1 (members_prepare kept), (forgotten v).2⟩
    · rw [Function.update_of_ne isProposer]
      exact forgotten v
  unfold Network.round
  split
  · next e node result =>
    rw [show node = ((net proposer).prepare []).2 by rw [result]]
    exact prepared
  · next proposal node result =>
    rw [show node = ((net proposer).prepare []).2 by rw [result]]
    -- every message of the proposal resolves an object the proposer's pool held
    have only : ∀ msg ∈ proposal, ∃ other, msg = .objectResolved other ∧ other ≠ obj := by
      intro msg listed
      rcases prepare_proposal (congrArg Prod.fst result) msg listed with inMempool | ⟨x, collected, rfl⟩
      · cases inMempool
      · refine ⟨x.obj, rfl, fun same => (forgotten proposer).1 ?_⟩
        rw [← same]
        exact ResolvePool.members_of_mem_collectResolved collected
    intro v
    obtain ⟨notPooled, holds⟩ := prepared v
    let checked := (((Function.update net proposer ((net proposer).prepare []).2) v).process
      proposal).2
    have committed : (checked.commit exec proposal).env = checked.env ∧
        pending (checked.commit exec proposal).stores obj = true :=
      commit_resolved_only only holds
    refine ⟨?_, committed.2⟩
    rw [committed.1]
    exact fun kept => notPooled (members_process kept)

/-- **Idle rounds never resolve a forgotten object**: once no pool holds an object and the stores
hold it pending, it stays pending through any number of rounds without user messages. -/
theorem idleRounds_keep_pending {net : Network N K} (forgotten : Forgotten net obj)
    (proposers : List N) : Forgotten (net.idleRounds exec proposers) obj := by
  induction proposers generalizing net with
  | nil => exact forgotten
  | cons proposer rest ih =>
    rw [Network.idleRounds, List.foldl_cons]
    exact ih (round_forgotten forgotten proposer)

end Pending

/-! ### An honest proposal the other validators refuse -/

section Example

/-- The store of the example, and its user. -/
def exampleStore : Address := ⟨.id 100⟩

def exampleUser : Address := ⟨.id 200⟩

/-- The object that gets lost: key `[1]`, CID `[7]`. -/
def exampleObject : Object := ⟨[1], [7], exampleStore⟩

/-- A second object: key `[2]`, CID `[8]`. -/
def secondObject : Object := ⟨[2], [8], exampleStore⟩

/-- The example's environment: every regular signature verifies, and a message with parameters
`[k, c]` adds key `[k]` with CID `[c]` to the store it is sent to, without overwriting. -/
def exampleExec : ExecEnv where
  signing := ⟨fun _ => [], fun _ => [], some, fun _ => [], fun _ _ => none, fun _ _ => none,
    fun _ _ _ => true⟩
  chainId := 0
  storeCall msg := match msg.params with
    | [k, c] => some (msg.toAddr, .addObject ⟨[k], [c], false⟩)
    | _ => none

/-- The user's message adding an object, with the object attached. -/
def userMessage (obj : Object) : SignedMessage :=
  ⟨⟨0, exampleUser, exampleStore, 0, 0, 0, obj.key ++ obj.value, 0, 0, 0⟩, some obj,
    ⟨.secp256k1, []⟩⟩

/-- Four validators of weight one each, with empty pools, and a public store at
`exampleStore`. -/
def exampleNetwork : Network (Fin 4) (Fin 4) := fun v =>
  ⟨v, ⟨ResolvePool.new, VoteTally.new [(0, 1), (1, 1), (2, 1), (3, 1)] (0, [])⟩, [],
    fun address => if address = exampleStore then some ⟨exampleUser, .«public», ∅⟩ else none⟩

/-- The block adding both objects is committed, and every validator's resolver starts on both
CIDs. Every validator resolves CID `[7]`, votes, and receives the three other votes. Validators 0,
1 and 2 then resolve CID `[8]` and vote, and only validator 0 has received the votes of 1 and 2
for it so far. -/
def exampleVotes : List (Event (Fin 4) (Fin 4)) :=
  [.commit [.signed (userMessage secondObject), .signed (userMessage exampleObject)]] ++
    (List.finRange 4).flatMap (fun v => [.takeTask v, .takeTask v, .finishTask v 1 true]) ++
    (List.finRange 4).flatMap (fun v =>
      ((List.finRange 4).filter (· ≠ v)).map fun voter => .receiveObjectVote v voter [7]) ++
    [0, 1, 2].map (fun v => .finishTask v 0 true) ++
    [.receiveObjectVote 0 1 [8], .receiveObjectVote 0 2 [8]]

/-- Validator 0's proposal: both objects, each resolved locally with a quorum in its view. -/
def exampleProposal : List ChainMessage :=
  [.objectResolved exampleObject, .objectResolved secondObject]

/-- The votes, validator 0 prepares its proposal, and every validator processes it. -/
def exampleRun : List (Event (Fin 4) (Fin 4)) :=
  exampleVotes ++ .prepare 0 [] :: (List.finRange 4).map fun v => .process v exampleProposal

/-- Every validator pools the object when the user's block is committed. Validator 0 honestly
proposes it with the second object; validators 1, 2 and 3, three quarters of the weight, refuse
the proposal, as they see no quorum for the second CID yet, so it cannot be committed. Yet every
validator dropped the object while checking the first message. After that, rounds without user
messages never resolve the object, whoever proposes. -/
theorem objectPool_drops_object_of_refused_proposal :
    (∀ v, (⟨exampleObject⟩ : ObjectPoolItem) ∈
        (exampleNetwork.run exampleExec (exampleVotes.take 1) v).env.objectPool.members) ∧
      ((exampleNetwork.run exampleExec exampleVotes 0).prepare []).1 = .ok exampleProposal ∧
      (∀ v, v ≠ 0 →
        ((exampleNetwork.run exampleExec exampleVotes v).process exampleProposal).1 =
          .ok false) ∧
      ∀ proposers : List (Fin 4),
        Forgotten ((exampleNetwork.run exampleExec exampleRun).idleRounds exampleExec proposers)
          exampleObject := by
  refine ⟨by decide, by decide, by decide, fun proposers => idleRounds_keep_pending ?_ proposers⟩
  unfold Forgotten
  decide

end Example

end Ipc.Interpreter
