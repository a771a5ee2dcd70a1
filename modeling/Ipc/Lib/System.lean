/-
**Transition systems and transactions.**

* `Reachable initial step` — the states reached from an initial state by any number of steps of a
  step relation (a state, an action, the next state); `Reachable.invariant` is the induction rule:
  a property that holds initially and that every step keeps holds in every reachable state, and
  `Reachable.map` is the simulation rule: a map that takes the initial states and the steps of one
  system to initial states and steps of another takes its reachable states to reachable states.
* `StmError` — how a software transaction fails: it aborts with an error, or it retries (it blocks
  until the state it read changes). A failed transaction writes nothing, so a transaction over a
  state `σ` is modelled as `σ → Except (StmError ε) (α × σ)`, and `Txn.after` is the state that
  follows it.
* `bind_eq_ok` — a sequence of fallible steps succeeds exactly when each of them does; callers
  peel a `do` block apart with it instead of unfolding the steps. `mapM_eq_ok`,
  `mapM_eq_error` and `mapM_isOk` say the same of a step mapped over a list (`mapM_eq_ok_map` and
  `mapM_eq_ok_of_forall` build its result, `mapM_eq_error_of_mem` its failure), and `forM_eq_ok`
  of a step run over a list for its effect.
-/

import Mathlib

namespace Ipc.Lib

/-! ### Reachable states -/

/-- The states reachable from an initial state through any number of steps. -/
inductive Reachable {σ α : Type} (initial : σ → Prop) (step : σ → α → σ → Prop) : σ → Prop
  | init {s : σ} : initial s → Reachable initial step s
  | step {s : σ} {a : α} {s' : σ} : Reachable initial step s → step s a s' →
      Reachable initial step s'

namespace Reachable

variable {σ α : Type} {initial : σ → Prop} {step : σ → α → σ → Prop}

/-- **Invariant rule**: what holds initially and is kept by every step holds in every reachable
state. -/
theorem invariant (inv : σ → Prop) (base : ∀ s, initial s → inv s)
    (preserve : ∀ s a s', inv s → step s a s' → inv s') {s : σ}
    (reachable : Reachable initial step s) : inv s := by
  induction reachable with
  | init start => exact base _ start
  | step _ next ih => exact preserve _ _ _ ih next

/-- A state reached from a reachable state is reachable. -/
theorem trans {s s' : σ} (reachable : Reachable initial step s)
    (later : Reachable (· = s) step s') : Reachable initial step s' := by
  induction later with
  | init start => exact start ▸ reachable
  | step _ next ih => exact .step ih next

/-- **Simulation rule**: a map that takes every initial state to an initial state, and every step
from a reachable state to a step, takes every reachable state to a reachable state. -/
theorem map {τ β : Type} {initial' : τ → Prop} {step' : τ → β → τ → Prop} (f : σ → τ)
    (base : ∀ s, initial s → initial' (f s))
    (simulate : ∀ s a s', Reachable initial step s → step s a s' → ∃ b, step' (f s) b (f s'))
    {s : σ} (reachable : Reachable initial step s) : Reachable initial' step' (f s) := by
  induction reachable with
  | init start => exact .init (base _ start)
  | step before next ih =>
    obtain ⟨b, next'⟩ := simulate _ _ _ before next
    exact .step ih next'

end Reachable

/-! ### Transactions -/

/-- How a software transaction fails: an abort carrying an error, or a retry. -/
inductive StmError (ε : Type)
  | abort (error : ε)
  | retry
  deriving DecidableEq, Repr

namespace Txn

variable {ε σ α : Type}

/-- The state after a transaction run at `s`: what it committed, or `s` when it failed. -/
def after (result : Except (StmError ε) (α × σ)) (s : σ) : σ :=
  match result with
  | .ok (_, s') => s'
  | .error _ => s

@[simp]
theorem after_ok (a : α) (s s' : σ) :
    after (.ok (a, s') : Except (StmError ε) (α × σ)) s = s' := rfl

@[simp]
theorem after_error (e : StmError ε) (s : σ) :
    after (.error e : Except (StmError ε) (α × σ)) s = s := rfl

end Txn

/-! ### Fallible steps -/

section Fallible

variable {ε α β : Type}

/-- A bound computation succeeds when its first part does and the rest succeeds on its result. -/
theorem bind_eq_ok {x : Except ε α} {f : α → Except ε β} {b : β} :
    x >>= f = .ok b ↔ ∃ a, x = .ok a ∧ f a = .ok b := by
  cases x with
  | error e => simp only [bind, Except.bind, reduceCtorEq, false_and, exists_false]
  | ok a => simp only [bind, Except.bind, Except.ok.injEq, exists_eq_left']

/-- A bound computation fails with what its first part fails with. -/
@[simp]
theorem error_bind (e : ε) (f : α → Except ε β) : (Except.error e >>= f) = .error e := rfl

/-- A bound computation that throws first fails with what it throws. -/
@[simp]
theorem throw_bind (e : ε) (f : α → Except ε β) : (throw e >>= f : Except ε β) = .error e := rfl

/-- A bound computation after a success continues with its result. -/
@[simp]
theorem ok_bind (a : α) (f : α → Except ε β) : (Except.ok a >>= f) = f a := rfl

/-- A mapped computation succeeds when the computation does, with the image of its value. -/
theorem map_eq_ok {f : α → β} {x : Except ε α} {b : β} :
    x.map f = .ok b ↔ ∃ a, x = .ok a ∧ f a = b := by
  cases x with
  | error e => simp only [Except.map, reduceCtorEq, false_and, exists_false]
  | ok a => simp only [Except.map, Except.ok.injEq, exists_eq_left']

/-- A computation with its errors mapped succeeds exactly when the computation does. -/
theorem mapError_eq_ok {ε' : Type} {f : ε → ε'} {x : Except ε α} {a : α} :
    x.mapError f = .ok a ↔ x = .ok a := by
  cases x with
  | error e => simp only [Except.mapError, reduceCtorEq]
  | ok b => simp only [Except.mapError, Except.ok.injEq]

/-- A map over a list succeeds exactly when the step succeeds on each element, and returns the
results in order. -/
theorem mapM_eq_ok {f : α → Except ε β} :
    ∀ {xs : List α} {ys : List β},
      xs.mapM f = .ok ys ↔ List.Forall₂ (fun x y => f x = .ok y) xs ys
  | [], ys => by
    rw [List.mapM_nil, List.forall₂_nil_left_iff]
    exact ⟨fun done => (Except.ok.inj done).symm, fun empty => empty ▸ rfl⟩
  | x :: xs, ys => by
    rw [List.mapM_cons, bind_eq_ok]
    constructor
    · rintro ⟨y, head, rest⟩
      obtain ⟨ys', tail, done⟩ := bind_eq_ok.mp rest
      cases Except.ok.inj done
      exact .cons head (mapM_eq_ok.mp tail)
    · rintro (_ | ⟨head, tail⟩)
      exact ⟨_, head, bind_eq_ok.mpr ⟨_, mapM_eq_ok.mpr tail, rfl⟩⟩

/-- A map over a list succeeds with the image of the list when the step gives each element's
image. -/
theorem mapM_eq_ok_map {f : α → Except ε β} {p : α → β} :
    ∀ {xs : List α}, (∀ x ∈ xs, f x = .ok (p x)) → xs.mapM f = .ok (xs.map p)
  | [], _ => rfl
  | x :: xs, each => by
    rw [List.mapM_cons, each x List.mem_cons_self, ok_bind,
      mapM_eq_ok_map fun y member => each y (List.mem_cons_of_mem x member), ok_bind]
    rfl

/-- A map over a list succeeds when the step succeeds on each element with a value that `g` takes
back to the element: the results, mapped by `g`, are the list. -/
theorem mapM_eq_ok_of_forall {f : α → Except ε β} {g : β → α} :
    ∀ {xs : List α}, (∀ x ∈ xs, ∃ y, f x = .ok y ∧ g y = x) →
      ∃ ys, xs.mapM f = .ok ys ∧ ys.map g = xs
  | [], _ => ⟨[], rfl, rfl⟩
  | x :: xs, each => by
    obtain ⟨y, head, back⟩ := each x List.mem_cons_self
    obtain ⟨ys, tail, backs⟩ :=
      mapM_eq_ok_of_forall fun z member => each z (List.mem_cons_of_mem x member)
    refine ⟨y :: ys, ?_, by rw [List.map_cons, back, backs]⟩
    rw [List.mapM_cons, head, ok_bind, tail, ok_bind]
    rfl

/-- A map over a list fails only as the step fails on one of its elements. -/
theorem mapM_eq_error {f : α → Except ε β} :
    ∀ {xs : List α} {e : ε}, xs.mapM f = .error e → ∃ x ∈ xs, f x = .error e
  | [], e, fails => by cases fails
  | x :: xs, e, fails => by
    rw [List.mapM_cons] at fails
    cases head : f x with
    | error e' =>
      rw [head, error_bind] at fails
      cases fails
      exact ⟨x, List.mem_cons_self, head⟩
    | ok y =>
      rw [head, ok_bind] at fails
      cases tail : xs.mapM f with
      | error e' =>
        rw [tail, error_bind] at fails
        cases fails
        obtain ⟨z, member, step⟩ := mapM_eq_error tail
        exact ⟨z, List.mem_cons_of_mem x member, step⟩
      | ok ys => rw [tail, ok_bind] at fails; cases fails

/-- A map over a list, whose step's only error is `e`, fails with `e` as soon as the step fails on
some element. -/
theorem mapM_eq_error_of_mem {f : α → Except ε β} {e : ε} :
    ∀ {xs : List α}, (∀ x ∈ xs, (∃ y, f x = .ok y) ∨ f x = .error e) →
      (∃ x ∈ xs, f x = .error e) → xs.mapM f = .error e
  | [], _, ⟨_, member, _⟩ => absurd member List.not_mem_nil
  | x :: xs, only, ⟨y, member, fails⟩ => by
    rw [List.mapM_cons]
    rcases only x List.mem_cons_self with ⟨z, ok⟩ | err
    · rcases List.mem_cons.mp member with rfl | later
      · rw [ok] at fails
        cases fails
      · rw [ok, ok_bind, mapM_eq_error_of_mem (fun w inRest => only w (List.mem_cons_of_mem x inRest))
          ⟨y, later, fails⟩, error_bind]
    · rw [err, error_bind]

/-- A map over a list succeeds exactly when the step succeeds on every element. -/
theorem mapM_isOk {f : α → Except ε β} :
    ∀ {xs : List α}, (xs.mapM f).isOk = true ↔ ∀ x ∈ xs, (f x).isOk = true
  | [] => by
    simp only [List.mapM_nil, List.not_mem_nil, IsEmpty.forall_iff, implies_true, iff_true]
    rfl
  | x :: xs => by
    rw [List.mapM_cons, List.forall_mem_cons]
    cases head : f x with
    | error e =>
      have failed : (Except.error e : Except ε β).isOk = false := rfl
      rw [error_bind, failed]
      exact ⟨fun wrong => absurd wrong Bool.false_ne_true, fun both => absurd both.1 Bool.false_ne_true⟩
    | ok y =>
      rw [ok_bind, ← mapM_isOk]
      cases xs.mapM f with
      | error e =>
        exact ⟨fun wrong => absurd wrong Bool.false_ne_true,
          fun both => absurd both.2 Bool.false_ne_true⟩
      | ok ys => exact ⟨fun _ => ⟨rfl, rfl⟩, fun _ => rfl⟩

/-- A step run over a list for its effect succeeds exactly when it succeeds on each element. -/
theorem forM_eq_ok {f : α → Except ε PUnit} :
    ∀ {xs : List α}, xs.forM f = .ok () ↔ ∀ x ∈ xs, f x = .ok ()
  | [] => by
    simp only [List.not_mem_nil, IsEmpty.forall_iff, implies_true, iff_true]
    rfl
  | x :: xs => by
    -- the list method unfolds to a bind, not to the generic `forM` that `List.forM_cons` names
    rw [show (x :: xs).forM f = (f x >>= fun _ => xs.forM f) from rfl, bind_eq_ok,
      List.forall_mem_cons]
    constructor
    · rintro ⟨⟨⟩, head, rest⟩
      exact ⟨head, forM_eq_ok.mp rest⟩
    · rintro ⟨head, rest⟩
      exact ⟨(), head, forM_eq_ok.mpr rest⟩

/-- A step run over a list for its effect, whose only error is `e`, fails with `e` as soon as it
fails on some element. -/
theorem forM_eq_error_of_mem {f : α → Except ε PUnit} {e : ε} :
    ∀ {xs : List α}, (∀ x ∈ xs, f x = .ok () ∨ f x = .error e) → (∃ x ∈ xs, f x = .error e) →
      xs.forM f = .error e
  | [], _, ⟨_, member, _⟩ => absurd member List.not_mem_nil
  | x :: xs, only, ⟨y, member, fails⟩ => by
    rw [show (x :: xs).forM f = (f x >>= fun _ => xs.forM f) from rfl]
    rcases only x List.mem_cons_self with ok | err
    · rw [ok, ok_bind]
      rcases List.mem_cons.mp member with rfl | later
      · rw [ok] at fails
        cases fails
      · exact forM_eq_error_of_mem (fun z inRest => only z (List.mem_cons_of_mem x inRest))
          ⟨y, later, fails⟩
    · rw [err, error_bind]

/-- A property every successful step keeps, on the elements a fold goes through, holds of the
fold's result. -/
theorem foldlM_invariant {σ : Type} {f : σ → α → Except ε σ} (P : σ → Prop) :
    ∀ {xs : List α} {s s' : σ}, (∀ a ∈ xs, ∀ t t', P t → f t a = .ok t' → P t') → P s →
      xs.foldlM f s = .ok s' → P s'
  | [], s, s', _, holds, done => by
    cases done
    exact holds
  | a :: xs, s, s', step, holds, done => by
    rw [List.foldlM_cons] at done
    obtain ⟨t, first, rest⟩ := bind_eq_ok.mp done
    exact foldlM_invariant P (fun b mem => step b (List.mem_cons_of_mem a mem))
      (step a List.mem_cons_self s t holds first) rest

/-- A computation that succeeds returns its value, read off with any default: how a run of a
model on a fixed input is named without writing its result out. -/
theorem eq_ok_getD {x : Except ε α} (succeeds : x.isOk = true) (d : α) :
    x = .ok (x.toOption.getD d) := by
  cases x with
  | error e => cases succeeds
  | ok a => rfl

end Fallible

end Ipc.Lib
