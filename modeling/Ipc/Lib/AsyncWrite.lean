/-
**Driving an asynchronous writer by its poll contract (`futures::io::AsyncWrite`).**

A poll of an asynchronous operation either answers `Pending` (poll again later) or is ready with a
result. The combinators `write_all`, `flush` and `close` drive a writer by that contract: they poll
the same operation again after `Pending`, go on with the unwritten rest of the buffer after a
partial write, and stop at the first error. A writer here is any state `σ` with three polls, each
taking one answer of its environment (`A`): a run of a program consumes one answer per poll, and is
left pending where the answers run out.

A run proves nothing by itself; its rules do:

* `writeAll_done`, `repoll_done` — an invariant that every poll keeps holds when the operation
  completes, the bytes it reports written being exactly the buffer;
* `Triple`, with `Triple.cons`, `Triple.append` and `Triple.of_forall` — triples over the state
  and the bytes reported written so far, composed along a program;
* `Reports.run` — when every poll logs exactly the error it returns, a run logs exactly the error
  it stops with;
* `Prompt.run` — on a writer whose polls are ready at once, a program completes within one poll
  for each byte written and one for each flush or close.
-/

import Mathlib

namespace Ipc.Lib

/-- `Poll<io::Result<T>>`. -/
inductive Poll (E α : Type)
  | pending
  | ready (result : Except E α)
  deriving DecidableEq, Repr

/-- The error a poll returns, as a list of at most one. -/
def Poll.errors {E α : Type} : Poll E α → List E
  | .ready (.error e) => [e]
  | _ => []

/-- `Poll::is_ready`. -/
def Poll.isReady {E α : Type} : Poll E α → Bool
  | .pending => false
  | .ready _ => true

@[simp] theorem Poll.errors_pending {E α : Type} : (Poll.pending : Poll E α).errors = [] := rfl

@[simp] theorem Poll.errors_ok {E α : Type} (a : α) : (Poll.ready (.ok a) : Poll E α).errors = [] := rfl

@[simp] theorem Poll.errors_error {E α : Type} (e : E) :
    (Poll.ready (.error e) : Poll E α).errors = [e] := rfl

/-- An operation driven to its end: completed, with the bytes reported written and the answers
left; failed with the error a poll returned; or still pending when the answers ran out. -/
inductive Outcome (σ E A : Type)
  | done (s : σ) (written : List UInt8) (rest : List A)
  | failed (s : σ) (e : E)
  | pending (s : σ)

/-- Put bytes reported earlier before those of a completed outcome. -/
def Outcome.prepend {σ E A : Type} (earlier : List UInt8) : Outcome σ E A → Outcome σ E A
  | .done s written rest => .done s (earlier ++ written) rest
  | outcome => outcome

/-- An operation of the caller. -/
inductive Action
  | writeAll (bytes : List UInt8)
  | flush
  | close
  deriving DecidableEq, Repr

/-- A writer's three polls, each taking one answer of the environment. -/
structure Writer (σ E A : Type) where
  pollWrite : σ → A → List UInt8 → σ × Poll E Nat
  pollFlush : σ → A → σ × Poll E Unit
  pollClose : σ → A → σ × Poll E Unit

variable {σ E A : Type}

/-- `write_all`: poll the write of what is left of the buffer until nothing is. -/
def writeAll (poll : σ → A → List UInt8 → σ × Poll E Nat) :
    σ → List UInt8 → List A → Outcome σ E A
  | s, [], answers => .done s [] answers
  | s, _ :: _, [] => .pending s
  | s, byte :: bytes, answer :: answers =>
    match poll s answer (byte :: bytes) with
    | (s', .pending) => writeAll poll s' (byte :: bytes) answers
    | (s', .ready (.ok n)) =>
      (writeAll poll s' ((byte :: bytes).drop n) answers).prepend ((byte :: bytes).take n)
    | (s', .ready (.error e)) => .failed s' e

/-- `flush` or `close`: poll until ready. -/
def repoll (poll : σ → A → σ × Poll E Unit) : σ → List A → Outcome σ E A
  | s, [] => .pending s
  | s, answer :: answers =>
    match poll s answer with
    | (s', .pending) => repoll poll s' answers
    | (s', .ready (.ok ())) => .done s' [] answers
    | (s', .ready (.error e)) => .failed s' e

namespace Writer

/-- One operation, driven to its end. -/
def perform (w : Writer σ E A) (s : σ) : Action → List A → Outcome σ E A
  | .writeAll bytes, answers => writeAll w.pollWrite s bytes answers
  | .flush, answers => repoll w.pollFlush s answers
  | .close, answers => repoll w.pollClose s answers

/-- A program, one operation after the other; the bytes reported written add up. -/
def run (w : Writer σ E A) : σ → List Action → List A → Outcome σ E A
  | s, [], answers => .done s [] answers
  | s, action :: actions, answers =>
    match w.perform s action answers with
    | .done s' written rest => (w.run s' actions rest).prepend written
    | .failed s' e => .failed s' e
    | .pending s' => .pending s'

end Writer

/-! ### Completed operations -/

theorem prepend_eq_done {earlier : List UInt8} {outcome : Outcome σ E A} {s : σ}
    {written : List UInt8} {rest : List A} (done : outcome.prepend earlier = .done s written rest) :
    ∃ later, outcome = .done s later rest ∧ written = earlier ++ later := by
  cases outcome with
  | done s' later rest' =>
    cases done
    exact ⟨later, rfl, rfl⟩
  | failed => cases done
  | pending => cases done

/-- **`write_all`.** An invariant over the state, the bytes reported so far and the bytes left,
kept by every pending poll and every partial write, holds when the write completes; the bytes
reported are then the buffer. -/
theorem writeAll_done {poll : σ → A → List UInt8 → σ × Poll E Nat}
    (I : σ → List UInt8 → List UInt8 → Prop)
    (pending : ∀ s a reported bytes, bytes ≠ [] → I s reported bytes →
      (poll s a bytes).2 = .pending → I (poll s a bytes).1 reported bytes)
    (progress : ∀ s a reported bytes n, bytes ≠ [] → I s reported bytes →
      (poll s a bytes).2 = .ready (.ok n) →
        I (poll s a bytes).1 (reported ++ bytes.take n) (bytes.drop n)) :
    ∀ (answers : List A) (s : σ) (reported bytes : List UInt8) (s' : σ) (written : List UInt8)
      (rest : List A), I s reported bytes → writeAll poll s bytes answers = .done s' written rest →
      I s' (reported ++ written) [] ∧ written = bytes := by
  intro answers
  induction answers with
  | nil =>
    intro s reported bytes s' written rest holds done
    cases bytes with
    | nil =>
      cases done
      exact ⟨by rwa [List.append_nil], rfl⟩
    | cons => cases done
  | cons answer answers ih =>
    intro s reported bytes s' written rest holds done
    cases bytes with
    | nil =>
      cases done
      exact ⟨by rwa [List.append_nil], rfl⟩
    | cons byte bytes =>
      rw [writeAll] at done
      split at done
      · next s'' polled =>
        have kept := pending s answer reported (byte :: bytes) (List.cons_ne_nil _ _) holds
          (by rw [polled])
        rw [polled] at kept
        exact ih s'' reported _ s' written rest kept done
      · next s'' n polled =>
        obtain ⟨later, ended, rfl⟩ := prepend_eq_done done
        have kept := progress s answer reported (byte :: bytes) n (List.cons_ne_nil _ _) holds
          (by rw [polled])
        rw [polled] at kept
        obtain ⟨holds', rest'⟩ := ih s'' _ _ s' later rest kept ended
        refine ⟨by rwa [List.append_assoc] at holds', ?_⟩
        rw [rest', List.take_append_drop]
      · cases done

/-- **`flush` and `close`.** An invariant kept by every pending poll gives, at the ready poll, what
every successful ready poll gives. -/
theorem repoll_done {poll : σ → A → σ × Poll E Unit} (I Q : σ → Prop)
    (pending : ∀ s a, I s → (poll s a).2 = .pending → I (poll s a).1)
    (ready : ∀ s a, I s → (poll s a).2 = .ready (.ok ()) → Q (poll s a).1) :
    ∀ (answers : List A) (s s' : σ) (written : List UInt8) (rest : List A), I s →
      repoll poll s answers = .done s' written rest → Q s' ∧ written = [] := by
  intro answers
  induction answers with
  | nil => intro s s' written rest _ done; cases done
  | cons answer answers ih =>
    intro s s' written rest holds done
    rw [repoll] at done
    split at done
    · next s'' polled =>
      have kept := pending s answer holds (by rw [polled])
      rw [polled] at kept
      exact ih s'' s' written rest kept done
    · next s'' polled =>
      cases done
      have reached := ready s answer holds (by rw [polled])
      rw [polled] at reached
      exact ⟨reached, rfl⟩
    · cases done

/-! ### Triples -/

/-- Running a program in two parts: the second part starts where the first completed. -/
theorem Writer.run_append (w : Writer σ E A) (first second : List Action) :
    ∀ (s : σ) (answers : List A), w.run s (first ++ second) answers =
      match w.run s first answers with
      | .done s' written rest => (w.run s' second rest).prepend written
      | .failed s' e => .failed s' e
      | .pending s' => .pending s' := by
  induction first with
  | nil =>
    intro s answers
    rw [List.nil_append]
    show _ = (w.run s second answers).prepend []
    cases w.run s second answers <;> rfl
  | cons action actions ih =>
    intro s answers
    rw [List.cons_append, Writer.run, Writer.run]
    cases w.perform s action answers with
    | done s' written rest =>
      dsimp only
      rw [ih]
      cases w.run s' actions rest with
      | done s'' written' rest' =>
        dsimp only [Outcome.prepend]
        cases w.run s'' second rest' <;> simp
      | failed => rfl
      | pending => rfl
    | failed => rfl
    | pending => rfl

/-- One operation takes states and bytes satisfying `P` to states and bytes satisfying `Q`,
whenever it completes. -/
def Performs (w : Writer σ E A) (P : σ → List UInt8 → Prop) (action : Action)
    (Q : σ → List UInt8 → Prop) : Prop :=
  ∀ s reported answers s' written rest, P s reported →
    w.perform s action answers = .done s' written rest → Q s' (reported ++ written)

/-- A triple over the state and the bytes reported written so far: every completed run of the
program from a state and bytes satisfying `P` ends in a state and bytes satisfying `Q`. -/
def Triple (w : Writer σ E A) (P : σ → List UInt8 → Prop) (program : List Action)
    (Q : σ → List UInt8 → Prop) : Prop :=
  ∀ s reported answers s' written rest, P s reported →
    w.run s program answers = .done s' written rest → Q s' (reported ++ written)

/-- **Writing all of a buffer.** An invariant kept by every pending poll and every partial write
holds when the write completes, with the bytes reported written so far grown by the buffer. -/
theorem Performs.writeAll {w : Writer σ E A} (I : σ → List UInt8 → Prop)
    (pending : ∀ s a reported bytes, bytes ≠ [] → I s reported →
      (w.pollWrite s a bytes).2 = .pending → I (w.pollWrite s a bytes).1 reported)
    (progress : ∀ s a reported bytes n, bytes ≠ [] → I s reported →
      (w.pollWrite s a bytes).2 = .ready (.ok n) →
        I (w.pollWrite s a bytes).1 (reported ++ bytes.take n))
    (bytes before : List UInt8) :
    Performs w (fun s reported => I s reported ∧ reported = before) (.writeAll bytes)
      (fun s reported => I s reported ∧ reported = before ++ bytes) := by
  intro s reported answers s' written rest ⟨holds, rfl⟩ done
  obtain ⟨holds', rfl⟩ := writeAll_done (fun s reported _ => I s reported) pending progress
    answers s reported bytes s' written rest holds done
  exact ⟨holds', rfl⟩

/-- An invariant kept by every pending poll and every partial write is kept by writing all of a
buffer. -/
theorem Performs.writeAll_keeps {w : Writer σ E A} (I : σ → List UInt8 → Prop)
    (pending : ∀ s a reported bytes, bytes ≠ [] → I s reported →
      (w.pollWrite s a bytes).2 = .pending → I (w.pollWrite s a bytes).1 reported)
    (progress : ∀ s a reported bytes n, bytes ≠ [] → I s reported →
      (w.pollWrite s a bytes).2 = .ready (.ok n) →
        I (w.pollWrite s a bytes).1 (reported ++ bytes.take n))
    (bytes : List UInt8) : Performs w I (.writeAll bytes) I := by
  intro s reported answers s' written rest holds done
  exact (Performs.writeAll I pending progress bytes reported s reported answers s' written rest
    ⟨holds, rfl⟩ done).1

/-- A stronger precondition. -/
theorem Performs.weaken {w : Writer σ E A} {P P' Q : σ → List UInt8 → Prop} {action : Action}
    (performs : Performs w P' action Q) (stronger : ∀ s reported, P s reported → P' s reported) :
    Performs w P action Q :=
  fun s reported answers s' written rest holds done =>
    performs s reported answers s' written rest (stronger s reported holds) done

/-- **Flushing or closing.** An invariant kept by every pending poll of the operation gives, when it
completes, what every successful ready poll gives; no bytes are reported. -/
theorem Performs.repoll {w : Writer σ E A} {action : Action} {poll : σ → A → σ × Poll E Unit}
    (performs : ∀ s answers, w.perform s action answers = Ipc.Lib.repoll poll s answers)
    (I Q : σ → List UInt8 → Prop)
    (pending : ∀ s a reported, I s reported → (poll s a).2 = .pending → I (poll s a).1 reported)
    (ready : ∀ s a reported, I s reported → (poll s a).2 = .ready (.ok ()) →
      Q (poll s a).1 reported) :
    Performs w I action Q := by
  intro s reported answers s' written rest holds done
  rw [performs] at done
  obtain ⟨reached, rfl⟩ := repoll_done (I · reported) (Q · reported)
    (fun s a holds polled => pending s a reported holds polled)
    (fun s a holds polled => ready s a reported holds polled) answers s s' written rest holds done
  rwa [List.append_nil]

namespace Triple

variable {w : Writer σ E A} {P Q R : σ → List UInt8 → Prop}

theorem nil (P : σ → List UInt8 → Prop) : Triple w P [] P := by
  intro s reported answers s' written rest holds done
  cases done
  rwa [List.append_nil]

theorem cons {action : Action} {actions : List Action} (head : Performs w P action Q)
    (tail : Triple w Q actions R) : Triple w P (action :: actions) R := by
  intro s reported answers s' written rest holds done
  rw [Writer.run] at done
  split at done
  · next s'' written' rest' first =>
    obtain ⟨later, ended, rfl⟩ := prepend_eq_done done
    rw [← List.append_assoc]
    exact tail s'' _ rest' s' later rest (head s reported answers s'' written' rest' holds first) ended
  · cases done
  · cases done

theorem append {first second : List Action} (head : Triple w P first Q)
    (tail : Triple w Q second R) : Triple w P (first ++ second) R := by
  intro s reported answers s' written rest holds done
  rw [Writer.run_append] at done
  split at done
  · next s'' written' rest' first =>
    obtain ⟨later, ended, rfl⟩ := prepend_eq_done done
    rw [← List.append_assoc]
    exact tail s'' _ rest' s' later rest (head s reported answers s'' written' rest' holds first) ended
  · cases done
  · cases done

/-- An invariant that every operation of a program keeps holds after the program. -/
theorem of_forall {I : σ → List UInt8 → Prop} {program : List Action}
    (every : ∀ action ∈ program, Performs w I action I) : Triple w I program I := by
  induction program with
  | nil => exact nil I
  | cons action actions ih =>
    exact cons (every action List.mem_cons_self)
      (ih fun action' member => every action' (List.mem_cons_of_mem _ member))

end Triple

/-! ### Reported errors -/

/-- Every poll logs exactly the error it returns. A write is polled from states satisfying `J`
only, and keeps `J`; a flush or a close may be polled from any state, and is ready only in a state
satisfying `J`. -/
structure Reports (w : Writer σ E A) (log : σ → List E) (J : σ → Prop) : Prop where
  write : ∀ s a bytes, J s →
    log (w.pollWrite s a bytes).1 = log s ++ (w.pollWrite s a bytes).2.errors ∧
      J (w.pollWrite s a bytes).1
  flush : ∀ s a, log (w.pollFlush s a).1 = log s ++ (w.pollFlush s a).2.errors ∧
    ((w.pollFlush s a).2.isReady = true → J (w.pollFlush s a).1)
  close : ∀ s a, log (w.pollClose s a).1 = log s ++ (w.pollClose s a).2.errors ∧
    ((w.pollClose s a).2.isReady = true → J (w.pollClose s a).1)

/-- What an outcome has logged since `before`: the error it stopped with, if any; a completed
outcome ends in a state satisfying `J`. -/
def Logged (log : σ → List E) (J : σ → Prop) (before : List E) : Outcome σ E A → Prop
  | .done s _ _ => log s = before ∧ J s
  | .failed s e => log s = before ++ [e]
  | .pending s => log s = before

theorem Logged.prepend {log : σ → List E} {J : σ → Prop} {before : List E}
    {outcome : Outcome σ E A} (logged : Logged log J before outcome) (earlier : List UInt8) :
    Logged log J before (outcome.prepend earlier) := by
  cases outcome <;> exact logged

theorem Logged.congr {log : σ → List E} {J : σ → Prop} {before before' : List E}
    {outcome : Outcome σ E A} (logged : Logged log J before outcome) (same : before = before') :
    Logged log J before' outcome :=
  same ▸ logged

namespace Reports

variable {w : Writer σ E A} {log : σ → List E} {J : σ → Prop}

theorem writeAll (reports : Reports w log J) :
    ∀ (answers : List A) (s : σ) (bytes : List UInt8), J s →
      Logged log J (log s) (Ipc.Lib.writeAll w.pollWrite s bytes answers) := by
  intro answers
  induction answers with
  | nil =>
    intro s bytes holds
    cases bytes with
    | nil => exact ⟨rfl, holds⟩
    | cons => exact rfl
  | cons answer answers ih =>
    intro s bytes holds
    cases bytes with
    | nil => exact ⟨rfl, holds⟩
    | cons byte bytes =>
      obtain ⟨logged, kept⟩ := reports.write s answer (byte :: bytes) holds
      rw [Ipc.Lib.writeAll]
      split
      · next s' polled =>
        rw [polled] at logged kept
        exact (ih s' _ kept).congr (by rw [logged]; exact List.append_nil _)
      · next s' n polled =>
        rw [polled] at logged kept
        exact ((ih s' _ kept).congr (by rw [logged]; exact List.append_nil _)).prepend _
      · next s' e polled =>
        rw [polled] at logged
        exact logged

theorem repoll {poll : σ → A → σ × Poll E Unit}
    (reports : ∀ s a, log (poll s a).1 = log s ++ (poll s a).2.errors ∧
      ((poll s a).2.isReady = true → J (poll s a).1)) :
    ∀ (answers : List A) (s : σ), Logged log J (log s) (Ipc.Lib.repoll poll s answers) := by
  intro answers
  induction answers with
  | nil => intro s; exact rfl
  | cons answer answers ih =>
    intro s
    obtain ⟨logged, ready⟩ := reports s answer
    rw [Ipc.Lib.repoll]
    split
    · next s' polled =>
      rw [polled] at logged
      exact (ih s').congr (by rw [logged]; exact List.append_nil _)
    · next s' polled =>
      rw [polled] at logged ready
      exact ⟨by rw [logged]; exact List.append_nil _, ready rfl⟩
    · next s' e polled =>
      rw [polled] at logged
      exact logged

theorem perform (reports : Reports w log J) (s : σ) (holds : J s) :
    ∀ (action : Action) (answers : List A), Logged log J (log s) (w.perform s action answers)
  | .writeAll bytes, answers => reports.writeAll answers s bytes holds
  | .flush, answers => Reports.repoll reports.flush answers s
  | .close, answers => Reports.repoll reports.close answers s

/-- **No error lost.** When every poll logs exactly the error it returns, every run of a program
logs exactly the error it stops with, if any. -/
theorem run (reports : Reports w log J) :
    ∀ (program : List Action) (s : σ) (answers : List A), J s →
      Logged log J (log s) (w.run s program answers) := by
  intro program
  induction program with
  | nil => intro s answers holds; exact ⟨rfl, holds⟩
  | cons action actions ih =>
    intro s answers holds
    have first := reports.perform s holds action answers
    rw [Writer.run]
    split
    · next s' written rest performed =>
      rw [performed] at first
      obtain ⟨logged, kept⟩ := first
      exact ((ih s' rest kept).congr logged).prepend written
    · next s' e performed =>
      rw [performed] at first
      exact first
    · next s' performed =>
      rw [performed] at first
      exact first

end Reports

/-! ### Writers that answer at once -/

/-- The polls an operation takes at most on a writer that answers at once: one for each byte of a
write, whose polls accept one byte at least, and one for a flush or a close. -/
def Action.polls : Action → Nat
  | .writeAll bytes => bytes.length
  | .flush => 1
  | .close => 1

/-- A writer that answers every poll at once and with success when its environment answers `a`,
a write accepting one byte at least. -/
structure Prompt (w : Writer σ E A) (a : A) : Prop where
  write : ∀ s bytes, bytes ≠ [] → ∃ n, 0 < n ∧ (w.pollWrite s a bytes).2 = .ready (.ok n)
  flush : ∀ s, (w.pollFlush s a).2 = .ready (.ok ())
  close : ∀ s, (w.pollClose s a).2 = .ready (.ok ())

namespace Prompt

variable {w : Writer σ E A} {a : A}

/-- `write_all` completes within one poll for each byte, and reports the buffer written. -/
theorem writeAll (prompt : Prompt w a) (k : Nat) :
    ∀ (s : σ) (bytes : List UInt8), bytes.length ≤ k → ∃ s' j, k - bytes.length ≤ j ∧
      Ipc.Lib.writeAll w.pollWrite s bytes (List.replicate k a) =
        .done s' bytes (List.replicate j a) := by
  induction k with
  | zero =>
    intro s bytes short
    rw [List.length_eq_zero_iff.mp (Nat.le_zero.mp short)]
    exact ⟨s, 0, le_refl _, rfl⟩
  | succ k ih =>
    intro s bytes short
    cases bytes with
    | nil => exact ⟨s, k + 1, by simp, rfl⟩
    | cons byte rest =>
      obtain ⟨n, positive, accepted⟩ := prompt.write s (byte :: rest) (List.cons_ne_nil _ _)
      have polled : w.pollWrite s a (byte :: rest) =
          ((w.pollWrite s a (byte :: rest)).1, .ready (.ok n)) := Prod.ext rfl accepted
      have shorter : ((byte :: rest).drop n).length ≤ k := by
        simp only [List.length_drop, List.length_cons] at short ⊢
        omega
      obtain ⟨s', j, enough, done⟩ := ih (w.pollWrite s a (byte :: rest)).1 _ shorter
      refine ⟨s', j, ?_, ?_⟩
      · simp only [List.length_drop, List.length_cons] at enough ⊢
        omega
      · rw [List.replicate_succ, Ipc.Lib.writeAll, polled]
        dsimp only
        rw [done, Outcome.prepend, List.take_append_drop]

/-- A flush or a close completes in one poll. -/
theorem repoll {poll : σ → A → σ × Poll E Unit} (ready : ∀ s, (poll s a).2 = .ready (.ok ()))
    (s : σ) (k : Nat) :
    Ipc.Lib.repoll poll s (List.replicate (k + 1) a) = .done (poll s a).1 [] (List.replicate k a) := by
  have polled : poll s a = ((poll s a).1, .ready (.ok ())) := Prod.ext rfl (ready s)
  rw [List.replicate_succ, Ipc.Lib.repoll, polled]

/-- **A program completes** within the polls its operations take. -/
theorem run (prompt : Prompt w a) :
    ∀ (program : List Action) (s : σ) (k : Nat), (program.map Action.polls).sum ≤ k →
      ∃ s' written j, k - (program.map Action.polls).sum ≤ j ∧
        w.run s program (List.replicate k a) = .done s' written (List.replicate j a) := by
  intro program
  induction program with
  | nil => intro s k _; exact ⟨s, [], k, by simp, rfl⟩
  | cons action actions ih =>
    intro s k enough
    simp only [List.map_cons, List.sum_cons] at enough ⊢
    -- the first operation leaves at least the answers the others take
    have first : ∃ s' written j, k - action.polls ≤ j ∧
        w.perform s action (List.replicate k a) = .done s' written (List.replicate j a) := by
      cases action with
      | writeAll bytes =>
        obtain ⟨s', j, left, done⟩ :=
          prompt.writeAll k s bytes (by simp only [Action.polls] at enough; omega)
        exact ⟨s', bytes, j, left, done⟩
      | flush =>
        obtain ⟨k, rfl⟩ : ∃ k', k = k' + 1 := ⟨k - 1, by simp only [Action.polls] at enough; omega⟩
        exact ⟨_, [], k, by simp [Action.polls], repoll prompt.flush s k⟩
      | close =>
        obtain ⟨k, rfl⟩ : ∃ k', k = k' + 1 := ⟨k - 1, by simp only [Action.polls] at enough; omega⟩
        exact ⟨_, [], k, by simp [Action.polls], repoll prompt.close s k⟩
    obtain ⟨s', written, j, left, performed⟩ := first
    obtain ⟨s'', written', i, left', done⟩ := ih s' j (by omega)
    refine ⟨s'', written ++ written', i, by omega, ?_⟩
    rw [Writer.run, performed]
    dsimp only
    rw [done]
    rfl

end Prompt

end Ipc.Lib
