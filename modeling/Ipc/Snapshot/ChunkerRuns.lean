/-
**The chunk writer driven by the `AsyncWrite` contract.**

A caller that polls the same operation again after `Pending`, goes on with the unwritten rest of
its buffer and stops at the first error writes a CAR file through `ChunkWriter`
(`carProgram`: the header by `ld_write`, the blocks, the close). Whatever the environment answers:

* `Fits` — the writer and the directory hold the chunks written so far: one per file begun, each
  stored under its name, every one but the first and the last at least `max_size` long;
  `pollWrite_fits`, `pollFlush_fits` and `pollClose_fits` say what one poll does to them;
* `asyncWrite_reports` — from a state that is not closing a file, every poll returns the error
  that its file operations answered, if any (`pollWrite_closing_error`: from a closing one, a
  write drops it);
* `carProgram_faithful` — a completed run leaves `chunk_created()` files, the first holding the
  header and the lot holding, in index order, the bytes reported written, as long as `file_name`
  names distinct files (`carProgram_constant_fileName`: a constant one empties the header's
  file); a failed run has met exactly the error it returns;
* `carProgram_completes` — the run completes when every operation on a file succeeds at once.
-/

import Mathlib
import Ipc.Snapshot.Chunker

namespace Ipc.Snapshot

open Ipc.Lib

variable {N E : Type} [DecidableEq N]

/-! ### The directory against the chunks -/

/-- What the state says of the last chunk: it is the file being opened (still empty), written
(with `written` bytes) or closed. -/
def Current (fileName : Nat → N) (chunks : List (List UInt8)) : ChunkWriterState N → Prop
  | .idle => True
  | .opening out => out = fileName (chunks.length - 1) ∧ chunks.getLast? = some []
  | .open out written =>
    out = fileName (chunks.length - 1) ∧ chunks.getLast?.map List.length = some written
  | .closing out => out = fileName (chunks.length - 1) ∧ chunks ≠ []

/-- The writer and the directory hold `chunks`, the bytes of the chunk files in index order: one
chunk for every file begun, each stored under its name (but the last while its file is being
created), every chunk but the first and the last at least `max_size` long, and the state about the
last. -/
structure Fits (w : ChunkWriter N) (dir : N → Option (List UInt8)) (chunks : List (List UInt8)) :
    Prop where
  count : chunks.length = w.nextIdx
  stored : ∀ i (h : i < chunks.length),
    dir (w.fileName i) = some chunks[i] ∨ w.state = .opening (w.fileName i) ∧ i + 1 = chunks.length
  full : ∀ i (h : i < chunks.length), 0 < i → i + 1 < chunks.length → 0 < w.maxSize →
    w.maxSize ≤ chunks[i].length
  current : Current w.fileName chunks w.state

/-- The last chunk may be followed by another: it is the header's, or it holds `max_size` bytes. -/
def Sealed (maxSize : Nat) (chunks : List (List UInt8)) : Prop :=
  ∀ i (h : i < chunks.length), 0 < i → i + 1 = chunks.length → 0 < maxSize →
    maxSize ≤ chunks[i].length

/-- The state of a writer between the polls of a write: a file being opened or written. -/
def Writing : ChunkWriterState N → Prop
  | .opening _ | .open _ _ => True
  | .idle | .closing _ => False

/-- A writer idle or closing a file has left a sealed last chunk. -/
def SealedAt (w : ChunkWriter N) (chunks : List (List UInt8)) : Prop :=
  (w.state = .idle ∨ ∃ out, w.state = .closing out) → Sealed w.maxSize chunks

omit [DecidableEq N] in
/-- A writer opening or writing a file is neither idle nor closing. -/
theorem sealedAt_of_writing {w : ChunkWriter N} (chunks : List (List UInt8))
    (writing : Writing w.state) : SealedAt w chunks := by
  rintro (idle | ⟨out, closing⟩)
  · rw [idle] at writing
    exact False.elim writing
  · rw [closing] at writing
    exact False.elim writing

theorem sealed_of_length_le_one {maxSize : Nat} {chunks : List (List UInt8)}
    (short : chunks.length ≤ 1) : Sealed maxSize chunks := by
  intro i _ positive last
  omega

namespace Fits

variable {w : ChunkWriter N} {dir : N → Option (List UInt8)} {chunks : List (List UInt8)}

omit [DecidableEq N] in
/-- The fresh writer holds no chunk. -/
theorem new (maxSize : Nat) (fileName : Nat → N) (dir : N → Option (List UInt8)) :
    Fits (ChunkWriter.new maxSize fileName) dir [] where
  count := rfl
  stored i h := absurd h (Nat.not_lt_zero i)
  full i h := absurd h (Nat.not_lt_zero i)
  current := trivial

omit [DecidableEq N] in
/-- A chunk whose file is not being created is stored under its name. -/
theorem stored_of_not_opening (fits : Fits w dir chunks) (ready : ∀ out, w.state ≠ .opening out)
    (i : Nat) (h : i < chunks.length) : dir (w.fileName i) = some chunks[i] :=
  (fits.stored i h).resolve_right fun ⟨opening, _⟩ => ready _ opening

omit [DecidableEq N] in
omit [DecidableEq N] in
/-- The writer in the state it is in. -/
theorem with_state (fits : Fits w dir chunks) {state : ChunkWriterState N}
    (same : w.state = state) : Fits { w with state } dir chunks := by
  subst same
  exact fits

omit [DecidableEq N] in
/-- The open file holds the last chunk. -/
theorem dir_open (fits : Fits w dir chunks) {out : N} {written : Nat}
    (opened : w.state = .open out written) : dir out = chunks.getLast? := by
  have current := fits.current
  rw [opened] at current
  obtain ⟨named, sized⟩ := current
  have nonempty : chunks ≠ [] := fun none => by simp [none] at sized
  have inside : chunks.length - 1 < chunks.length := by
    simpa [List.length_pos_iff] using nonempty
  rw [named, fits.stored_of_not_opening (by simp [opened]) _ inside, List.getLast?_eq_getElem?,
    List.getElem?_eq_getElem inside]

omit [DecidableEq N] in
/-- A file being opened or written is the last of the chunks. -/
theorem exists_last (fits : Fits w dir chunks) (writing : Writing w.state) :
    ∃ init last, chunks = init ++ [last] := by
  have current := fits.current
  have nonempty : chunks ≠ [] := by
    intro none
    rcases state : w.state with _ | out | ⟨out, written⟩ | out
    · rw [state] at writing
      exact writing
    · rw [state] at current
      simp [Current, none] at current
    · rw [state] at current
      simp [Current, none] at current
    · rw [state] at writing
      exact writing
  exact ⟨chunks.dropLast, chunks.getLast nonempty, (List.dropLast_append_getLast nonempty).symm⟩

omit [DecidableEq N] in
/-- A flushed file that `poll_flush` closes (the first, or one holding `max_size` bytes) leaves a
sealed last chunk. -/
theorem sealed_of_close (fits : Fits w dir chunks) {out : N} {written : Nat}
    (opened : w.state = .open out written)
    (close : w.nextIdx = 1 ∨ w.maxSize ≤ written ∧ 0 < w.maxSize) : Sealed w.maxSize chunks := by
  rcases close with first | ⟨full, _⟩
  · exact sealed_of_length_le_one (by rw [fits.count, first])
  · have current := fits.current
    rw [opened] at current
    obtain ⟨_, sized⟩ := current
    intro i inside _ last _
    have isLast : i = chunks.length - 1 := by omega
    subst isLast
    rw [List.getLast?_eq_getElem?, List.getElem?_eq_getElem inside, Option.map_some,
      Option.some_inj] at sized
    rwa [sized]

omit [DecidableEq N] in
/-- `next_file` from the idle state: an empty chunk is begun under the next name. -/
theorem openNext (fits : Fits w dir chunks) (idle : w.state = .idle)
    (sealed : Sealed w.maxSize chunks) :
    Fits { w with nextIdx := w.nextIdx + 1, state := .opening (w.fileName w.nextIdx) } dir
      (chunks ++ [[]]) := by
  have count := fits.count
  constructor
  · simp [count]
  · intro i inside
    rw [List.length_append, List.length_singleton] at inside
    rcases Nat.lt_succ_iff_lt_or_eq.mp inside with earlier | rfl
    · left
      rw [List.getElem_append_left earlier]
      exact fits.stored_of_not_opening (by simp [idle]) i earlier
    · right
      simp [count]
  · intro i inside positive before big
    rw [List.length_append, List.length_singleton] at inside before
    have earlier : i < chunks.length := by omega
    rw [List.getElem_append_left earlier]
    rcases Nat.lt_succ_iff_lt_or_eq.mp before with middle | last
    · exact fits.full i earlier positive middle big
    · exact sealed i earlier positive last big
  · simp [Current, count]

/-- The file being created is created: it is stored, empty, and open. -/
theorem created (fits : Fits w dir chunks) (distinct : Function.Injective w.fileName) {out : N}
    (opening : w.state = .opening out) :
    Fits { w with state := .open out 0 } (Function.update dir out (some [])) chunks := by
  have current := fits.current
  rw [opening] at current
  obtain ⟨named, empty⟩ := current
  have nonempty : chunks ≠ [] := fun none => by simp [none] at empty
  have inside : chunks.length - 1 < chunks.length := by
    simpa [List.length_pos_iff] using nonempty
  have lastEmpty : chunks[chunks.length - 1] = [] := by
    rwa [List.getLast?_eq_getElem?, List.getElem?_eq_getElem inside, Option.some_inj] at empty
  constructor
  · exact fits.count
  · intro i inside
    left
    by_cases isLast : i = chunks.length - 1
    · subst isLast
      simp [named, lastEmpty]
    · have other : w.fileName i ≠ out := named ▸ fun same => isLast (distinct same)
      simp only [Function.update_of_ne other]
      rcases fits.stored i inside with stored | ⟨_, last⟩
      · exact stored
      · omega
  · exact fits.full
  · exact ⟨named, by simp [empty]⟩

/-- A successful write to the open file: the bytes it accepted are appended to the last chunk. -/
theorem wrote {init : List (List UInt8)} {last : List UInt8} (fits : Fits w dir (init ++ [last]))
    (distinct : Function.Injective w.fileName) {out : N} {written : Nat}
    (opened : w.state = .open out written) (accepted : List UInt8) :
    Fits { w with state := .open out (written + accepted.length) }
      (Function.update dir out (some (last ++ accepted))) (init ++ [last ++ accepted]) := by
  have current := fits.current
  rw [opened] at current
  obtain ⟨named, sized⟩ := current
  simp only [List.length_append, List.length_singleton, Nat.add_sub_cancel, List.getLast?_concat,
    Option.map_some, Option.some_inj] at named sized
  constructor
  · simpa using fits.count
  · intro i inside
    left
    rw [List.length_append, List.length_singleton] at inside
    rcases Nat.lt_succ_iff_lt_or_eq.mp inside with earlier | rfl
    · have other : w.fileName i ≠ out := named ▸ fun same => (Nat.ne_of_lt earlier) (distinct same)
      simp only [Function.update_of_ne other, List.getElem_append_left earlier]
      have stored := fits.stored_of_not_opening (by simp [opened]) i (by simp; omega)
      rwa [List.getElem_append_left earlier] at stored
    · simp [named]
  · intro i inside positive before big
    simp only [List.length_append, List.length_singleton] at inside before
    have earlier : i < init.length := by omega
    have full := fits.full i (by simp; omega) positive (by simp; omega) big
    simp only [List.getElem_append_left earlier] at full ⊢
    exact full
  · exact ⟨by simp [named], by simp [sized]⟩

omit [DecidableEq N] in
/-- The open file starts closing. -/
theorem closing (fits : Fits w dir chunks) {out : N} {written : Nat}
    (opened : w.state = .open out written) : Fits { w with state := .closing out } dir chunks := by
  have current := fits.current
  rw [opened] at current
  obtain ⟨named, sized⟩ := current
  constructor
  · exact fits.count
  · intro i inside
    exact .inl (fits.stored_of_not_opening (by simp [opened]) i inside)
  · exact fits.full
  · exact ⟨named, fun none => by simp [none] at sized⟩

omit [DecidableEq N] in
/-- The file closing is closed. -/
theorem closed (fits : Fits w dir chunks) {out : N} (closing : w.state = .closing out) :
    Fits { w with state := .idle } dir chunks where
  count := fits.count
  stored i inside := .inl (fits.stored_of_not_opening (by simp [closing]) i inside)
  full := fits.full
  current := trivial

end Fits

/-! ### One poll, over the chunks -/

namespace ChunkWriter

variable {w : ChunkWriter N} {files : Files N E} {chunks : List (List UInt8)}

/-- A poll of the write to the open file: waiting keeps the chunks, a successful write appends
the bytes it reports to the last one. -/
theorem statePollWrite_fits (w : ChunkWriter N) {init : List (List UInt8)} {last : List UInt8}
    {out : N} {sofar : Nat} (fits : Fits { w with state := .open out sofar } files.dir (init ++ [last]))
    (distinct : Function.Injective w.fileName) (cx : Answers E) (buf : List UInt8) :
    let r := w.pollState (statePollWrite cx files buf out sofar)
    (r.2 = .pending → Fits r.1.1 r.1.2.dir (init ++ [last]) ∧ Writing r.1.1.state) ∧
    (∀ n, r.2 = .ready (.ok n) →
      Fits r.1.1 r.1.2.dir (init ++ [last ++ buf.take n]) ∧ Writing r.1.1.state) := by
  intro r
  rcases statePollWrite_cases cx files buf out sofar with waiting | ⟨e, failed⟩ | ⟨k, wrote⟩
  · dsimp only [r]
    rw [waiting, pollState_eq]
    exact ⟨fun _ => ⟨fits, trivial⟩, fun n answered => (nomatch answered)⟩
  · dsimp only [r]
    rw [failed, pollState_eq]
    exact ⟨fun answered => (nomatch answered), fun n answered => (nomatch answered)⟩
  · dsimp only [r]
    rw [wrote, pollState_eq]
    refine ⟨fun answered => (nomatch answered), fun n answered => ?_⟩
    cases answered
    have stored : files.dir out = some last := by
      simpa using fits.dir_open rfl
    have accepted : buf.take (buf.take (k + 1)).length = buf.take (k + 1) := by simp
    simp only [stored, Option.getD_some, accepted]
    exact ⟨fits.wrote distinct rfl (buf.take (k + 1)), trivial⟩

/-- A poll of a write to the file being opened: its creation is polled first, and once the file
is created and empty it is written. -/
theorem statePollOpenWrite_fits (w : ChunkWriter N) {out : N}
    (fits : Fits { w with state := .opening out } files.dir chunks)
    (distinct : Function.Injective w.fileName) (cx : Answers E) (buf : List UInt8) :
    let r := w.pollState (statePollOpenWrite cx files buf out)
    (r.2 = .pending → Fits r.1.1 r.1.2.dir chunks ∧ Writing r.1.1.state) ∧
    (∀ n, r.2 = .ready (.ok n) → ∃ init last, chunks = init ++ [last] ∧
      Fits r.1.1 r.1.2.dir (init ++ [last ++ buf.take n]) ∧ Writing r.1.1.state) := by
  intro r
  obtain ⟨init, last, rfl⟩ := fits.exists_last trivial
  rcases statePollOpen_cases cx files out (fun cx files out => statePollWrite cx files buf out 0) with
    waiting | ⟨e, failed⟩ | created
  · dsimp only [r]
    rw [statePollOpenWrite, waiting, pollState_eq]
    exact ⟨fun _ => ⟨fits, trivial⟩, fun n answered => (nomatch answered)⟩
  · dsimp only [r]
    rw [statePollOpenWrite, failed, pollState_eq]
    exact ⟨fun answered => (nomatch answered), fun n answered => (nomatch answered)⟩
  · have opened : Fits { w with state := .open out 0 }
        ({ files with dir := Function.update files.dir out (some []) } : Files N E).dir
        (init ++ [last]) :=
      fits.created distinct rfl
    have step := statePollWrite_fits w opened distinct cx buf
    dsimp only [r]
    rw [statePollOpenWrite, created]
    exact ⟨step.1, fun n answered => ⟨init, last, rfl, step.2 n answered⟩⟩

/-- **One poll of a write**, from a state that is not closing a file (and that has sealed its last
chunk, if idle): the idle writer begins the next file; then waiting keeps the chunks, and a
successful write appends the bytes it reports to the last one. -/
theorem pollWrite_fits (fits : Fits w files.dir chunks) (distinct : Function.Injective w.fileName)
    (ready : w.state = .idle ∧ Sealed w.maxSize chunks ∨ Writing w.state) (cx : Answers E)
    (buf : List UInt8) :
    let opened := if w.state = .idle then chunks ++ [[]] else chunks
    let r := w.pollWrite files cx buf
    (r.2 = .pending → Fits r.1.1 r.1.2.dir opened ∧ Writing r.1.1.state) ∧
    (∀ n, r.2 = .ready (.ok n) → ∃ init last, opened = init ++ [last] ∧
      Fits r.1.1 r.1.2.dir (init ++ [last ++ buf.take n]) ∧ Writing r.1.1.state) := by
  intro opened r
  rcases state : w.state with _ | out | ⟨out, written⟩ | out
  · have sealed : Sealed w.maxSize chunks := by
      rcases ready with ⟨_, sealed⟩ | writing
      · exact sealed
      · rw [state] at writing
        exact False.elim writing
    have next := fits.openNext state sealed
    have step := statePollOpenWrite_fits _ (next.with_state rfl) distinct cx buf
    dsimp only [opened, r]
    rw [if_pos state, pollWrite_idle w state, pollWrite_opening _ rfl]
    exact step
  · have step := statePollOpenWrite_fits w (fits.with_state state) distinct cx buf
    dsimp only [opened, r]
    rw [if_neg (by simp [state]), pollWrite_opening w state]
    exact step
  · obtain ⟨init, last, rfl⟩ := fits.exists_last (by rw [state]; trivial)
    have step := statePollWrite_fits w (fits.with_state state) distinct cx buf
    dsimp only [opened, r]
    rw [if_neg (by simp [state]), pollWrite_open w state]
    exact ⟨step.1, fun n answered => ⟨init, last, rfl, step.2 n answered⟩⟩
  · rcases ready with ⟨idle, _⟩ | writing
    · rw [state] at idle
      cases idle
    · rw [state] at writing
      exact False.elim writing

omit [DecidableEq N] in
/-- A poll of the close of the file: it leaves the file closing or, once ready, the writer idle. -/
theorem statePollClose_fits (w : ChunkWriter N) {out : N}
    (fits : Fits { w with state := .closing out } files.dir chunks) (cx : Answers E) :
    let r := w.pollState (statePollClose cx files out)
    r.2.errors = [] → Fits r.1.1 r.1.2.dir chunks ∧ (∀ o, r.1.1.state ≠ .opening o) ∧
      (r.2 = .ready (.ok ()) → r.1.1.state = .idle) := by
  intro r quiet
  rcases statePollClose_cases cx files out with waiting | ⟨e, failed⟩ | closed
  · dsimp only [r]
    rw [waiting, pollState_eq]
    exact ⟨fits, fun _ => by simp, fun answered => (nomatch answered)⟩
  · simp [r, failed] at quiet
  · dsimp only [r]
    rw [closed, pollState_eq]
    exact ⟨fits.closed rfl, fun _ => by simp, fun _ => rfl⟩

/-- **One poll of a flush** that answers no error. It keeps the chunks and does not begin to open a
file; it closes a file only once its chunk is sealed; once ready, the writer is not closing, and
it is idle if it had begun one file only. -/
theorem pollFlush_fits (fits : Fits w files.dir chunks) (distinct : Function.Injective w.fileName)
    (cx : Answers E) :
    let r := w.pollFlush files cx
    r.2.errors = [] →
      Fits r.1.1 r.1.2.dir chunks ∧ (SealedAt w chunks → SealedAt r.1.1 chunks) ∧
      ((∀ out, w.state ≠ .opening out) → ∀ out, r.1.1.state ≠ .opening out) ∧
      (r.2 = .ready (.ok ()) → (∀ out, r.1.1.state ≠ .closing out) ∧
        (w.nextIdx = 1 → (∀ out, w.state ≠ .opening out) → r.1.1.state = .idle)) := by
  intro r quiet
  dsimp only [r] at quiet ⊢
  rcases state : w.state with _ | out | ⟨out, written⟩ | out
  · -- nothing to flush
    rw [pollFlush_idle w state, pollState_eq]
    exact ⟨fits.with_state state, fun sealedAt _ => sealedAt (.inl state), fun _ _ => by simp,
      fun _ => ⟨by simp, fun _ _ => rfl⟩⟩
  · -- the file being opened is only created
    have opening := fits.with_state state
    rcases statePollOpen_cases cx files out
        (fun _ files out => (.open out 0, files, .ready (.ok ()))) with
      waiting | ⟨e, failed⟩ | created
    · rw [pollFlush_opening w state, waiting, pollState_eq]
      exact ⟨opening, fun _ => sealedAt_of_writing chunks trivial,
        fun ready => absurd rfl (ready out), fun answered => (nomatch answered)⟩
    · simp [pollFlush_opening w state, failed] at quiet
    · rw [pollFlush_opening w state, created, pollState_eq]
      exact ⟨opening.created distinct rfl, fun _ => sealedAt_of_writing chunks trivial,
        fun ready => absurd rfl (ready out), fun _ => ⟨by simp, fun _ ready => absurd rfl (ready out)⟩⟩
  · -- the open file is flushed, then closed if it is the first or full
    rcases pollFlush_open_cases w state files cx with waiting | ⟨e, failed⟩ | ⟨close, closing⟩ |
      ⟨keep, kept⟩
    · rw [waiting, pollState_eq]
      exact ⟨fits.with_state state, fun _ => sealedAt_of_writing chunks trivial, fun _ _ => by simp,
        fun answered => (nomatch answered)⟩
    · simp [failed] at quiet
    · rw [closing] at quiet ⊢
      obtain ⟨closed, ready, idle⟩ := statePollClose_fits w (fits.closing state) cx quiet
      have sealed := fits.sealed_of_close state close
      exact ⟨closed, fun _ _ => sealed, fun _ => ready,
        fun answered => ⟨fun o => by rw [idle answered]; simp, fun _ _ => idle answered⟩⟩
    · rw [kept, pollState_eq]
      exact ⟨fits.with_state state, fun _ => sealedAt_of_writing chunks trivial, fun _ _ => by simp,
        fun _ => ⟨by simp, fun first => absurd (.inl first) keep⟩⟩
  · -- the file closing is polled again
    rw [pollFlush_closing w state] at quiet ⊢
    obtain ⟨closed, ready, idle⟩ := statePollClose_fits w (fits.with_state state) cx quiet
    exact ⟨closed, fun sealedAt _ => sealedAt (.inr ⟨out, state⟩), fun _ => ready,
      fun answered => ⟨fun o => by rw [idle answered]; simp, fun _ _ => idle answered⟩⟩

/-- **One poll of a close** that answers no error: it keeps the chunks, and once ready the writer
is idle. -/
theorem pollClose_fits (fits : Fits w files.dir chunks) (distinct : Function.Injective w.fileName)
    (cx : Answers E) :
    let r := w.pollClose files cx
    r.2.errors = [] → Fits r.1.1 r.1.2.dir chunks ∧ (r.2 = .ready (.ok ()) → r.1.1.state = .idle) := by
  intro r quiet
  dsimp only [r] at quiet ⊢
  rcases state : w.state with _ | out | ⟨out, written⟩ | out
  · rw [pollClose_idle w state, pollState_eq]
    exact ⟨fits.with_state state, fun _ => rfl⟩
  · have opening := fits.with_state state
    rcases statePollOpen_cases cx files out statePollClose with waiting | ⟨e, failed⟩ | created
    · rw [pollClose_opening w state, waiting, pollState_eq]
      exact ⟨opening, fun answered => (nomatch answered)⟩
    · simp [pollClose_opening w state, failed] at quiet
    · -- the file is created, then its close is polled
      have closing : Fits { w with state := .closing out }
          ({ files with dir := Function.update files.dir out (some []) } : Files N E).dir chunks :=
        (opening.created distinct rfl).closing rfl
      rw [pollClose_opening w state, created] at quiet ⊢
      obtain ⟨closed, -, idle⟩ := statePollClose_fits w closing cx quiet
      exact ⟨closed, idle⟩
  · rw [pollClose_closing w (.inl ⟨written, state⟩)] at quiet ⊢
    obtain ⟨closed, -, idle⟩ := statePollClose_fits w (fits.closing state) cx quiet
    exact ⟨closed, idle⟩
  · rw [pollClose_closing w (.inr state)] at quiet ⊢
    obtain ⟨closed, -, idle⟩ := statePollClose_fits w (fits.with_state state) cx quiet
    exact ⟨closed, idle⟩

/-! ### Every error returned -/

/-- `state_poll_write` logs the error it returns and leaves the file open. -/
theorem statePollWrite_reported (cx : Answers E) (files : Files N E) (buf : List UInt8) (out : N)
    (sofar : Nat) :
    let sp := statePollWrite cx files buf out sofar
    sp.2.1.errors = files.errors ++ sp.2.2.errors ∧ ∃ written, sp.1 = .open out written := by
  intro sp
  rcases statePollWrite_cases cx files buf out sofar with polled | ⟨e, polled⟩ | ⟨k, polled⟩ <;>
    simp [sp, polled]

omit [DecidableEq N] in
/-- `state_poll_close` logs the error it returns; once ready, the writer is idle. -/
theorem statePollClose_reported (cx : Answers E) (files : Files N E) (out : N) :
    let sp := statePollClose cx files out
    sp.2.1.errors = files.errors ++ sp.2.2.errors ∧ (sp.2.2.isReady = true → sp.1 = .idle) := by
  intro sp
  rcases statePollClose_cases cx files out with polled | ⟨e, polled⟩ | polled <;>
    simp [sp, polled, Poll.isReady]

/-- `state_poll_open_write` logs the error it returns and never leaves a file closing. -/
theorem statePollOpenWrite_reported (cx : Answers E) (files : Files N E) (buf : List UInt8)
    (out : N) :
    let sp := statePollOpenWrite cx files buf out
    sp.2.1.errors = files.errors ++ sp.2.2.errors ∧ ∀ o, sp.1 ≠ .closing o := by
  intro sp
  rcases statePollOpen_cases cx files out (fun cx files out => statePollWrite cx files buf out 0) with
    polled | ⟨e, polled⟩ | polled
  · simp [sp, statePollOpenWrite, polled]
  · simp [sp, statePollOpenWrite, polled]
  · obtain ⟨logged, written, opened⟩ :=
      statePollWrite_reported cx { files with dir := Function.update files.dir out (some []) } buf out 0
    simp only [sp, statePollOpenWrite, polled]
    exact ⟨logged, fun o => by rw [opened]; simp⟩

/-- **A write logs the error it returns**, from a writer that is not closing a file, and leaves
none closing. -/
theorem pollWrite_reported (w : ChunkWriter N) (ready : ∀ out, w.state ≠ .closing out)
    (files : Files N E) (cx : Answers E) (buf : List UInt8) :
    let r := w.pollWrite files cx buf
    r.1.2.errors = files.errors ++ r.2.errors ∧ ∀ out, r.1.1.state ≠ .closing out := by
  intro r
  rcases state : w.state with _ | out | ⟨out, written⟩ | out
  · have reported := statePollOpenWrite_reported cx files buf (w.fileName w.nextIdx)
    dsimp only [r]
    rw [pollWrite_idle w state, pollWrite_opening _ rfl]
    simpa only [pollState_files, pollState_poll, pollState_fst] using reported
  · have reported := statePollOpenWrite_reported cx files buf out
    simpa only [r, pollWrite_opening w state, pollState_files, pollState_poll, pollState_fst] using
      reported
  · obtain ⟨logged, written', opened⟩ := statePollWrite_reported cx files buf out written
    simp only [r, pollWrite_open w state, pollState_files, pollState_poll, pollState_fst]
    exact ⟨logged, fun o => by rw [opened]; simp⟩
  · exact absurd state (ready out)

/-- **A flush logs the error it returns**; once ready, no file is closing. -/
theorem pollFlush_reported (w : ChunkWriter N) (files : Files N E) (cx : Answers E) :
    let r := w.pollFlush files cx
    r.1.2.errors = files.errors ++ r.2.errors ∧
      (r.2.isReady = true → ∀ out, r.1.1.state ≠ .closing out) := by
  intro r
  rcases state : w.state with _ | out | ⟨out, written⟩ | out
  · simp [r, pollFlush_idle w state]
  · rcases statePollOpen_cases cx files out
        (fun _ files out => (.open out 0, files, .ready (.ok ()))) with
      polled | ⟨e, polled⟩ | polled <;>
      simp [r, pollFlush_opening w state, polled, Poll.isReady]
  · rcases pollFlush_open_cases w state files cx with polled | ⟨e, polled⟩ | ⟨_, polled⟩ | ⟨_, polled⟩
    · simp [r, polled, Poll.isReady]
    · simp [r, polled]
    · obtain ⟨logged, idle⟩ := statePollClose_reported cx files out
      simp only [r, polled, pollState_files, pollState_poll, pollState_fst]
      exact ⟨logged, fun ready o => by rw [idle ready]; simp⟩
    · simp [r, polled]
  · obtain ⟨logged, idle⟩ := statePollClose_reported cx files out
    simp only [r, pollFlush_closing w state, pollState_files, pollState_poll, pollState_fst]
    exact ⟨logged, fun ready o => by rw [idle ready]; simp⟩

/-- **A close logs the error it returns**; once ready, the writer is idle. -/
theorem pollClose_reported (w : ChunkWriter N) (files : Files N E) (cx : Answers E) :
    let r := w.pollClose files cx
    r.1.2.errors = files.errors ++ r.2.errors ∧ (r.2.isReady = true → r.1.1.state = .idle) := by
  intro r
  rcases state : w.state with _ | out | ⟨out, written⟩ | out
  · simp [r, pollClose_idle w state]
  · rcases statePollOpen_cases cx files out statePollClose with polled | ⟨e, polled⟩ | polled
    · simp [r, pollClose_opening w state, polled, Poll.isReady]
    · simp [r, pollClose_opening w state, polled]
    · obtain ⟨logged, idle⟩ :=
        statePollClose_reported cx { files with dir := Function.update files.dir out (some []) } out
      simp only [r, pollClose_opening w state, polled, pollState_files, pollState_poll, pollState_fst]
      exact ⟨logged, idle⟩
  · obtain ⟨logged, idle⟩ := statePollClose_reported cx files out
    simp only [r, pollClose_closing w (.inl ⟨written, state⟩), pollState_files, pollState_poll,
      pollState_fst]
    exact ⟨logged, idle⟩
  · obtain ⟨logged, idle⟩ := statePollClose_reported cx files out
    simp only [r, pollClose_closing w (.inr state), pollState_files, pollState_poll, pollState_fst]
    exact ⟨logged, idle⟩

end ChunkWriter

/-- Outside the contract: a write polled while a file is closing drops the error of a close that
fails, which stays logged only, and goes on to the next file as from the idle state. -/
theorem ChunkWriter.pollWrite_closing_error (w : ChunkWriter N) {out : N}
    (closing : w.state = .closing out) (files : Files N E) (cx : Answers E) {e : E}
    (failed : cx.close = .ready (.error e)) (buf : List UInt8) :
    w.pollWrite files cx buf =
      ({ w with state := .idle } : ChunkWriter N).pollWrite
        { files with errors := files.errors ++ [e] } cx buf := by
  have closed : ChunkWriter.statePollClose cx files out =
      (.idle, { files with errors := files.errors ++ [e] }, .ready (.error e)) := by
    simp [ChunkWriter.statePollClose, Files.settle, failed, Files.observe]
  rw [ChunkWriter.pollWrite_idle ({ w with state := .idle } : ChunkWriter N) rfl]
  conv_lhs => unfold ChunkWriter.pollWrite
  simp only [closing, closed, Poll.isReady, if_true]
  rfl

/-- **Every error returned** (the polls' side of the contract): from a writer that is not closing
a file, every poll of `ChunkWriter` logs exactly the error that it returns, if any, and a write or
a ready flush or close leaves no file closing. -/
theorem asyncWrite_reports :
    Reports (ChunkWriter.asyncWrite : Writer (ChunkWriter N × Files N E) E (Answers E))
      (fun s => s.2.errors) (fun s => ∀ out, s.1.state ≠ .closing out) where
  write s cx buf ready := ChunkWriter.pollWrite_reported s.1 ready s.2 cx buf
  flush s cx := ChunkWriter.pollFlush_reported s.1 s.2 cx
  close s cx := by
    obtain ⟨logged, idle⟩ := ChunkWriter.pollClose_reported s.1 s.2 cx
    exact ⟨logged, fun ready out => by
      show (s.1.pollClose s.2 cx).1.1.state ≠ .closing out
      rw [idle ready]
      simp⟩

/-! ### The caller's program -/

section Caller

variable (maxSize : Nat) (fileName : Nat → N) (frame : List UInt8)

/-- The writer, made with `maxSize` and `fileName`, and the directory hold `chunks`, whose bytes
are those reported written. -/
structure Layout (s : ChunkWriter N × Files N E) (reported : List UInt8)
    (chunks : List (List UInt8)) : Prop where
  size : s.1.maxSize = maxSize
  names : s.1.fileName = fileName
  fits : Fits s.1 s.2.dir chunks
  bytes : chunks.flatten = reported

/-- Between the polls of the header's writes: at most one file, the header's, begun. -/
def HeaderWriting (s : ChunkWriter N × Files N E) (reported : List UInt8) : Prop :=
  ∃ chunks, Layout maxSize fileName s reported chunks ∧
    (chunks = [] ∧ s.1.state = .idle ∨ chunks.length = 1 ∧ Writing s.1.state)

/-- Between the polls of the blocks' writes: the header's file, `frame`, is closed, and the last
file is sealed before the next is begun. -/
def BlockWriting (s : ChunkWriter N × Files N E) (reported : List UInt8) : Prop :=
  ∃ chunks, Layout maxSize fileName s reported chunks ∧ chunks.head? = some frame ∧
    (chunks.length = 1 → s.1.state = .idle) ∧
    (s.1.state = .idle ∧ Sealed maxSize chunks ∨ Writing s.1.state)

/-- Between the polls of a flush: the header's file is not being opened, and a file is closed only
once sealed. -/
def Flushing (s : ChunkWriter N × Files N E) (reported : List UInt8) : Prop :=
  ∃ chunks, Layout maxSize fileName s reported chunks ∧ chunks.head? = some frame ∧
    (chunks.length = 1 → ∀ out, s.1.state ≠ .opening out) ∧ SealedAt s.1 chunks

/-- Between the polls of the close. -/
def Closing (s : ChunkWriter N × Files N E) (reported : List UInt8) : Prop :=
  ∃ chunks, Layout maxSize fileName s reported chunks ∧ chunks.head? = some frame

variable {maxSize fileName frame}

omit [DecidableEq N] in
theorem flatten_opened (c : Prop) [Decidable c] (chunks : List (List UInt8)) :
    (if c then chunks ++ [[]] else chunks).flatten = chunks.flatten := by
  split <;> simp

/-- One poll of a write, over the layout (`ChunkWriter.pollWrite_fits` with the bytes reported). -/
theorem Layout.pollWrite {s : ChunkWriter N × Files N E} {reported : List UInt8}
    {chunks : List (List UInt8)} (layout : Layout maxSize fileName s reported chunks)
    (distinct : Function.Injective fileName)
    (ready : s.1.state = .idle ∧ Sealed maxSize chunks ∨ Writing s.1.state) (cx : Answers E)
    (buf : List UInt8) :
    let opened := if s.1.state = .idle then chunks ++ [[]] else chunks
    let r := s.1.pollWrite s.2 cx buf
    (r.2 = .pending → Layout maxSize fileName r.1 reported opened ∧ Writing r.1.1.state) ∧
    (∀ n, r.2 = .ready (.ok n) → ∃ init last, opened = init ++ [last] ∧
      Layout maxSize fileName r.1 (reported ++ buf.take n) (init ++ [last ++ buf.take n]) ∧
      Writing r.1.1.state) := by
  intro opened r
  obtain ⟨size, names, fits, bytes⟩ := layout
  have config := ChunkWriter.pollWrite_config s.1 s.2 cx buf
  have ready' : s.1.state = .idle ∧ Sealed s.1.maxSize chunks ∨ Writing s.1.state := by
    rwa [size]
  have step := ChunkWriter.pollWrite_fits fits (by rwa [names]) ready' cx buf
  have kept : opened.flatten = reported := by
    rw [← bytes]
    exact flatten_opened _ chunks
  refine ⟨fun waiting => ?_, fun n wrote => ?_⟩
  · obtain ⟨fits', writing⟩ := step.1 waiting
    exact ⟨⟨config.1.trans size, config.2.trans names, fits', kept⟩, writing⟩
  · obtain ⟨init, last, split, fits', writing⟩ := step.2 n wrote
    refine ⟨init, last, split, ⟨config.1.trans size, config.2.trans names, fits', ?_⟩, writing⟩
    have whole : (init ++ [last]).flatten = reported := by
      rw [← split]
      exact kept
    rw [← whole]
    simp

/-- One poll of a flush that answers no error, over the layout. -/
theorem Layout.pollFlush {s : ChunkWriter N × Files N E} {reported : List UInt8}
    {chunks : List (List UInt8)} (layout : Layout maxSize fileName s reported chunks)
    (distinct : Function.Injective fileName) (cx : Answers E)
    (quiet : (s.1.pollFlush s.2 cx).2.errors = []) :
    Layout maxSize fileName (s.1.pollFlush s.2 cx).1 reported chunks := by
  obtain ⟨size, names, fits, bytes⟩ := layout
  have frame := ChunkWriter.pollFlush_fst s.1 s.2 cx
  exact ⟨by rw [frame]; exact size, by rw [frame]; exact names,
    (ChunkWriter.pollFlush_fits fits (by rwa [names]) cx quiet).1, bytes⟩

/-- One poll of a close that answers no error, over the layout. -/
theorem Layout.pollClose {s : ChunkWriter N × Files N E} {reported : List UInt8}
    {chunks : List (List UInt8)} (layout : Layout maxSize fileName s reported chunks)
    (distinct : Function.Injective fileName) (cx : Answers E)
    (quiet : (s.1.pollClose s.2 cx).2.errors = []) :
    Layout maxSize fileName (s.1.pollClose s.2 cx).1 reported chunks := by
  obtain ⟨size, names, fits, bytes⟩ := layout
  have frame := ChunkWriter.pollClose_fst s.1 s.2 cx
  exact ⟨by rw [frame]; exact size, by rw [frame]; exact names,
    (ChunkWriter.pollClose_fits fits (by rwa [names]) cx quiet).1, bytes⟩

omit [DecidableEq N] in
/-- A writer not closing a file, with a sealed last chunk if idle, may begin a write. -/
theorem ready_of_sealedAt {w : ChunkWriter N} {chunks : List (List UInt8)}
    (sealedAt : SealedAt w chunks) (notClosing : ∀ out, w.state ≠ .closing out) :
    w.state = .idle ∧ Sealed w.maxSize chunks ∨ Writing w.state := by
  rcases state : w.state with _ | out | ⟨out, written⟩ | out
  · exact .inl ⟨rfl, sealedAt (.inl state)⟩
  · exact .inr trivial
  · exact .inr trivial
  · exact absurd state (notClosing out)

omit [DecidableEq N] in
theorem sealedAt_of_ready {w : ChunkWriter N} {chunks : List (List UInt8)}
    (ready : w.state = .idle ∧ Sealed w.maxSize chunks ∨ Writing w.state) : SealedAt w chunks := by
  rcases ready with ⟨_, sealed⟩ | writing
  · exact fun _ => sealed
  · exact sealedAt_of_writing chunks writing

/-- In the header's phase a write may begin, and begins the header's file only. -/
theorem header_opened {w : ChunkWriter N} {chunks : List (List UInt8)}
    (phase : chunks = [] ∧ w.state = .idle ∨ chunks.length = 1 ∧ Writing w.state) :
    (w.state = .idle ∧ Sealed maxSize chunks ∨ Writing w.state) ∧
      (if w.state = .idle then chunks ++ [[]] else chunks).length = 1 := by
  rcases phase with ⟨rfl, idle⟩ | ⟨one, writing⟩
  · exact ⟨.inl ⟨idle, sealed_of_length_le_one (by simp)⟩, by simp [idle]⟩
  · have busy : w.state ≠ .idle := fun idle => by
      rw [idle] at writing
      exact writing
    exact ⟨.inr writing, by rw [if_neg busy]; exact one⟩

/-- In the blocks' phase a write begins a file after the header's, or writes to one. -/
theorem block_opened {w : ChunkWriter N} {chunks : List (List UInt8)}
    (head : chunks.head? = some frame) (first : chunks.length = 1 → w.state = .idle) :
    let opened := if w.state = .idle then chunks ++ [[]] else chunks
    2 ≤ opened.length ∧ opened.head? = some frame := by
  intro opened
  have nonempty : 0 < chunks.length := List.length_pos_iff.mpr (fun none => by simp [none] at head)
  by_cases idle : w.state = .idle
  · simp only [opened, if_pos idle, List.length_append, List.length_singleton, List.head?_append,
      head, Option.some_or]
    exact ⟨by omega, trivial⟩
  · simp only [opened, if_neg idle]
    exact ⟨by have := mt first idle; omega, head⟩

omit [DecidableEq N] in
/-- Writing to the last of two chunks or more keeps the first. -/
theorem head?_append_last {init : List (List UInt8)} {last more : List UInt8}
    (two : 2 ≤ (init ++ [last]).length) : (init ++ [last ++ more]).head? = (init ++ [last]).head? := by
  cases init with
  | nil => simp at two
  | cons first rest => rfl

/-- **The header's writes**: every poll keeps at most one file begun. -/
theorem header_writeAll (distinct : Function.Injective fileName) (bytes before : List UInt8) :
    Performs (ChunkWriter.asyncWrite : Writer (ChunkWriter N × Files N E) E (Answers E))
      (fun s reported => HeaderWriting maxSize fileName s reported ∧ reported = before) (.writeAll bytes)
      (fun s reported => HeaderWriting maxSize fileName s reported ∧ reported = before ++ bytes) := by
  apply Performs.writeAll
  · intro s cx reported bytes _ ⟨chunks, layout, phase⟩ waiting
    obtain ⟨ready, one⟩ := header_opened phase
    obtain ⟨layout', writing⟩ := (layout.pollWrite distinct ready cx bytes).1 waiting
    exact ⟨_, layout', .inr ⟨one, writing⟩⟩
  · intro s cx reported bytes n _ ⟨chunks, layout, phase⟩ wrote
    obtain ⟨ready, one⟩ := header_opened phase
    obtain ⟨init, last, split, layout', writing⟩ := (layout.pollWrite distinct ready cx bytes).2 n wrote
    refine ⟨_, layout', .inr ⟨?_, writing⟩⟩
    rw [split] at one
    simpa using one

/-- **The blocks' writes**: every poll keeps the header's file closed and the files sealed. -/
theorem block_writeAll (distinct : Function.Injective fileName) (bytes : List UInt8) :
    Performs (ChunkWriter.asyncWrite : Writer (ChunkWriter N × Files N E) E (Answers E))
      (BlockWriting maxSize fileName frame) (.writeAll bytes) (BlockWriting maxSize fileName frame) := by
  apply Performs.writeAll_keeps
  · intro s cx reported bytes _ ⟨chunks, layout, head, first, ready⟩ waiting
    obtain ⟨two, head'⟩ := block_opened head first
    obtain ⟨layout', writing⟩ := (layout.pollWrite distinct ready cx bytes).1 waiting
    exact ⟨_, layout', head', fun one => by omega, .inr writing⟩
  · intro s cx reported bytes n _ ⟨chunks, layout, head, first, ready⟩ wrote
    obtain ⟨two, head'⟩ := block_opened head first
    obtain ⟨init, last, split, layout', writing⟩ := (layout.pollWrite distinct ready cx bytes).2 n wrote
    rw [split] at two head'
    refine ⟨_, layout', by rw [head?_append_last two, head'], fun one => ?_, .inr writing⟩
    simp only [List.length_append, List.length_singleton] at two one
    omega

omit [DecidableEq N] in
/-- The blocks' phase is a flush's. -/
theorem BlockWriting.flushing {s : ChunkWriter N × Files N E} {reported : List UInt8}
    (phase : BlockWriting maxSize fileName frame s reported) :
    Flushing maxSize fileName frame s reported := by
  obtain ⟨chunks, layout, head, first, ready⟩ := phase
  refine ⟨chunks, layout, head, fun one out opening => ?_, ?_⟩
  · rw [first one] at opening
    cases opening
  · rw [← layout.size] at ready
    exact sealedAt_of_ready ready

/-- **A flush**: every poll keeps the chunks; once ready, the header's file is closed and a writer
not idle is writing. -/
theorem flushing_flush (distinct : Function.Injective fileName) :
    Performs (ChunkWriter.asyncWrite : Writer (ChunkWriter N × Files N E) E (Answers E))
      (Flushing maxSize fileName frame) .flush (BlockWriting maxSize fileName frame) := by
  apply Performs.repoll (fun _ _ => rfl)
  · intro s cx reported ⟨chunks, layout, head, first, sealedAt⟩ waiting
    have quiet : (s.1.pollFlush s.2 cx).2.errors = [] := by
      rw [show (s.1.pollFlush s.2 cx).2 = .pending from waiting]
      rfl
    obtain ⟨-, sealedAt', opening, -⟩ :=
      ChunkWriter.pollFlush_fits layout.fits (by rwa [layout.names]) cx quiet
    exact ⟨chunks, layout.pollFlush distinct cx quiet, head, fun one => opening (first one),
      sealedAt' sealedAt⟩
  · intro s cx reported ⟨chunks, layout, head, first, sealedAt⟩ flushed
    have flushed' : (s.1.pollFlush s.2 cx).2 = .ready (.ok ()) := flushed
    have quiet : (s.1.pollFlush s.2 cx).2.errors = [] := by
      rw [flushed']
      rfl
    obtain ⟨-, sealedAt', -, ready⟩ :=
      ChunkWriter.pollFlush_fits layout.fits (by rwa [layout.names]) cx quiet
    obtain ⟨notClosing, idle⟩ := ready flushed'
    have layout' := layout.pollFlush distinct cx quiet
    have ready' := ready_of_sealedAt (sealedAt' sealedAt) notClosing
    rw [layout'.size] at ready'
    exact ⟨chunks, layout', head, fun one => idle (by rw [← layout.fits.count, one]) (first one),
      ready'⟩

omit [DecidableEq N] in
/-- The header's file holds the whole header, open, when the flush begins. -/
theorem HeaderWriting.flushing {s : ChunkWriter N × Files N E}
    (phase : HeaderWriting maxSize fileName s frame) (nonempty : frame ≠ []) :
    Flushing maxSize fileName frame s frame := by
  obtain ⟨chunks, layout, (⟨rfl, _⟩ | ⟨one, writing⟩)⟩ := phase
  · exact absurd layout.bytes.symm nonempty
  obtain ⟨header, rfl⟩ := List.length_eq_one_iff.mp one
  have whole : header = frame := by simpa using layout.bytes
  subst whole
  refine ⟨[header], layout, rfl, fun _ out opening => ?_, sealedAt_of_writing _ writing⟩
  have current := layout.fits.current
  rw [opening] at current
  exact nonempty (by simpa using current.2)

/-- **The close**: every poll keeps the chunks; once ready, the writer is idle. -/
theorem closing_close (distinct : Function.Injective fileName) :
    Performs (ChunkWriter.asyncWrite : Writer (ChunkWriter N × Files N E) E (Answers E))
      (Closing maxSize fileName frame) .close
      (fun s reported => Closing maxSize fileName frame s reported ∧ s.1.state = .idle) := by
  apply Performs.repoll (fun _ _ => rfl)
  · intro s cx reported ⟨chunks, layout, head⟩ waiting
    have quiet : (s.1.pollClose s.2 cx).2.errors = [] := by
      rw [show (s.1.pollClose s.2 cx).2 = .pending from waiting]
      rfl
    exact ⟨chunks, layout.pollClose distinct cx quiet, head⟩
  · intro s cx reported ⟨chunks, layout, head⟩ closed
    have closed' : (s.1.pollClose s.2 cx).2 = .ready (.ok ()) := closed
    have quiet : (s.1.pollClose s.2 cx).2.errors = [] := by
      rw [closed']
      rfl
    exact ⟨⟨chunks, layout.pollClose distinct cx quiet, head⟩,
      (ChunkWriter.pollClose_fits layout.fits (by rwa [layout.names]) cx quiet).2 closed'⟩

/-- **The caller's program**: from the fresh writer, a completed run of `carProgram` leaves the
writer idle over chunks whose first is the header as `ld_write` frames it. -/
theorem carProgram_triple (distinct : Function.Injective fileName) (header : List UInt8)
    (blocks : List Action) (noClose : .close ∉ blocks) :
    Triple (ChunkWriter.asyncWrite : Writer (ChunkWriter N × Files N E) E (Answers E))
      (fun s reported => HeaderWriting maxSize fileName s reported ∧ reported = [])
      (carProgram header blocks)
      (fun s reported => Closing maxSize fileName (varint header.length ++ header) s reported ∧
        s.1.state = .idle) := by
  have nonempty : varint header.length ++ header ≠ [] := by simp [varint_ne_nil]
  have headerPhase : Triple (ChunkWriter.asyncWrite : Writer (ChunkWriter N × Files N E) E (Answers E))
      (fun s reported => HeaderWriting maxSize fileName s reported ∧ reported = []) (ldWrite header)
      (BlockWriting maxSize fileName (varint header.length ++ header)) :=
    Triple.cons (header_writeAll distinct (varint header.length) [])
      (Triple.cons (header_writeAll distinct header ([] ++ varint header.length))
        (Triple.cons ((flushing_flush distinct).weaken
            fun (s : ChunkWriter N × Files N E) reported ⟨phase, whole⟩ => by
            rw [List.nil_append] at whole
            rw [whole] at phase ⊢
            exact phase.flushing nonempty)
          (Triple.nil _)))
  have blockPhase : Triple (ChunkWriter.asyncWrite : Writer (ChunkWriter N × Files N E) E (Answers E))
      (BlockWriting maxSize fileName (varint header.length ++ header)) blocks
      (BlockWriting maxSize fileName (varint header.length ++ header)) := by
    apply Triple.of_forall
    intro action member
    cases action with
    | writeAll bytes => exact block_writeAll distinct bytes
    | flush => exact (flushing_flush distinct).weaken fun _ _ phase => phase.flushing
    | close => exact absurd member noClose
  have closePhase : Triple (ChunkWriter.asyncWrite : Writer (ChunkWriter N × Files N E) E (Answers E))
      (BlockWriting maxSize fileName (varint header.length ++ header)) [.close]
      (fun s reported => Closing maxSize fileName (varint header.length ++ header) s reported ∧
        s.1.state = .idle) :=
    Triple.cons
      ((closing_close distinct).weaken fun _ _ ⟨chunks, layout, head, _⟩ => ⟨chunks, layout, head⟩)
      (Triple.nil _)
  exact (headerPhase.append blockPhase).append closePhase

end Caller

/-- **Chunking is faithful.** A caller writes the CAR header by `ld_write`, then any writes and
flushes, then closes, driving a fresh `ChunkWriter` by the `AsyncWrite` contract, whatever the
files answer. If `file_name` names distinct files, a completed run has met no error and leaves
`chunk_created()` files: the first holds the header, every other but the last holds at least
`max_size` bytes, and in index order they hold the bytes reported written. A run that fails has
met exactly the error it returns, and a run still pending has met none. -/
theorem carProgram_faithful (maxSize : Nat) (fileName : Nat → N)
    (distinct : Function.Injective fileName) (dir : N → Option (List UInt8)) (header : List UInt8)
    (blocks : List Action) (noClose : .close ∉ blocks) (answers : List (Answers E)) :
    let run := ChunkWriter.asyncWrite.run
      (ChunkWriter.new maxSize fileName, (⟨dir, []⟩ : Files N E)) (carProgram header blocks) answers
    (∀ s written rest, run = .done s written rest → s.2.errors = [] ∧
      ∃ chunks : List (List UInt8), chunks.length = s.1.chunkCreated ∧
        (∀ i (h : i < chunks.length), s.2.dir (fileName i) = some chunks[i]) ∧
        chunks[0]? = some (varint header.length ++ header) ∧
        (0 < maxSize → ∀ i (h : i < chunks.length), 0 < i → i + 1 < chunks.length →
          maxSize ≤ chunks[i].length) ∧
        chunks.flatten = written) ∧
    (∀ s e, run = .failed s e → s.2.errors = [e]) ∧
    (∀ s, run = .pending s → s.2.errors = []) := by
  dsimp only
  have start : HeaderWriting maxSize fileName
      ((ChunkWriter.new maxSize fileName, ⟨dir, []⟩) : ChunkWriter N × Files N E) [] :=
    ⟨[], ⟨rfl, rfl, Fits.new maxSize fileName dir, rfl⟩, .inl ⟨rfl, rfl⟩⟩
  have logged := asyncWrite_reports.run (carProgram header blocks)
    ((ChunkWriter.new maxSize fileName, ⟨dir, []⟩) : ChunkWriter N × Files N E) answers
    (fun _ closing => nomatch closing)
  refine ⟨fun s written rest done => ?_, fun s e failed => ?_, fun s waiting => ?_⟩
  · obtain ⟨⟨chunks, layout, head⟩, idle⟩ :=
      carProgram_triple distinct header blocks noClose _ [] answers s written rest ⟨start, rfl⟩ done
    rw [done] at logged
    refine ⟨logged.1, chunks, layout.fits.count, fun i inside => ?_, ?_, fun positive i inside => ?_,
      by simpa using layout.bytes⟩
    · rw [← layout.names]
      exact layout.fits.stored_of_not_opening (by simp [idle]) i inside
    · rw [← List.head?_eq_getElem?]
      exact head
    · intro after before
      have full := layout.fits.full i inside after before
      rw [layout.size] at full
      exact full positive
  · rw [failed] at logged
    exact logged
  · rw [waiting] at logged
    exact logged

theorem carProgram_faithful_one_block :
    Function.Injective (id : Nat → Nat) ∧ Action.close ∉ ([.writeAll [5], .flush] : List Action) ∧
    ∃ s rest, ∃ chunks : List (List UInt8), ChunkWriter.asyncWrite.run
        (ChunkWriter.new 1 id, (⟨fun _ => none, []⟩ : Files Nat Unit))
        (carProgram [0] [.writeAll [5], .flush]) (List.replicate 6 (Answers.ready 100)) =
          .done s [1, 0, 5] rest ∧
      s.2.errors = [] ∧ chunks.length = s.1.chunkCreated ∧ chunks[0]? = some [1, 0] ∧
      chunks.flatten = [1, 0, 5] := by
  have distinct : Function.Injective (id : Nat → Nat) := fun _ _ same => same
  have noClose : Action.close ∉ ([.writeAll [5], .flush] : List Action) := by decide
  obtain ⟨quiet, chunks, count, -, first, -, bytes⟩ := (carProgram_faithful 1 id distinct
    (fun _ => none) [0] [.writeAll [5], .flush] noClose
    (List.replicate 6 (Answers.ready 100))).1 _ _ _ rfl
  exact ⟨distinct, noClose, _, _, chunks, rfl, quiet, count, by simpa [varint, varint.go] using first,
    bytes⟩

/-- With a constant `file_name` every chunk is written to one file: the first block's file is
created over the header's and empties it, and a run that meets no error leaves the header in no
file. -/
theorem carProgram_constant_fileName :
    ∃ s rest, ChunkWriter.asyncWrite.run
        (ChunkWriter.new 1 (fun _ => ()), (⟨fun _ => none, []⟩ : Files Unit Unit))
        (carProgram [0] [.writeAll [5], .flush]) (List.replicate 6 (Answers.ready 100)) =
          .done s [1, 0, 5] rest ∧
      s.2.errors = [] ∧ s.1.chunkCreated = 2 ∧ s.2.dir (s.1.fileName 0) = some [5] :=
  ⟨_, _, rfl, rfl, rfl, rfl⟩

/-! ### Runs that complete -/

/-- With every operation on a file succeeding at once, every poll of `ChunkWriter` is ready with
success, and a write accepts one byte at least. -/
theorem asyncWrite_prompt (n : Nat) :
    Prompt (ChunkWriter.asyncWrite : Writer (ChunkWriter N × Files N E) E (Answers E))
      (Answers.ready n) where
  write s bytes nonempty := by
    show ∃ m, 0 < m ∧ (s.1.pollWrite s.2 (Answers.ready n) bytes).2 = .ready (.ok m)
    rcases state : s.1.state with _ | out | ⟨out, written⟩ | out <;>
      simp [ChunkWriter.pollWrite, state, ChunkWriter.nextFile, ChunkWriter.statePollOpenWrite,
        ChunkWriter.statePollOpen, ChunkWriter.statePollWrite, ChunkWriter.statePollClose,
        Files.create, Files.write, Files.settle, Answers.ready, Poll.isReady, List.length_pos_iff,
        nonempty]
  flush s := by
    show (s.1.pollFlush s.2 (Answers.ready n)).2 = .ready (.ok ())
    rcases state : s.1.state with _ | out | ⟨out, written⟩ | out <;>
      simp [ChunkWriter.pollFlush, state, ChunkWriter.statePollOpen, ChunkWriter.statePollClose,
        Files.create, Files.settle, Answers.ready]
    split <;> simp
  close s := by
    show (s.1.pollClose s.2 (Answers.ready n)).2 = .ready (.ok ())
    rcases state : s.1.state with _ | out | ⟨out, written⟩ | out <;>
      simp [ChunkWriter.pollClose, state, ChunkWriter.statePollOpen, ChunkWriter.statePollClose,
        Files.create, Files.settle, Answers.ready]

/-- **The split completes** when every operation on a file succeeds at once, within one poll for
each byte written and one for each flush and for the close. -/
theorem carProgram_completes (maxSize : Nat) (fileName : Nat → N) (dir : N → Option (List UInt8))
    (header : List UInt8) (blocks : List Action) (n k : Nat)
    (enough : ((carProgram header blocks).map Action.polls).sum ≤ k) :
    ∃ s written j, ChunkWriter.asyncWrite.run
      (ChunkWriter.new maxSize fileName, (⟨dir, []⟩ : Files N E)) (carProgram header blocks)
      (List.replicate k (Answers.ready n)) = .done s written (List.replicate j (Answers.ready n)) := by
  have prompt : Prompt (ChunkWriter.asyncWrite : Writer (ChunkWriter N × Files N E) E (Answers E))
      (Answers.ready n) := asyncWrite_prompt n
  obtain ⟨s, written, j, -, done⟩ := prompt.run _ _ k enough
  exact ⟨s, written, j, done⟩

end Ipc.Snapshot
