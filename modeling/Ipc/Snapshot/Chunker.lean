/-
**Splitting a snapshot's CAR file into chunk files (`fendermint_vm_snapshot::car::chunker`).**

`ChunkWriter` is an `AsyncWrite` that spreads what is written to it over files named
`file_name(0)`, `file_name(1)`, … under an output directory. It opens a file on the first write
after the last one was closed, and closes a file only when it is flushed: the first file after
any flush (it holds the CAR header), a later one once it holds at least `max_size` bytes. Every
operation on a file (its creation, a write, a flush, a close) is polled and may answer `Pending`,
an error or success; the writer keeps the pending operation in its state and polls it again on
the next call.

The files are modelled by name: the output directory maps a name to the bytes of the file under
it, and `File::create` empties it. The directory path, the `Context` and its waker are left out.
The environment answers each poll of a file; a write accepts a non-empty prefix of its buffer.

* `ChunkWriter.asyncWrite` — the writer's three polls as an `Ipc.Lib.Writer`;
* `carProgram` — a caller writing a CAR file: the header by `ld_write`, then the blocks as writes
  and flushes, then the close.
-/

import Mathlib
import Ipc.Lib.AsyncWrite

namespace Ipc.Snapshot

open Ipc.Lib

/-- The files under the output directory, by name, and the errors that the environment has
answered to operations on them. -/
structure Files (N E : Type) where
  dir : N → Option (List UInt8)
  errors : List E

/-- One answer of the environment for each operation on a file that a poll may make: a write
answered `ready (ok n)` accepts the first `n + 1` bytes of its buffer, or all of them. -/
structure Answers (E : Type) where
  create : Poll E Unit
  write : Poll E Nat
  flush : Poll E Unit
  close : Poll E Unit
  deriving DecidableEq, Repr

/-- The environment answering every operation on a file at once with success, a write accepting
`n + 1` bytes. -/
def Answers.ready {E : Type} (n : Nat) : Answers E :=
  ⟨.ready (.ok ()), .ready (.ok n), .ready (.ok ()), .ready (.ok ())⟩

namespace Files

variable {N E : Type} [DecidableEq N]

/-- The error the environment answered, added to the log. -/
def observe {α : Type} (files : Files N E) (answer : Poll E α) : Files N E :=
  { files with errors := files.errors ++ answer.errors }

/-- `File::create`, polled: once ready, the file exists and is empty. -/
def create (files : Files N E) (name : N) (answer : Poll E Unit) : Files N E × Poll E Unit :=
  match answer with
  | .ready (.ok ()) => ({ files with dir := Function.update files.dir name (some []) }, answer)
  | _ => (files.observe answer, answer)

/-- `poll_write` on an open file: the bytes it accepts are appended to the file. -/
def write (files : Files N E) (name : N) (buf : List UInt8) (answer : Poll E Nat) :
    Files N E × Poll E Nat :=
  match answer with
  | .ready (.ok n) =>
    ({ files with
        dir := Function.update files.dir name (some ((files.dir name).getD [] ++ buf.take (n + 1))) },
      .ready (.ok (buf.take (n + 1)).length))
  | _ => (files.observe answer, answer)

/-- `poll_flush` or `poll_close` on an open file: its bytes stay as written. -/
def settle (files : Files N E) (answer : Poll E Unit) : Files N E × Poll E Unit :=
  (files.observe answer, answer)

omit [DecidableEq N] in
@[simp] theorem observe_dir {α : Type} (files : Files N E) (answer : Poll E α) :
    (files.observe answer).dir = files.dir := rfl

omit [DecidableEq N] in
@[simp] theorem observe_errors {α : Type} (files : Files N E) (answer : Poll E α) :
    (files.observe answer).errors = files.errors ++ answer.errors := rfl

omit [DecidableEq N] in
@[simp] theorem observe_pending {α : Type} (files : Files N E) :
    files.observe (.pending : Poll E α) = files := by
  simp [observe]

omit [DecidableEq N] in
@[simp] theorem observe_ok {α : Type} (files : Files N E) (a : α) :
    files.observe (.ready (.ok a) : Poll E α) = files := by
  simp [observe]

end Files

/-- `ChunkWriterState`: the file being opened, written or closed, by its name. -/
inductive ChunkWriterState (N : Type)
  | idle
  | opening (out : N)
  | «open» (out : N) (written : Nat)
  | closing (out : N)
  deriving DecidableEq, Repr

/-- `ChunkWriter`, without the output directory (the names stand for the paths under it). -/
structure ChunkWriter (N : Type) where
  maxSize : Nat
  fileName : Nat → N
  nextIdx : Nat
  state : ChunkWriterState N

/-- `StatePoll<T>`: the state to keep, the files, and the poll to return. -/
abbrev StatePoll (N E α : Type) := ChunkWriterState N × Files N E × Poll E α

namespace ChunkWriter

variable {N E : Type} [DecidableEq N]

/-- `ChunkWriter::new`. -/
def new (maxSize : Nat) (fileName : Nat → N) : ChunkWriter N :=
  ⟨maxSize, fileName, 0, .idle⟩

/-- `ChunkWriter::chunk_created`. -/
def chunkCreated (self : ChunkWriter N) : Nat :=
  self.nextIdx

/-- `poll_state`: the state a poll leaves replaces the writer's. -/
def pollState {α : Type} (self : ChunkWriter N) :
    StatePoll N E α → (ChunkWriter N × Files N E) × Poll E α
  | (state, files, poll) => (({ self with state }, files), poll)

/-- `state_poll_open`: poll the creation of the file, then go on with `f` once it is open. -/
def statePollOpen {α : Type} (cx : Answers E) (files : Files N E) (out : N)
    (f : Answers E → Files N E → N → StatePoll N E α) : StatePoll N E α :=
  match files.create out cx.create with
  | (files, .pending) => (.opening out, files, .pending)
  | (files, .ready (.error e)) => (.idle, files, .ready (.error e))
  | (files, .ready (.ok ())) => f cx files out

/-- `state_poll_write`. -/
def statePollWrite (cx : Answers E) (files : Files N E) (buf : List UInt8) (out : N) (sofar : Nat) :
    StatePoll N E Nat :=
  match files.write out buf cx.write with
  | (files, .pending) => (.open out sofar, files, .pending)
  | (files, .ready (.ok written)) => (.open out (sofar + written), files, .ready (.ok written))
  | (files, .ready (.error e)) => (.open out sofar, files, .ready (.error e))

/-- `state_poll_close`. -/
def statePollClose (cx : Answers E) (files : Files N E) (out : N) : StatePoll N E Unit :=
  match files.settle cx.close with
  | (files, .pending) => (.closing out, files, .pending)
  | (files, .ready (.error e)) => (.idle, files, .ready (.error e))
  | (files, .ready (.ok ())) => (.idle, files, .ready (.ok ()))

/-- `state_poll_open_write`. -/
def statePollOpenWrite (cx : Answers E) (files : Files N E) (buf : List UInt8) (out : N) :
    StatePoll N E Nat :=
  statePollOpen cx files out fun cx files out => statePollWrite cx files buf out 0

/-- `next_file`: the name of the next file, whose creation begins, and the index moved on. -/
def nextFile (self : ChunkWriter N) : N × ChunkWriter N :=
  (self.fileName self.nextIdx, { self with nextIdx := self.nextIdx + 1 })

/-- `AsyncWrite::poll_write`. A file still closing is polled first; once that poll is ready, with
success or an error, the next file is opened. -/
def pollWrite (self : ChunkWriter N) (files : Files N E) (cx : Answers E) (buf : List UInt8) :
    (ChunkWriter N × Files N E) × Poll E Nat :=
  match self.state with
  | .idle =>
    let (out, this) := self.nextFile
    this.pollState (statePollOpenWrite cx files buf out)
  | .opening out => self.pollState (statePollOpenWrite cx files buf out)
  | .open out written => self.pollState (statePollWrite cx files buf out written)
  | .closing out =>
    match statePollClose cx files out with
    | (state, files, poll) =>
      if poll.isReady then
        let (out, this) := self.nextFile
        this.pollState (statePollOpenWrite cx files buf out)
      else self.pollState (state, files, .pending)

/-- `AsyncWrite::poll_flush`. A flushed file is closed when it is the first (the header's) or
holds at least `max_size` bytes. -/
def pollFlush (self : ChunkWriter N) (files : Files N E) (cx : Answers E) :
    (ChunkWriter N × Files N E) × Poll E Unit :=
  match self.state with
  | .idle => self.pollState (.idle, files, .ready (.ok ()))
  | .opening out =>
    self.pollState (statePollOpen cx files out fun _ files out => (.open out 0, files, .ready (.ok ())))
  | .open out written =>
    match files.settle cx.flush with
    | (files, .pending) => self.pollState (.open out written, files, .pending)
    | (files, .ready (.error e)) => self.pollState (.open out written, files, .ready (.error e))
    | (files, .ready (.ok ())) =>
      let close := self.nextIdx == 1 || (decide (written ≥ self.maxSize) && decide (self.maxSize > 0))
      if close then self.pollState (statePollClose cx files out)
      else self.pollState (.open out written, files, .ready (.ok ()))
  | .closing out => self.pollState (statePollClose cx files out)

/-- `AsyncWrite::poll_close`. -/
def pollClose (self : ChunkWriter N) (files : Files N E) (cx : Answers E) :
    (ChunkWriter N × Files N E) × Poll E Unit :=
  match self.state with
  | .idle => self.pollState (.idle, files, .ready (.ok ()))
  | .opening out => self.pollState (statePollOpen cx files out statePollClose)
  | .open out _ => self.pollState (statePollClose cx files out)
  | .closing out => self.pollState (statePollClose cx files out)

/-! ### What each poll can do -/

omit [DecidableEq N] in
@[simp] theorem pollState_eq {α : Type} (self : ChunkWriter N) (state : ChunkWriterState N)
    (files : Files N E) (poll : Poll E α) :
    self.pollState (state, files, poll) = (({ self with state }, files), poll) := rfl

omit [DecidableEq N] in
/-- A poll changes the writer's state only. -/
@[simp] theorem pollState_fst {α : Type} (self : ChunkWriter N) (sp : StatePoll N E α) :
    (self.pollState sp).1.1 = { self with state := sp.1 } := rfl

omit [DecidableEq N] in
@[simp] theorem pollState_files {α : Type} (self : ChunkWriter N) (sp : StatePoll N E α) :
    (self.pollState sp).1.2 = sp.2.1 := rfl

omit [DecidableEq N] in
@[simp] theorem pollState_poll {α : Type} (self : ChunkWriter N) (sp : StatePoll N E α) :
    (self.pollState sp).2 = sp.2.2 := rfl

/-- `state_poll_open` waits for the file, fails with the error answered, or goes on with the file
created and empty. -/
theorem statePollOpen_cases {α : Type} (cx : Answers E) (files : Files N E) (out : N)
    (f : Answers E → Files N E → N → StatePoll N E α) :
    statePollOpen cx files out f = (.opening out, files, .pending) ∨
    (∃ e, statePollOpen cx files out f =
      (.idle, files.observe (.ready (.error e) : Poll E Unit), .ready (.error e))) ∨
    statePollOpen cx files out f =
      f cx { files with dir := Function.update files.dir out (some []) } out := by
  unfold statePollOpen Files.create
  rcases cx.create with _ | (e | ⟨⟩)
  · exact .inl (by simp)
  · exact .inr (.inl ⟨e, rfl⟩)
  · exact .inr (.inr rfl)

/-- `state_poll_write` waits, fails with the error answered, or appends a non-empty prefix of the
buffer to the file and reports its length. -/
theorem statePollWrite_cases (cx : Answers E) (files : Files N E) (buf : List UInt8) (out : N)
    (sofar : Nat) :
    statePollWrite cx files buf out sofar = (.open out sofar, files, .pending) ∨
    (∃ e, statePollWrite cx files buf out sofar =
      (.open out sofar, files.observe (.ready (.error e) : Poll E Nat), .ready (.error e))) ∨
    ∃ k, statePollWrite cx files buf out sofar =
      (.open out (sofar + (buf.take (k + 1)).length),
        { files with
          dir := Function.update files.dir out (some ((files.dir out).getD [] ++ buf.take (k + 1))) },
        .ready (.ok (buf.take (k + 1)).length)) := by
  unfold statePollWrite Files.write
  rcases cx.write with _ | (e | k)
  · exact .inl (by simp)
  · exact .inr (.inl ⟨e, rfl⟩)
  · exact .inr (.inr ⟨k, rfl⟩)

omit [DecidableEq N] in
/-- `state_poll_close` waits, fails with the error answered, or closes the file. -/
theorem statePollClose_cases (cx : Answers E) (files : Files N E) (out : N) :
    statePollClose cx files out = (.closing out, files, .pending) ∨
    (∃ e, statePollClose cx files out =
      (.idle, files.observe (.ready (.error e) : Poll E Unit), .ready (.error e))) ∨
    statePollClose cx files out = (.idle, files, .ready (.ok ())) := by
  unfold statePollClose Files.settle
  rcases cx.close with _ | (e | ⟨⟩)
  · exact .inl (by simp)
  · exact .inr (.inl ⟨e, rfl⟩)
  · exact .inr (.inr (by simp))

theorem pollWrite_idle (self : ChunkWriter N) (idle : self.state = .idle) (files : Files N E)
    (cx : Answers E) (buf : List UInt8) :
    self.pollWrite files cx buf =
      ({ self with nextIdx := self.nextIdx + 1, state := .opening (self.fileName self.nextIdx) } :
        ChunkWriter N).pollWrite files cx buf := by
  unfold pollWrite
  rw [idle]
  rfl

theorem pollWrite_opening (self : ChunkWriter N) {out : N} (opening : self.state = .opening out)
    (files : Files N E) (cx : Answers E) (buf : List UInt8) :
    self.pollWrite files cx buf = self.pollState (statePollOpenWrite cx files buf out) := by
  unfold pollWrite
  rw [opening]

theorem pollWrite_open (self : ChunkWriter N) {out : N} {written : Nat}
    (opened : self.state = .open out written) (files : Files N E) (cx : Answers E)
    (buf : List UInt8) :
    self.pollWrite files cx buf = self.pollState (statePollWrite cx files buf out written) := by
  unfold pollWrite
  rw [opened]

theorem pollFlush_idle (self : ChunkWriter N) (idle : self.state = .idle) (files : Files N E)
    (cx : Answers E) : self.pollFlush files cx = self.pollState (.idle, files, .ready (.ok ())) := by
  unfold pollFlush
  rw [idle]

theorem pollFlush_opening (self : ChunkWriter N) {out : N} (opening : self.state = .opening out)
    (files : Files N E) (cx : Answers E) :
    self.pollFlush files cx =
      self.pollState
        (statePollOpen cx files out fun _ files out => (.open out 0, files, .ready (.ok ()))) := by
  unfold pollFlush
  rw [opening]

/-- `poll_flush` of the open file waits, fails with the error answered, or, once flushed, closes
the file if it is the first or holds `max_size` bytes, and keeps it open otherwise. -/
theorem pollFlush_open_cases (self : ChunkWriter N) {out : N} {written : Nat}
    (opened : self.state = .open out written) (files : Files N E) (cx : Answers E) :
    self.pollFlush files cx = self.pollState (.open out written, files, .pending) ∨
    (∃ e, self.pollFlush files cx =
      self.pollState
        (.open out written, files.observe (.ready (.error e) : Poll E Unit), .ready (.error e))) ∨
    ((self.nextIdx = 1 ∨ self.maxSize ≤ written ∧ 0 < self.maxSize) ∧
      self.pollFlush files cx = self.pollState (statePollClose cx files out)) ∨
    (¬(self.nextIdx = 1 ∨ self.maxSize ≤ written ∧ 0 < self.maxSize) ∧
      self.pollFlush files cx = self.pollState (.open out written, files, .ready (.ok ()))) := by
  unfold pollFlush Files.settle
  rw [opened]
  rcases cx.flush with _ | (e | ⟨⟩)
  · exact .inl (by simp)
  · exact .inr (.inl ⟨e, rfl⟩)
  · by_cases close : self.nextIdx = 1 ∨ self.maxSize ≤ written ∧ 0 < self.maxSize
    · refine .inr (.inr (.inl ⟨close, ?_⟩))
      simp [close]
    · refine .inr (.inr (.inr ⟨close, ?_⟩))
      simp only [not_or, not_and] at close
      simp [close.1]
      omega

theorem pollFlush_closing (self : ChunkWriter N) {out : N} (closing : self.state = .closing out)
    (files : Files N E) (cx : Answers E) :
    self.pollFlush files cx = self.pollState (statePollClose cx files out) := by
  unfold pollFlush
  rw [closing]

theorem pollClose_idle (self : ChunkWriter N) (idle : self.state = .idle) (files : Files N E)
    (cx : Answers E) : self.pollClose files cx = self.pollState (.idle, files, .ready (.ok ())) := by
  unfold pollClose
  rw [idle]

theorem pollClose_opening (self : ChunkWriter N) {out : N} (opening : self.state = .opening out)
    (files : Files N E) (cx : Answers E) :
    self.pollClose files cx = self.pollState (statePollOpen cx files out statePollClose) := by
  unfold pollClose
  rw [opening]

/-- `poll_close` of a file open or closing polls its close. -/
theorem pollClose_closing (self : ChunkWriter N) {out : N}
    (closing : (∃ written, self.state = .open out written) ∨ self.state = .closing out)
    (files : Files N E) (cx : Answers E) :
    self.pollClose files cx = self.pollState (statePollClose cx files out) := by
  unfold pollClose
  rcases closing with ⟨written, opened⟩ | closing
  · rw [opened]
  · rw [closing]

/-- A write keeps the writer's size and names. -/
theorem pollWrite_config (self : ChunkWriter N) (files : Files N E) (cx : Answers E)
    (buf : List UInt8) :
    (self.pollWrite files cx buf).1.1.maxSize = self.maxSize ∧
      (self.pollWrite files cx buf).1.1.fileName = self.fileName := by
  unfold pollWrite
  split
  · exact ⟨rfl, rfl⟩
  · exact ⟨rfl, rfl⟩
  · exact ⟨rfl, rfl⟩
  · split
    · split <;> exact ⟨rfl, rfl⟩

/-- A flush changes the writer's state only. -/
theorem pollFlush_fst (self : ChunkWriter N) (files : Files N E) (cx : Answers E) :
    (self.pollFlush files cx).1.1 = { self with state := (self.pollFlush files cx).1.1.state } := by
  unfold pollFlush
  split
  · rfl
  · rfl
  · split
    · rfl
    · rfl
    · dsimp only
      split <;> rfl
  · rfl

/-- A close changes the writer's state only. -/
theorem pollClose_fst (self : ChunkWriter N) (files : Files N E) (cx : Answers E) :
    (self.pollClose files cx).1.1 = { self with state := (self.pollClose files cx).1.1.state } := by
  unfold pollClose
  split <;> rfl

/-- `impl AsyncWrite for ChunkWriter`, over the writer and the files. -/
def asyncWrite : Writer (ChunkWriter N × Files N E) E (Answers E) where
  pollWrite s cx buf := s.1.pollWrite s.2 cx buf
  pollFlush s cx := s.1.pollFlush s.2 cx
  pollClose s cx := s.1.pollClose s.2 cx

end ChunkWriter

/-- `unsigned_varint::encode::usize`: seven bits to a byte, the lowest first, the high bit set on
every byte but the last. -/
def varint (n : Nat) : List UInt8 :=
  go n n
where
  /-- `n` bytes of fuel are always enough. -/
  go : Nat → Nat → List UInt8
    | 0, n => [n.toUInt8]
    | fuel + 1, n => if n < 128 then [n.toUInt8] else (n % 128 + 128).toUInt8 :: go fuel (n / 128)

/-- A varint has a byte at least. -/
theorem varint_ne_nil (n : Nat) : varint n ≠ [] := by
  unfold varint
  cases n with
  | zero => simp [varint.go]
  | succ fuel =>
    unfold varint.go
    split <;> simp

/-- `ld_write`, as `CarHeader::write_stream_async` writes the header: the length as a varint and
the bytes, each by `write_all`, then a flush. -/
def ldWrite (bytes : List UInt8) : List Action :=
  [.writeAll (varint bytes.length), .writeAll bytes, .flush]

/-- A caller writing a CAR file through the chunk writer: the header by `ld_write`, then the blocks
as any writes and flushes, then the close. -/
def carProgram (header : List UInt8) (blocks : List Action) : List Action :=
  ldWrite header ++ blocks ++ [.close]

end Ipc.Snapshot
