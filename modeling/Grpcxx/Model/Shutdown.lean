import Mathlib.Data.Nat.Notation

/-!
# Closing the uv backend's handles

The handles of a `uv::server` from its constructor to the end of its destructor: the listener,
the stop timer, the scheduler's `_async` and one for each connection. The five places that close
them are the stop timer's callback, `~server`, `~scheduler`, the walk of `~loop` and the deleter
of a connection, which its coroutine calls by ending. Which job or which handle comes next
is left open. A `uv_close` on a handle that is not open is the last step: libuv ends the process, or, on a
handle that was never initialised, may do anything.
-/

namespace Grpcxx.Uv.Shutdown

/-- A libuv handle. -/
inductive Handle
  | listener
  | timer
  | async
  | conn (i : ℕ)
  deriving DecidableEq, Repr

/-- What became of a handle. -/
inductive Life
  | uninit
  | opened
  /-- `uv_close` was called -/
  | closing
  /-- the loop has finished closing it -/
  | closed
  deriving DecidableEq, Repr

/-- Where the coroutine of a connection is. -/
inductive Phase
  /-- suspended in the reader -/
  | reading
  /-- its job is in `_shifters` -/
  | queued
  /-- its job runs -/
  | running
  /-- it is in `_joiners` -/
  | joining
  /-- suspended in the writer, with `uv_write` under way -/
  | flushing
  /-- its frame is gone -/
  | ended
  deriving DecidableEq, Repr

structure Conn where
  handle : Life := .opened
  phase : Phase := .reading
  deriving DecidableEq, Repr

inductive Stage
  | serving
  /-- in `~scheduler` -/
  | stopping
  /-- before `~loop` -/
  | stopped
  /-- in `~loop`, after `uv_walk` -/
  | draining
  | done
  deriving DecidableEq, Repr

structure State where
  stage : Stage := .serving
  /-- `_token.stop_requested()` -/
  stop : Bool := false
  listener : Life := .opened
  timer : Life := .uninit
  async : Life
  conns : List Conn := []
  /-- the calls of `uv_close`, each with what had become of its handle -/
  closes : List (Handle × Life) := []
  deriving DecidableEq, Repr

namespace State

def life (s : State) : Handle → Life
  | .listener => s.listener
  | .timer => s.timer
  | .async => s.async
  | .conn i => (s.conns[i]?).elim .uninit Conn.handle

def phase (s : State) (i : ℕ) : Phase := (s.conns[i]?).elim .ended Conn.phase

def setLife (s : State) (l : Life) : Handle → State
  | .listener => { s with listener := l }
  | .timer => { s with timer := l }
  | .async => { s with async := l }
  | .conn i => { s with conns := s.conns.modify i fun c => { c with handle := l } }

def setPhase (s : State) (i : ℕ) (p : Phase) : State :=
  { s with conns := s.conns.modify i fun c => { c with phase := p } }

/-- `uv_close` -/
def close (s : State) (h : Handle) : State :=
  { s.setLife .closing h with closes := s.closes ++ [(h, s.life h)] }

/-- The handles there are. -/
def handles (s : State) : List Handle :=
  [.listener, .timer, .async] ++ (List.range s.conns.length).map .conn

/-! ## The coroutine of a connection -/

/-- The coroutine ends, and the deleter of its handle is called. -/
def leave (s : State) (i : ℕ) : State := (s.setPhase i .ended).close (.conn i)

/-- The loop of `server::conn` up to where it is suspended in the reader, if `uv_read_start` lets
it. On a handle that is closing that fails with `UV_EINVAL`. -/
def await (s : State) (i : ℕ) (start : Bool) : State :=
  if s.life (.conn i) = .opened ∧ start then s.setPhase i .reading else s.leave i

/-- After the job: `flush()`, which waits if there is something to write. If `uv_write` refuses that, the
process ends. -/
def flush (s : State) (i : ℕ) (pending start : Bool) : State :=
  if pending then s.setPhase i .flushing else s.await i start

/-! ## Destructors -/

/-- `~server` -/
def destroyServer (s : State) : State :=
  let s := if s.listener = .closing ∨ s.listener = .closed then s else s.close .listener
  { s with stage := .stopping }

/-- `uv_is_active`; `active` is what memory that was never initialised reads as. -/
def isActive (active : Bool) : Life → Bool
  | .uninit => active
  | .opened => true
  | .closing | .closed => false

/-- `~scheduler`, after its workers were joined -/
def destroyScheduler (active : Bool) (s : State) : State :=
  let s := if isActive active s.async then s.close .async else s
  { s with stage := .stopped }

/-- The callback of `uv_walk`, which calls it for what was initialised and is not closed -/
def closeOpen (s : State) (h : Handle) : State := if s.life h = .opened then s.close h else s

/-- `~loop`, up to its `uv_run` -/
def destroyLoop (s : State) : State := { s.handles.foldl closeOpen s with stage := .draining }

/-- A write is under way on the handle. -/
def writes (s : State) : Handle → Bool
  | .conn i => s.phase i = .flushing
  | _ => false

/-- The event loop may run: before the destructors, or in that of `loop`. -/
def loopRuns (s : State) : Bool := s.stage = .serving || s.stage = .draining

/-- The workers may run. -/
def workersRun (s : State) : Bool := s.stage = .serving || s.stage = .stopping

/-- The last `uv_close` was called on a handle that was not open. -/
def aborted (s : State) : Bool := s.closes.any fun x => x.2 ≠ .opened

end State

inductive Action
  /-- `run(token)` -/
  | run (stopPossible : Bool)
  | requestStop
  /-- the callback of the stop timer -/
  | tick
  /-- `conn_cb`, and the new coroutine up to where it is suspended -/
  | accept (accepted start : Bool)
  /-- `read_cb` with bytes; without workers the job runs at once, and `flush` follows -/
  | bytes (i : ℕ) (pending start : Bool)
  /-- `read_cb` without bytes -/
  | empty (i : ℕ) (start : Bool)
  /-- `read_cb` with the end of the stream or an error -/
  | eof (i : ℕ)
  /-- a worker begins the job -/
  | take (i : ℕ)
  /-- the worker ends it -/
  | complete (i : ℕ)
  /-- `join()` resumes the coroutine -/
  | join (i : ℕ) (pending start : Bool)
  /-- `write_cb`, with or without an error -/
  | written (i : ℕ) (start : Bool)
  /-- the loop has finished closing the handle -/
  | closed (h : Handle)
  | destroyServer
  | destroyScheduler
  | destroyLoop
  /-- `uv_loop_close` succeeds -/
  | closeLoop
  deriving DecidableEq, Repr

/-- The server after its constructor, with `n` workers. -/
def init (n : ℕ) : State := { async := if n = 0 then .uninit else .opened }

/-- What a step does. libuv calls back only for handles that are open, except that a write under way
on a handle that is closing is completed before the closing is finished. -/
def act (n : ℕ) (active : Bool) (s : State) : Action → Option State
  | .run stopPossible =>
    if s.stage = .serving ∧ s.timer = .uninit then
      some (if stopPossible then { s with timer := .opened } else s)
    else none
  | .requestStop => some { s with stop := true }
  | .tick =>
    if s.loopRuns ∧ s.timer = .opened then
      some (if s.stop then (s.close .timer).close .listener else s)
    else none
  | .accept accepted start =>
    if s.loopRuns ∧ s.listener = .opened then
      let t := { s with conns := s.conns ++ [({} : Conn)] }
      some (if accepted then t.await s.conns.length start else t.leave s.conns.length)
    else none
  | .bytes i pending start =>
    if s.loopRuns ∧ s.life (.conn i) = .opened ∧ s.phase i = .reading then
      some (if n = 0 then s.flush i pending start else s.setPhase i .queued)
    else none
  | .empty i start =>
    if s.loopRuns ∧ s.life (.conn i) = .opened ∧ s.phase i = .reading then some (s.await i start)
    else none
  | .eof i =>
    if s.loopRuns ∧ s.life (.conn i) = .opened ∧ s.phase i = .reading then some (s.leave i) else none
  | .take i =>
    -- each worker has one job at a time
    if s.workersRun ∧ s.phase i = .queued ∧ s.conns.countP (fun c => c.phase = .running) < n then
      some (s.setPhase i .running)
    else none
  | .complete i =>
    if s.workersRun ∧ s.phase i = .running then some (s.setPhase i .joining) else none
  | .join i pending start =>
    if s.loopRuns ∧ s.async = .opened ∧ s.phase i = .joining then some (s.flush i pending start)
    else none
  | .written i start =>
    if s.loopRuns ∧ s.phase i = .flushing then some (s.await i start) else none
  | .closed h =>
    if s.loopRuns ∧ s.life h = .closing ∧ ¬ s.writes h then some (s.setLife .closed h) else none
  | .destroyServer => if s.stage = .serving then some s.destroyServer else none
  | .destroyScheduler =>
    if s.stage = .stopping ∧ s.conns.all (fun c => c.phase ≠ .running) then
      some (s.destroyScheduler active)
    else none
  | .destroyLoop => if s.stage = .stopped then some s.destroyLoop else none
  | .closeLoop =>
    if s.stage = .draining ∧ s.handles.all (fun h => s.life h ≠ .opened ∧ s.life h ≠ .closing) then
      some { s with stage := .done }
    else none

/-- One step, until then. -/
def step (n : ℕ) (active : Bool) (s : State) (a : Action) : Option State :=
  if s.aborted then none else act n active s a

end Grpcxx.Uv.Shutdown
