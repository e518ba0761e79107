import Mathlib.Logic.Function.Basic
import Mathlib.Data.Nat.Notation

/-!
# The uv backend's scheduler

`scheduler`, the tasks it makes and the threads that pass them on: the I/O thread, which
runs the connections' coroutines and `join()`, and `n` workers in `loop()`. A step is what a
thread does between two points where others can see it: the sections under one of the two
mutexes, `uv_async_send`, and the calls that start, resume or end a coroutine. Any thread
may take the next step. Shutdown is left out.
-/

namespace Grpcxx.Uv

namespace Scheduler

/-- The coroutine of a connection, `server::conn`. -/
abbrev Coroutine := ℕ

/-- A task that `scheduler::run` makes: for which coroutine, and how many that had before. -/
structure Task where
  coro : Coroutine
  turn : ℕ
  deriving DecidableEq, Repr

/-- `task::promise_type`, in the task's coroutine frame. -/
structure Promise where
  /-- whether `_fn` is set -/
  fn : Bool := false
  previous : Option Coroutine := none
  deriving DecidableEq, Repr

/-- What `await_suspend` of `final_suspend` does. -/
inductive Completion
  /-- returns `std::noop_coroutine()` -/
  | noop
  /-- returns the handle: the coroutine goes on, on this thread -/
  | transfer (h : Coroutine)
  /-- calls `_fn` with the handle -/
  | call (h : Coroutine)
  deriving DecidableEq, Repr

/-- `final_suspend` -/
def Promise.finalSuspend (p : Promise) : Completion :=
  match p.previous with
  | none => .noop
  | some h => if !p.fn then .transfer h else .call h

/-- Where a worker is. -/
inductive Worker
  /-- in `loop()`, without a handle -/
  | waiting
  /-- in the `fn()` of the task -/
  | running (t : Task)
  /-- that returned or threw; `final_suspend` is next -/
  | returned (t : Task)
  /-- in `_fn`, between the push and `uv_async_send` -/
  | pushed (t : Task)
  /-- on the way back out of `_fn` and `await_suspend` -/
  | sent (t : Task)
  /-- in a connection's coroutine -/
  | stray (h : Coroutine)
  deriving DecidableEq, Repr

/-- What called a coroutine on the I/O thread. -/
inductive Caller
  | loop
  | join
  deriving DecidableEq, Repr

/-- Where the I/O thread is. -/
inductive Io
  /-- in the event loop -/
  | polling
  /-- in `join()`, before the test of its loop -/
  | joining
  /-- past that test, before the mutex -/
  | popping
  /-- took a handle -/
  | popped (h : Coroutine)
  /-- in a coroutine that goes on after `co_await run(fn)`, its task still there -/
  | resumed (h : Coroutine) (caller : Caller)
  /-- in a coroutine, elsewhere -/
  | running (h : Coroutine) (caller : Caller)
  /-- in the `fn()` of the task, without workers -/
  | inline (t : Task) (caller : Caller)
  /-- that returned or threw; `final_suspend` is next -/
  | returned (t : Task) (caller : Caller)
  deriving DecidableEq, Repr

/-- Where the I/O thread is when a coroutine it called suspends. -/
def Caller.back : Caller → Io
  | .loop => .polling
  | .join => .joining

/-- From where a function is executed or a coroutine resumed. -/
inductive Site
  | join
  | inline
  | worker
  deriving DecidableEq, Repr

inductive What
  /-- a worker took it and calls it, or the I/O thread does -/
  | executed
  | returned
  | resumed
  deriving DecidableEq, Repr

/-- What became of a task: its function was executed, it returned or threw, the coroutine
that awaits it was resumed. -/
structure Happening where
  what : What
  task : Task
  site : Site
  deriving DecidableEq, Repr

structure State (n : ℕ) where
  shifters : List Task := []
  joiners : List Coroutine := []
  /-- a send on `_async` that the event loop has not yet seen -/
  async : Bool := false
  workers : Fin n → Worker := fun _ => .waiting
  io : Io := .polling
  /-- how many tasks the coroutine has had -/
  turns : Coroutine → ℕ := fun _ => 0
  /-- the task in the coroutine's `co_await` expression -/
  awaits : Coroutine → Option Task := fun _ => none
  /-- the tasks' coroutine frames -/
  frames : Task → Option Promise := fun _ => none
  log : List Happening := []

inductive Action (n : ℕ)
  /-- the event loop starts the coroutine, or resumes it with what it waits for -/
  | read (h : Coroutine)
  /-- the running coroutine awaits `run(fn)` -/
  | run
  /-- the running coroutine awaits something else, or ends -/
  | suspend
  | take (w : Fin n)
  | ret (w : Fin n)
  | complete (w : Fin n)
  | send (w : Fin n)
  | leave (w : Fin n)
  /-- the event loop calls the callback of `_async` -/
  | wake
  | test
  | pop
  | resume
  /-- the end of the `co_await` expression -/
  | destroy
  | retInline
  | completeInline
  deriving DecidableEq, Repr

variable {n : ℕ}

namespace State

/-- `enqueue(h)` -/
def enqueue (t : Task) (s : State n) : Bool × State n :=
  if n = 0 then (false, s) else (true, { s with shifters := s.shifters ++ [t] })

/-- `co_await run(fn)`, up to where the coroutine suspends or `fn()` begins. -/
def run (h : Coroutine) (caller : Caller) (s : State n) : State n :=
  let t : Task := ⟨h, s.turns h⟩
  let p : Promise := { fn := n ≠ 0, previous := some h }
  let r := enqueue t
    { s with
      turns := Function.update s.turns h (s.turns h + 1)
      awaits := Function.update s.awaits h (some t)
      frames := Function.update s.frames t (some p) }
  if r.1 then { r.2 with io := caller.back }
  else { r.2 with io := .inline t caller, log := r.2.log ++ [⟨.executed, t, .inline⟩] }

def setWorker (w : Fin n) (x : Worker) (s : State n) : State n :=
  { s with workers := Function.update s.workers w x }

/-- `final_suspend` on a worker. The function that `run` gives the task as `_fn` pushes
first. -/
def complete (w : Fin n) (t : Task) (p : Promise) (s : State n) : State n :=
  match p.finalSuspend with
  | .noop => s.setWorker w .waiting
  | .transfer h => { s.setWorker w (.stray h) with log := s.log ++ [⟨.resumed, t, .worker⟩] }
  | .call h => { s.setWorker w (.pushed t) with joiners := s.joiners ++ [h] }

/-- `final_suspend` on the I/O thread. -/
def completeInline (t : Task) (caller : Caller) (p : Promise) (s : State n) : State n :=
  match p.finalSuspend with
  | .noop => { s with io := caller.back }
  | .transfer h => { s with io := .resumed h caller, log := s.log ++ [⟨.resumed, t, .inline⟩] }
  | .call h => { s with io := caller.back, joiners := s.joiners ++ [h], async := true }

end State

/-- One step of one thread. -/
def step (s : State n) : Action n → Option (State n)
  | .read h =>
    if s.io = .polling ∧ s.awaits h = none then some { s with io := .running h .loop } else none
  | .run =>
    match s.io with
    | .running h caller => some (s.run h caller)
    | _ => none
  | .suspend =>
    match s.io with
    | .running _ caller => some { s with io := caller.back }
    | _ => none
  -- the call of what is popped comes after the mutex is released, which others cannot see
  | .take w =>
    match s.workers w, s.shifters with
    | .waiting, t :: shifters =>
      some { s.setWorker w (.running t) with shifters, log := s.log ++ [⟨.executed, t, .worker⟩] }
    | _, _ => none
  | .ret w =>
    match s.workers w with
    | .running t => some { s.setWorker w (.returned t) with log := s.log ++ [⟨.returned, t, .worker⟩] }
    | _ => none
  | .complete w =>
    match s.workers w with
    | .returned t => (s.frames t).map fun p => s.complete w t p
    | _ => none
  | .send w =>
    match s.workers w with
    | .pushed t => some { s.setWorker w (.sent t) with async := true }
    | _ => none
  | .leave w =>
    match s.workers w with
    | .sent _ => some (s.setWorker w .waiting)
    | _ => none
  -- sends since the last call of the callback have become one
  | .wake => if s.io = .polling ∧ s.async then some { s with io := .joining, async := false } else none
  | .test =>
    if s.io = .joining then some { s with io := if s.joiners.isEmpty then .polling else .popping }
    else none
  -- the worker that pushed the handle may still be in `final_suspend`
  | .pop =>
    match s.io, s.joiners with
    | .popping, h :: joiners => some { s with io := .popped h, joiners }
    | _, _ => none
  | .resume =>
    match s.io with
    | .popped h => (s.awaits h).map fun t =>
        { s with io := .resumed h .join, log := s.log ++ [⟨.resumed, t, .join⟩] }
    | _ => none
  | .destroy =>
    match s.io with
    | .resumed h caller => (s.awaits h).map fun t =>
        { s with
          io := .running h caller
          awaits := Function.update s.awaits h none
          frames := Function.update s.frames t none }
    | _ => none
  | .retInline =>
    match s.io with
    | .inline t caller => some
        { s with io := .returned t caller, log := s.log ++ [⟨.returned, t, .inline⟩] }
    | _ => none
  | .completeInline =>
    match s.io with
    | .returned t caller => (s.frames t).map fun p => s.completeInline t caller p
    | _ => none

end Scheduler

end Grpcxx.Uv
