import Grpcxx.Model.Scheduler
import Grpcxx.Model.Serve

/-!
# The uv server as a system

All connections of `uv::server` and all threads that serve them: what the coroutines of
`server::conn` do in their turns of the I/O thread, and what the functions they give to
`scheduler::run` do on the thread that the scheduler hands them to. A step is one step of the
scheduler, one part of such a function, or what a coroutine does between two points where it
can suspend. Any thread may take the next step.

Connections share the scheduler and the services, which requests do not change. In the asio
backend there is no more than the one coroutine for each connection, `Asio.serve`.
-/

namespace Grpcxx.Uv.System

open Scheduler (Coroutine Task)

/-- What is still to be done of a function that was given to `run`. -/
inductive Job
  | read (bytes : Bytes)
  /-- these requests are not processed yet -/
  | answer (reqs : List Request)
  /-- the first of them is, but its response not written -/
  | write (resp : Response) (reqs : List Request)
  deriving DecidableEq

/-- Where a connection's coroutine is in the loop of `server::conn`. -/
inductive Point
  /-- before `co_await reader`, or suspended there -/
  | reading
  /-- it has a view of these bytes -/
  | viewing (bytes : Bytes)
  /-- in `co_await run(fn)` -/
  | working
  /-- before `co_await flush()` -/
  | flushing
  /-- suspended there, until libuv reports how the write went -/
  | writing (r : WriteResult)
  /-- out of the loop -/
  | ended
  deriving DecidableEq

/-- A connection and its coroutine. -/
structure Line (σ : Type) where
  serving : Serving (Conn σ)
  point : Point := .reading
  /-- how the reads of the socket are going to end -/
  inputs : List Input
  /-- how they have ended -/
  taken : List Input := []

structure State (σ : Type) (n : ℕ) where
  sched : Scheduler.State n := {}
  lines : Coroutine → Line σ
  /-- nothing, for a task without a function or one that has returned -/
  jobs : Task → Job := fun _ => .answer []

inductive Action (n : ℕ)
  /-- a read of the connection's socket ends -/
  | read (h : Coroutine)
  /-- the running coroutine goes on with its loop, the view being empty -/
  | skip
  /-- it awaits its reader, or ends -/
  | suspend
  /-- it awaits `run(fn)` -/
  | run
  /-- the thread does one part of the function it executes: a worker, or the I/O thread -/
  | work (v : Option (Fin n))
  /-- that function returns -/
  | ret (v : Option (Fin n))
  /-- the end of `co_await run(fn)` -/
  | destroy
  /-- the running coroutine calls `flush`, up to where it suspends -/
  | flush
  /-- the write of the connection's buffer ends -/
  | written (h : Coroutine)
  /-- a step of the scheduler in which no coroutine and no function goes on -/
  | pass (a : Scheduler.Action n)
  deriving DecidableEq

section

variable {σ : Type} {n : ℕ} (N : Nghttp2 σ) (b : ServerBase)

/-- One part of a function, and what is left of it. -/
def Job.work : Job → Call (Serving (Conn σ)) Job
  | read bytes => do
    let w ← get
    Serving.act (Serving.readActs N bytes w.conn.session)
    let reqs ← Serving.onConn (Conn.read N bytes)
    return answer reqs
  | answer [] => return answer []
  | answer (req :: reqs) => do
    let resp ← Serving.process b req
    return write resp reqs
  | write resp reqs => do
    Serving.onConn (Conn.write N resp)
    return answer reqs

namespace Line

/-- A read of the socket ends. At the end of the stream and after an error the loop does too. -/
def take (i : Input) (inputs : List Input) (l : Line σ) : Line σ :=
  let point :=
    match i with
    | .bytes bytes => .viewing bytes
    | .eos | .error => .ended
  { l with point, inputs, taken := l.taken ++ [i] }

/-- `co_await flush()`, up to where it suspends: what is in the buffer is given to libuv. If libuv refuses
it, the process ends. -/
def flush (results : ℕ → WriteResult) (l : Line σ) : Option (Line σ) :=
  let c := l.serving.conn
  if c.buffer.isEmpty then some { l with point := .reading }
  else
    match results c.sock.writes with
    | .refused _ => none
    | r =>
      some
        { l with
          point := .writing r
          serving :=
            { l.serving with
              conn :=
                { c with
                  sock := { handed := c.sock.handed ++ c.buffer, writes := c.sock.writes + 1 } } } }

/-- The rest of it. An exception of the writer leaves the buffer as it is. -/
def written (r : WriteResult) (l : Line σ) : Line σ :=
  match r with
  | .completed =>
    { l with
      point := .reading
      serving := { l.serving with conn := { l.serving.conn with buffer := [] } } }
  | _ =>
    { l with point := .reading, serving := { l.serving with acts := l.serving.acts ++ [.writeFailed] } }

end Line

namespace State

def setLine (h : Coroutine) (l : Line σ) (s : State σ n) : State σ n :=
  { s with lines := Function.update s.lines h l }

def setJob (t : Task) (job : Job) (s : State σ n) : State σ n :=
  { s with jobs := Function.update s.jobs t job }

/-- The coroutine that runs on the I/O thread. -/
def running (s : State σ n) : Option Coroutine :=
  match s.sched.io with
  | .running h _ => some h
  | _ => none

/-- The coroutine that goes on there after `co_await run(fn)`. -/
def resumed (s : State σ n) : Option Coroutine :=
  match s.sched.io with
  | .resumed h _ => some h
  | _ => none

/-- The task whose function the thread executes. -/
def executes (s : State σ n) : Option (Fin n) → Option Task
  | some w =>
    match s.sched.workers w with
    | .running t => some t
    | _ => none
  | none =>
    match s.sched.io with
    | .inline t _ => some t
    | _ => none

/-- The scheduler takes a step. -/
def schedule (a : Scheduler.Action n) (s : State σ n) : Option (State σ n) :=
  (Scheduler.step s.sched a).map fun sched => { s with sched }

/-- The function of `t` goes on. What it throws ends it, unless it ends the process. -/
def work (t : Task) (s : State σ n) : Option (State σ n) :=
  let l := s.lines t.coro
  match (s.jobs t).work N b l.serving with
  | .ok job w => some ((s.setLine t.coro { l with serving := w }).setJob t job)
  | .error e w =>
    if e.isThrown then some ((s.setLine t.coro { l with serving := w }).setJob t (.answer [])) else none

end State

/-- Steps of threads that have no coroutine and no function in their hands. -/
def passes : Scheduler.Action n → Bool
  | .take _ | .complete _ | .send _ | .leave _ | .wake | .test | .pop | .resume | .completeInline => true
  | .read _ | .run | .suspend | .ret _ | .destroy | .retInline => false

/-- The scheduler's step when a function returns. -/
def returns : Option (Fin n) → Scheduler.Action n
  | some w => .ret w
  | none => .retInline

/-- One step of one thread; none that ends the process. -/
def step (results : Coroutine → ℕ → WriteResult) (s : State σ n) : Action n → Option (State σ n)
  | .read h =>
    match (s.lines h).point, (s.lines h).inputs with
    | .reading, i :: inputs => (s.schedule (.read h)).map (·.setLine h ((s.lines h).take i inputs))
    | _, _ => none
  | .skip => s.running.bind fun h =>
    if (s.lines h).point = .viewing [] then some (s.setLine h { s.lines h with point := .reading }) else none
  | .suspend => s.running.bind fun h =>
    if (s.lines h).point = .reading ∨ (s.lines h).point = .ended then s.schedule .suspend else none
  | .run => s.running.bind fun h =>
    match (s.lines h).point with
    | .viewing (x :: bytes) => (s.schedule .run).map fun s' =>
        (s'.setLine h { s.lines h with point := .working }).setJob ⟨h, s.sched.turns h⟩ (.read (x :: bytes))
    | _ => none
  | .work v => (s.executes v).bind fun t => if s.jobs t = .answer [] then none else s.work N b t
  | .ret v => (s.executes v).bind fun t =>
    if s.jobs t = .answer [] then s.schedule (returns v) else none
  | .destroy => s.resumed.bind fun h =>
    (s.schedule .destroy).map (·.setLine h { s.lines h with point := .flushing })
  | .flush => s.running.bind fun h =>
    if (s.lines h).point = .flushing then
      ((s.lines h).flush (results h)).bind fun l =>
        if l.point = .reading then some (s.setLine h l) else (s.schedule .suspend).map (·.setLine h l)
    else none
  | .written h =>
    match (s.lines h).point with
    | .writing r => (s.schedule (.read h)).map (·.setLine h ((s.lines h).written r))
    | _ => none
  | .pass a => if passes a then s.schedule a else none

/-- Connections just accepted. -/
def start (sessions : Coroutine → σ) (inputs : Coroutine → List Input) : State σ n where
  lines h := { serving := { conn := { session := { session := sessions h } } }, inputs := inputs h }

end

end Grpcxx.Uv.System
