import Grpcxx.Model.Conn
import Grpcxx.Model.Server

/-!
# Serving a connection

`uv::server::conn` and `asio::server::conn`: the coroutine that takes in what the peer
sends, runs handlers and writes responses until its connection ends. What it does is
recorded in order, as `Act`s. A run is fed the outcomes of the coroutine's reads.
-/

namespace Grpcxx

/-- What a connection's coroutine does. -/
inductive Act
  /-- bytes of the peer are given to the session -/
  | recv (bytes : Bytes)
  /-- `session::read` returns these events -/
  | deliver (evs : List Event)
  /-- `session::read` throws, having collected these events -/
  | readFailed (evs : List Event)
  /-- a handler is called -/
  | handle (i : Invocation)
  /-- writing output fails -/
  | writeFailed
  deriving DecidableEq

/-- How a read of the socket ends. -/
inductive Input
  | bytes (b : Bytes)
  | eos
  | error
  deriving DecidableEq

/-- A connection and what was done with it. -/
structure Serving (C : Type) where
  conn : C
  acts : List Act := []

variable {σ C α : Type} (N : Nghttp2 σ) (b : ServerBase) (results : ℕ → WriteResult)

namespace Serving

def onConn (f : Call C α) : Call (Serving C) α :=
  zoom Serving.conn (fun w conn => { w with conn }) f

def act (as : List Act) : Call (Serving C) Unit := fun w => .ok () { w with acts := w.acts ++ as }

theorem act_bind {as : List Act} {h : Unit → Call (Serving C) α} {w : Serving C} :
    (act as >>= h) w = h () { w with acts := w.acts ++ as } := rfl

/-- What `session::read(bytes)` does, as acts. -/
def readActs (bytes : Bytes) (s : Session σ) : List Act :=
  match Session.read N bytes s with
  | .ok evs _ => [.recv bytes, .deliver evs]
  | .error _ s' => [.recv bytes, .readFailed s'.events]

/-- `process(req)` -/
def process (req : Request) : Call (Serving C) Response := fun w =>
  let r := b.process req
  let w := { w with acts := w.acts ++ r.1.map .handle }
  match r.2 with
  | .ok resp => .ok resp w
  | .error e => .error e w

theorem process_ok {b : ServerBase} {req : Request} {resp : Response} {w : Serving C}
    (h : (b.process req).2 = .ok resp) :
    process b req w = .ok resp { w with acts := w.acts ++ (b.process req).1.map .handle } := by
  simp only [process, h]

theorem process_error {b : ServerBase} {req : Request} {e : Fault} {w : Serving C}
    (h : (b.process req).2 = .error e) :
    process b req w = .error e { w with acts := w.acts ++ (b.process req).1.map .handle } := by
  simp only [process, h]

/-- A write that is recorded if it fails. -/
def writing (f : Call C Unit) : Call (Serving C) Unit := fun w =>
  match f w.conn with
  | .ok () conn => .ok () { w with conn }
  | .error e conn => .error e { conn, acts := w.acts ++ [.writeFailed] }

end Serving

open Serving

/-! ## libuv -/

namespace Uv

/-- `task`: `unhandled_exception` reports what its coroutine throws, and the awaiting
coroutine goes on. -/
def task (f : Call C Unit) : Call C Unit := fun s =>
  match f s with
  | .ok () s' => .ok () s'
  | .error e s' => if e.isThrown then .ok () s' else .error e s'

/-- The loop over the requests of a batch. -/
def answer : List Request → Call (Serving (Conn σ)) Unit
  | [] => return ()
  | req :: reqs => do
    let resp ← process b req
    onConn (Conn.write N resp)
    answer reqs

/-- The function given to `scheduler::run`. -/
def job (bytes : Bytes) : Call (Serving (Conn σ)) Unit := do
  let w ← get
  act (readActs N bytes w.conn.session)
  -- the whole batch is consumed before its first request is answered
  let reqs ← onConn (Conn.read N bytes)
  answer N b reqs

/-- One turn of the loop of `server::conn`, for a non-empty view. -/
def turn (bytes : Bytes) : Call (Serving (Conn σ)) Unit := do
  task (job N b bytes)
  task (writing (Conn.flush results))

/-- `server::conn` from its loop on. An exception of the reader ends the coroutine, and so
does a view that is empty because the stream has ended. -/
def serve : List Input → Call (Serving (Conn σ)) Unit
  | [] | .eos :: _ | .error :: _ => return ()
  | .bytes [] :: ins => serve ins
  | .bytes (x :: bytes) :: ins => do
    turn N b results (x :: bytes)
    serve ins

end Uv

/-! ## Asio -/

namespace Asio

/-- `_eos = true` -/
def endStream : Call (Serving (Conn σ)) Unit := fun w =>
  .ok () { w with conn := { w.conn with eos := true } }

/-- `conn::reqs()`, with the outcome of its `async_read_some`. -/
def reqs : Input → Call (Serving (Conn σ)) (List Request)
  | .eos | .error => do
    endStream
    return []
  | .bytes bytes => fun w =>
    let w := { w with acts := w.acts ++ readActs N bytes w.conn.session }
    match onConn (Conn.read N bytes) w with
    | .ok reqs w => (do writing (Conn.writePending N results); return reqs) w
    | .error e w => if e.isException then (do endStream; return []) w else .error e w

/-- The loop over the requests of a batch. -/
def answer : List Request → Call (Serving (Conn σ)) Unit
  | [] => return ()
  | req :: reqs => do
    let w ← get
    if w.conn.eos then return ()
    let resp ← process b req
    writing (Conn.write N results resp)
    answer reqs

/-- `server::conn` from its loop on. What reaches its end as an exception ends it too. -/
def serve : List Input → Call (Serving (Conn σ)) Unit
  | [] => return ()
  | i :: ins => do
    let w ← get
    if w.conn.eos then return ()
    let rs ← reqs N results i
    answer N b results rs
    serve ins

end Asio

/-! ## Either backend -/

inductive Backend
  | uv
  | asio
  deriving DecidableEq, Repr

namespace Backend

def Conn (B : Backend) (σ : Type) : Type :=
  match B with
  | uv => Uv.Conn σ
  | asio => Asio.Conn σ

def session : (B : Backend) → B.Conn σ → Session σ
  | uv => Uv.Conn.session
  | asio => Asio.Conn.session

def streams : (B : Backend) → B.Conn σ → Streams
  | uv => Uv.Conn.streams
  | asio => Asio.Conn.streams

def sock : (B : Backend) → B.Conn σ → Socket
  | uv => Uv.Conn.sock
  | asio => Asio.Conn.sock

/-- A connection just accepted. -/
def fresh (B : Backend) (session : σ) : B.Conn σ :=
  match B with
  | uv => ({ session := { session } } : Uv.Conn σ)
  | asio => ({ session := { session } } : Asio.Conn σ)

/-- What is done with bytes that arrive: `uv::conn::read` sends what is pending at its end,
`asio::conn::reqs` after `read`. -/
def receive (B : Backend) (bytes : Bytes) : Call (B.Conn σ) (List Request) :=
  match B with
  | uv => Uv.Conn.read N bytes
  | asio => do
    let reqs ← Asio.Conn.read N bytes
    Asio.Conn.writePending N results
    return reqs

def write (B : Backend) (resp : Response) : Call (B.Conn σ) Unit :=
  match B with
  | uv => Uv.Conn.write N resp
  | asio => Asio.Conn.write N results resp

/-- A call on the connection that the server makes. -/
inductive Op
  | receive (bytes : Bytes)
  | write (resp : Response)
  deriving DecidableEq

def call (B : Backend) (op : Op) : Call (B.Conn σ) (List Request) :=
  match op with
  | .receive bytes => receive N results B bytes
  | .write resp => do
    write N results B resp
    return []

/-- A call that succeeds. -/
def step (B : Backend) (c : B.Conn σ) (op : Op) : Option (B.Conn σ) :=
  match call N results B op c with
  | .ok _ c' => some c'
  | .error _ _ => none

def serve (B : Backend) (ins : List Input) : Call (Serving (B.Conn σ)) Unit :=
  match B with
  | uv => Uv.serve N b results ins
  | asio => Asio.serve N b results ins

end Backend

end Grpcxx
