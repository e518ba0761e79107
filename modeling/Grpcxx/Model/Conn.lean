import Grpcxx.Lib.Loop
import Grpcxx.Model.Session

/-!
# The connections of the two backends

`uv::detail::conn` collects what the session produces in `_buffer` and writes it out in
`flush`; `asio::detail::conn` writes each piece out at once. Both sort a batch of
session events into one request per stream by the same loop (`onEvent`).
-/

namespace Grpcxx

/-- `conn::streams_t` -/
abbrev Streams := Map StreamId Request

/-- One turn of the loop over `session::read`'s events, on the stream table and the
requests collected so far. -/
def onEvent (st : Streams × List Request) (ev : Event) : Streams × List Request :=
  if ev.stream_id ≤ 0 then st
  else if ev.type = .stream_close then (st.1.erase ev.stream_id, st.2)
  else
    let streams := st.1.emplace ev.stream_id { id := ev.stream_id }
    let req := (streams.lookup ev.stream_id).getD { id := ev.stream_id }
    match ev.type, ev.header with
    | .stream_data, _ => (streams.insert ev.stream_id (req.read ev.data), st.2)
    | .stream_end, _ => (streams.erase ev.stream_id, req :: st.2)
    | .stream_header, some h => (streams.insert ev.stream_id (req.header h.name h.value), st.2)
    | _, _ => (streams, st.2)

/-! ## Sockets -/

/-- How a write on the socket goes: it completes, it fails after the bytes were handed
over, or it is refused. -/
inductive WriteResult
  | completed
  | failed (why : String)
  | refused (why : String)
  deriving DecidableEq, Repr

/-- A connected socket: the bytes handed to it, and how many writes that took. -/
structure Socket where
  handed : Bytes := []
  writes : ℕ := 0
  deriving DecidableEq, Repr

/-- A write of `bytes` and the wait for its completion. `results` says how the
connection's writes go, in order. -/
def Socket.write (results : ℕ → WriteResult) (bytes : Bytes) : Call Socket Unit := fun s =>
  match results s.writes with
  | .completed => .ok () { handed := s.handed ++ bytes, writes := s.writes + 1 }
  | .failed why =>
    .error (.runtime_error ("Failed to write data: " ++ why))
      { handed := s.handed ++ bytes, writes := s.writes + 1 }
  | .refused why =>
    .error (.runtime_error ("Failed to start writing data: " ++ why)) { s with writes := s.writes + 1 }

/-- The headers a response starts with. -/
def responseHeaders : List Header :=
  [⟨lit ":status", lit "200"⟩, ⟨lit "content-type", lit "application/grpc"⟩]

/-- The trailers a response ends with. -/
def responseTrailers (status : Status) : List Header :=
  [⟨lit "grpc-status", status.str⟩, ⟨lit "grpc-status-details-bin", status.details⟩]

variable {σ α : Type} (N : Nghttp2 σ)

/-! ## libuv -/

namespace Uv

structure Conn (σ : Type) where
  buffer : Bytes := []
  sock : Socket := {}
  session : Session σ
  streams : Streams := ∅

namespace Conn

def onSession (f : Call (Session σ) α) : Call (Conn σ) α :=
  zoom Conn.session (fun c session => { c with session }) f

def onSock (f : Call Socket α) : Call (Conn σ) α := zoom Conn.sock (fun c sock => { c with sock }) f

/-- `_buffer.append(chunk)` -/
def append (chunk : Bytes) : Call (Conn σ) Unit := fun c =>
  .ok () { c with buffer := c.buffer ++ chunk }

/-- How often `pending` can still return something. -/
def backlog (c : Conn σ) : ℕ := N.backlog c.session.session c.session.data

/-- `buffer()` -/
def fill : Call (Conn σ) Unit :=
  noexcept .buffer fun c => Loop.drain (onSession (Session.pending N)) append (c.backlog N + 1) c

/-- `read(bytes)` -/
def read (bytes : Bytes) : Call (Conn σ) (List Request) := do
  let evs ← onSession (Session.read N bytes)
  let c ← get
  let r := evs.foldl onEvent (c.streams, [])
  set { c with streams := r.1 }
  fill N
  return r.2

/-- `write(resp)` -/
def write (resp : Response) : Call (Conn σ) Unit := noexcept .write do
  onSession (Session.headers N resp.id responseHeaders)
  onSession (Session.submitBody N resp.id resp.bytes)
  fill N
  -- whether or not the body was sent
  onSession (Session.trailers N resp.id (responseTrailers resp.status))
  fill N

/-- `write(bytes)` and the wait for the `writer` that it returns. What the constructor of the writer throws
reaches the end of `write`, which is `noexcept`; what `await_resume` throws does not. -/
def writeBytes (results : ℕ → WriteResult) (bytes : Bytes) : Call (Conn σ) Unit := fun c =>
  match results c.sock.writes with
  | .refused _ => noexcept .write_bytes (onSock (Socket.write results bytes)) c
  | .completed | .failed _ => onSock (Socket.write results bytes) c

/-- `flush()` -/
def flush (results : ℕ → WriteResult) : Call (Conn σ) Unit := do
  let c ← get
  if c.buffer.isEmpty then return ()
  writeBytes results c.buffer
  modify fun c => { c with buffer := [] }

end Conn

end Uv

/-! ## Asio -/

namespace Asio

structure Conn (σ : Type) where
  eos : Bool := false
  session : Session σ
  streams : Streams := ∅
  sock : Socket := {}

namespace Conn

def onSession (f : Call (Session σ) α) : Call (Conn σ) α :=
  zoom Conn.session (fun c session => { c with session }) f

/-- `async_write(_sock, chunk)` -/
def send (results : ℕ → WriteResult) (chunk : Bytes) : Call (Conn σ) Unit :=
  zoom Conn.sock (fun c sock => { c with sock }) (Socket.write results chunk)

def backlog (c : Conn σ) : ℕ := N.backlog c.session.session c.session.data

/-- `read(n)`, on the bytes read -/
def read (bytes : Bytes) : Call (Conn σ) (List Request) := do
  let evs ← onSession (Session.read N bytes)
  let c ← get
  let r := evs.foldl onEvent (c.streams, [])
  set { c with streams := r.1 }
  return r.2

/-- `write()` -/
def writePending (results : ℕ → WriteResult) : Call (Conn σ) Unit := fun c =>
  Loop.drain (onSession (Session.pending N)) (send results) (c.backlog N + 1) c

/-- `write(resp)`. A coroutine: what it throws reaches the one that awaits it. -/
def write (results : ℕ → WriteResult) (resp : Response) : Call (Conn σ) Unit := do
  onSession (Session.headers N resp.id responseHeaders)
  onSession (Session.submitBody N resp.id resp.bytes)
  writePending N results
  onSession (Session.trailers N resp.id (responseTrailers resp.status))
  writePending N results

end Conn

end Asio

end Grpcxx
