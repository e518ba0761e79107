import Grpcxx.Model.Serve

/-!
# The asio server as a system

`asio::server::listen` accepts connections and gives each a strand, on which the coroutine of
`server::conn` goes on. It suspends in `async_read_some` and in the `async_write`s of
`conn::write`. A step is what a coroutine does up to a point where it looks at the outside or waits
for it. Any coroutine may take the next step: the executor may be run by several threads, and
a strand keeps only one connection's steps from each other.
-/

namespace Grpcxx.Asio.System

/-- What follows `co_await write()`. -/
inductive Next
  /-- `co_return reqs` -/
  | reqs (reqs : List Request)
  /-- the trailers of the response -/
  | trailers (resp : Response) (reqs : List Request)
  /-- `write(resp)` is done -/
  | answer (reqs : List Request)
  deriving DecidableEq

/-- Where a connection's coroutine is. -/
inductive Point
  /-- not accepted yet -/
  | outside
  /-- before the test of `while (c)` -/
  | testing
  /-- suspended in `async_read_some` -/
  | reading
  /-- it has ended so -/
  | parsing (i : Input)
  /-- in `write()`, before `pending()` -/
  | pending (k : Next)
  /-- suspended in `async_write` -/
  | writing (chunk : Bytes) (k : Next)
  /-- before the trailers are submitted -/
  | trailing (resp : Response) (reqs : List Request)
  /-- in the loop over the batch -/
  | answering (reqs : List Request)
  /-- the coroutine has returned or thrown -/
  | ended
  deriving DecidableEq

/-- Where the coroutine goes on after `co_await write()`. -/
def Next.point : Next → Point
  | reqs rs => .answering rs
  | trailers resp rs => .trailing resp rs
  | answer rs => .answering rs

/-- A connection and its coroutine. -/
structure Line (σ : Type) where
  serving : Serving (Conn σ)
  point : Point := .outside
  /-- how the reads of the socket are going to end -/
  inputs : List Input
  /-- how they have ended -/
  taken : List Input := []

/-- How an `async_accept` ends. -/
inductive Accept
  | socket
  | error
  deriving DecidableEq

structure State (σ : Type) where
  /-- whether `listen` goes on -/
  listening : Bool := true
  /-- how its accepts are going to end -/
  accepts : List Accept
  /-- how many connections it has accepted -/
  accepted : ℕ := 0
  lines : ℕ → Line σ

inductive Action
  /-- an accept ends -/
  | accept
  /-- a read of the connection's socket ends -/
  | read (h : ℕ)
  /-- a write on it does -/
  | wrote (h : ℕ)
  /-- the connection's coroutine goes on -/
  | go (h : ℕ)
  deriving DecidableEq

section

variable {σ : Type} (N : Nghttp2 σ) (b : ServerBase)

/-- `_session.pending()`, in `write()` -/
def chunk : Call (Serving (Conn σ)) Bytes := fun w =>
  match Conn.onSession (Session.pending N) w.conn with
  | .ok bytes conn => .ok bytes { w with conn }
  | .error e conn => .error e { conn, acts := w.acts ++ [.writeFailed] }

/-- What the coroutine does at a point at which it does not wait, and where it is then. -/
def Point.part : Point → Call (Serving (Conn σ)) Point
  | testing => do
    let w ← get
    return if w.conn.eos then ended else reading
  | parsing (.bytes bytes) => fun w =>
    let w := { w with acts := w.acts ++ Serving.readActs N bytes w.conn.session }
    match Serving.onConn (Conn.read N bytes) w with
    | .ok reqs w => .ok (pending (.reqs reqs)) w
    | .error e w => if e.isException then (do endStream; return answering []) w else .error e w
  | parsing .eos | parsing .error => do
    endStream
    return answering []
  | pending k => do
    let bytes ← chunk N
    return if bytes.isEmpty then k.point else writing bytes k
  | trailing resp reqs => do
    Serving.writing (Conn.onSession (Session.trailers N resp.id (responseTrailers resp.status)))
    return pending (.answer reqs)
  | answering [] => return testing
  | answering (req :: reqs) => do
    let w ← get
    if w.conn.eos then return testing
    let resp ← Serving.process b req
    Serving.writing do
      Conn.onSession (Session.headers N resp.id responseHeaders)
      Conn.onSession (Session.submitBody N resp.id resp.bytes)
    return pending (.trailers resp reqs)
  | p => return p

/-- The coroutine waits, or there is none. -/
def Point.waits : Point → Bool
  | outside | reading | writing _ _ | ended => true
  | _ => false

namespace Line

/-- The coroutine goes on. What reaches its end as an exception ends it; the process may end. -/
def go (l : Line σ) : Option (Line σ) :=
  if l.point.waits then none
  else
    match l.point.part N b l.serving with
    | .ok point serving => some { l with point, serving }
    | .error e serving => if e.isThrown then some { l with point := .ended, serving } else none

/-- A read of the socket ends. -/
def read (l : Line σ) : Option (Line σ) :=
  match l.point, l.inputs with
  | .reading, i :: inputs => some { l with point := .parsing i, inputs, taken := l.taken ++ [i] }
  | _, _ => none

/-- A write on it ends. -/
def wrote (results : ℕ → WriteResult) (l : Line σ) : Option (Line σ) :=
  match l.point with
  | .writing bytes k =>
    match Serving.writing (Conn.send results bytes) l.serving with
    | .ok () serving => some { l with point := .pending k, serving }
    | .error _ serving => some { l with point := .ended, serving }
  | _ => none

end Line

def State.setLine (h : ℕ) (l : Line σ) (s : State σ) : State σ :=
  { s with lines := Function.update s.lines h l }

/-- `listen`, when an accept ends: it spawns the connection's coroutine, or throws. -/
def State.accept (s : State σ) : Option (State σ) :=
  if !s.listening then none
  else
    match s.accepts with
    | [] => none
    | .socket :: accepts =>
      some { s.setLine s.accepted { s.lines s.accepted with point := .testing } with
        accepts
        accepted := s.accepted + 1 }
    | .error :: accepts => some { s with listening := false, accepts }

/-- One step of `listen` or of one connection. -/
def step (results : ℕ → ℕ → WriteResult) (s : State σ) : Action → Option (State σ)
  | .accept => s.accept
  | .read h => (s.lines h).read.map (s.setLine h)
  | .wrote h => ((s.lines h).wrote (results h)).map (s.setLine h)
  | .go h => ((s.lines h).go N b).map (s.setLine h)

/-- The server has begun to listen. -/
def start (accepts : List Accept) (sessions : ℕ → σ) (inputs : ℕ → List Input) : State σ where
  accepts
  lines h := { serving := { conn := { session := { session := sessions h } } }, inputs := inputs h }

end

end Grpcxx.Asio.System
