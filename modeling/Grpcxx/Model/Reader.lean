import Grpcxx.Model.Std

/-!
# The uv backend's reader

`reader`, an awaitable, and the loop of `server::conn` that awaits it. The steps are the calls
of the two and the callbacks of libuv, which come from the event loop, while reading is
started. What the coroutine awaits besides the reader takes as long as it likes.
-/

namespace Grpcxx.Uv

namespace Reader

/-- What `read_cb` is called with. Of the bytes that have arrived, `read` takes `n`. -/
inductive Arrival
  | read (n : ℕ)
  | eof
  | error (why : String)
  deriving DecidableEq, Repr

/-- Where the coroutine is. A view of the buffer is its size. -/
inductive Point
  /-- before the condition of the loop -/
  | testing
  /-- before `await_ready` -/
  | awaiting
  /-- between `await_ready` and `await_suspend` -/
  | suspending
  /-- suspended, with the reader -/
  | suspended
  /-- before `await_resume` -/
  | resuming
  /-- has a view -/
  | viewing (size : ℕ)
  /-- in `run(fn)`, before `fn` reads the view -/
  | working (size : ℕ)
  /-- after that, up to the end of `flush` -/
  | flushing
  /-- out of the loop, or thrown out of it -/
  | unwinding
  | ended
  deriving DecidableEq, Repr

/-- What is seen of a step. -/
inductive Entry
  /-- `await_ready` is called -/
  | ready
  /-- `read_cb` is called with these bytes in the buffer -/
  | read (bytes : Bytes)
  /-- `read_cb` or `uv_read_start` reports the end of the stream or an error -/
  | reported
  /-- `await_resume` returns a view of these bytes -/
  | resumed (bytes : Bytes)
  /-- `await_resume` throws -/
  | thrown
  /-- the session reads these bytes through the view -/
  | parsed (bytes : Bytes)
  deriving DecidableEq, Repr

end Reader

open Reader

/-- `_buf.capacity()` -/
def Reader.capacity : ℕ := 1024

structure Reader where
  buf : Bytes := List.replicate capacity 0
  e : Option Fault := none
  eos : Bool := false
  /-- whether `_h` is set -/
  h : Bool := false
  nread : ℕ := 0
  deriving DecidableEq, Repr

namespace Reader

/-- `operator bool` -/
def ok (r : Reader) : Bool := !(r.eos || r.e.isSome)

/-- The bytes that a view of this size shows. -/
def view (r : Reader) (size : ℕ) : Bytes := r.buf.take size

structure State where
  reader : Reader := {}
  point : Point := .testing
  /-- libuv: reading is started on the stream -/
  reading : Bool := false
  /-- the bytes that have arrived and were not read -/
  socket : Bytes := []
  log : List Entry := []
  deriving DecidableEq, Repr

namespace State

/-- `await_ready()`; `r` is what `uv_read_start` fails with. -/
def await_ready (r : Option String) (s : State) : State :=
  match r with
  | some why =>
    { s with
      reader := { s.reader with e := some (.runtime_error ("Failed to start reading data: " ++ why)) }
      point := .resuming
      log := s.log ++ [.ready, .reported] }
  | none => { s with point := .suspending, reading := true, log := s.log ++ [.ready] }

/-- `await_suspend(h)` -/
def await_suspend (s : State) : State :=
  { s with reader := { s.reader with h := true }, point := .suspended }

/-- `resume()` -/
def resume (s : State) : State := if s.reader.h then { s with point := .resuming } else s

/-- `alloc_cb`, the read into the buffer, and `read_cb` -/
def read_cb (a : Arrival) (s : State) : State :=
  match a with
  | .read n =>
    let bytes := s.socket.take n
    resume
      { s with
        reader := { s.reader with buf := bytes ++ s.reader.buf.drop n, nread := n }
        socket := s.socket.drop n
        log := s.log ++ [.read bytes] }
  | .eof => resume { s with reader := { s.reader with eos := true }, log := s.log ++ [.reported] }
  | .error why =>
    resume
      { s with
        reader := { s.reader with e := some (.runtime_error ("Failed to read data: " ++ why)) }
        log := s.log ++ [.reported] }

/-- `await_resume()`. Reading goes on if it throws or the stream has ended. -/
def await_resume (s : State) : State :=
  let r := { s.reader with h := false }
  if r.e.isSome then { s with reader := r, point := .unwinding, log := s.log ++ [.thrown] }
  else if r.eos then { s with reader := r, point := .viewing 0, log := s.log ++ [.resumed []] }
  else
    { s with
      reader := { r with nread := 0 }
      point := .viewing r.nread
      reading := false
      log := s.log ++ [.resumed (r.view r.nread)] }

end State

inductive Action
  /-- bytes arrive on the socket -/
  | arrive (bytes : Bytes)
  /-- the event loop calls `alloc_cb` and `read_cb` -/
  | callback (a : Arrival)
  /-- the condition of the loop -/
  | test
  | ready (r : Option String)
  | suspend
  | resume
  /-- `bytes.empty()` -/
  | check
  /-- `fn` reads the view -/
  | parse
  /-- the end of the loop's body -/
  | finish
  /-- the destructors -/
  | destroy
  deriving DecidableEq, Repr

/-- The coroutine is suspended or gone, and the event loop may run. -/
def Point.idle : Point → Bool
  | .suspended | .working _ | .flushing | .ended => true
  | _ => false

/-- A callback that libuv may make: what it reads fits the buffer and has arrived. -/
def Arrival.fits (socket : Bytes) : Arrival → Bool
  | .read n => n ≤ capacity && n ≤ socket.length
  | .eof | .error _ => true

def step (s : State) : Action → Option State
  | .arrive bytes => some { s with socket := s.socket ++ bytes }
  | .callback a =>
    if s.reading && s.point.idle && a.fits s.socket then some (s.read_cb a) else none
  | .test =>
    if s.point = .testing then some { s with point := if s.reader.ok then .awaiting else .unwinding }
    else none
  | .ready r => if s.point = .awaiting then some (s.await_ready r) else none
  | .suspend => if s.point = .suspending then some s.await_suspend else none
  | .resume => if s.point = .resuming then some s.await_resume else none
  | .check =>
    match s.point with
    | .viewing size => some { s with point := if size = 0 then .testing else .working size }
    | _ => none
  | .parse =>
    match s.point with
    | .working size =>
      some { s with point := .flushing, log := s.log ++ [.parsed (s.reader.view size)] }
    | _ => none
  | .finish => if s.point = .flushing then some { s with point := .testing } else none
  -- `~reader` calls `uv_read_stop`
  | .destroy => if s.point = .unwinding then some { s with point := .ended, reading := false } else none

end Reader

end Grpcxx.Uv
