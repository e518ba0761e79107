import Grpcxx.Model.Nghttp2

/-!
# `h2::detail::session`

The session turns nghttp2's callbacks into events, which `read` hands out in batches,
and submits responses. All bodies are read from the one string `_data`. The data of an event is a
view into the connection's read buffer, which the next read of the socket overwrites from its front.
-/

namespace Grpcxx

/-- `event::type_t` -/
inductive Event.Kind
  | noop
  | stream_close
  | stream_data
  | stream_end
  | stream_header
  deriving DecidableEq, Repr

structure Event where
  /-- what the view shows -/
  data : Bytes := []
  stream_id : StreamId := -1
  type : Event.Kind := .noop
  header : Option Header := none
  deriving DecidableEq, Repr

/-- `produced` is not in the source: all that `pending` has returned so far. -/
structure Session (σ : Type) where
  data : Bytes := []
  events : List Event := []
  /-- where in the buffer the views of the data events among them start -/
  starts : List ℕ := []
  session : σ
  produced : Bytes := []

/-- What a view of `data` shows, which starts at `start`, after `bytes` were written to the front of the
buffer. -/
def overwritten (bytes : Bytes) (start : ℕ) (data : Bytes) : Bytes :=
  (bytes.drop start).take data.length ++ data.drop (bytes.length - start)

/-- What the views of events show then. -/
def reread (bytes : Bytes) : List ℕ → List Event → List Event
  | [], evs => evs
  | _ :: _, [] => []
  | start :: starts, ev :: evs =>
    if ev.type = .stream_data then
      { ev with data := overwritten bytes start ev.data } :: reread bytes starts evs
    else ev :: reread bytes (start :: starts) evs

namespace Session

variable {σ : Type}

def emit (s : Session σ) (ev : Event) : Session σ := { s with events := s.events ++ [ev] }

/-! ## Callbacks -/

def NGHTTP2_FLAG_END_STREAM : UInt8 := 0x01

def dataRecvCb (s : Session σ) (stream_id : StreamId) (data : Bytes) (pos : ℕ) : Session σ :=
  { s.emit { data, stream_id, type := .stream_data } with starts := s.starts ++ [pos] }

def frameRecvCb (s : Session σ) (stream_id : StreamId) (flags : UInt8) : Session σ :=
  if 0 ≠ flags &&& NGHTTP2_FLAG_END_STREAM then s.emit { stream_id, type := .stream_end } else s

def headerCb (s : Session σ) (stream_id : StreamId) (name value : Bytes) : Session σ :=
  s.emit { stream_id, type := .stream_header, header := some { name, value } }

def streamCloseCb (s : Session σ) (stream_id : StreamId) (_error_code : UInt32) : Session σ :=
  s.emit { stream_id, type := .stream_close }

def callback (s : Session σ) : Callback → Session σ
  | .header id name value => s.headerCb id name value
  | .data_chunk_recv id data pos => s.dataRecvCb id data pos
  | .frame_recv id flags => s.frameRecvCb id flags
  | .stream_close id code => s.streamCloseCb id code

/-! ## Receiving and sending -/

variable (N : Nghttp2 σ)

/-- `read(bytes)`. If it throws, the events it has collected stay; by the next call the bytes of that
have overwritten what their views show. -/
def read (bytes : Bytes) : Call (Session σ) (List Event) := fun s =>
  let r := N.memRecv s.session bytes
  let s := { s with events := reread bytes s.starts s.events }
  let s := r.callbacks.foldl callback { s with session := r.session }
  match r.error with
  | some n => .error (.runtime_error ("Failed to read session data: " ++ N.strerror n)) s
  | none => .ok s.events { s with events := [], starts := [] }

/-- `pending()` -/
def pending : Call (Session σ) Bytes := fun s =>
  let r := (N.memSend s.session).run s.data
  let s := { s with session := r.session, data := r.data }
  -- closes made while sending wait for the next `read`
  let s := r.closed.foldl (fun s c => s.streamCloseCb c.1 c.2) s
  match r.out with
  | .error n => .error (.runtime_error ("Failed to retrieve pending session data: " ++ N.strerror n)) s
  | .ok bytes => .ok bytes { s with produced := s.produced ++ bytes }

/-! ## Submitting -/

/-- The outcome of a submit call: `what` failed if nghttp2 says so. -/
def submitted (what : String) (s : Session σ) (r : σ × ℤ) : EStateM.Result Fault (Session σ) Unit :=
  let s := { s with session := r.1 }
  if r.2 ≠ 0 then .error (.runtime_error ("Failed to submit " ++ what ++ ": " ++ N.strerror r.2)) s
  else .ok () s

/-- The headers passed on: those with a value. -/
def nv (hdrs : List Header) : List Header := hdrs.filter fun h => !h.value.isEmpty

def headers (stream_id : StreamId) (hdrs : List Header) : Call (Session σ) Unit := fun s =>
  submitted N "headers" s (N.submitHeaders s.session stream_id (nv hdrs))

/-- `data(stream_id, data)`. The string is replaced before nghttp2 is asked. -/
def submitBody (stream_id : StreamId) (data : Bytes) : Call (Session σ) Unit := fun s =>
  submitted N "data" { s with data } (N.submitData s.session stream_id)

def trailers (stream_id : StreamId) (hdrs : List Header) : Call (Session σ) Unit := fun s =>
  submitted N "trailers" s (N.submitTrailer s.session stream_id (nv hdrs))

end Session

end Grpcxx
