import Grpcxx.Model.Nghttp2

/-!
# What the server relies on of nghttp2

Three contracts, each over observations of the library's state.

* `Nghttp2.Rejects`: which streams are closed, and which submit calls that makes fail.
* `Nghttp2.Reads`: which bodies are read.
* `Flow.Models`: the order in which submitted frames are sent, and how far the peer's
  windows let bodies go.
-/

namespace Grpcxx

variable {σ : Type}

/-! ## Closed streams -/

def NGHTTP2_ERR_STREAM_CLOSED : ℤ := -510

/-- The `closed` streams are those for which the close callback was made. Bodies are
rejected for them, and all other submit calls succeed. `mem_send2` fails only for want of
memory, of which there is enough. -/
structure Nghttp2.Rejects (N : Nghttp2 σ) (closed : σ → StreamId → Prop) : Prop where
  recv : ∀ s bytes id, closed (N.memRecv s bytes).session id ↔
    closed s id ∨ ∃ code, Callback.stream_close id code ∈ (N.memRecv s bytes).callbacks
  send : ∀ s data id, closed ((N.memSend s).run data).session id ↔
    closed s id ∨ ∃ code, (id, code) ∈ ((N.memSend s).run data).closed
  sends : ∀ s data, ∃ bytes, ((N.memSend s).run data).out = .ok bytes
  headers : ∀ s id hdrs, (N.submitHeaders s id hdrs).2 = 0
  headers_closed : ∀ s id hdrs i, closed (N.submitHeaders s id hdrs).1 i ↔ closed s i
  data : ∀ s id, ¬ closed s id → (N.submitData s id).2 = 0
  data_rejected : ∀ s id, closed s id → (N.submitData s id).2 = NGHTTP2_ERR_STREAM_CLOSED
  data_closed : ∀ s id i, closed (N.submitData s id).1 i ↔ closed s i
  trailers : ∀ s id hdrs, (N.submitTrailer s id hdrs).2 = 0
  trailers_closed : ∀ s id hdrs i, closed (N.submitTrailer s id hdrs).1 i ↔ closed s i

/-! ## Bodies -/

/-- A `mem_send2` that reads bodies only of `active` streams, each no further than its end.
Those still active are then `active'`. -/
inductive Send.Pulls (active' : σ → StreamId → Prop) : (StreamId → Prop) → Send σ → Prop
  | done {active : StreamId → Prop} {s' : σ} {closed : List (StreamId × UInt32)} {out : Except ℤ Bytes}
      (h : ∀ i, active' s' i → active i) : Pulls active' active (.done s' closed out)
  | pull {active : StreamId → Prop} {id : StreamId} {length : ℕ} {next : Pulled → Send σ} (hid : active id)
      (h : ∀ p : Pulled, Pulls active' (fun i => active i ∧ ¬ (i = id ∧ p.eof = true)) (next p)) :
      Pulls active' active (.pull id length next)

/-- The `active` streams are among those whose body was submitted and not read to its end. -/
structure Nghttp2.Reads (N : Nghttp2 σ) (active : σ → StreamId → Prop) : Prop where
  recv : ∀ s bytes i, active (N.memRecv s bytes).session i → active s i
  send : ∀ s, Send.Pulls active (active s) (N.memSend s)
  headers : ∀ s id nv i, active (N.submitHeaders s id nv).1 i → active s i
  data : ∀ s id i, active (N.submitData s id).1 i → active s i ∨ i = id
  trailers : ∀ s id nv i, active (N.submitTrailer s id nv).1 i → active s i

/-! ## Frames and windows -/

/-- What nghttp2 sends. Control frames may close streams. -/
inductive Frame
  | headers (stream_id : StreamId) (nv : List Header) (endStream : Bool)
  | data (stream_id : StreamId) (payload : Bytes)
  | control (closes : List StreamId)
  deriving DecidableEq, Repr

namespace Frame

/-- The frame belongs to the response on `id`. -/
def on (id : StreamId) : Frame → Bool
  | headers i _ _ | data i _ => i = id
  | control _ => false

/-- Once the frame is sent, nothing more is sent on `id`. -/
def ends (f : Frame) (id : StreamId) : Bool :=
  match f with
  | headers i _ endStream => endStream && i = id
  | data _ _ => false
  | control closes => id ∈ closes

/-- Sending the frame removes `g` from what waits. -/
def drops (f : Frame) : Frame → Bool
  | headers i _ _ | data i _ => f.ends i
  | control _ => false

end Frame

/-- Observations of nghttp2's state. -/
structure Flow (σ : Type) where
  /-- how many bytes of the body of a stream the stream's and the connection's window allow -/
  window : σ → StreamId → ℕ
  /-- header and control frames waiting to be sent, in order -/
  queued : σ → List Frame
  /-- streams whose body was submitted and not sent to its end -/
  unfinished : σ → StreamId → Prop
  /-- streams on which a response can still be sent -/
  live : σ → StreamId → Prop
  /-- all frames sent so far -/
  sent : σ → List Frame

namespace Flow

variable (F : Flow σ) (N : Nghttp2 σ)

/-- One `mem_send2` in state `s`. Waiting frames go first. Of a body it pulls no more than
its window allows; if no window is open it returns nothing. -/
inductive Sends (s : σ) : Send σ → Prop
  | frame {f : Frame} {rest : List Frame} {s' : σ} {closed : List (StreamId × UInt32)} {out : Bytes}
      (hqueued : F.queued s = f :: rest) (hout : out ≠ [])
      (hrest : F.queued s' = rest.filter fun g => !f.drops g)
      (hsent : F.sent s' = F.sent s ++ [f])
      (hunfinished : ∀ id, F.unfinished s' id ↔ F.unfinished s id ∧ ¬ f.ends id)
      (hlive : ∀ id, F.live s' id ↔ F.live s id ∧ ¬ f.ends id)
      (hwindow : F.window s' = F.window s) : Sends s (.done s' closed (.ok out))
  | data {id : StreamId} {length : ℕ} {next : Pulled → Send σ} (hqueued : F.queued s = [])
      (hid : F.unfinished s id) (hpos : 0 < length) (hlength : length ≤ F.window s id)
      (hnext : ∀ p : Pulled, p.bytes.length ≤ length → ∃ s' closed out,
        next p = .done s' closed (.ok out) ∧ out ≠ [] ∧ F.queued s' = [] ∧
        F.sent s' = F.sent s ++ [.data id p.bytes] ∧
        (∀ i, F.unfinished s' i ↔ F.unfinished s i ∧ ¬ (i = id ∧ p.eof = true)) ∧
        F.live s' = F.live s ∧ F.window s' id = F.window s id - p.bytes.length) :
      Sends s (.pull id length next)
  | idle {s' : σ} {closed : List (StreamId × UInt32)} (hqueued : F.queued s = [])
      (hwindow : ∀ id, F.unfinished s id → F.window s id = 0) (hqueued' : F.queued s' = [])
      (hsent : F.sent s' = F.sent s) (hunfinished : F.unfinished s' = F.unfinished s)
      (hlive : F.live s' = F.live s) : Sends s (.done s' closed (.ok []))
  | failed {s' : σ} {closed : List (StreamId × UInt32)} {n : ℤ} : Sends s (.done s' closed (.error n))

/-- nghttp2 behaves as the observations say. Submitting queues a frame, or a body; what
arrives moves windows, closes streams and may be answered by control frames. -/
structure Models : Prop where
  headers : ∀ s id nv s', N.submitHeaders s id nv = (s', 0) →
    (F.live s id → F.queued s' = F.queued s ++ [.headers id nv false]) ∧ F.sent s' = F.sent s ∧
    F.unfinished s' = F.unfinished s ∧ F.live s' = F.live s ∧ F.window s' = F.window s
  data : ∀ s id s', N.submitData s id = (s', 0) →
    F.live s id ∧ F.queued s' = F.queued s ∧ F.sent s' = F.sent s ∧
    (∀ i, F.unfinished s' i ↔ F.unfinished s i ∨ i = id) ∧ F.live s' = F.live s ∧
    F.window s' = F.window s
  trailers : ∀ s id nv s', N.submitTrailer s id nv = (s', 0) →
    (F.live s id → F.queued s' = F.queued s ++ [.headers id nv true]) ∧ F.sent s' = F.sent s ∧
    F.unfinished s' = F.unfinished s ∧ F.live s' = F.live s ∧ F.window s' = F.window s
  recv : ∀ s bytes, F.sent (N.memRecv s bytes).session = F.sent s ∧
    (∀ id, F.unfinished (N.memRecv s bytes).session id → F.unfinished s id) ∧
    ∀ f ∈ F.queued (N.memRecv s bytes).session, f ∈ F.queued s ∨ ∃ closes, f = .control closes
  send : ∀ s, F.Sends s (N.memSend s)

/-- A connection that has not sent anything: only settings wait. -/
structure Fresh (s : σ) : Prop where
  sent : F.sent s = []
  queued : ∀ f ∈ F.queued s, f = .control []
  unfinished : ∀ id, ¬ F.unfinished s id

end Flow

end Grpcxx
