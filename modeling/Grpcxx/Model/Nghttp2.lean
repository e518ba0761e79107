import Grpcxx.Model.Request

/-!
# nghttp2, as the session uses it

The library is not part of the repository: it is a parameter `Nghttp2 σ` over its own
state `σ`. Receiving makes callbacks. Sending is an exchange (`Send`): nghttp2 asks the
read callback for body bytes, as often and for as many as it likes, before it returns
what to put on the wire. The read callback itself (`readCb`) is the session's.
-/

namespace Grpcxx

/-- `h2::detail::header` and `header_view` -/
structure Header where
  name : Bytes
  value : Bytes
  deriving DecidableEq, Repr

/-- The callbacks nghttp2 makes into the session. A data chunk is a part of the bytes that were given to
`mem_recv2`, which starts at `pos`. -/
inductive Callback
  | header (stream_id : StreamId) (name value : Bytes)
  | data_chunk_recv (stream_id : StreamId) (data : Bytes) (pos : ℕ := 0)
  | frame_recv (stream_id : StreamId) (flags : UInt8)
  | stream_close (stream_id : StreamId) (error_code : UInt32)
  deriving DecidableEq, Repr

/-- What the read callback hands over: the bytes, and whether it set
`NGHTTP2_DATA_FLAG_EOF`. -/
structure Pulled where
  bytes : Bytes
  eof : Bool
  deriving DecidableEq, Repr

/-- `session::read_cb` on the string `str`: what it hands over, and what it leaves. -/
def readCb (str : Bytes) (length : ℕ) : Pulled × Bytes :=
  if str.length ≤ length then (⟨str.take str.length, true⟩, str.drop str.length)
  else (⟨str.take length, false⟩, str.drop length)

/-- What is pulled is at most what was asked for, and what is left is less unless the end
was reached. -/
theorem readCb_spec (str : Bytes) (length : ℕ) :
    (readCb str length).1.bytes ++ (readCb str length).2 = str ∧
      (readCb str length).1.bytes.length ≤ length ∧
      ((readCb str length).1.eof = true → (readCb str length).2 = []) ∧
      ((readCb str length).1.eof = false → (readCb str length).1.bytes.length = length ∧ length < str.length) := by
  unfold readCb
  split
  · rename_i h; simp [h]
  · rename_i h; simp; omega

/-- One `nghttp2_session_mem_send2`: it reads bodies, closes streams, and returns bytes
or a negative error code. -/
inductive Send (σ : Type)
  | done (session : σ) (closed : List (StreamId × UInt32)) (out : Except ℤ Bytes)
  | pull (stream_id : StreamId) (length : ℕ) (next : Pulled → Send σ)

/-- How one `mem_send2` went. -/
structure Sent (σ : Type) where
  session : σ
  data : Bytes
  pulls : List (StreamId × Pulled)
  closed : List (StreamId × UInt32)
  out : Except ℤ Bytes

/-- The exchange, when the bodies are read from `data`. -/
def Send.run {σ : Type} : Send σ → Bytes → Sent σ
  | .done session closed out, data => { session, data, pulls := [], closed, out }
  | .pull id length next, data =>
    let r := readCb data length
    let sent := (next r.1).run r.2
    { sent with pulls := (id, r.1) :: sent.pulls }

/-- How one `nghttp2_session_mem_recv2` went; `error` is a negative return value. -/
structure Received (σ : Type) where
  session : σ
  callbacks : List Callback
  error : Option ℤ

/-- nghttp2. The submit calls return zero or an error code. `mem_send2` returns no bytes
once there is nothing left to send: `backlog` bounds how often it still returns some. -/
structure Nghttp2 (σ : Type) where
  memRecv : σ → Bytes → Received σ
  memSend : σ → Send σ
  submitHeaders : σ → StreamId → List Header → σ × ℤ
  submitData : σ → StreamId → σ × ℤ
  submitTrailer : σ → StreamId → List Header → σ × ℤ
  strerror : ℤ → String
  backlog : σ → Bytes → ℕ
  drains : ∀ s data bytes, ((memSend s).run data).out = .ok bytes → bytes ≠ [] →
    backlog ((memSend s).run data).session ((memSend s).run data).data < backlog s data

end Grpcxx
