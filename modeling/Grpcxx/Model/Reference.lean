import Grpcxx.Model.Contract
import Mathlib.Algebra.Ring.Nat

/-!
# A small nghttp2

An nghttp2 with one frame per `mem_send2` and the peer's windows, for a peer whose bytes
mean what `decode` says. It keeps the contracts (`rejects`, `reads`, `models`), so what is proved
from them is about something; runs on it are runs that can happen.
-/

namespace Grpcxx

/-- The frame in the format of the wire; header fields as literals. -/
def Frame.encode (f : Frame) : Bytes :=
  let fields (nv : List Header) : Bytes := nv.flatMap fun h =>
    0x00 :: h.name.length.toUInt8 :: h.name ++ h.value.length.toUInt8 :: h.value
  let head (length : ℕ) (type flags : UInt8) (id : StreamId) : Bytes :=
    [(length / 65536).toUInt8, (length / 256).toUInt8, length.toUInt8, type, flags,
      (id.toNat / 16777216).toUInt8, (id.toNat / 65536).toUInt8, (id.toNat / 256).toUInt8,
      id.toNat.toUInt8]
  match f with
  | .headers id nv endStream =>
    head (fields nv).length 0x01 (if endStream then 0x05 else 0x04) id ++ fields nv
  | .data id payload => head payload.length 0x00 0x00 id ++ payload
  | .control _ => head 0 0x04 0x00 0

/-- What the peer's bytes come to: callbacks, window updates (0 is the connection's) and an
error that ends the connection. -/
structure Arrival where
  callbacks : List Callback := []
  grants : List (StreamId × ℕ) := []
  error : Option ℤ := none

structure Mini where
  connection : ℕ := 65535
  windows : StreamId → ℕ := fun _ => 65535
  queue : List Frame := []
  bodies : List StreamId := []
  closed : List StreamId := []
  sent : List Frame := []

namespace Mini

/-- The streams that the callbacks close. -/
def closes (cbs : List Callback) : List StreamId :=
  cbs.filterMap fun
    | .stream_close id _ => some id
    | _ => none

def granted (grants : List (StreamId × ℕ)) (id : StreamId) : ℕ :=
  ((grants.filter (·.1 = id)).map (·.2)).sum

def window (m : Mini) (id : StreamId) : ℕ := min m.connection (m.windows id)

def memRecv (decode : Bytes → Arrival) (m : Mini) (bytes : Bytes) : Received Mini :=
  let a := decode bytes
  let gone := closes a.callbacks
  { session :=
      { m with
        connection := m.connection + granted a.grants 0
        windows := fun id => m.windows id + granted a.grants id
        queue := m.queue.filter fun f => !gone.any fun id => f.on id
        bodies := m.bodies.filter fun id => id ∉ gone
        closed := m.closed ++ gone }
    callbacks := a.callbacks
    error := a.error }

/-- The streams that the frame closes. -/
def ended : Frame → List StreamId
  | .headers id _ true => [id]
  | .headers _ _ false | .data _ _ => []
  | .control closes => closes

def memSend (m : Mini) : Send Mini :=
  match m.queue with
  | f :: queue =>
    .done
      { m with
        queue := queue.filter fun g => !f.drops g
        bodies := m.bodies.filter fun id => !f.ends id
        closed := m.closed ++ ended f
        sent := m.sent ++ [f] }
      ((ended f).map fun id => (id, 0)) (.ok f.encode)
  | [] =>
    match m.bodies.find? fun id => 0 < m.window id with
    | none => .done m [] (.ok [])
    | some id =>
      .pull id (m.window id) fun p =>
        .done
          { m with
            connection := m.connection - p.bytes.length
            windows := fun i => if i = id then m.windows i - p.bytes.length else m.windows i
            bodies := if p.eof then m.bodies.filter (· ≠ id) else m.bodies
            sent := m.sent ++ [.data id p.bytes] }
          [] (.ok (Frame.data id p.bytes).encode)

def submit (endStream : Bool) (m : Mini) (id : StreamId) (nv : List Header) : Mini × ℤ :=
  if id ∈ m.closed then (m, 0) else ({ m with queue := m.queue ++ [.headers id nv endStream] }, 0)

def submitData (m : Mini) (id : StreamId) : Mini × ℤ :=
  if id ∈ m.closed then (m, NGHTTP2_ERR_STREAM_CLOSED)
  else ({ m with bodies := m.bodies ++ [id] }, 0)

def backlog (m : Mini) (data : Bytes) : ℕ := m.queue.length + m.bodies.length + data.length

theorem encode_ne_nil (f : Frame) : f.encode ≠ [] := by
  cases f <;> simp [Frame.encode]

theorem ends_iff_mem_ended (f : Frame) (id : StreamId) : f.ends id = true ↔ id ∈ ended f := by
  rcases f with ⟨i, nv, _ | _⟩ | ⟨i, p⟩ | closes <;> simp [Frame.ends, ended, eq_comm]

theorem mem_closes {cbs : List Callback} {id : StreamId} :
    id ∈ closes cbs ↔ ∃ code, Callback.stream_close id code ∈ cbs := by
  simp only [closes, List.mem_filterMap]
  constructor
  · rintro ⟨cb, hcb, h⟩
    cases cb with
    | stream_close i code => cases h; exact ⟨code, hcb⟩
    | _ => cases h
  · rintro ⟨code, h⟩
    exact ⟨_, h, rfl⟩

theorem drains (m : Mini) (data bytes : Bytes) (h : ((memSend m).run data).out = .ok bytes)
    (hne : bytes ≠ []) :
    backlog ((memSend m).run data).session ((memSend m).run data).data < backlog m data := by
  unfold memSend at h ⊢
  cases hq : m.queue with
  | cons f queue =>
    have h1 := List.length_filter_le (fun g => !f.drops g) queue
    have h2 := List.length_filter_le (fun id => !f.ends id) m.bodies
    simp only [Send.run, backlog, hq, List.length_cons]
    omega
  | nil =>
    rw [hq] at h
    cases hb : m.bodies.find? fun id => 0 < m.window id with
    | none =>
      simp only [hb, Send.run, Except.ok.injEq] at h
      exact absurd h.symm hne
    | some id =>
      have hmem := List.mem_of_find?_eq_some hb
      have hpos : 0 < m.window id := by simpa using List.find?_some hb
      obtain ⟨hcat, hlen, heof, hmore⟩ := readCb_spec data (m.window id)
      have hsplit := congrArg List.length hcat
      rw [List.length_append] at hsplit
      simp only [Send.run, backlog, hq, List.length_nil]
      cases he : (readCb data (m.window id)).1.eof with
      | true =>
        have hlt : (m.bodies.filter (· ≠ id)).length < m.bodies.length :=
          List.length_filter_lt_length_iff_exists.2 ⟨id, hmem, by simp⟩
        simp only [if_true]
        omega
      | false =>
        have := hmore he
        simp only [Bool.false_eq_true, if_false]
        omega

/-- nghttp2 for a peer whose bytes mean what `decode` says. -/
def nghttp2 (decode : Bytes → Arrival) : Nghttp2 Mini where
  memRecv := memRecv decode
  memSend := memSend
  submitHeaders := submit false
  submitData := submitData
  submitTrailer := submit true
  strerror n := toString n
  backlog := backlog
  drains := drains

/-! ## The contracts -/

theorem rejects (decode : Bytes → Arrival) :
    (nghttp2 decode).Rejects fun m id => id ∈ m.closed := by
  refine ⟨fun m bytes id => ?_, fun m data id => ?_, fun m data => ?_, fun m id hdrs => ?_,
    fun m id hdrs i => ?_, fun m id h => ?_, fun m id h => ?_, fun m id i => ?_, fun m id hdrs => ?_,
    fun m id hdrs i => ?_⟩ <;> simp only [nghttp2]
  · simp only [memRecv, List.mem_append, mem_closes]
  · unfold memSend
    cases m.queue with
    | cons f queue => simp [Send.run]
    | nil =>
      cases m.bodies.find? fun id => 0 < m.window id with
      | none => simp [Send.run]
      | some id => simp [Send.run]
  · unfold memSend
    cases m.queue with
    | cons f queue => exact ⟨_, rfl⟩
    | nil =>
      cases m.bodies.find? fun id => 0 < m.window id with
      | none => exact ⟨_, rfl⟩
      | some id => exact ⟨_, rfl⟩
  · unfold submit; split <;> rfl
  · unfold submit; split <;> rfl
  · simp only [submitData, h, if_false]
  · simp only [submitData, h, if_true]
  · unfold submitData; split <;> rfl
  · unfold submit; split <;> rfl
  · unfold submit; split <;> rfl

theorem reads (decode : Bytes → Arrival) : (nghttp2 decode).Reads fun m id => id ∈ m.bodies := by
  refine ⟨fun m bytes i h => (List.mem_filter.1 h).1, fun m => ?_, fun m id nv i h => ?_,
    fun m id i h => ?_, fun m id nv i h => ?_⟩
  · simp only [nghttp2, memSend]
    cases m.queue with
    | cons f queue => exact .done fun i h => (List.mem_filter.1 h).1
    | nil =>
      cases hb : m.bodies.find? fun id => 0 < m.window id with
      | none => exact .done fun i h => h
      | some id =>
        refine .pull (List.mem_of_find?_eq_some hb) fun p => .done fun i h => ?_
        cases he : p.eof with
        | true => simpa [he] using h
        | false => simpa [he] using h
  · simp only [nghttp2, submit] at h
    split at h <;> exact h
  · simp only [nghttp2, submitData] at h
    split at h
    · exact Or.inl h
    · simpa using h
  · simp only [nghttp2, submit] at h
    split at h <;> exact h

/-- What the small nghttp2 shows. -/
def flow : Flow Mini where
  window := window
  queued := queue
  unfinished m id := id ∈ m.bodies
  live m id := id ∉ m.closed
  sent := sent

theorem models_submit (endStream : Bool) (m m' : Mini) (id : StreamId) (nv : List Header)
    (h : submit endStream m id nv = (m', 0)) :
    (id ∉ m.closed → m'.queue = m.queue ++ [.headers id nv endStream]) ∧ m'.sent = m.sent ∧
      m'.bodies = m.bodies ∧ m'.closed = m.closed ∧ m'.window = m.window := by
  unfold submit at h
  split at h
  · rename_i hc; cases h; exact ⟨fun hn => absurd hc hn, rfl, rfl, rfl, rfl⟩
  · cases h; exact ⟨fun _ => rfl, rfl, rfl, rfl, rfl⟩

theorem sends (m : Mini) : flow.Sends m (memSend m) := by
  unfold memSend
  cases hq : m.queue with
  | cons f queue =>
    -- what waits goes first
    refine .frame hq (encode_ne_nil f) rfl rfl (fun id => ?_) (fun id => ?_) rfl
    · simp [flow]
    · simp [flow, ends_iff_mem_ended, not_or]
  | nil =>
    cases hb : m.bodies.find? fun id => 0 < m.window id with
    | none =>
      have hclosed : ∀ id, id ∈ m.bodies → m.window id = 0 := by
        intro id hid
        have h := List.find?_eq_none.1 hb id hid
        simpa using h
      exact .idle hq hclosed hq rfl rfl rfl
    | some id =>
      have hpos : 0 < m.window id := by simpa using List.find?_some hb
      refine .data hq (List.mem_of_find?_eq_some hb) hpos (le_refl _) fun p hp =>
        ⟨_, _, _, rfl, encode_ne_nil _, rfl, rfl, fun i => ?_, rfl, ?_⟩
      · cases p.eof <;> simp [flow]
      · simp [flow, window]; omega

theorem models (decode : Bytes → Arrival) : flow.Models (nghttp2 decode) := by
  refine ⟨fun m id nv m' h => ?_, fun m id m' h => ?_, fun m id nv m' h => ?_, fun m bytes => ?_, sends⟩
  · obtain ⟨hq, hs, hb, hc, hw⟩ := models_submit false m m' id nv h
    refine ⟨hq, hs, ?_, ?_, hw⟩ <;> simp only [flow, hb, hc]
  · simp only [nghttp2, submitData] at h
    split at h
    · cases h
    · rename_i hc
      cases h
      refine ⟨hc, rfl, rfl, fun i => ?_, rfl, rfl⟩
      simp [flow]
  · obtain ⟨hq, hs, hb, hc, hw⟩ := models_submit true m m' id nv h
    refine ⟨hq, hs, ?_, ?_, hw⟩ <;> simp only [flow, hb, hc]
  · refine ⟨rfl, fun id h => ?_, fun f h => Or.inl ?_⟩
    · exact (List.mem_filter.1 h).1
    · exact (List.mem_filter.1 h).1

end Mini

end Grpcxx
