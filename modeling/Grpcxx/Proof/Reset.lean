import Grpcxx.Proof.Demux

/-!
# A stream that is reset while its request waits

`uv::conn::write` is `noexcept`, and `session::data` throws when nghttp2 refuses the body
because the stream is closed. A batch is answered after all its events were consumed, so
the stream of a request may be closed by then.

* `Conn.write_spec`: a response is written unless its stream is closed; then the process ends.
* `job_survives_iff`: a batch never ends the process in `write` or `buffer` exactly if the
  stream of every request it returns is open when its response is written.
* `job_reset`: it ends there if the end and the close of a stream come in one batch.
-/

namespace Grpcxx

variable {σ : Type} {N : Nghttp2 σ} {closed : σ → StreamId → Prop}

/-! ## Closed streams stay closed -/

theorem Session.drained_closed (hN : N.Rejects closed) {s s' : Session σ} (h : Drained N s s')
    {id : StreamId} (hid : closed s.session id) : closed s'.session id := by
  have hstep : ∀ {s s' : Session σ} {bytes : Bytes}, pending N s = .ok bytes s' →
      closed s.session id → closed s'.session id := by
    intro s s' bytes h hid
    obtain ⟨-, rfl⟩ := pending_ok h
    rw [afterSend_eq]
    exact (hN.send _ _ id).2 (Or.inl hid)
  induction h with
  | done h => exact hstep h hid
  | more h _ _ ih => exact ih (hstep h hid)

theorem Session.wrote_closed (hN : N.Rejects closed) {resp : Response} {s s' : Session σ}
    (h : Wrote N resp s s') {id : StreamId} (hid : closed s.session id) : closed s'.session id := by
  obtain ⟨s₁, s₂, s₃, s₄, h₁, h₂, h₃, h₄, h₅⟩ := h.steps
  obtain ⟨-, rfl⟩ := submitted_eq_ok h₁
  obtain ⟨-, rfl⟩ := submitted_eq_ok h₂
  obtain ⟨-, rfl⟩ := submitted_eq_ok h₄
  have h₃' := drained_closed hN h₃ ((hN.data_closed _ _ _).2 ((hN.headers_closed _ _ _ _).2 hid))
  exact drained_closed hN h₅ ((hN.trailers_closed _ _ _ _).2 h₃')

/-! ## One response -/

/-- The response goes to the stream of the request. -/
theorem ServerBase.process_id {b : ServerBase} {req : Request} {resp : Response}
    (h : (b.process req).2 = .ok resp) : resp.id = req.id := by
  unfold process at h
  split at h
  · cases h; rfl
  · split at h
    · cases h; rfl
    · dsimp only at h
      split at h
      · cases h; rfl
      · split at h
        · cases h; rfl
        · cases h

theorem ServerBase.process_error {b : ServerBase} {req : Request} {e : Fault}
    (h : (b.process req).2 = .error e) : e = .terminate .process := by
  unfold process at h
  split at h
  · cases h
  · split at h
    · cases h
    · dsimp only at h
      split at h
      · cases h
      · split at h
        · cases h
        · cases h; rfl

namespace Uv.Conn

/-- Sending does not fail. -/
theorem fill_ok (hN : N.Rejects closed) (c : Uv.Conn σ) : ∃ c', fill N c = .ok () c' := by
  refine fill_rule (I := fun _ => True) (Q := fun r => ∃ c', r = .ok () c') ?_ ?_ ?_ trivial
  · intro d e s _ h
    obtain ⟨n, what, hn, -⟩ := Session.pending_error h
    obtain ⟨bytes, hb⟩ := hN.sends d.session.session d.session.data
    rw [hn] at hb
    cases hb
  · intro d s _ _
    exact ⟨_, rfl⟩
  · intro d bytes s _ _ _
    trivial

/-- **Writing a response** succeeds on an open stream and ends the process on a closed one. -/
theorem write_spec (hN : N.Rejects closed) (c : Uv.Conn σ) (resp : Response) :
    (¬ closed c.session.session resp.id → ∃ c', write N resp c = .ok () c') ∧
      (closed c.session.session resp.id → ∃ c', write N resp c = .error (.terminate .write) c') := by
  have hheaders : Session.headers N resp.id responseHeaders c.session = .ok () _ :=
    Session.submitted_ok (hN.headers c.session.session resp.id (Session.nv responseHeaders))
  have hsame := hN.headers_closed c.session.session resp.id (Session.nv responseHeaders) resp.id
  unfold write noexcept
  rw [bind_ok (onSession_ok hheaders)]
  generalize (N.submitHeaders c.session.session resp.id (Session.nv responseHeaders)).1 = s at hsame ⊢
  rw [← hsame]
  constructor
  · intro hopen
    have hbody : Session.submitBody N resp.id resp.bytes { c.session with session := s } = .ok () _ :=
      Session.submitted_ok (hN.data s resp.id hopen)
    obtain ⟨c₃, h₃⟩ := fill_ok hN
      { c with session := { c.session with data := resp.bytes, session := (N.submitData s resp.id).1 } }
    have htrailers : Session.trailers N resp.id (responseTrailers resp.status) c₃.session = .ok () _ :=
      Session.submitted_ok (hN.trailers c₃.session.session resp.id _)
    obtain ⟨c₅, h₅⟩ := fill_ok hN { c₃ with session := _ }
    exact ⟨c₅, by rw [bind_ok (onSession_ok hbody), bind_ok h₃, bind_ok (onSession_ok htrailers), h₅]⟩
  · intro hclosed
    have hrc : (N.submitData s resp.id).2 ≠ 0 := by
      rw [hN.data_rejected s resp.id hclosed]
      decide
    obtain ⟨why, hbody⟩ : ∃ why, Session.submitBody N resp.id resp.bytes
        { c.session with session := s } = .error (.runtime_error why) _ :=
      Session.submitted_error hrc
    exact ⟨_, by rw [bind_error (onSession_error hbody)]; rfl⟩

end Uv.Conn

/-! ## One batch -/

namespace Uv

open Serving

/-- Answering one request of a batch, when that succeeds. -/
def answered (N : Nghttp2 σ) (b : ServerBase) (c : Conn σ) (req : Request) : Option (Conn σ) :=
  match (b.process req).2 with
  | .error _ => none
  | .ok resp =>
    match Conn.write N resp c with
    | .ok () c' => some c'
    | .error _ _ => none

/-- A request that gets a response has an open stream. -/
def Answerable (closed : σ → StreamId → Prop) (b : ServerBase) (c : Conn σ) (req : Request) : Prop :=
  (∃ resp, (b.process req).2 = .ok resp) → ¬ closed c.session.session req.id

instance [∀ s id, Decidable (closed s id)] (b : ServerBase) (c : Conn σ) (req : Request) :
    Decidable (Answerable closed b c req) :=
  match h : (b.process req).2 with
  | .ok resp => decidable_of_iff (¬ closed c.session.session req.id) ⟨fun hc _ => hc, fun ha => ha ⟨resp, h⟩⟩
  | .error _ => isTrue fun ⟨resp, hresp⟩ => by
    rw [h] at hresp
    cases hresp

/-- The process is not ended by an exception that reaches `write` or `buffer`. -/
def Survives (r : EStateM.Result Fault (Serving (Conn σ)) Unit) : Prop :=
  ∀ boundary w, r = .error (.terminate boundary) w → boundary = .process

theorem survives_ok {w : Serving (Conn σ)} : Survives (.ok () w) := by
  intro boundary w' h
  cases h

theorem answer_survives_iff (hN : N.Rejects closed) (b : ServerBase) (reqs : List Request)
    (w : Serving (Conn σ)) :
    Survives (answer N b reqs w) ↔ Run.Along (answered N b) (Answerable closed b) w.conn reqs := by
  induction reqs generalizing w with
  | nil => exact ⟨fun _ => trivial, fun _ => survives_ok⟩
  | cons req reqs ih =>
    unfold answer
    cases hp : (b.process req).2 with
    | error e =>
      -- `process` itself ends the process
      have he := ServerBase.process_error hp
      have hnone : answered N b w.conn req = none := by simp only [answered, hp]
      rw [bind_error (process_error hp), Run.along_cons_none hnone]
      refine ⟨fun _ ⟨resp, h⟩ => ?_, fun _ boundary w' h => ?_⟩
      · rw [hp] at h
        cases h
      · cases h
        cases he
        rfl
    | ok resp =>
      -- the response goes to the request's stream: is that still open?
      have hid := ServerBase.process_id hp
      obtain ⟨hwritten, hended⟩ := Conn.write_spec hN w.conn resp
      rw [hid] at hwritten hended
      rw [bind_ok (process_ok hp)]
      by_cases hc : closed w.conn.session.session req.id
      · obtain ⟨c', h⟩ := hended hc
        have herr : onConn (Conn.write N resp)
            { w with acts := w.acts ++ (b.process req).1.map Act.handle } =
            .error (.terminate .write) _ := zoom_error h
        rw [bind_error herr]
        constructor
        · intro hs
          cases hs .write _ rfl
        · intro hs
          exact absurd hc (hs.1 ⟨resp, hp⟩)
      · obtain ⟨c', h⟩ := hwritten hc
        have hok : onConn (Conn.write N resp)
            { w with acts := w.acts ++ (b.process req).1.map Act.handle } = .ok () _ := zoom_ok h
        have hsome : answered N b w.conn req = some c' := by simp only [answered, hp, h]
        have hanswerable : Answerable closed b w.conn req := fun _ => hc
        rw [bind_ok hok, ih, Run.along_cons hsome, and_iff_right hanswerable]

/-- `read` returns its requests, or throws because `session::read` did. -/
theorem read_result (hN : N.Rejects closed) (bytes : Bytes) (c : Conn σ) :
    (∃ reqs c', Conn.read N bytes c = .ok reqs c') ∨
      (N.memRecv c.session.session bytes).error ≠ none ∧
        ∃ why c', Conn.read N bytes c = .error (.runtime_error why) c' := by
  unfold Conn.read
  cases h : Session.read N bytes c.session with
  | ok evs s =>
    obtain ⟨c', h'⟩ := Conn.fill_ok hN
      { c with session := s, streams := (evs.foldl onEvent (c.streams, [])).1 }
    refine Or.inl ⟨(evs.foldl onEvent (c.streams, [])).2, c', ?_⟩
    rw [bind_ok (Conn.onSession_ok h), get_bind, set_bind, bind_ok h']
    rfl
  | error e s =>
    obtain ⟨hfailed, why, rfl⟩ := Session.read_error h
    exact Or.inr ⟨hfailed, why, _, bind_error (Conn.onSession_error h)⟩

theorem job_ok {b : ServerBase} {bytes : Bytes} {w : Serving (Conn σ)} {reqs : List Request}
    {c : Conn σ} (h : Conn.read N bytes w.conn = .ok reqs c) :
    job N b bytes w =
      answer N b reqs { conn := c, acts := w.acts ++ readActs N bytes w.conn.session } := by
  unfold job
  have hread : onConn (Conn.read N bytes) { w with acts := w.acts ++ readActs N bytes w.conn.session } =
      .ok reqs _ := zoom_ok h
  rw [get_bind, act_bind, bind_ok hread]

theorem job_error {b : ServerBase} {bytes : Bytes} {w : Serving (Conn σ)} {e : Fault} {c : Conn σ}
    (h : Conn.read N bytes w.conn = .error e c) :
    job N b bytes w = .error e { conn := c, acts := w.acts ++ readActs N bytes w.conn.session } := by
  unfold job
  have hread : onConn (Conn.read N bytes) { w with acts := w.acts ++ readActs N bytes w.conn.session } =
      .error e _ := zoom_error h
  rw [get_bind, act_bind, bind_error hread]

/-- **A batch that peers cannot end the process with.** The job of a batch stays clear of
`std::terminate` in `write` and `buffer` if and only if the stream of every request is open
when its response is written. -/
theorem job_survives_iff (hN : N.Rejects closed) (b : ServerBase) (bytes : Bytes)
    (w : Serving (Conn σ)) :
    Survives (job N b bytes w) ↔ ∀ reqs c, Conn.read N bytes w.conn = .ok reqs c →
      Run.Along (answered N b) (Answerable closed b) c reqs := by
  rcases read_result hN bytes w.conn with ⟨reqs, c, h⟩ | ⟨-, why, c, h⟩
  · rw [job_ok h, answer_survives_iff hN]
    refine ⟨fun hs reqs' c' h' => ?_, fun hs => hs reqs c h⟩
    rw [h] at h'
    cases h'
    exact hs
  · rw [job_error h]
    refine ⟨fun _ reqs c' h' => ?_, fun _ boundary w' h' => ?_⟩
    · rw [h] at h'; cases h'
    · cases h'

/-! ## End and close in one batch -/

/-- A closed stream among the requests still to be answered. -/
theorem not_along_of_closed (hN : N.Rejects closed) {b : ServerBase}
    (hb : ∀ req, ∃ resp, (b.process req).2 = .ok resp) {id : StreamId} {reqs : List Request}
    {c : Conn σ} (hreq : ∃ req ∈ reqs, req.id = id) (hid : closed c.session.session id) :
    ¬ Run.Along (answered N b) (Answerable closed b) c reqs := by
  induction reqs generalizing c with
  | nil => obtain ⟨req, h, -⟩ := hreq; cases h
  | cons r reqs ih =>
    rintro ⟨hguard, hrest⟩
    obtain ⟨resp, hp⟩ := hb r
    have hopen := hguard ⟨resp, hp⟩
    obtain ⟨c', hc'⟩ := (Conn.write_spec hN c resp).1 (by rwa [ServerBase.process_id hp])
    obtain ⟨req, hmem, rfl⟩ := hreq
    rcases List.mem_cons.1 hmem with rfl | hmem
    · exact hopen hid
    · -- writing other responses does not open it again
      exact ih ⟨req, hmem, rfl⟩ (Session.wrote_closed hN (Conn.write_wrote hc').1 hid)
        (hrest c' (by simp only [answered, hp, hc']))

/-- **A peer can end the process.** If one batch has the END_STREAM frame of a stream and its
close, the job ends in `std::terminate`, unless a handler did so before. -/
theorem job_reset (hN : N.Rejects closed) {b : ServerBase}
    (hb : ∀ req, ∃ resp, (b.process req).2 = .ok resp) {bytes : Bytes} {w : Serving (Conn σ)}
    (hkeyed : Keyed w.conn.streams) {id : StreamId} (hpos : 0 < id)
    (hok : (N.memRecv w.conn.session.session bytes).error = none)
    (hend : ∃ cb ∈ (N.memRecv w.conn.session.session bytes).callbacks,
      cb.endsStream = true ∧ cb.stream_id = id)
    (hclose : ∃ code, Callback.stream_close id code ∈
      (N.memRecv w.conn.session.session bytes).callbacks) :
    ¬ Survives (job N b bytes w) := by
  rw [job_survives_iff hN]
  intro h
  rcases read_result hN bytes w.conn with ⟨reqs, c, hread⟩ | ⟨hfailed, -⟩
  · have hrecv : Backend.uv.receive N (fun _ => .completed) bytes w.conn = .ok reqs c := hread
    obtain ⟨evs, t, hevs, -, hreqs, hdrained⟩ := Backend.receive_ok hrecv
    obtain ⟨-, rfl, rfl⟩ := Session.read_ok hevs
    have hclosed : closed c.session.session id :=
      Session.drained_closed hN hdrained ((hN.recv _ bytes id).2 (Or.inr hclose))
    refine not_along_of_closed hN hb ?_ hclosed (h reqs c hread)
    -- the end of the stream is among the events, so its request is returned
    obtain ⟨cb, hcb, hcbEnds⟩ := hend
    have hcount : 0 < reqs.countP fun r => r.id = id := by
      rw [hreqs, countP_foldl_onEvent hkeyed, List.countP_append, Demux.countP_ends_emitted,
        if_pos hpos]
      have : 0 < (N.memRecv (Backend.uv.session w.conn).session bytes).callbacks.countP
          fun cb => cb.endsStream && cb.stream_id = id :=
        List.countP_pos_iff.2 ⟨cb, hcb, by simpa using hcbEnds⟩
      omega
    obtain ⟨req, hreq, hid⟩ := List.countP_pos_iff.1 hcount
    exact ⟨req, hreq, by simpa using hid⟩
  · exact hfailed hok

/-- A request that is reset by its client in the same segment. -/
def resetAtOnce : Bytes → Arrival := fun _ =>
  { callbacks := [.header 1 (lit ":method") (lit "POST"), .header 1 (lit ":path") (lit "/a/b"),
      .frame_recv 1 0x05, .stream_close 1 8] }

/-- Two requests, and the reset of a third stream. -/
def resetElsewhere : Bytes → Arrival := fun _ =>
  { callbacks := [.header 1 (lit ":path") (lit "/a/b"), .frame_recv 1 0x05, .header 3 (lit ":path") (lit "/a/c"),
      .frame_recv 3 0x05, .header 5 (lit ":path") (lit "/a/b"), .stream_close 5 8] }

/-- The reset of a stream that is answered, and one of another. -/
theorem job_survives_reset :
    ¬ Survives (job (Mini.nghttp2 resetAtOnce) {} [0x00] { conn := Backend.uv.fresh {} }) ∧
      Survives (job (Mini.nghttp2 resetElsewhere) {} [0x00] { conn := Backend.uv.fresh {} }) := by
  have hread : ∀ decode : Bytes → Arrival, ∀ met : Bool,
      (match Conn.read (Mini.nghttp2 decode) [0x00] (Backend.uv.fresh {}) with
        | .ok reqs c => some (decide (Run.Along (answered (Mini.nghttp2 decode) {})
            (Answerable (fun m id => id ∈ m.closed) {}) c reqs))
        | .error _ _ => none) = some met →
      (Survives (job (Mini.nghttp2 decode) {} [0x00] { conn := Backend.uv.fresh {} }) ↔ met = true) := by
    intro decode met h
    rw [job_survives_iff (Mini.rejects decode)]
    cases hr : Conn.read (Mini.nghttp2 decode) [0x00] (Backend.uv.fresh {}) with
    | ok reqs c =>
      rw [hr] at h
      rw [← Option.some.inj h, decide_eq_true_iff]
      refine ⟨fun hall => hall reqs c rfl, fun hone reqs' c' h' => ?_⟩
      cases h'
      exact hone
    | error e c =>
      rw [hr] at h
      cases h
  refine ⟨fun hs => ?_, (hread resetElsewhere true (by decide +kernel)).2 rfl⟩
  cases (hread resetAtOnce false (by decide +kernel)).1 hs

theorem job_survives_fails :
    ¬ ∀ (σ : Type) (N : Nghttp2 σ) (closed : σ → StreamId → Prop), N.Rejects closed →
      ∀ (b : ServerBase) (bytes : Bytes) (w : Serving (Conn σ)), Survives (job N b bytes w) := by
  intro h
  have hb : ∀ req, ∃ resp, (({} : ServerBase).process req).2 = .ok resp := by
    intro req
    unfold ServerBase.process
    split
    · exact ⟨_, rfl⟩
    · exact ⟨_, rfl⟩
  have hreset : ¬ Survives (job (Mini.nghttp2 resetAtOnce) {} [0x00] { conn := Backend.uv.fresh {} }) := by
    have hpos : (0 : StreamId) < 1 := by decide
    refine job_reset (Mini.rejects resetAtOnce) hb ?_ hpos rfl ?_ ?_
    · intro id r hr
      cases hr
    · exact ⟨.frame_recv 1 0x05, by decide, by decide, rfl⟩
    · exact ⟨8, by decide⟩
  exact hreset (h Mini _ _ (Mini.rejects resetAtOnce) {} [0x00] _)

end Uv

end Grpcxx
