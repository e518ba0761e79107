import Grpcxx.Proof.Turns

/-!
# What a connection's session is driven through

Whatever the backend, a chunk that is read puts the session through the same operations:
the read, a drain, and for each response headers, data, a drain, trailers and a drain.
`Faultless` says so of inputs on which no call of nghttp2 fails, and where that leaves the session.
Both backends then go there, and hand over all that the session produces on the way: uv into
its buffer and once a turn to the socket, asio piece by piece.

* `Uv.serve_of_faultless`, `Asio.serve_of_faultless`: each backend follows the operations.
* `Uv.faultless_of_serve`: inputs on which a run of the code shows no failure are of this kind.
-/

namespace Grpcxx

open Serving

/-! ## Operations -/

/-- An operation on a connection's session. -/
inductive Operation
  | read (bytes : Bytes)
  | drain
  | headers (id : StreamId) (hdrs : List Header)
  | data (id : StreamId) (bytes : Bytes)
  | trailers (id : StreamId) (hdrs : List Header)
  deriving DecidableEq, Repr

/-- The operations that write a response. -/
def Response.operations (resp : Response) : List Operation :=
  [.headers resp.id responseHeaders, .data resp.id resp.bytes, .drain,
    .trailers resp.id (responseTrailers resp.status), .drain]

/-- The operations of a chunk and of the responses to the requests that it completes. -/
def operations (bytes : Bytes) (resps : List Response) : List Operation :=
  .read bytes :: .drain :: resps.flatMap Response.operations

variable {σ : Type} {N : Nghttp2 σ} {b : ServerBase}

/-- The operation succeeds. -/
def Operation.Takes (N : Nghttp2 σ) : Operation → Session σ → Session σ → Prop
  | read bytes, s, s' => ∃ evs, Session.read N bytes s = .ok evs s'
  | drain, s, s' => Session.Drained N s s'
  | headers id hdrs, s, s' => Session.headers N id hdrs s = .ok () s'
  | data id bytes, s, s' => Session.submitBody N id bytes s = .ok () s'
  | trailers id hdrs, s, s' => Session.trailers N id hdrs s = .ok () s'

/-- The operations succeed, one after the other. -/
inductive Drives (N : Nghttp2 σ) : List Operation → Session σ → Session σ → Prop
  | nil (s : Session σ) : Drives N [] s s
  | cons {op : Operation} {ops : List Operation} {s s' s'' : Session σ} (h : op.Takes N s s')
      (hs : Drives N ops s' s'') : Drives N (op :: ops) s s''

theorem drives_cons {op : Operation} {ops : List Operation} {s s'' : Session σ} :
    Drives N (op :: ops) s s'' ↔ ∃ s', op.Takes N s s' ∧ Drives N ops s' s'' := by
  constructor
  · intro h
    cases h with
    | cons h hs => exact ⟨_, h, hs⟩
  · rintro ⟨s', h, hs⟩
    exact .cons h hs

theorem drives_append {ops ops' : List Operation} {s s'' : Session σ} :
    Drives N (ops ++ ops') s s'' ↔ ∃ s', Drives N ops s s' ∧ Drives N ops' s' s'' := by
  induction ops generalizing s with
  | nil =>
    constructor
    · exact fun h => ⟨s, .nil s, h⟩
    · rintro ⟨s', h, hs⟩
      cases h
      exact hs
  | cons op ops ih =>
    rw [List.cons_append, drives_cons]
    constructor
    · rintro ⟨t, h, hs⟩
      obtain ⟨s', hops, hops'⟩ := ih.1 hs
      exact ⟨s', .cons h hops, hops'⟩
    · rintro ⟨s', hops, hops'⟩
      obtain ⟨t, h, hs⟩ := drives_cons.1 hops
      exact ⟨t, h, ih.2 ⟨s', hs, hops'⟩⟩

/-- Writing a response is these operations. -/
theorem drives_operations {resp : Response} {s s' : Session σ} :
    Drives N resp.operations s s' ↔ Session.Wrote N resp s s' := by
  constructor
  · intro h
    obtain ⟨s₁, h₁, h⟩ := drives_cons.1 h
    obtain ⟨s₂, h₂, h⟩ := drives_cons.1 h
    obtain ⟨s₃, h₃, h⟩ := drives_cons.1 h
    obtain ⟨s₄, h₄, h⟩ := drives_cons.1 h
    obtain ⟨s₅, h₅, h⟩ := drives_cons.1 h
    cases h
    exact ⟨s₁, s₂, s₃, s₄, h₁, h₂, h₃, h₄, h₅⟩
  · rintro ⟨s₁, s₂, s₃, s₄, h₁, h₂, h₃, h₄, h₅⟩
    exact .cons h₁ (.cons h₂ (.cons h₃ (.cons h₄ (.cons h₅ (.nil _)))))

/-- What the requests are answered with. -/
def Answered (b : ServerBase) (reqs : List Request) (resps : List Response) : Prop :=
  List.Forall₂ (fun req resp => (b.process req).2 = .ok resp) reqs resps

/-- **Inputs on which no call of nghttp2 fails**, from a session and a stream table to others: the
chunks that are read before the connection ends, each with the responses that it leads to. -/
inductive Faultless (N : Nghttp2 σ) (b : ServerBase) :
    List Input → Session σ × Streams → List (Bytes × List Response) → Session σ × Streams → Prop
  | nil (st : Session σ × Streams) : Faultless N b [] st [] st
  | eos (ins : List Input) (st : Session σ × Streams) : Faultless N b (.eos :: ins) st [] st
  | error (ins : List Input) (st : Session σ × Streams) : Faultless N b (.error :: ins) st [] st
  /-- a read that returns nothing -/
  | empty {ins : List Input} {st st' : Session σ × Streams} {batches : List (Bytes × List Response)}
      (rest : Faultless N b ins st batches st') : Faultless N b (.bytes [] :: ins) st batches st'
  | chunk {x : UInt8} {bytes : Bytes} {ins : List Input} {s t s' : Session σ} {streams : Streams}
      {evs : List Event} {resps : List Response} {batches : List (Bytes × List Response)}
      {st' : Session σ × Streams} (hread : Session.read N (x :: bytes) s = .ok evs t)
      (hresps : Answered b (evs.foldl onEvent (streams, [])).2 resps)
      (hdrives : Drives N (.drain :: resps.flatMap Response.operations) t s')
      (rest : Faultless N b ins (s', (evs.foldl onEvent (streams, [])).1) batches st') :
      Faultless N b (.bytes (x :: bytes) :: ins) (s, streams) ((x :: bytes, resps) :: batches) st'

/-- The first of the inputs are of this kind too. -/
theorem Faultless.prefix {ins ins' : List Input} {st st' : Session σ × Streams}
    {batches : List (Bytes × List Response)} (h : Faultless N b ins st batches st') (hp : ins' <+: ins) :
    ∃ batches' st'', Faultless N b ins' st batches' st'' := by
  induction h generalizing ins' with
  | nil st =>
    rw [List.prefix_nil.1 hp]
    exact ⟨_, _, .nil st⟩
  | eos ins st =>
    rcases List.prefix_cons_iff.1 hp with rfl | ⟨rest, rfl, -⟩
    · exact ⟨_, _, .nil st⟩
    · exact ⟨_, _, .eos rest st⟩
  | error ins st =>
    rcases List.prefix_cons_iff.1 hp with rfl | ⟨rest, rfl, -⟩
    · exact ⟨_, _, .nil st⟩
    · exact ⟨_, _, .error rest st⟩
  | empty _ ih =>
    rcases List.prefix_cons_iff.1 hp with rfl | ⟨rest, rfl, hrest⟩
    · exact ⟨_, _, .nil _⟩
    · obtain ⟨batches', st'', hf⟩ := ih hrest
      exact ⟨_, _, .empty hf⟩
  | chunk hread hresps hdrives _ ih =>
    rcases List.prefix_cons_iff.1 hp with rfl | ⟨rest, rfl, hrest⟩
    · exact ⟨_, _, .nil _⟩
    · obtain ⟨batches', st'', hf⟩ := ih hrest
      exact ⟨_, _, .chunk hread hresps hdrives hf⟩

/-! ## libuv -/

namespace Uv

variable {results : ℕ → WriteResult}

/-- `buffer()` drains the session. -/
theorem Conn.fill_of_drained {c : Conn σ} {s' : Session σ} (h : Session.Drained N c.session s') :
    ∃ c', Conn.fill N c = .ok () c' ∧ c'.session = s' := by
  generalize hs : c.session = s at h
  induction h generalizing c with
  | @done s s' h =>
    subst hs
    refine ⟨{ c with session := s' }, ?_, rfl⟩
    rw [Conn.fill_eq, Conn.onSession_ok h]
    rfl
  | @more s t s' bytes h hne _ ih =>
    subst hs
    obtain ⟨c', hc', hs'⟩ := @ih { c with session := t, buffer := c.buffer ++ bytes } rfl
    refine ⟨c', ?_, hs'⟩
    rw [Conn.fill_eq, Conn.onSession_ok h]
    have hempty : ¬ bytes.isEmpty = true := by simpa using hne
    show (if bytes.isEmpty = true then _ else _) = _
    rw [if_neg hempty]
    exact hc'

theorem Conn.read_of_drained {bytes : Bytes} {c : Conn σ} {evs : List Event} {t s' : Session σ}
    (hread : Session.read N bytes c.session = .ok evs t) (hd : Session.Drained N t s') :
    ∃ c', Conn.read N bytes c = .ok (evs.foldl onEvent (c.streams, [])).2 c' ∧ c'.session = s' ∧
      c'.streams = (evs.foldl onEvent (c.streams, [])).1 := by
  obtain ⟨c', hfill, hs'⟩ := @Conn.fill_of_drained _ N
    { c with session := t, streams := (evs.foldl onEvent (c.streams, [])).1 } _ hd
  refine ⟨c', ?_, hs', (Conn.fill_drained hfill).2⟩
  unfold Conn.read
  rw [bind_ok (Conn.onSession_ok hread), get_bind, set_bind, bind_ok hfill]
  rfl

theorem Conn.write_of_wrote {resp : Response} {c : Conn σ} {s' : Session σ}
    (h : Session.Wrote N resp c.session s') : ∃ c', Conn.write N resp c = .ok () c' ∧ c'.session = s' := by
  obtain ⟨s₁, s₂, s₃, s₄, h₁, h₂, h₃, h₄, h₅⟩ := h
  obtain ⟨c₃, hc₃, rfl⟩ := @Conn.fill_of_drained _ N { c with session := s₂ } _ h₃
  obtain ⟨c₅, hc₅, rfl⟩ := @Conn.fill_of_drained _ N { c₃ with session := s₄ } _ h₅
  refine ⟨c₅, ?_, rfl⟩
  unfold Conn.write
  rw [noexcept_eq_ok_iff, bind_ok (Conn.onSession_ok h₁),
    bind_ok (Conn.onSession_ok (c := { c with session := s₁ }) h₂), bind_ok hc₃,
    bind_ok (Conn.onSession_ok h₄)]
  exact hc₅

theorem answer_of_answered {reqs : List Request} {resps : List Response} (hresps : Answered b reqs resps)
    {w : Serving (Conn σ)} {s' : Session σ}
    (h : Drives N (resps.flatMap Response.operations) w.conn.session s') :
    ∃ w', answer N b reqs w = .ok () w' ∧ w'.conn.session = s' := by
  induction hresps generalizing w with
  | nil =>
    cases h
    exact ⟨w, rfl, rfl⟩
  | @cons req resp reqs resps hreq _ ih =>
    rw [List.flatMap_cons] at h
    obtain ⟨s₁, hone, hrest⟩ := drives_append.1 h
    obtain ⟨c₁, hc₁, rfl⟩ := Conn.write_of_wrote (drives_operations.1 hone)
    obtain ⟨w', hw', hs'⟩ := @ih { conn := c₁, acts := w.acts ++ (b.process req).1.map .handle } hrest
    refine ⟨w', ?_, hs'⟩
    have hwrite : onConn (Conn.write N resp) { w with acts := w.acts ++ (b.process req).1.map .handle } =
        .ok () { conn := c₁, acts := w.acts ++ (b.process req).1.map .handle } := zoom_ok hc₁
    unfold answer
    rw [bind_ok (process_ok hreq), bind_ok hwrite]
    exact hw'

/-- A function takes the session through the operations of its chunk. -/
theorem job_of_drives {bytes : Bytes} {w : Serving (Conn σ)} {evs : List Event} {t s' : Session σ}
    {resps : List Response} (hread : Session.read N bytes w.conn.session = .ok evs t)
    (hresps : Answered b (evs.foldl onEvent (w.conn.streams, [])).2 resps)
    (hdrives : Drives N (.drain :: resps.flatMap Response.operations) t s') :
    ∃ w', job N b bytes w = .ok () w' ∧ w'.conn.session = s' ∧
      w'.conn.streams = (evs.foldl onEvent (w.conn.streams, [])).1 := by
  obtain ⟨s₁, hdrain, hwrites⟩ := drives_cons.1 hdrives
  obtain ⟨c₁, hc₁, rfl, hstreams⟩ := Conn.read_of_drained hread hdrain
  obtain ⟨w', hw', hs'⟩ := @answer_of_answered _ N b _ _ hresps
    { conn := c₁, acts := w.acts ++ readActs N bytes w.conn.session } _ hwrites
  refine ⟨w', ?_, hs', (answer_acts _ hw').2.trans hstreams⟩
  have hconn : onConn (Conn.read N bytes) { w with acts := w.acts ++ readActs N bytes w.conn.session } =
      .ok _ { conn := c₁, acts := w.acts ++ readActs N bytes w.conn.session } := zoom_ok hc₁
  unfold job
  rw [get_bind, act_bind, bind_ok hconn]
  exact hw'

/-- A flush that completes hands the buffer over and empties it. -/
theorem flush_of_completed (hresults : ∀ k, results k = .completed) {w : Serving (Conn σ)}
    (hw : Paid w.conn) : ∃ w', task (writing (Conn.flush results)) w = .ok () w' ∧
      w'.conn.session = w.conn.session ∧ w'.conn.streams = w.conn.streams ∧ Paid w'.conn ∧
      w'.conn.buffer = [] := by
  unfold task writing
  cases hempty : w.conn.buffer.isEmpty with
  | true =>
    rw [Conn.flush_empty hempty]
    exact ⟨w, rfl, rfl, rfl, hw, List.isEmpty_iff.1 hempty⟩
  | false =>
    rw [Conn.flush_eq hempty, hresults]
    refine ⟨_, rfl, rfl, rfl, ?_, rfl⟩
    show w.conn.session.produced = (w.conn.sock.handed ++ w.conn.buffer) ++ []
    rw [List.append_nil]
    exact hw

/-- **The uv backend follows the operations**, and has handed over all that was produced. -/
theorem serve_of_faultless (hresults : ∀ k, results k = .completed) {ins : List Input}
    {st st' : Session σ × Streams} {batches : List (Bytes × List Response)}
    (h : Faultless N b ins st batches st') {w : Serving (Conn σ)} (hsession : w.conn.session = st.1)
    (hstreams : w.conn.streams = st.2) (hpaid : Paid w.conn) (hbuffer : w.conn.buffer = []) :
    ∃ w', serve N b results ins w = .ok () w' ∧ w'.conn.session = st'.1 ∧ w'.conn.streams = st'.2 ∧
      Paid w'.conn ∧ w'.conn.buffer = [] := by
  induction h generalizing w with
  | nil st => exact ⟨w, rfl, hsession, hstreams, hpaid, hbuffer⟩
  | eos ins st => exact ⟨w, rfl, hsession, hstreams, hpaid, hbuffer⟩
  | error ins st => exact ⟨w, rfl, hsession, hstreams, hpaid, hbuffer⟩
  | empty _ ih => exact ih hsession hstreams hpaid hbuffer
  | @chunk x bytes ins s t s' streams evs resps batches st' hread hresps hdrives _ ih =>
    have hread' : Session.read N (x :: bytes) w.conn.session = .ok evs t := by
      rw [hsession]
      exact hread
    have hresps' : Answered b (evs.foldl onEvent (w.conn.streams, [])).2 resps := by
      rw [hstreams]
      exact hresps
    obtain ⟨w₁, hjob, hs₁, hstreams₁⟩ := job_of_drives hread' hresps' hdrives
    have hpaid₁ : Outcome (fun _ w' => Paid w'.conn) (fun w' => Paid w'.conn) (job N b (x :: bytes) w) :=
      job_paid (x :: bytes) w hpaid
    rw [hjob] at hpaid₁
    obtain ⟨w₂, hflush, hs₂, hstreams₂, hpaid₂, hbuffer₂⟩ := flush_of_completed hresults hpaid₁
    have htask : task (job N b (x :: bytes)) w = .ok () w₁ := by
      unfold task
      rw [hjob]
    have hturn : turn N b results (x :: bytes) w = .ok () w₂ := by
      unfold turn
      rw [bind_ok htask, hflush]
    obtain ⟨w', hserve, hrest⟩ := ih (hs₂.trans hs₁)
      ((hstreams₂.trans hstreams₁).trans (by rw [hstreams])) hpaid₂ hbuffer₂
    refine ⟨w', ?_, hrest⟩
    unfold serve
    rw [bind_ok hturn]
    exact hserve

/-! ### From a run to the operations -/

theorem answered_of_answer (reqs : List Request) {w w' : Serving (Conn σ)}
    (h : answer N b reqs w = .ok () w') : ∃ resps, Answered b reqs resps ∧
      Drives N (resps.flatMap Response.operations) w.conn.session w'.conn.session := by
  induction reqs generalizing w with
  | nil =>
    cases h
    exact ⟨[], .nil, .nil _⟩
  | cons req reqs ih =>
    unfold answer at h
    obtain ⟨resp, w₁, h₁, h⟩ := bind_eq_ok_iff.1 h
    obtain ⟨_, w₂, h₂, h⟩ := bind_eq_ok_iff.1 h
    obtain ⟨resps, hresps, hdrives⟩ := ih h
    obtain ⟨hreq, rfl⟩ := process_eq_ok h₁
    obtain ⟨c, hc, rfl⟩ := zoom_eq_ok_iff.1 h₂
    refine ⟨resp :: resps, .cons hreq hresps, ?_⟩
    rw [List.flatMap_cons]
    exact drives_append.2 ⟨c.session, drives_operations.2 (Conn.write_wrote hc).1, hdrives⟩

/-- **A run that shows no failure** is one on such inputs. -/
theorem faultless_of_serve (ins : List Input) {w w' : Serving (Conn σ)}
    (h : serve N b results ins w = .ok () w') (hun : Unfailed w'.acts) :
    ∃ batches st', Faultless N b ins (w.conn.session, w.conn.streams) batches st' := by
  induction ins generalizing w with
  | nil => exact ⟨_, _, .nil _⟩
  | cons i ins ih =>
    cases i with
    | eos => exact ⟨_, _, .eos _ _⟩
    | error => exact ⟨_, _, .error _ _⟩
    | bytes bytes =>
      cases bytes with
      | nil =>
        obtain ⟨batches, st', hrest⟩ := ih h
        exact ⟨_, _, .empty hrest⟩
      | cons x bytes =>
        obtain ⟨_, w₂, hturn, hserve⟩ := bind_eq_ok_iff.1 h
        have hun₂ : Unfailed w₂.acts := serve_unfailed hserve hun
        obtain ⟨_, w₁, hjob, hflush⟩ := bind_eq_ok_iff.1 hturn
        rcases task_ok hflush with hflush | ⟨e, hflush, -⟩
        · obtain ⟨c₂, hc₂, rfl⟩ := writing_ok hflush
          rcases task_ok hjob with hjob | ⟨e, hjob, he⟩
          · -- nothing was thrown: each part of the function has succeeded
            unfold job at hjob
            rw [get_bind, act_bind] at hjob
            obtain ⟨reqs, w₃, h₃, hanswer⟩ := bind_eq_ok_iff.1 hjob
            obtain ⟨c₃, hc₃, rfl⟩ := zoom_eq_ok_iff.1 h₃
            have hreceive : Backend.uv.receive N results (x :: bytes) w.conn = .ok reqs c₃ := hc₃
            obtain ⟨evs, t, hread, hstreams, rfl, hdrained⟩ := Backend.receive_ok hreceive
            obtain ⟨resps, hresps, hdrives⟩ := answered_of_answer _ hanswer
            obtain ⟨batches, st', hrest⟩ := ih hserve
            obtain ⟨hsession, hkept⟩ := Conn.flush_ok hc₂
            have hsame : c₂.streams = (evs.foldl onEvent (w.conn.streams, [])).1 :=
              (hkept.trans (answer_acts _ hanswer).2).trans hstreams
            dsimp only at hrest
            rw [hsession, hsame] at hrest
            exact ⟨_, _, .chunk hread hresps (.cons hdrained hdrives) hrest⟩
          · exact absurd (show Unfailed w₁.acts from hun₂) (job_throws hjob he)
        · exact absurd hun₂ (writing_error hflush)

end Uv

/-! ## Asio -/

/-- A read that returns bytes, or the end of the stream or an error: asio reports no other. -/
def Input.present : Input → Bool
  | .bytes [] => false
  | .bytes (_ :: _) | .eos | .error => true

namespace Asio

variable {results : ℕ → WriteResult}

/-- The connection goes on, with all that was produced handed over. -/
def Open (c : Conn σ) : Prop := Paid c ∧ c.eos = false

/-- `write()` drains the session. -/
theorem Conn.writePending_of_drained (hresults : ∀ k, results k = .completed) {c : Conn σ}
    {s' : Session σ} (h : Session.Drained N c.session s') :
    ∃ c', Conn.writePending N results c = .ok () c' ∧ c'.session = s' := by
  generalize hs : c.session = s at h
  induction h generalizing c with
  | @done s s' h =>
    subst hs
    have hpending : Conn.onSession (Session.pending N) c = .ok [] { c with session := s' } := zoom_ok h
    refine ⟨{ c with session := s' }, ?_, rfl⟩
    rw [Conn.writePending_eq, hpending]
    rfl
  | @more s t s' bytes h hne _ ih =>
    subst hs
    have hpending : Conn.onSession (Session.pending N) c = .ok bytes { c with session := t } := zoom_ok h
    have hsend : Conn.send results bytes { c with session := t } =
        .ok () { c with
          session := t
          sock := { handed := c.sock.handed ++ bytes, writes := c.sock.writes + 1 } } := by
      apply zoom_ok
      simp only [Socket.write, hresults]
    obtain ⟨c', hc', hs'⟩ := @ih { c with
      session := t
      sock := { handed := c.sock.handed ++ bytes, writes := c.sock.writes + 1 } } rfl
    refine ⟨c', ?_, hs'⟩
    have hempty : ¬ bytes.isEmpty = true := by simpa using hne
    rw [Conn.writePending_eq, hpending]
    show (if bytes.isEmpty = true then _ else _) = _
    rw [if_neg hempty, hsend]
    exact hc'

theorem Conn.write_of_wrote (hresults : ∀ k, results k = .completed) {resp : Response} {c : Conn σ}
    {s' : Session σ} (h : Session.Wrote N resp c.session s') :
    ∃ c', Conn.write N results resp c = .ok () c' ∧ c'.session = s' := by
  obtain ⟨s₁, s₂, s₃, s₄, h₁, h₂, h₃, h₄, h₅⟩ := h
  have hheaders : Conn.onSession (Session.headers N resp.id responseHeaders) c =
      .ok () { c with session := s₁ } := zoom_ok h₁
  have hbody : Conn.onSession (Session.submitBody N resp.id resp.bytes) { c with session := s₁ } =
      .ok () { c with session := s₂ } := zoom_ok h₂
  obtain ⟨c₃, hc₃, rfl⟩ := @Conn.writePending_of_drained _ N _ hresults { c with session := s₂ } _ h₃
  have htrailers : Conn.onSession (Session.trailers N resp.id (responseTrailers resp.status)) c₃ =
      .ok () { c₃ with session := s₄ } := zoom_ok h₄
  obtain ⟨c₅, hc₅, rfl⟩ := @Conn.writePending_of_drained _ N _ hresults { c₃ with session := s₄ } _ h₅
  refine ⟨c₅, ?_, rfl⟩
  unfold Conn.write
  rw [bind_ok hheaders, bind_ok hbody, bind_ok hc₃, bind_ok htrailers]
  exact hc₅

theorem answer_of_answered (hresults : ∀ k, results k = .completed) {reqs : List Request}
    {resps : List Response} (hresps : Answered b reqs resps) {w : Serving (Conn σ)} {s' : Session σ}
    (hw : Open w.conn) (h : Drives N (resps.flatMap Response.operations) w.conn.session s') :
    ∃ w', answer N b results reqs w = .ok () w' ∧ w'.conn.session = s' ∧
      w'.conn.streams = w.conn.streams ∧ Open w'.conn := by
  induction hresps generalizing w with
  | nil =>
    cases h
    exact ⟨w, rfl, rfl, rfl, hw⟩
  | @cons req resp reqs resps hreq _ ih =>
    rw [List.flatMap_cons] at h
    obtain ⟨s₁, hone, hrest⟩ := drives_append.1 h
    obtain ⟨c₁, hc₁, rfl⟩ := Conn.write_of_wrote hresults (drives_operations.1 hone)
    have hopen : Outcome (fun _ c' => Open c') Owed (Conn.write N results resp w.conn) :=
      write_outcome resp hw.1 false hw.2
    rw [hc₁] at hopen
    obtain ⟨w', hw', hs', hstreams, hopen'⟩ :=
      @ih { conn := c₁, acts := w.acts ++ (b.process req).1.map .handle } hopen hrest
    refine ⟨w', ?_, hs', hstreams.trans (Conn.write_wrote hc₁).2, hopen'⟩
    have hwrite : writing (Conn.write N results resp)
        { w with acts := w.acts ++ (b.process req).1.map .handle } =
          .ok () { conn := c₁, acts := w.acts ++ (b.process req).1.map .handle } := by
      unfold writing
      rw [show Conn.write N results resp w.conn = .ok () c₁ from hc₁]
    have heos : ¬ w.conn.eos = true := by simp [hw.2]
    unfold answer
    rw [get_bind, if_neg heos, bind_ok (process_ok hreq), bind_ok hwrite]
    exact hw'

/-- `reqs()` takes the session through the read of a chunk and the drain after it. -/
theorem reqs_of_drained (hresults : ∀ k, results k = .completed) {bytes : Bytes} {w : Serving (Conn σ)}
    {evs : List Event} {t s' : Session σ} (hw : Open w.conn)
    (hread : Session.read N bytes w.conn.session = .ok evs t) (hd : Session.Drained N t s') :
    ∃ w', Asio.reqs N results (.bytes bytes) w = .ok (evs.foldl onEvent (w.conn.streams, [])).2 w' ∧
      w'.conn.session = s' ∧ w'.conn.streams = (evs.foldl onEvent (w.conn.streams, [])).1 ∧
      Open w'.conn := by
  obtain ⟨c', hc', hs'⟩ := @Conn.writePending_of_drained _ N _ hresults
    { w.conn with session := t, streams := (evs.foldl onEvent (w.conn.streams, [])).1 } _ hd
  have hpaid : Paid { w.conn with session := t, streams := (evs.foldl onEvent (w.conn.streams, [])).1 } := by
    have hsilent := silent_read (N := N) bytes w.conn.session
    rw [hread] at hsilent
    exact Eq.trans hsilent hw.1
  have hopen : Outcome (fun _ c' => Open c') Owed (Conn.writePending N results
      { w.conn with session := t, streams := (evs.foldl onEvent (w.conn.streams, [])).1 }) :=
    writePending_outcome hpaid false hw.2
  rw [hc'] at hopen
  refine ⟨{ conn := c', acts := w.acts ++ readActs N bytes w.conn.session }, ?_, hs',
    (Conn.writePending_drained hc').2, hopen⟩
  have hconn : onConn (Conn.read N bytes) { w with acts := w.acts ++ readActs N bytes w.conn.session } =
      .ok (evs.foldl onEvent (w.conn.streams, [])).2
        { conn := { w.conn with session := t, streams := (evs.foldl onEvent (w.conn.streams, [])).1 },
          acts := w.acts ++ readActs N bytes w.conn.session } := zoom_ok (Conn.read_ok hread)
  have hwrite : writing (Conn.writePending N results)
      { conn := { w.conn with session := t, streams := (evs.foldl onEvent (w.conn.streams, [])).1 },
        acts := w.acts ++ readActs N bytes w.conn.session } =
      .ok () { conn := c', acts := w.acts ++ readActs N bytes w.conn.session } := by
    unfold writing
    rw [hc']
  unfold Asio.reqs
  dsimp only
  rw [hconn]
  show (writing (Conn.writePending N results) >>= fun _ => pure _) _ = _
  rw [bind_ok hwrite]
  rfl

/-- After the end of the stream the loop ends, whatever else there is. -/
theorem serve_ended {ins : List Input} {w : Serving (Conn σ)} (hw : w.conn.eos = true) :
    serve N b results ins w = .ok () w := by
  cases ins with
  | nil => rfl
  | cons i ins =>
    unfold serve
    rw [get_bind, if_pos hw]
    rfl

/-- The end of the stream leaves the session, and what was handed over. -/
theorem serve_end (i : Input) (hi : i = .eos ∨ i = .error) (ins : List Input) {w : Serving (Conn σ)}
    (hw : w.conn.eos = false) :
    serve N b results (i :: ins) w = .ok () { w with conn := { w.conn with eos := true } } := by
  have heos : ¬ w.conn.eos = true := by simp [hw]
  have hreqs : Asio.reqs N results i w = .ok [] { w with conn := { w.conn with eos := true } } := by
    rcases hi with rfl | rfl <;> rfl
  have hanswer : answer N b results [] { w with conn := { w.conn with eos := true } } =
      .ok () { w with conn := { w.conn with eos := true } } := rfl
  unfold serve
  rw [get_bind, if_neg heos, bind_ok hreqs, bind_ok hanswer]
  exact serve_ended rfl

/-- **The asio backend follows the operations**, and has handed over all that was produced. -/
theorem serve_of_faultless (hresults : ∀ k, results k = .completed) {ins : List Input}
    {st st' : Session σ × Streams} {batches : List (Bytes × List Response)}
    (h : Faultless N b ins st batches st') {w : Serving (Conn σ)} (hsession : w.conn.session = st.1)
    (hstreams : w.conn.streams = st.2) (hw : Open w.conn) :
    ∃ w', serve N b results (ins.filter Input.present) w = .ok () w' ∧ w'.conn.session = st'.1 ∧
      w'.conn.streams = st'.2 ∧ Paid w'.conn := by
  induction h generalizing w with
  | nil st => exact ⟨w, rfl, hsession, hstreams, hw.1⟩
  | eos ins st => exact ⟨_, serve_end .eos (Or.inl rfl) _ hw.2, hsession, hstreams, hw.1⟩
  | error ins st => exact ⟨_, serve_end .error (Or.inr rfl) _ hw.2, hsession, hstreams, hw.1⟩
  | empty _ ih => exact ih hsession hstreams hw
  | @chunk x bytes ins s t s' streams evs resps batches st' hread hresps hdrives _ ih =>
    have hread' : Session.read N (x :: bytes) w.conn.session = .ok evs t := by
      rw [hsession]
      exact hread
    have hresps' : Answered b (evs.foldl onEvent (w.conn.streams, [])).2 resps := by
      rw [hstreams]
      exact hresps
    obtain ⟨s₁, hdrain, hwrites⟩ := drives_cons.1 hdrives
    obtain ⟨w₁, hreqs, rfl, hstreams₁, hopen₁⟩ := reqs_of_drained hresults hw hread' hdrain
    obtain ⟨w₂, hanswer, hs₂, hstreams₂, hopen₂⟩ := answer_of_answered hresults hresps' hopen₁ hwrites
    obtain ⟨w', hserve, hrest⟩ := ih hs₂ ((hstreams₂.trans hstreams₁).trans (by rw [hstreams])) hopen₂
    refine ⟨w', ?_, hrest⟩
    have heos : ¬ w.conn.eos = true := by simp [hw.2]
    rw [List.filter_cons_of_pos (by rfl)]
    unfold serve
    rw [get_bind, if_neg heos, bind_ok hreqs, bind_ok hanswer]
    exact hserve

end Asio

end Grpcxx
