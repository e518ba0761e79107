import Grpcxx.Model.Serve

/-!
# Calls on a session and on a connection

What each call does, for the proofs to use in place of its definition.

Both backends call `pending` until it returns nothing. nghttp2's `backlog` bounds how
often it does not (`decreases_fill`, `decreases_writePending`), so both loops end; what
holds of them is shown by `fill_rule` and `writePending_rule`, and `fill_eq` and
`writePending_eq` are the loops of the source.

* `Session.Drained`, `Session.Wrote`: what those loops and `write(resp)` do to the session.
* `Session.read_ok`: the events that `session::read` hands over.
* `Backend.call_ok`: a call of the server that succeeds, in either backend.
-/

namespace Grpcxx

variable {σ α : Type} {N : Nghttp2 σ}

/-! ## Calls on members -/

theorem zoom_eq_ok_iff {S T : Type} {get : T → S} {set : T → S → T} {f : Call S α} {t t' : T} {a : α} :
    zoom get set f t = .ok a t' ↔ ∃ s, f (get t) = .ok a s ∧ t' = set t s := by
  unfold zoom
  cases f (get t) with
  | ok b s =>
    simp only [EStateM.Result.ok.injEq]
    constructor
    · rintro ⟨h, h'⟩
      exact ⟨s, ⟨h, rfl⟩, h'.symm⟩
    · rintro ⟨s', ⟨h, hs⟩, h'⟩
      rw [hs]
      exact ⟨h, h'.symm⟩
  | error e s => simp

theorem zoom_eq_error_iff {S T : Type} {get : T → S} {set : T → S → T} {f : Call S α} {t t' : T}
    {e : Fault} :
    zoom get set f t = .error e t' ↔ ∃ s, f (get t) = .error e s ∧ t' = set t s := by
  unfold zoom
  cases f (get t) with
  | ok b s => simp
  | error e' s =>
    simp only [EStateM.Result.error.injEq]
    constructor
    · rintro ⟨h, h'⟩
      exact ⟨s, ⟨h, rfl⟩, h'.symm⟩
    · rintro ⟨s', ⟨h, hs⟩, h'⟩
      rw [hs]
      exact ⟨h, h'.symm⟩

theorem Uv.Conn.onSession_ok {f : Call (Session σ) α} {c : Uv.Conn σ} {a : α} {s : Session σ}
    (h : f c.session = .ok a s) : Uv.Conn.onSession f c = .ok a { c with session := s } :=
  zoom_ok h

theorem Uv.Conn.onSession_error {f : Call (Session σ) α} {c : Uv.Conn σ} {e : Fault} {s : Session σ}
    (h : f c.session = .error e s) : Uv.Conn.onSession f c = .error e { c with session := s } :=
  zoom_error h

/-! ## `pending` -/

/-- The session after the callbacks of a send. -/
def Session.afterSend (s : Session σ) (r : Sent σ) : Session σ :=
  r.closed.foldl (fun s c => s.streamCloseCb c.1 c.2) { s with session := r.session, data := r.data }

theorem Session.foldl_close (s : Session σ) (cs : List (StreamId × UInt32)) :
    cs.foldl (fun s c => s.streamCloseCb c.1 c.2) s =
      { s with events := s.events ++ cs.map fun c => { stream_id := c.1, type := .stream_close } } := by
  induction cs generalizing s with
  | nil => simp
  | cons c cs ih =>
    rw [List.foldl_cons, ih]
    simp only [streamCloseCb, emit, List.map_cons, List.append_assoc, List.singleton_append]

theorem Session.afterSend_eq (s : Session σ) (r : Sent σ) :
    s.afterSend r =
      { s with
        session := r.session
        data := r.data
        events := s.events ++ r.closed.map fun c => { stream_id := c.1, type := .stream_close } } :=
  Session.foldl_close _ _

theorem Session.pending_ok {s s' : Session σ} {bytes : Bytes} (h : Session.pending N s = .ok bytes s') :
    ((N.memSend s.session).run s.data).out = .ok bytes ∧
      s' = { s.afterSend ((N.memSend s.session).run s.data) with produced := s.produced ++ bytes } := by
  unfold pending at h
  simp only at h
  split at h
  · cases h
  · rename_i out hout
    cases h
    refine ⟨hout, ?_⟩
    rw [Session.foldl_close]
    rw [Session.afterSend_eq]

theorem Session.pending_error {s s' : Session σ} {e : Fault} (h : Session.pending N s = .error e s') :
    ∃ n what, ((N.memSend s.session).run s.data).out = .error n ∧ e = .runtime_error what := by
  unfold pending at h
  simp only at h
  split at h
  · rename_i n hn
    cases h
    exact ⟨n, _, hn, rfl⟩
  · cases h

/-! ## Submitting -/

theorem Session.submitted_ok {what : String} {s : Session σ} {r : σ × ℤ} (h : r.2 = 0) :
    submitted N what s r = .ok () { s with session := r.1 } := by
  simp only [submitted, h, ne_eq, not_true_eq_false, if_false]

theorem Session.submitted_error {what : String} {s : Session σ} {r : σ × ℤ} (h : r.2 ≠ 0) :
    ∃ why, submitted N what s r = .error (.runtime_error why) { s with session := r.1 } :=
  ⟨"Failed to submit " ++ what ++ ": " ++ N.strerror r.2, by simp [submitted, h]⟩

theorem Session.submitted_eq_ok {what : String} {s s' : Session σ} {r : σ × ℤ}
    (h : submitted N what s r = .ok () s') : r.2 = 0 ∧ s' = { s with session := r.1 } := by
  by_cases hr : r.2 = 0
  · rw [submitted_ok hr] at h
    cases h
    exact ⟨hr, rfl⟩
  · obtain ⟨why, hwhy⟩ : ∃ why, submitted N what s r = .error (.runtime_error why) _ :=
      submitted_error hr
    rw [hwhy] at h
    cases h

/-! ## The loops end -/

theorem Uv.decreases_fill :
    Loop.Decreases (Uv.Conn.onSession (Session.pending N)) Uv.Conn.append (Uv.Conn.backlog N) := by
  intro c bytes c' c'' h hne happ
  obtain ⟨s, hs, rfl⟩ := zoom_eq_ok_iff.1 h
  obtain ⟨hout, rfl⟩ := Session.pending_ok hs
  cases happ
  simp only [Uv.Conn.backlog, Session.afterSend_eq]
  exact N.drains _ _ _ hout hne

theorem Asio.decreases_writePending (results : ℕ → WriteResult) :
    Loop.Decreases (Asio.Conn.onSession (Session.pending N)) (Asio.Conn.send results)
      (Asio.Conn.backlog N) := by
  intro c bytes c' c'' h hne hsend
  obtain ⟨s, hs, rfl⟩ := zoom_eq_ok_iff.1 h
  obtain ⟨hout, rfl⟩ := Session.pending_ok hs
  obtain ⟨sock, -, rfl⟩ := zoom_eq_ok_iff.1 hsend
  simp only [Asio.Conn.backlog, Session.afterSend_eq]
  exact N.drains _ _ _ hout hne

/-- **`buffer()` as the source has it.** -/
theorem Uv.Conn.fill_eq (c : Uv.Conn σ) :
    Uv.Conn.fill N c =
      match Uv.Conn.onSession (Session.pending N) c with
      | .error _ c' => .error (.terminate .buffer) c'
      | .ok chunk c' =>
        if chunk.isEmpty then .ok () c'
        else Uv.Conn.fill N { c' with buffer := c'.buffer ++ chunk } := by
  have h := Loop.drain_unroll (Uv.decreases_fill (N := N)) c
  unfold fill noexcept
  simp only [h]
  cases hp : onSession (Session.pending N) c with
  | error e c' =>
    obtain ⟨s, hs, -⟩ := zoom_eq_error_iff.1 hp
    obtain ⟨-, what, -, rfl⟩ := Session.pending_error hs
    rfl
  | ok chunk c' =>
    simp only [append]
    cases chunk.isEmpty <;> rfl

/-- **`write()` as the source has it.** -/
theorem Asio.Conn.writePending_eq (results : ℕ → WriteResult) (c : Asio.Conn σ) :
    Asio.Conn.writePending N results c =
      match Asio.Conn.onSession (Session.pending N) c with
      | .error e c' => .error e c'
      | .ok chunk c' =>
        if chunk.isEmpty then .ok () c'
        else
          match Asio.Conn.send results chunk c' with
          | .error e c'' => .error e c''
          | .ok () c'' => Asio.Conn.writePending N results c'' := by
  have h := Loop.drain_unroll (Asio.decreases_writePending (N := N) results) c
  unfold writePending
  simp only [h]
  cases onSession (Session.pending N) c with
  | error e c' => rfl
  | ok chunk c' =>
    simp only
    split
    · rfl
    · cases send results chunk c' <;> rfl

/-! ## Rules for the loops -/

/-- **Rule for `buffer()`.** `I` holds before each `pending`. -/
theorem Uv.Conn.fill_rule {I : Uv.Conn σ → Prop} {Q : EStateM.Result Fault (Uv.Conn σ) Unit → Prop}
    (herr : ∀ c e s, I c → Session.pending N c.session = .error e s →
      Q (.error (.terminate .buffer) { c with session := s }))
    (hdone : ∀ c s, I c → Session.pending N c.session = .ok [] s → Q (.ok () { c with session := s }))
    (hstep : ∀ c bytes s, I c → Session.pending N c.session = .ok bytes s → bytes ≠ [] →
      I { c with session := s, buffer := c.buffer ++ bytes })
    {c : Uv.Conn σ} (hI : I c) : Q (Uv.Conn.fill N c) := by
  -- the loop itself throws what `pending` throws, and that is no `std::terminate` yet
  have hdrain : (∀ u c', Loop.drain (onSession (Session.pending N)) append (c.backlog N + 1) c = .ok u c' →
        Q (.ok () c')) ∧
      ∀ e c', Loop.drain (onSession (Session.pending N)) append (c.backlog N + 1) c = .error e c' →
        Q (.error (e.reach .buffer) c') := by
    refine Loop.drain_rule (Uv.decreases_fill (N := N)) (I := I)
      (Q := fun r => (∀ u c', r = .ok u c' → Q (.ok () c')) ∧
        ∀ e c', r = .error e c' → Q (.error (e.reach .buffer) c')) ?_ ?_ ?_ ?_ (Nat.lt_succ_self _) hI
    · intro c e c' hc h
      obtain ⟨s, hs, rfl⟩ := zoom_eq_error_iff.1 h
      refine ⟨(fun _ _ h => by cases h), fun e' c' h => ?_⟩
      cases h
      obtain ⟨-, what, -, rfl⟩ := Session.pending_error hs
      exact herr c _ s hc hs
    · intro c c' hc h
      obtain ⟨s, hs, rfl⟩ := zoom_eq_ok_iff.1 h
      refine ⟨fun u c' h => ?_, fun _ _ h => by cases h⟩
      cases h
      exact hdone c s hc hs
    · intro c bytes c' e c'' _ _ _ happ
      cases happ
    · intro c bytes c' c'' hc h hne happ
      obtain ⟨s, hs, rfl⟩ := zoom_eq_ok_iff.1 h
      cases happ
      exact hstep c bytes s hc hs hne
  exact noexcept_rule (fun u c' h => hdrain.1 u c' h) (fun e c' h => hdrain.2 e c' h)

/-- **Rule for `write()`.** `I` holds before each `pending`. -/
theorem Asio.Conn.writePending_rule {results : ℕ → WriteResult} {I : Asio.Conn σ → Prop}
    {Q : EStateM.Result Fault (Asio.Conn σ) Unit → Prop}
    (herr : ∀ c e s, I c → Session.pending N c.session = .error e s →
      Q (.error e { c with session := s }))
    (hdone : ∀ c s, I c → Session.pending N c.session = .ok [] s → Q (.ok () { c with session := s }))
    (hbad : ∀ c bytes s e sock, I c → Session.pending N c.session = .ok bytes s → bytes ≠ [] →
      Socket.write results bytes c.sock = .error e sock → Q (.error e { c with session := s, sock }))
    (hstep : ∀ c bytes s sock, I c → Session.pending N c.session = .ok bytes s → bytes ≠ [] →
      Socket.write results bytes c.sock = .ok () sock → I { c with session := s, sock })
    {c : Asio.Conn σ} (hI : I c) : Q (Asio.Conn.writePending N results c) := by
  refine Loop.drain_rule (Asio.decreases_writePending (N := N) results) (I := I) ?_ ?_ ?_ ?_
    (Nat.lt_succ_self (c.backlog N)) hI
  · intro c e c' hc h
    obtain ⟨s, hs, rfl⟩ := zoom_eq_error_iff.1 h
    exact herr c e s hc hs
  · intro c c' hc h
    obtain ⟨s, hs, rfl⟩ := zoom_eq_ok_iff.1 h
    exact hdone c s hc hs
  · intro c bytes c' e c'' hc h hne hsend
    obtain ⟨s, hs, rfl⟩ := zoom_eq_ok_iff.1 h
    obtain ⟨sock, hsock, rfl⟩ := zoom_eq_error_iff.1 hsend
    exact hbad c bytes s e sock hc hs hne hsock
  · intro c bytes c' c'' hc h hne hsend
    obtain ⟨s, hs, rfl⟩ := zoom_eq_ok_iff.1 h
    obtain ⟨sock, hsock, rfl⟩ := zoom_eq_ok_iff.1 hsend
    exact hstep c bytes s sock hc hs hne hsock

/-! ## What the loops do to the session -/

/-- `pending` until it returns nothing. -/
inductive Session.Drained (N : Nghttp2 σ) : Session σ → Session σ → Prop
  | done {s s' : Session σ} (h : Session.pending N s = .ok [] s') : Drained N s s'
  | more {s s' s'' : Session σ} {bytes : Bytes} (h : Session.pending N s = .ok bytes s')
      (hne : bytes ≠ []) (hs : Drained N s' s'') : Drained N s s''

/-- An invariant `I` of the single sends, and what it comes to when nothing is left. -/
theorem Session.Drained.rule {I Q : Session σ → Prop}
    (hstep : ∀ s s' bytes, I s → Session.pending N s = .ok bytes s' → bytes ≠ [] → I s')
    (hdone : ∀ s s', I s → Session.pending N s = .ok [] s' → Q s') {s s' : Session σ}
    (h : Session.Drained N s s') (hI : I s) : Q s' := by
  induction h with
  | done h => exact hdone _ _ hI h
  | more h hne _ ih => exact ih (hstep _ _ _ hI h hne)

theorem Uv.Conn.fill_drained {c c' : Uv.Conn σ} (h : Uv.Conn.fill N c = .ok () c') :
    Session.Drained N c.session c'.session ∧ c'.streams = c.streams := by
  -- the pieces so far, before whatever is still to come
  refine Uv.Conn.fill_rule
    (I := fun d => (∀ s, Session.Drained N d.session s → Session.Drained N c.session s) ∧
      d.streams = c.streams)
    (Q := fun r => ∀ c', r = .ok () c' → Session.Drained N c.session c'.session ∧
      c'.streams = c.streams) ?_ ?_ ?_ ⟨fun _ hs => hs, rfl⟩ c' h
  · intro d e s _ _ c' h
    cases h
  · intro d s hd hs c' h
    cases h
    exact ⟨hd.1 s (.done hs), hd.2⟩
  · intro d bytes s hd hs hne
    exact ⟨fun t ht => hd.1 t (.more hs hne ht), hd.2⟩

theorem Asio.Conn.writePending_drained {results : ℕ → WriteResult} {c c' : Asio.Conn σ}
    (h : Asio.Conn.writePending N results c = .ok () c') :
    Session.Drained N c.session c'.session ∧ c'.streams = c.streams := by
  refine Asio.Conn.writePending_rule
    (I := fun d => (∀ s, Session.Drained N d.session s → Session.Drained N c.session s) ∧
      d.streams = c.streams)
    (Q := fun r => ∀ c', r = .ok () c' → Session.Drained N c.session c'.session ∧
      c'.streams = c.streams) ?_ ?_ ?_ ?_ ⟨fun _ hs => hs, rfl⟩ c' h
  · intro d e s _ _ c' h
    cases h
  · intro d s hd hs c' h
    cases h
    exact ⟨hd.1 s (.done hs), hd.2⟩
  · intro d bytes s e sock _ _ _ _ c' h
    cases h
  · intro d bytes s sock hd hs hne _
    exact ⟨fun t ht => hd.1 t (.more hs hne ht), hd.2⟩

/-! ## `write(resp)` -/

/-- What writing a response does to the session. -/
structure Session.Wrote (N : Nghttp2 σ) (resp : Response) (s s' : Session σ) : Prop where
  steps : ∃ s₁ s₂ s₃ s₄, Session.headers N resp.id responseHeaders s = .ok () s₁ ∧
    Session.submitBody N resp.id resp.bytes s₁ = .ok () s₂ ∧ Session.Drained N s₂ s₃ ∧
    Session.trailers N resp.id (responseTrailers resp.status) s₃ = .ok () s₄ ∧
    Session.Drained N s₄ s'

theorem bind_eq_ok_iff {S α β : Type} {f : Call S α} {g : α → Call S β} {s s' : S} {b : β} :
    (f >>= g) s = .ok b s' ↔ ∃ a t, f s = .ok a t ∧ g a t = .ok b s' := by
  cases h : f s with
  | ok a t => rw [bind_ok h]; simp
  | error e t => rw [bind_error h]; simp

theorem Uv.Conn.write_wrote {resp : Response} {c c' : Uv.Conn σ}
    (h : Uv.Conn.write N resp c = .ok () c') :
    Session.Wrote N resp c.session c'.session ∧ c'.streams = c.streams := by
  unfold write at h
  obtain ⟨_, c₁, h₁, h⟩ := bind_eq_ok_iff.1 (noexcept_eq_ok_iff.1 h)
  obtain ⟨_, c₂, h₂, h⟩ := bind_eq_ok_iff.1 h
  obtain ⟨_, c₃, h₃, h⟩ := bind_eq_ok_iff.1 h
  obtain ⟨_, c₄, h₄, h₅⟩ := bind_eq_ok_iff.1 h
  obtain ⟨s₁, hs₁, rfl⟩ := zoom_eq_ok_iff.1 h₁
  obtain ⟨s₂, hs₂, rfl⟩ := zoom_eq_ok_iff.1 h₂
  obtain ⟨hd₃, ht₃⟩ := fill_drained h₃
  obtain ⟨s₄, hs₄, rfl⟩ := zoom_eq_ok_iff.1 h₄
  obtain ⟨hd₅, ht₅⟩ := fill_drained h₅
  exact ⟨⟨_, _, _, _, hs₁, hs₂, hd₃, hs₄, hd₅⟩, ht₅.trans ht₃⟩

theorem Asio.Conn.write_wrote {results : ℕ → WriteResult} {resp : Response} {c c' : Asio.Conn σ}
    (h : Asio.Conn.write N results resp c = .ok () c') :
    Session.Wrote N resp c.session c'.session ∧ c'.streams = c.streams := by
  unfold write at h
  obtain ⟨_, c₁, h₁, h⟩ := bind_eq_ok_iff.1 h
  obtain ⟨_, c₂, h₂, h⟩ := bind_eq_ok_iff.1 h
  obtain ⟨_, c₃, h₃, h⟩ := bind_eq_ok_iff.1 h
  obtain ⟨_, c₄, h₄, h₅⟩ := bind_eq_ok_iff.1 h
  obtain ⟨s₁, hs₁, rfl⟩ := zoom_eq_ok_iff.1 h₁
  obtain ⟨s₂, hs₂, rfl⟩ := zoom_eq_ok_iff.1 h₂
  obtain ⟨hd₃, ht₃⟩ := writePending_drained h₃
  obtain ⟨s₄, hs₄, rfl⟩ := zoom_eq_ok_iff.1 h₄
  obtain ⟨hd₅, ht₅⟩ := writePending_drained h₅
  exact ⟨⟨_, _, _, _, hs₁, hs₂, hd₃, hs₄, hd₅⟩, ht₅.trans ht₃⟩

/-! ## `read(bytes)` -/

namespace Callback

def stream_id : Callback → StreamId
  | header id _ _ | data_chunk_recv id _ _ | frame_recv id _ | stream_close id _ => id

/-- A frame with the END_STREAM flag. -/
def endsStream : Callback → Bool
  | frame_recv _ flags => 0 ≠ flags &&& Session.NGHTTP2_FLAG_END_STREAM
  | _ => false

/-- The events the session makes of a callback. -/
def emitted : Callback → List Event
  | header id name value => [{ stream_id := id, type := .stream_header, header := some { name, value } }]
  | data_chunk_recv id data _ => [{ data, stream_id := id, type := .stream_data }]
  | frame_recv id flags =>
    if 0 ≠ flags &&& Session.NGHTTP2_FLAG_END_STREAM then [{ stream_id := id, type := .stream_end }] else []
  | stream_close id _ => [{ stream_id := id, type := .stream_close }]

/-- Where the view of a data event starts. -/
def start : Callback → Option ℕ
  | data_chunk_recv _ _ pos => some pos
  | header _ _ _ | frame_recv _ _ | stream_close _ _ => none

theorem emitted_stream_id {cb : Callback} {ev : Event} (h : ev ∈ cb.emitted) :
    ev.stream_id = cb.stream_id := by
  cases cb with
  | frame_recv id flags =>
    simp only [emitted] at h
    split at h
    · rw [List.mem_singleton.1 h]; rfl
    · cases h
  | _ => rw [List.mem_singleton.1 h]; rfl

end Callback

theorem Session.foldl_callback (s : Session σ) (cbs : List Callback) :
    cbs.foldl Session.callback s =
      { s with
        events := s.events ++ cbs.flatMap Callback.emitted
        starts := s.starts ++ cbs.filterMap Callback.start } := by
  induction cbs generalizing s with
  | nil => simp
  | cons cb cbs ih =>
    rw [List.foldl_cons, ih, List.flatMap_cons]
    cases cb with
    | frame_recv id flags =>
      rw [List.filterMap_cons_none rfl]
      simp only [callback, frameRecvCb, emit, Callback.emitted]
      split <;> simp
    | header id name value =>
      rw [List.filterMap_cons_none rfl]
      simp [callback, headerCb, emit, Callback.emitted]
    | data_chunk_recv id data pos =>
      simp [callback, dataRecvCb, emit, Callback.emitted, Callback.start]
    | stream_close id code =>
      rw [List.filterMap_cons_none rfl]
      simp [callback, streamCloseCb, emit, Callback.emitted]

/-- What has no data shows what it did. -/
theorem reread_dataless (bytes : Bytes) (starts : List ℕ) {evs : List Event}
    (h : ∀ ev ∈ evs, ev.type ≠ .stream_data) : reread bytes starts evs = evs := by
  induction evs with
  | nil => cases starts <;> rfl
  | cons ev evs ih =>
    cases starts with
    | nil => rfl
    | cons start starts =>
      rw [reread, if_neg (h ev List.mem_cons_self), ih fun e he => h e (List.mem_cons_of_mem _ he)]

/-- What receiving bytes does to the session, up to the events it hands over. -/
theorem Session.read_ok {s s' : Session σ} {bytes : Bytes} {evs : List Event}
    (h : Session.read N bytes s = .ok evs s') :
    (N.memRecv s.session bytes).error = none ∧
      evs = reread bytes s.starts s.events ++
        (N.memRecv s.session bytes).callbacks.flatMap Callback.emitted ∧
      s' = { s with session := (N.memRecv s.session bytes).session, events := [], starts := [] } := by
  unfold read at h
  simp only [foldl_callback] at h
  split at h
  · cases h
  · rename_i hnone
    cases h
    exact ⟨hnone, rfl, rfl⟩

theorem Session.read_error {s s' : Session σ} {bytes : Bytes} {e : Fault}
    (h : Session.read N bytes s = .error e s') :
    (N.memRecv s.session bytes).error ≠ none ∧ ∃ why, e = .runtime_error why := by
  unfold read at h
  dsimp only at h
  split at h
  · rename_i n hn
    cases h
    exact ⟨by rw [hn]; exact Option.some_ne_none n, _, rfl⟩
  · cases h

/-! ## `conn::read` and `flush()` -/

theorem Asio.Conn.read_ok {bytes : Bytes} {c : Asio.Conn σ} {evs : List Event} {t : Session σ}
    (h : Session.read N bytes c.session = .ok evs t) :
    Asio.Conn.read N bytes c = .ok (evs.foldl onEvent (c.streams, [])).2
      { c with session := t, streams := (evs.foldl onEvent (c.streams, [])).1 } := by
  have hread : Asio.Conn.onSession (Session.read N bytes) c = .ok evs { c with session := t } := zoom_ok h
  unfold read
  rw [bind_ok hread]
  rfl

theorem Uv.Conn.flush_empty {results : ℕ → WriteResult} {c : Uv.Conn σ} (h : c.buffer.isEmpty = true) :
    Uv.Conn.flush results c = .ok () c := by
  unfold flush
  rw [get_bind, if_pos h]
  rfl

theorem Uv.Conn.flush_eq {results : ℕ → WriteResult} {c : Uv.Conn σ} (h : c.buffer.isEmpty = false) :
    Uv.Conn.flush results c =
      match results c.sock.writes with
      | .completed =>
        .ok () { c with sock := { handed := c.sock.handed ++ c.buffer, writes := c.sock.writes + 1 }, buffer := [] }
      | .failed why =>
        .error (.runtime_error ("Failed to write data: " ++ why))
          { c with sock := { handed := c.sock.handed ++ c.buffer, writes := c.sock.writes + 1 } }
      | .refused _ =>
        .error (.terminate .write_bytes) { c with sock := { c.sock with writes := c.sock.writes + 1 } } := by
  have hne : ¬ c.buffer.isEmpty = true := by simp [h]
  unfold flush
  rw [get_bind, if_neg hne]
  cases hr : results c.sock.writes with
  | completed =>
    have hwrite : writeBytes results c.buffer c = .ok () { c with sock :=
        { handed := c.sock.handed ++ c.buffer, writes := c.sock.writes + 1 } } := by
      simp only [writeBytes, onSock, zoom, Socket.write, hr]
    rw [bind_ok hwrite]
    rfl
  | failed why =>
    have hwrite : writeBytes results c.buffer c = .error (.runtime_error ("Failed to write data: " ++ why))
        { c with sock := { handed := c.sock.handed ++ c.buffer, writes := c.sock.writes + 1 } } := by
      simp only [writeBytes, onSock, zoom, Socket.write, hr]
    rw [bind_error hwrite]
  | refused why =>
    have hwrite : writeBytes results c.buffer c = .error (.terminate .write_bytes)
        { c with sock := { c.sock with writes := c.sock.writes + 1 } } := by
      simp only [writeBytes, noexcept, onSock, zoom, Socket.write, hr, Fault.reach]
    rw [bind_error hwrite]

/-- A flush leaves the session and the streams. -/
theorem Uv.Conn.flush_ok {results : ℕ → WriteResult} {c c' : Uv.Conn σ}
    (h : Uv.Conn.flush results c = .ok () c') : c'.session = c.session ∧ c'.streams = c.streams := by
  cases hempty : c.buffer.isEmpty with
  | true =>
    rw [flush_empty hempty] at h
    cases h
    exact ⟨rfl, rfl⟩
  | false =>
    rw [flush_eq hempty] at h
    split at h
    · cases h
      exact ⟨rfl, rfl⟩
    · cases h
    · cases h

/-! ## Calls of the server -/

theorem Backend.receive_ok {results : ℕ → WriteResult} {B : Backend} {bytes : Bytes} {c c' : B.Conn σ}
    {reqs : List Request} (h : B.receive N results bytes c = .ok reqs c') :
    ∃ evs t, Session.read N bytes (B.session c) = .ok evs t ∧
      B.streams c' = (evs.foldl onEvent (B.streams c, [])).1 ∧
      reqs = (evs.foldl onEvent (B.streams c, [])).2 ∧ Session.Drained N t (B.session c') := by
  cases B with
  | uv =>
    unfold receive Uv.Conn.read at h
    obtain ⟨evs, c₁, h₁, h⟩ := bind_eq_ok_iff.1 h
    obtain ⟨t, ht, rfl⟩ := zoom_eq_ok_iff.1 h₁
    obtain ⟨_, c₂, h₂, h⟩ := bind_eq_ok_iff.1 h
    cases h₂
    obtain ⟨_, c₃, h₃, h⟩ := bind_eq_ok_iff.1 h
    cases h₃
    obtain ⟨_, c₄, h₄, h⟩ := bind_eq_ok_iff.1 h
    cases h
    obtain ⟨hd, hs⟩ := Uv.Conn.fill_drained h₄
    exact ⟨evs, t, ht, hs, rfl, hd⟩
  | asio =>
    unfold receive at h
    obtain ⟨_, c₀, h₀, h⟩ := bind_eq_ok_iff.1 h
    obtain ⟨_, c₄, h₄, h⟩ := bind_eq_ok_iff.1 h
    cases h
    unfold Asio.Conn.read at h₀
    obtain ⟨evs, c₁, h₁, h⟩ := bind_eq_ok_iff.1 h₀
    obtain ⟨t, ht, rfl⟩ := zoom_eq_ok_iff.1 h₁
    obtain ⟨_, c₂, h₂, h⟩ := bind_eq_ok_iff.1 h
    cases h₂
    obtain ⟨_, c₃, h₃, h⟩ := bind_eq_ok_iff.1 h
    cases h₃
    cases h
    obtain ⟨hd, hs⟩ := Asio.Conn.writePending_drained h₄
    exact ⟨evs, t, ht, hs, rfl, hd⟩

theorem Backend.write_ok {results : ℕ → WriteResult} {B : Backend} {resp : Response} {c c' : B.Conn σ}
    (h : B.write N results resp c = .ok () c') :
    Session.Wrote N resp (B.session c) (B.session c') ∧ B.streams c' = B.streams c := by
  cases B with
  | uv => exact Uv.Conn.write_wrote h
  | asio => exact Asio.Conn.write_wrote h

/-- **A call of the server that succeeds.** -/
theorem Backend.call_ok {results : ℕ → WriteResult} {B : Backend} {op : Op} {c c' : B.Conn σ}
    {reqs : List Request} (h : B.call N results op c = .ok reqs c') :
    match op with
    | .receive bytes => ∃ evs t, Session.read N bytes (B.session c) = .ok evs t ∧
        B.streams c' = (evs.foldl onEvent (B.streams c, [])).1 ∧
        reqs = (evs.foldl onEvent (B.streams c, [])).2 ∧ Session.Drained N t (B.session c')
    | .write resp => Session.Wrote N resp (B.session c) (B.session c') ∧
        B.streams c' = B.streams c ∧ reqs = [] := by
  cases op with
  | receive bytes => exact receive_ok h
  | write resp =>
    unfold call at h
    obtain ⟨_, c₁, h₁, h⟩ := bind_eq_ok_iff.1 h
    cases h
    obtain ⟨hw, hs⟩ := write_ok h₁
    exact ⟨hw, hs, rfl⟩

end Grpcxx
