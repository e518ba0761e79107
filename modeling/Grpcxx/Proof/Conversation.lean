import Grpcxx.Proof.Drive
import Grpcxx.Proof.Reset
import Grpcxx.Proof.Window

/-!
# What a connection says

A run in which nothing fails is a conversation: the connection takes in what the peer sends, and
after each read it answers the requests that the read has completed. `Turn` is one read with these
answers. Neither the backend nor the way the output is handed over plays a part.

* `Uv.conversation_of_serve`, `Asio.conversation_of_serve`: the runs of both backends are such.
* `Conversation.answered`: all that is completed is answered, one response for each request.
* `answered_on_stream`: what the peer sees of each stream (`Answers`).
-/

namespace Grpcxx

open Serving StreamEvent

variable {σ : Type} {N : Nghttp2 σ} {b : ServerBase} {results : ℕ → WriteResult}

/-! ## Turns -/

/-- A read and the responses to the requests that it completes. -/
structure Turn where
  bytes : Bytes
  evs : List Event
  resps : List Response

/-- The calls of a turn. -/
def Turn.ops (t : Turn) : List Backend.Op := .receive t.bytes :: t.resps.map .write

/-- What a call does with the session. -/
def Backend.Op.operations : Backend.Op → List Operation
  | .receive bytes => [.read bytes, .drain]
  | .write resp => resp.operations

/-- The session and the stream table go through these turns. -/
inductive Conversation (N : Nghttp2 σ) (b : ServerBase) :
    Session σ × Streams → List Turn → Session σ × Streams → Prop
  | nil (st : Session σ × Streams) : Conversation N b st [] st
  | turn {t : Turn} {turns : List Turn} {s s₁ s₂ : Session σ} {streams : Streams}
      {st' : Session σ × Streams} (hread : Session.read N t.bytes s = .ok t.evs s₁)
      (hresps : Answered b (t.evs.foldl onEvent (streams, [])).2 t.resps)
      (hdrives : Drives N (.drain :: t.resps.flatMap Response.operations) s₁ s₂)
      (rest : Conversation N b (s₂, (t.evs.foldl onEvent (streams, [])).1) turns st') :
      Conversation N b (s, streams) (t :: turns) st'

theorem delivered_append (acts acts' : List Act) :
    delivered (acts ++ acts') = delivered acts ++ delivered acts' := by
  unfold delivered
  rw [List.filterMap_append]

/-- What is delivered in a turn. -/
theorem delivered_turn {acts acts' : List Act} {bytes : Bytes} {evs : List Event}
    {is : List Invocation} (h : acts' = acts ++ ([.recv bytes, .deliver evs] ++ is.map .handle)) :
    delivered acts' = delivered acts ++ [evs] := by
  rw [h, delivered_append, delivered_append, delivered_handles]
  rfl

/-! ## libuv -/

namespace Uv

/-- A turn of the loop in which nothing fails. -/
theorem turn_conversation {bytes : Bytes} {w w' : Serving (Conn σ)}
    (h : turn N b results bytes w = .ok () w') (hun : Unfailed w'.acts) :
    ∃ evs resps s₁, Session.read N bytes w.conn.session = .ok evs s₁ ∧
      Answered b (evs.foldl onEvent (w.conn.streams, [])).2 resps ∧
      Drives N (.drain :: resps.flatMap Response.operations) s₁ w'.conn.session ∧
      w'.conn.streams = (evs.foldl onEvent (w.conn.streams, [])).1 ∧
      delivered w'.acts = delivered w.acts ++ [evs] := by
  unfold turn at h
  obtain ⟨_, w₁, hjob, hflush⟩ := bind_eq_ok_iff.1 h
  rcases task_ok hflush with hflush | ⟨e, hflush, -⟩
  · obtain ⟨c, hc, rfl⟩ := writing_ok hflush
    obtain ⟨hsession, hkept⟩ := Conn.flush_ok hc
    rcases task_ok hjob with hjob | ⟨e, hjob, he⟩
    · unfold job at hjob
      rw [get_bind, act_bind] at hjob
      obtain ⟨reqs, w₂, h₂, hanswer⟩ := bind_eq_ok_iff.1 hjob
      obtain ⟨c₂, hc₂, rfl⟩ := zoom_eq_ok_iff.1 h₂
      have hreceive : Backend.uv.receive N results bytes w.conn = .ok reqs c₂ := hc₂
      obtain ⟨evs, s₁, hread, hstreams, rfl, hdrained⟩ := Backend.receive_ok hreceive
      obtain ⟨resps, hresps, hdrives⟩ := answered_of_answer _ hanswer
      obtain ⟨hacts, hsame⟩ := answer_acts _ hanswer
      have hreadActs : readActs N bytes w.conn.session = [.recv bytes, .deliver evs] := by
        unfold readActs
        rw [show Session.read N bytes w.conn.session = .ok evs s₁ from hread]
      rw [hreadActs, List.append_assoc] at hacts
      have hdrives' : Drives N (resps.flatMap Response.operations) c₂.session c.session := by
        rw [hsession]
        exact hdrives
      exact ⟨evs, resps, s₁, hread, hresps, .cons hdrained hdrives',
        (hkept.trans hsame).trans hstreams, delivered_turn hacts⟩
    · exact absurd (show Unfailed w₁.acts from hun) (job_throws hjob he)
  · exact absurd hun (writing_error hflush)

/-- **A run of the uv backend** in which nothing fails. -/
theorem conversation_of_serve (ins : List Input) {w w' : Serving (Conn σ)}
    (h : serve N b results ins w = .ok () w') (hun : Unfailed w'.acts) :
    ∃ turns, Conversation N b (w.conn.session, w.conn.streams) turns
        (w'.conn.session, w'.conn.streams) ∧
      delivered w'.acts = delivered w.acts ++ turns.map Turn.evs := by
  induction ins generalizing w with
  | nil =>
    cases h
    exact ⟨[], .nil _, (List.append_nil _).symm⟩
  | cons i ins ih =>
    cases i with
    | eos | error =>
      cases h
      exact ⟨[], .nil _, (List.append_nil _).symm⟩
    | bytes bytes =>
      cases bytes with
      | nil => exact ih h
      | cons x bytes =>
        obtain ⟨_, w₁, hturn, hserve⟩ := bind_eq_ok_iff.1 h
        have hun₁ : Unfailed w₁.acts := serve_unfailed hserve hun
        obtain ⟨evs, resps, s₁, hread, hresps, hdrives, hstreams, hdelivered⟩ :=
          turn_conversation hturn hun₁
        obtain ⟨turns, hrest, hdelivered'⟩ := ih hserve
        rw [hstreams] at hrest
        refine ⟨⟨x :: bytes, evs, resps⟩ :: turns, .turn hread hresps hdrives hrest, ?_⟩
        rw [hdelivered', hdelivered, List.append_assoc]
        rfl

end Uv

/-! ## Asio -/

namespace Asio

theorem answered_of_answer (reqs : List Request) {w w' : Serving (Conn σ)} (hw : Running w)
    (h : answer N b results reqs w = .ok () w') : ∃ resps, Answered b reqs resps ∧
      Drives N (resps.flatMap Response.operations) w.conn.session w'.conn.session := by
  induction reqs generalizing w with
  | nil =>
    cases h
    exact ⟨[], .nil, .nil _⟩
  | cons req reqs ih =>
    have hone : Outcome (fun _ => Running) Stopped (answer N b results [req] w) :=
      answer_outcome [req] hw
    unfold answer at h hone
    rw [get_bind, if_neg (by simp [hw.2.2])] at h hone
    obtain ⟨resp, w₁, h₁, h⟩ := bind_eq_ok_iff.1 h
    obtain ⟨_, w₂, h₂, h⟩ := bind_eq_ok_iff.1 h
    rw [bind_ok h₁, bind_ok h₂] at hone
    have hrunning : Running w₂ := by
      unfold answer at hone
      exact hone
    obtain ⟨resps, hresps, hdrives⟩ := ih hrunning h
    obtain ⟨hreq, rfl⟩ := process_eq_ok h₁
    obtain ⟨c, hc, rfl⟩ := writing_ok h₂
    refine ⟨resp :: resps, .cons hreq hresps, ?_⟩
    rw [List.flatMap_cons]
    exact drives_append.2 ⟨c.session, drives_operations.2 (Conn.write_wrote hc).1, hdrives⟩

/-- One `reqs()` in which nothing fails, on the session: a read and the drain after it, or the end
of the stream. -/
theorem reqs_drained (i : Input) {w w' : Serving (Conn σ)} {reqs : List Request} (hw : Running w)
    (h : Asio.reqs N results i w = .ok reqs w') (hun : Unfailed w'.acts) :
    (∃ bytes evs s₁, Session.read N bytes w.conn.session = .ok evs s₁ ∧
        Session.Drained N s₁ w'.conn.session ∧
        w'.conn.streams = (evs.foldl onEvent (w.conn.streams, [])).1 ∧
        reqs = (evs.foldl onEvent (w.conn.streams, [])).2 ∧
        w'.acts = w.acts ++ [.recv bytes, .deliver evs] ∧ Running w') ∨
      reqs = [] ∧ w' = { w with conn := { w.conn with eos := true } } := by
  cases i with
  | eos | error =>
    cases h
    exact Or.inr ⟨rfl, rfl⟩
  | bytes bytes =>
    unfold Asio.reqs at h
    dsimp only at h
    rcases readActs_eq (N := N) bytes w.conn.session with ⟨evs, t, hread, hacts⟩ | ⟨why, t, evs, hread, hacts⟩
    · obtain ⟨rs, c', hc', hpaid, heos⟩ := read_running hread hw.2.1
      rw [Conn.read_ok hread] at hc'
      cases hc'
      have hok : onConn (Conn.read N bytes) { w with acts := w.acts ++ readActs N bytes w.conn.session } =
          .ok (evs.foldl onEvent (w.conn.streams, [])).2
            { conn := { w.conn with session := t, streams := (evs.foldl onEvent (w.conn.streams, [])).1 },
              acts := w.acts ++ readActs N bytes w.conn.session } := zoom_ok (Conn.read_ok hread)
      rw [hok] at h
      obtain ⟨_, w₁, h₁, h⟩ := bind_eq_ok_iff.1 h
      cases h
      obtain ⟨c, hc, rfl⟩ := writing_ok h₁
      obtain ⟨hdrained, hstreams⟩ := Conn.writePending_drained hc
      -- the connection goes on
      have hopen : Outcome (fun _ c' => Paid c' ∧ c'.eos = false) Owed (Conn.writePending N results _) :=
        writePending_outcome hpaid false (heos.trans hw.2.2)
      rw [hc] at hopen
      rw [hacts] at hun ⊢
      exact Or.inl ⟨bytes, evs, t, hread, hdrained, hstreams, rfl, rfl, hun, hopen⟩
    · have hfails : onConn (Conn.read N bytes) { w with acts := w.acts ++ readActs N bytes w.conn.session } =
          .error (.runtime_error why)
            { conn := { w.conn with session := t }, acts := w.acts ++ readActs N bytes w.conn.session } :=
        zoom_error (bind_error (zoom_error hread))
      rw [hfails, hacts] at h
      cases h
      cases hun (.readFailed evs) (by simp)

/-- **A run of the asio backend** in which nothing fails. -/
theorem conversation_of_serve (ins : List Input) {w w' : Serving (Conn σ)} (hw : Running w)
    (h : serve N b results ins w = .ok () w') (hun : Unfailed w'.acts) :
    ∃ turns, Conversation N b (w.conn.session, w.conn.streams) turns
        (w'.conn.session, w'.conn.streams) ∧
      delivered w'.acts = delivered w.acts ++ turns.map Turn.evs := by
  induction ins generalizing w with
  | nil =>
    cases h
    exact ⟨[], .nil _, (List.append_nil _).symm⟩
  | cons i ins ih =>
    unfold serve at h
    rw [get_bind, if_neg (by simp [hw.2.2])] at h
    obtain ⟨reqs, w₁, h₁, hrest⟩ := bind_eq_ok_iff.1 h
    obtain ⟨_, w₂, h₂, hserve⟩ := bind_eq_ok_iff.1 hrest
    have hun₁ : Unfailed w₁.acts := answer_unfailed reqs h₂ (serve_unfailed ins hserve hun)
    rcases reqs_drained i hw h₁ hun₁ with
      ⟨bytes, evs, s₁, hread, hdrained, hstreams, rfl, hacts, hrunning⟩ | ⟨rfl, rfl⟩
    · have hanswer : Outcome _ Stopped (answer N b results (evs.foldl onEvent (w.conn.streams, [])).2 w₁) :=
        answer_outcome _ hrunning
      rw [h₂] at hanswer
      obtain ⟨resps, hresps, hdrives⟩ := answered_of_answer _ hrunning h₂
      obtain ⟨hacts₂, hstreams₂⟩ := answer_acts _ hrunning h₂
      obtain ⟨turns, hturns, hdelivered'⟩ := ih hanswer hserve
      rw [hstreams₂, hstreams] at hturns
      rw [hacts, List.append_assoc] at hacts₂
      refine ⟨⟨bytes, evs, resps⟩ :: turns, .turn hread hresps (.cons hdrained hdrives) hturns, ?_⟩
      rw [hdelivered', delivered_turn hacts₂, List.append_assoc]
      rfl
    · -- the stream has ended, which leaves the rest of the inputs unread
      cases h₂
      rw [serve_ended rfl] at hserve
      cases hserve
      exact ⟨[], .nil _, (List.append_nil _).symm⟩

end Asio

/-! ## Either backend -/

theorem conversation_of_serve (B : Backend) {m : σ} {ins : List Input} {w : Serving (B.Conn σ)}
    (h : B.serve N b results ins { conn := B.fresh m } = .ok () w) (hun : Unfailed w.acts) :
    ∃ turns, Conversation N b ({ session := m }, ∅) turns (B.session w.conn, B.streams w.conn) ∧
      delivered w.acts = turns.map Turn.evs := by
  cases B with
  | uv => exact Uv.conversation_of_serve ins h hun
  | asio =>
    have hrunning : Asio.Running ({ conn := Backend.fresh .asio m } : Serving (Asio.Conn σ)) := by
      refine ⟨?_, rfl, rfl⟩
      intro a ha
      cases ha
    exact Asio.conversation_of_serve ins hrunning h hun

/-! ## All that is completed is answered -/

theorem Answered.append {reqs reqs' : List Request} {resps resps' : List Response}
    (h : Answered b reqs resps) (h' : Answered b reqs' resps') :
    Answered b (reqs ++ reqs') (resps ++ resps') := by
  induction h with
  | nil => exact h'
  | cons hreq _ ih => exact .cons hreq ih

/-- The requests of one stream are answered by the responses on it. -/
theorem Answered.on {reqs : List Request} {resps : List Response} (h : Answered b reqs resps)
    (id : StreamId) :
    Answered b (reqs.filter fun r => r.id = id) (resps.filter fun r => r.id = id) := by
  induction h with
  | nil => exact .nil
  | @cons req resp reqs resps hreq _ ih =>
    have hid := ServerBase.process_id hreq
    by_cases hown : req.id = id
    · rw [List.filter_cons_of_pos (by simpa using hown),
        List.filter_cons_of_pos (by simpa [hid] using hown)]
      exact .cons hreq ih
    · rw [List.filter_cons_of_neg (by simpa using hown),
        List.filter_cons_of_neg (by simpa [hid] using hown)]
      exact ih

namespace Conversation

variable {st st' : Session σ × Streams} {turns : List Turn}

theorem answered (h : Conversation N b st turns st') {reqs : List Request} {resps : List Response}
    (hreqs : Answered b reqs resps) :
    Answered b ((turns.map Turn.evs).foldl hand (st.2, reqs)).2 (resps ++ turns.flatMap Turn.resps) := by
  induction h generalizing reqs resps with
  | nil st =>
    rw [List.flatMap_nil, List.append_nil]
    exact hreqs
  | @turn t turns s s₁ s₂ streams st' _ hresps _ _ ih =>
    rw [List.flatMap_cons, ← List.append_assoc, List.map_cons, List.foldl_cons]
    exact ih (hreqs.append hresps)

theorem drives (h : Conversation N b st turns st') :
    Drives N ((turns.flatMap Turn.ops).flatMap Backend.Op.operations) st.1 st'.1 := by
  induction h with
  | nil st => exact .nil _
  | @turn t turns s s₁ s₂ streams st' hread _ hdrives _ ih =>
    have hops : t.ops.flatMap Backend.Op.operations =
        .read t.bytes :: .drain :: t.resps.flatMap Response.operations := by
      unfold Turn.ops
      rw [List.flatMap_cons, List.flatMap_map]
      rfl
    rw [List.flatMap_cons, List.flatMap_append, hops]
    exact drives_append.2 ⟨s₂, .cons ⟨t.evs, hread⟩ hdrives, ih⟩

end Conversation

theorem responses_turns (turns : List Turn) :
    responses (turns.flatMap Turn.ops) = turns.flatMap Turn.resps := by
  induction turns with
  | nil => rfl
  | cons t turns ih =>
    have hone : responses t.ops = t.resps := by
      show responses (t.resps.map .write) = t.resps
      induction t.resps with
      | nil => rfl
      | cons resp resps ih => exact congrArg (resp :: ·) ih
    have happend : ∀ ops ops', responses (ops ++ ops') = responses ops ++ responses ops' := by
      intro ops ops'
      exact List.filterMap_append
    rw [List.flatMap_cons, List.flatMap_cons, happend, hone, ih]

/-! ## What is sent on a stream -/

/-- On the way from `s₀` to `s'` the session was in `s` when it wrote the response. -/
def WrittenIn (N : Nghttp2 σ) (s₀ s' : Session σ) (resp : Response) (s : Session σ) : Prop :=
  ∃ before after s₁, Drives N before s₀ s ∧ Session.Wrote N resp s s₁ ∧ Drives N after s₁ s'

theorem WrittenIn.after {ops : List Operation} {s₀ t s' s : Session σ} {resp : Response}
    (hops : Drives N ops s₀ t) (h : WrittenIn N t s' resp s) : WrittenIn N s₀ s' resp s := by
  obtain ⟨before, after, s₁, hbefore, hwrote, hafter⟩ := h
  exact ⟨ops ++ before, after, s₁, drives_append.2 ⟨t, hops, hbefore⟩, hwrote, hafter⟩

namespace Flow

variable {F : Flow σ} {s s' : Session σ}

theorem receive_frames (hF : F.Models N) {bytes : Bytes}
    (h : Drives N (Backend.Op.receive bytes).operations s s') (hcalm : F.Calm s.session) :
    F.Calm s'.session ∧ ∀ id, F.sentOn id s'.session = F.sentOn id s.session := by
  obtain ⟨s₁, ⟨evs, hread⟩, h⟩ := drives_cons.1 h
  obtain ⟨s₂, hdrained, h⟩ := drives_cons.1 h
  cases h
  exact read_frames hF hread hdrained hcalm

/-- Nothing is sent on the streams that there is no response for. -/
theorem ops_frames (hF : F.Models N) {ops : List Backend.Op}
    (h : Drives N (ops.flatMap Backend.Op.operations) s s') (hcalm : F.Calm s.session) {id : StreamId}
    (hid : (responses ops).filter (fun r => r.id = id) = []) :
    F.sentOn id s'.session = F.sentOn id s.session := by
  induction ops generalizing s with
  | nil =>
    cases h
    rfl
  | cons op ops ih =>
    obtain ⟨t, hop, hops⟩ := drives_append.1 h
    cases op with
    | receive bytes =>
      obtain ⟨hcalm', hsame⟩ := receive_frames hF hop hcalm
      rw [ih hops hcalm' hid, hsame]
    | write resp =>
      obtain ⟨hcalm', hothers, -⟩ := wrote_frames hF (drives_operations.1 hop) hcalm
      have hid' : ((resp :: responses ops).filter fun r => r.id = id) = [] := hid
      have hne : id ≠ resp.id := by
        intro heq
        rw [List.filter_cons_of_pos (by simpa using heq.symm)] at hid'
        cases hid'
      rw [List.filter_cons_of_neg (by simpa using Ne.symm hne)] at hid'
      rw [ih hops hcalm' hid', hothers id hne]

/-- The frames of a response whose body is cut into `payloads`. -/
def framesOf (resp : Response) (payloads : List Bytes) : List Frame :=
  .headers resp.id (Session.nv responseHeaders) false :: payloads.map (.data resp.id) ++
    [.headers resp.id (Session.nv (responseTrailers resp.status)) true]

/-- **The one response of a stream** is all that is sent there, its body up to the window that it
met. -/
theorem written_frames (hF : F.Models N) {ops : List Backend.Op} {resp : Response}
    (h : Drives N (ops.flatMap Backend.Op.operations) s s') (hcalm : F.Calm s.session)
    (hone : (responses ops).filter (fun r => r.id = resp.id) = [resp]) :
    ∃ t payloads, WrittenIn N s s' resp t ∧
      payloads.flatten = resp.bytes.take (F.window t.session resp.id) ∧
      F.sentOn resp.id s'.session = F.sentOn resp.id s.session ++ framesOf resp payloads := by
  induction ops generalizing s with
  | nil => cases hone
  | cons op ops ih =>
    obtain ⟨s₁, hop, hops⟩ := drives_append.1 h
    cases op with
    | receive bytes =>
      obtain ⟨hcalm', hsame⟩ := receive_frames hF hop hcalm
      obtain ⟨t, payloads, hwritten, hpayloads, hsent⟩ := ih hops hcalm' hone
      exact ⟨t, payloads, hwritten.after hop, hpayloads, by rw [hsent, hsame]⟩
    | write r =>
      have hwrote := drives_operations.1 hop
      obtain ⟨hcalm', hothers, payloads, hpayloads, hsent⟩ := wrote_frames hF hwrote hcalm
      have hone' : ((r :: responses ops).filter fun r => r.id = resp.id) = [resp] := hone
      by_cases hid : r.id = resp.id
      · -- this is the response, and no other follows on its stream
        rw [List.filter_cons_of_pos (by simpa using hid)] at hone'
        obtain ⟨rfl, hnone⟩ := List.cons.inj hone'
        refine ⟨s, payloads, ⟨[], _, s₁, .nil s, hwrote, hops⟩, hpayloads, ?_⟩
        rw [ops_frames hF hops hcalm' hnone, hsent]
        rfl
      · rw [List.filter_cons_of_neg (by simpa using hid)] at hone'
        obtain ⟨t, payloads, hwritten, hpayloads, hsent⟩ := ih hops hcalm' hone'
        exact ⟨t, payloads, hwritten.after hop, hpayloads, by rw [hsent, hothers _ (Ne.symm hid)]⟩

end Flow

/-! ## The requests of a stream -/

theorem ended_on_none {id : StreamId} {pre evs : List Event}
    (h : ∀ ev ∈ evs, ev.completes = true → ev.stream_id ≠ id) :
    ((ended pre evs).filter fun r => r.id = id) = [] := by
  rw [List.filter_eq_nil_iff]
  intro r hr
  obtain ⟨before, ev, after, rfl, hev, rfl⟩ := mem_ended hr
  simpa [built_id] using h ev (by simp) hev

/-- A stream that is ended once has one request. -/
theorem ended_on_one {ev : Event} {before after : List Event} (hev : ev.completes = true)
    (hbefore : ∀ e ∈ before, e.completes = true → e.stream_id ≠ ev.stream_id)
    (hafter : ∀ e ∈ after, e.completes = true → e.stream_id ≠ ev.stream_id) :
    ((ended [] (before ++ ev :: after)).filter fun r => r.id = ev.stream_id) =
      [built ev.stream_id (sent ev.stream_id before)] := by
  rw [ended_append, List.filter_append, ended_on_none hbefore, List.nil_append, List.nil_append]
  show (((if ev.completes then [built ev.stream_id (sent ev.stream_id before)] else []) ++
    ended (before ++ [ev]) after).filter fun r => r.id = ev.stream_id) = _
  rw [if_pos hev, List.filter_append, ended_on_none hafter, List.append_nil,
    List.filter_cons_of_pos (by simp [built_id]), List.filter_nil]

/-- The requests of one stream, whatever the cut into batches. -/
theorem handed_on (batches : List (List Event)) (id : StreamId) :
    List.Perm ((handed batches).2.filter fun r => r.id = id)
      ((ended [] batches.flatten).filter fun r => r.id = id) := by
  rw [(handed_eq batches).2]
  exact (batched_perm [] batches).filter _

/-- The peer ends the stream once, after these events. -/
def EndsOnce (id : StreamId) (before evs : List Event) : Prop :=
  ∃ ev after, evs = before ++ ev :: after ∧ ev.completes = true ∧ ev.stream_id = id ∧
    ∀ e ∈ before ++ after, e.completes = true → e.stream_id ≠ id

theorem EndsOnce.ended {id : StreamId} {before evs : List Event} (h : EndsOnce id before evs) :
    ((ended [] evs).filter fun r => r.id = id) = [built id (sent id before)] := by
  obtain ⟨ev, after, rfl, hev, rfl, hothers⟩ := h
  exact ended_on_one hev (fun e he => hothers e (List.mem_append_left _ he))
    fun e he => hothers e (List.mem_append_right _ he)

/-- The responses of a conversation on one stream answer its requests. -/
theorem Conversation.answered_on {turns : List Turn} {st : Session σ × Streams} {m : σ}
    (h : Conversation N b ({ session := m }, ∅) turns st) (id : StreamId) :
    Answered b ((handed (turns.map Turn.evs)).2.filter fun r => r.id = id)
      ((turns.flatMap Turn.resps).filter fun r => r.id = id) := by
  have hnone : Answered b [] [] := .nil
  have hall := h.answered hnone
  rw [List.nil_append] at hall
  exact hall.on id

/-- **A stream gets the response to what was sent on it.** The session is `s'`, it was delivered `evs`.
A stream that the peer has not ended shows nothing. One that it has ended once shows the response
to the request that its headers and chunks before the end have made, and nothing else: HEADERS, the
body as far as the window went when the response was written, and the trailers. -/
structure Answers (F : Flow σ) (N : Nghttp2 σ) (b : ServerBase) (m : σ) (evs : List Event)
    (s' : Session σ) (id : StreamId) : Prop where
  silent : (∀ ev ∈ evs, ev.completes = true → ev.stream_id ≠ id) → F.sentOn id s'.session = []
  once : ∀ before, EndsOnce id before evs → ∃ resp s payloads,
    (b.process (built id (sent id before))).2 = .ok resp ∧ resp.id = id ∧
      WrittenIn N { session := m } s' resp s ∧
      payloads.flatten = resp.bytes.take (F.window s.session id) ∧
      F.sentOn id s'.session = Flow.framesOf resp payloads

/-- In a run in which nothing fails every stream is answered, whatever else the connection carries and
however it is cut into reads. -/
theorem answered_on_stream {F : Flow σ} (hF : F.Models N) (B : Backend) {m : σ} (hfresh : F.Fresh m)
    {ins : List Input} {w : Serving (B.Conn σ)}
    (h : B.serve N b results ins { conn := B.fresh m } = .ok () w) (hun : Unfailed w.acts)
    (id : StreamId) : Answers F N b m (delivered w.acts).flatten (B.session w.conn) id := by
  obtain ⟨turns, hturns, hdelivered⟩ := conversation_of_serve B h hun
  have hcalm : F.Calm ({ session := m } : Session σ).session := ⟨hfresh.queued, hfresh.unfinished⟩
  have hempty : F.sentOn id m = [] := by
    unfold Flow.sentOn
    rw [hfresh.sent]
    rfl
  have hanswered := hturns.answered_on id
  have hreqs := handed_on (turns.map Turn.evs) id
  rw [← hdelivered] at hanswered hreqs
  constructor
  · intro hnone
    -- no request, so no response
    rw [ended_on_none hnone] at hreqs
    rw [hreqs.eq_nil] at hanswered
    have hresps : (responses (turns.flatMap Turn.ops)).filter (fun r => r.id = id) = [] := by
      rw [responses_turns]
      exact List.forall₂_nil_left_iff.1 hanswered
    rw [Flow.ops_frames hF hturns.drives hcalm hresps]
    exact hempty
  · intro before hends
    rw [hends.ended] at hreqs
    rw [hreqs.eq_singleton] at hanswered
    obtain ⟨resp, rest, hreq, hrest, hresps⟩ := List.forall₂_cons_left_iff.1 hanswered
    rw [List.forall₂_nil_left_iff.1 hrest] at hresps
    have hid : resp.id = id := (ServerBase.process_id hreq).trans (built_id id _)
    have hone : (responses (turns.flatMap Turn.ops)).filter (fun r => r.id = resp.id) = [resp] := by
      rw [responses_turns, hid]
      exact hresps
    obtain ⟨s, payloads, hwritten, hpayloads, hsent⟩ :=
      Flow.written_frames hF hturns.drives hcalm hone
    rw [hid] at hpayloads hsent
    refine ⟨resp, s, payloads, hreq, hid, hwritten, hpayloads, ?_⟩
    rw [hsent]
    show F.sentOn id m ++ _ = _
    rw [hempty, List.nil_append]

end Grpcxx
