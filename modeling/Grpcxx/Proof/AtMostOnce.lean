import Grpcxx.Proof.Order

/-!
# Handlers are called at most once

`dispatch_order` is about runs in which nothing fails. Whatever fails, and also where the process is ended in
the middle of a batch, the handlers called so far are the first of those that the requests delivered so far
call for, in the order of dispatch.

* `Due`: so it is at every moment. `Due.quiet`, `Due.deliver`, `Due.handles`: what keeps it.
* `answer_due`, `turn_due`, `reqs_due`: the steps of the loops.
* `handled_at_most_once`: all runs.
-/

namespace Grpcxx

open Serving

variable {σ : Type} {N : Nghttp2 σ} {b : ServerBase} {results : ℕ → WriteResult} {acts : List Act}

/-- The handlers that are called for what was delivered. -/
def ServerBase.due (b : ServerBase) (acts : List Act) : List Invocation := b.calls (handed (delivered acts)).2

/-- At every moment the handlers called are the first ones due. -/
def Due (b : ServerBase) (acts : List Act) : Prop := ∀ pre, pre <+: acts → handled pre <+: b.due pre

theorem handled_append (acts acts' : List Act) : handled (acts ++ acts') = handled acts ++ handled acts' := by
  unfold handled
  rw [List.filterMap_append]

theorem Due.now (h : Due b acts) : handled acts <+: b.due acts := h acts List.prefix_rfl

/-- One act more. -/
theorem Due.snoc (h : Due b acts) {a : Act} (ha : handled (acts ++ [a]) <+: b.due (acts ++ [a])) :
    Due b (acts ++ [a]) := by
  intro pre hpre
  rcases List.prefix_concat_iff.1 hpre with rfl | hpre
  · exact ha
  · exact h pre hpre

/-- What is neither a batch nor a call. -/
theorem Due.quiet (h : Due b acts) {a : Act} (hdelivered : delivered [a] = []) (hhandled : handled [a] = []) :
    Due b (acts ++ [a]) := by
  refine h.snoc ?_
  have hsame : delivered (acts ++ [a]) = delivered acts := by
    unfold delivered at hdelivered ⊢
    rw [List.filterMap_append, hdelivered, List.append_nil]
  rw [handled_append, hhandled, List.append_nil, ServerBase.due, hsame]
  exact h.now

/-- The handlers that a batch calls for come after those of the batches before. -/
theorem due_deliver (evs : List Event) :
    b.due (acts ++ [.deliver evs]) =
      b.due acts ++ b.calls (evs.foldl onEvent ((handed (delivered acts)).1, [])).2 := by
  have hsnoc : delivered (acts ++ [.deliver evs]) = delivered acts ++ [evs] := by
    unfold delivered
    rw [List.filterMap_append]
    rfl
  rw [ServerBase.due, hsnoc, handed_snoc, hand, ServerBase.due, ServerBase.calls, ServerBase.calls,
    List.flatMap_append]
  rfl

theorem Due.deliver (h : Due b acts) (evs : List Event) : Due b (acts ++ [.deliver evs]) := by
  refine h.snoc ?_
  have hnone : handled [Act.deliver evs] = [] := rfl
  rw [handled_append, hnone, List.append_nil, due_deliver]
  exact h.now.trans (List.prefix_append _ _)

theorem due_handles (is : List Invocation) : b.due (acts ++ is.map .handle) = b.due acts := by
  have hsame : delivered (acts ++ is.map .handle) = delivered acts := by
    have hnone := delivered_handles is
    unfold delivered at hnone ⊢
    rw [List.filterMap_append, hnone, List.append_nil]
  rw [ServerBase.due, hsame, ServerBase.due]

/-- Calls that were due. -/
theorem Due.handles (h : Due b acts) {is : List Invocation} (his : handled acts ++ is <+: b.due acts) :
    Due b (acts ++ is.map .handle) := by
  induction is using List.reverseRecOn with
  | nil =>
    rw [List.map_nil, List.append_nil]
    exact h
  | append_singleton is i ih =>
    have hrest : handled acts ++ is <+: b.due acts :=
      List.IsPrefix.trans ⟨[i], by rw [List.append_assoc]⟩ his
    rw [List.map_append, ← List.append_assoc]
    refine (ih hrest).snoc ?_
    have hall : acts ++ is.map .handle ++ [.handle i] = acts ++ (is ++ [i]).map .handle := by
      rw [List.map_append, List.append_assoc]
      rfl
    rw [hall, due_handles, handled_append, handled_handles]
    exact his

/-! ## The loop over the requests -/

/-- These are the next requests to be processed. -/
def Next (b : ServerBase) (acts : List Act) (reqs : List Request) : Prop :=
  handled acts ++ b.calls reqs <+: b.due acts

theorem process_due {C : Type} {req : Request} {reqs : List Request} {w : Serving C} (hw : Due b w.acts)
    (hnext : Next b w.acts (req :: reqs)) :
    Outcome (fun _ w' => Due b w'.acts ∧ Next b w'.acts reqs ∧ w'.conn = w.conn) (fun w' => Due b w'.acts)
      (process b req w) := by
  have hone : handled w.acts ++ (b.process req).1 <+: b.due w.acts :=
    List.IsPrefix.trans ⟨b.calls reqs, List.append_assoc ..⟩ hnext
  have hdue := hw.handles hone
  cases hp : (b.process req).2 with
  | ok resp =>
    rw [process_ok hp]
    refine ⟨hdue, ?_, rfl⟩
    unfold Next
    rw [due_handles, handled_append, handled_handles, List.append_assoc]
    exact hnext
  | error e =>
    rw [process_error hp]
    exact hdue

/-- A write, recorded if it fails. -/
theorem writing_due {C : Type} {reqs : List Request} (f : Call C Unit) {w : Serving C} (hw : Due b w.acts)
    (hnext : Next b w.acts reqs) :
    Outcome (fun _ w' => Due b w'.acts ∧ Next b w'.acts reqs) (fun w' => Due b w'.acts) (writing f w) := by
  refine (writing_outcome (P := fun _ => True) (E := fun _ => True) ?_).mono (fun _ w' h => ?_) fun w' h => ?_
  · cases f w.conn <;> trivial
  · rw [h.1]
    exact ⟨hw, hnext⟩
  · rw [h.1]
    exact hw.quiet rfl rfl

/-- A read that fails. -/
theorem due_readFailed (h : Due b acts) (bytes : Bytes) (evs : List Event) :
    Due b (acts ++ [.recv bytes, .readFailed evs]) := by
  have hrecv : Due b (acts ++ [.recv bytes]) := h.quiet rfl rfl
  have hfailed : Due b (acts ++ [.recv bytes] ++ [.readFailed evs]) := hrecv.quiet rfl rfl
  rw [List.append_assoc] at hfailed
  exact hfailed

/-- A read that delivers a batch, when all that was delivered before was handled. -/
theorem due_deliver_next {B : Backend} {w : Serving (B.Conn σ)} (hserved : Served b B w) (h : Due b w.acts)
    (bytes : Bytes) (evs : List Event) :
    Due b (w.acts ++ [.recv bytes, .deliver evs]) ∧
      Next b (w.acts ++ [.recv bytes, .deliver evs]) (evs.foldl onEvent (B.streams w.conn, [])).2 := by
  have hrecv : Due b (w.acts ++ [.recv bytes]) := h.quiet rfl rfl
  have hall : w.acts ++ [.recv bytes, .deliver evs] = w.acts ++ [.recv bytes] ++ [.deliver evs] := by
    rw [List.append_assoc]
    rfl
  have hsame : delivered (w.acts ++ [.recv bytes]) = delivered w.acts := by
    unfold delivered
    rw [List.filterMap_append]
    exact List.append_nil _
  have hnone : handled [Act.recv bytes, .deliver evs] = [] := rfl
  have heq : handled (w.acts ++ [.recv bytes, .deliver evs]) ++
      b.calls (evs.foldl onEvent (B.streams w.conn, [])).2 = b.due (w.acts ++ [.recv bytes, .deliver evs]) := by
    rw [handled_append, hnone, List.append_nil, hall, due_deliver, hsame, ← hserved.1, hserved.2,
      ServerBase.due, hsame]
  exact ⟨hall ▸ hrecv.deliver evs, [], by rw [List.append_nil, heq]⟩

namespace Uv

theorem answer_due (reqs : List Request) {w : Serving (Conn σ)} (hw : Due b w.acts)
    (hnext : Next b w.acts reqs) :
    Outcome (fun _ w' => Due b w'.acts) (fun w' => Due b w'.acts) (answer N b reqs w) := by
  induction reqs generalizing w with
  | nil => exact hw
  | cons req reqs ih =>
    unfold answer
    refine outcome_bind (process_due hw hnext) fun resp w₁ h₁ => ?_
    obtain ⟨hw₁, hnext₁, -⟩ := h₁
    refine outcome_bind (M := fun _ w' => w'.acts = w₁.acts) ?_ fun _ w₂ hw₂ => ?_
    · refine (onConn_outcome (P := fun _ => True) (E := fun _ => True) ?_).mono (fun _ _ h => h.1) fun w' h => ?_
      · cases Conn.write N resp w₁.conn <;> trivial
      · rw [h.1]
        exact hw₁
    · refine ih ?_ ?_
      · rw [hw₂]
        exact hw₁
      · rw [hw₂]
        exact hnext₁

/-- The connection is between two turns, in which reading or writing may have failed. -/
def Between (b : ServerBase) (w : Serving (Conn σ)) : Prop := Served b .uv w ∧ Due b w.acts

/-- A read that fails leaves the table. -/
theorem Between.readFailed {w : Serving (Conn σ)} (hw : Between b w) (bytes : Bytes) (evs : List Event)
    (t : Session σ) :
    Between b { conn := { w.conn with session := t }, acts := w.acts ++ [.recv bytes, .readFailed evs] } := by
  obtain ⟨⟨hstreams, hhandled⟩, hdue⟩ := hw
  have hsame : delivered (w.acts ++ [.recv bytes, .readFailed evs]) = delivered w.acts := by
    unfold delivered
    rw [List.filterMap_append]
    exact List.append_nil _
  have hnone : handled [Act.recv bytes, .readFailed evs] = [] := rfl
  refine ⟨⟨?_, ?_⟩, due_readFailed hdue bytes evs⟩
  · show w.conn.streams = (handed (delivered _)).1
    rw [hsame]
    exact hstreams
  · show handled (w.acts ++ _) = b.calls (handed (delivered _)).2
    rw [hsame, handled_append, hnone, List.append_nil]
    exact hhandled

/-- What `conn::read` throws is the failure of its read, or past catching. -/
theorem read_error {bytes : Bytes} {c c' : Conn σ} {e : Fault} (h : Conn.read N bytes c = .error e c') :
    (∃ evs t, Session.read N bytes c.session = .ok evs t ∧ e.isThrown = false) ∨
      ∃ t, Session.read N bytes c.session = .error e t ∧ c' = { c with session := t } := by
  unfold Conn.read at h
  cases hread : Session.read N bytes c.session with
  | ok evs t =>
    refine Or.inl ⟨evs, t, rfl, ?_⟩
    rw [bind_ok (Conn.onSession_ok hread), get_bind, set_bind] at h
    cases hfill : Conn.fill N _ with
    | ok _ c₁ =>
      rw [bind_ok hfill] at h
      cases h
    | error e₁ c₁ =>
      rw [bind_error hfill] at h
      cases h
      exact noexcept_thrown hfill
  | error e₁ t =>
    rw [bind_error (Conn.onSession_error hread)] at h
    cases h
    exact Or.inr ⟨t, rfl, rfl⟩

theorem readActs_ok {bytes : Bytes} {evs : List Event} {s t : Session σ}
    (h : Session.read N bytes s = .ok evs t) : readActs N bytes s = [.recv bytes, .deliver evs] := by
  unfold readActs
  rw [h]

/-- The function that was given to the scheduler. -/
theorem job_due (bytes : Bytes) {w : Serving (Conn σ)} (hw : Between b w) :
    Outcome (fun _ => Between b) (fun w' => Due b w'.acts) (task (job N b bytes) w) := by
  obtain ⟨hserved, hdue⟩ := hw
  unfold task
  cases hread : Conn.read N bytes w.conn with
  | ok reqs c =>
    have hreceive : Backend.uv.receive N (fun _ => .completed) bytes w.conn = .ok reqs c := hread
    obtain ⟨evs, t, hevs, -, hreqs, -⟩ := Backend.receive_ok hreceive
    obtain ⟨hdue₁, hnext₁⟩ := due_deliver_next hserved hdue bytes evs
    have hanswer : Outcome (fun _ w' => Due b w'.acts) (fun w' => Due b w'.acts) (answer N b reqs
        { conn := c, acts := w.acts ++ [.recv bytes, .deliver evs] }) :=
      answer_due reqs hdue₁ (by rw [hreqs]; exact hnext₁)
    have hrecv : Session.read N bytes w.conn.session = .ok evs t := hevs
    rw [← readActs_ok hrecv, ← job_ok hread] at hanswer
    cases hjob : job N b bytes w with
    | ok u w' =>
      rw [hjob] at hanswer
      obtain ⟨evs', hstreams, hacts⟩ := job_acts hjob
      exact ⟨served_batch hserved hstreams hacts, hanswer⟩
    | error e w' =>
      rw [hjob] at hanswer
      rw [job_ok hread] at hjob
      dsimp only
      rw [if_neg (by rw [answer_error reqs hjob]; simp)]
      exact hanswer
  | error e c =>
    rw [job_error hread]
    dsimp only
    rcases read_error hread with ⟨evs, t, hevs, he⟩ | ⟨t, hfails, rfl⟩
    · rw [he, if_neg (by simp), readActs_ok hevs]
      exact (due_deliver_next hserved hdue bytes evs).1
    · obtain ⟨-, why, rfl⟩ := Session.read_error hfails
      have hthrown : (Fault.runtime_error why).isThrown = true := rfl
      rw [if_pos hthrown, readActs, hfails]
      exact Between.readFailed ⟨hserved, hdue⟩ bytes _ t

/-- A flush leaves the table, however it ends. -/
theorem flush_streams (c : Conn σ) :
    Outcome (fun _ c' => c'.streams = c.streams) (fun c' => c'.streams = c.streams) (Conn.flush results c) := by
  cases hempty : c.buffer.isEmpty with
  | true =>
    rw [Conn.flush_empty hempty]
    rfl
  | false =>
    rw [Conn.flush_eq hempty]
    cases results c.sock.writes <;> rfl

theorem flush_due {w : Serving (Conn σ)} (hw : Between b w) :
    Outcome (fun _ => Between b) (Between b) (writing (Conn.flush results) w) := by
  obtain ⟨⟨hstreams, hhandled⟩, hdue⟩ := hw
  refine (writing_outcome (flush_streams w.conn)).mono (fun _ w' h => ?_) fun w' h => ?_
  · refine ⟨⟨?_, ?_⟩, ?_⟩
    · rw [h.1]
      exact h.2.trans hstreams
    · rw [h.1]
      exact hhandled
    · rw [h.1]
      exact hdue
  · have hsame : delivered (w.acts ++ [.writeFailed]) = delivered w.acts := by
      unfold delivered
      rw [List.filterMap_append]
      exact List.append_nil _
    have hnone : handled [Act.writeFailed] = [] := rfl
    refine ⟨⟨?_, ?_⟩, ?_⟩
    · rw [h.1, hsame]
      exact h.2.trans hstreams
    · rw [h.1, hsame, handled_append, hnone, List.append_nil]
      exact hhandled
    · rw [h.1]
      exact hdue.quiet rfl rfl

theorem turn_due (bytes : Bytes) {w : Serving (Conn σ)} (hw : Between b w) :
    Outcome (fun _ => Between b) (fun w' => Due b w'.acts) (turn N b results bytes w) := by
  unfold turn
  refine outcome_bind (job_due bytes hw) fun _ w₁ hw₁ => ?_
  exact (task_outcome (flush_due hw₁)).mono (fun _ _ h => h) fun _ h => h.2

theorem serve_due (ins : List Input) {w : Serving (Conn σ)} (hw : Between b w) :
    Outcome (fun _ => Between b) (fun w' => Due b w'.acts) (serve N b results ins w) := by
  induction ins generalizing w with
  | nil => exact hw
  | cons i ins ih =>
    cases i with
    | eos | error => exact hw
    | bytes bytes =>
      cases bytes with
      | nil => exact ih hw
      | cons x bytes => exact outcome_bind (turn_due (x :: bytes) hw) fun _ w₁ hw₁ => ih hw₁

end Uv

namespace Asio

/-- `write` leaves the stream's end as it is, so the loop goes on to the next request. -/
theorem answer_due (reqs : List Request) {w : Serving (Conn σ)} (hw : Due b w.acts)
    (hnext : Next b w.acts reqs) :
    Outcome (fun _ w' => Due b w'.acts) (fun w' => Due b w'.acts) (answer N b results reqs w) := by
  induction reqs generalizing w with
  | nil => exact hw
  | cons req reqs ih =>
    unfold answer
    rw [get_bind]
    by_cases heos : w.conn.eos = true
    · rw [if_pos heos]
      exact hw
    · rw [if_neg heos]
      refine outcome_bind (process_due hw hnext) fun resp w₁ h₁ => ?_
      obtain ⟨hw₁, hnext₁, -⟩ := h₁
      exact outcome_bind (writing_due (Conn.write N results resp) hw₁ hnext₁) fun _ w₂ h₂ => ih h₂.1 h₂.2

/-- One `reqs()`, with a read or a write that may fail. -/
theorem reqs_due (i : Input) {w : Serving (Conn σ)} (hserved : Served b .asio w) (hw : Due b w.acts) :
    Outcome (fun reqs w' => Due b w'.acts ∧ Next b w'.acts reqs) (fun w' => Due b w'.acts)
      (reqs N results i w) := by
  have hnothing : ∀ {acts : List Act}, Due b acts → Next b acts [] := by
    intro acts h
    unfold Next
    rw [show b.calls [] = [] from rfl, List.append_nil]
    exact h.now
  cases i with
  | eos | error => exact ⟨hw, hnothing hw⟩
  | bytes bytes =>
    unfold reqs
    dsimp only
    rcases readActs_eq (N := N) bytes w.conn.session with ⟨evs, t, hread, hacts⟩ | ⟨why, t, evs, hread, hacts⟩
    · have hok : onConn (Conn.read N bytes) { w with acts := w.acts ++ readActs N bytes w.conn.session } =
          .ok (evs.foldl onEvent (w.conn.streams, [])).2
            { conn := { w.conn with session := t, streams := (evs.foldl onEvent (w.conn.streams, [])).1 },
              acts := w.acts ++ readActs N bytes w.conn.session } := zoom_ok (Conn.read_ok hread)
      obtain ⟨hdue, hnext⟩ := due_deliver_next hserved hw bytes evs
      rw [hok, hacts]
      exact outcome_bind (writing_due (Conn.writePending N results) hdue hnext) fun _ w' h => h
    · have hfails : onConn (Conn.read N bytes) { w with acts := w.acts ++ readActs N bytes w.conn.session } =
          .error (.runtime_error why)
            { conn := { w.conn with session := t }, acts := w.acts ++ readActs N bytes w.conn.session } :=
        zoom_error (bind_error (zoom_error hread))
      have hdue := due_readFailed hw bytes evs
      rw [hfails, hacts]
      exact ⟨hdue, hnothing hdue⟩

/-- A batch that was read and answered without a failure. -/
theorem round_served {i : Input} {reqs : List Request} {w w₁ w₂ : Serving (Conn σ)} (hw : Served b .asio w)
    (h₁ : Asio.reqs N results i w = .ok reqs w₁) (hrunning : Running w₁)
    (h₂ : answer N b results reqs w₁ = .ok () w₂) : Served b .asio w₂ := by
  obtain ⟨hacts₂, hstreams₂⟩ := answer_acts reqs hrunning h₂
  rcases reqs_acts i h₁ hrunning.1 with ⟨bytes, evs, hstreams, rfl, hacts⟩ | ⟨rfl, hstreams, hacts⟩
  · have hall : w₂.acts = w.acts ++ ([.recv bytes, .deliver evs] ++
        (b.calls (evs.foldl onEvent (w.conn.streams, [])).2).map .handle) := by
      rw [hacts₂, hacts, List.append_assoc]
    exact served_batch hw (hstreams₂.trans hstreams) hall
  · have hsame : w₂.acts = w.acts := by
      rw [hacts₂, hacts]
      exact List.append_nil _
    refine ⟨?_, ?_⟩
    · show w₂.conn.streams = _
      rw [hstreams₂, hstreams, hsame]
      exact hw.1
    · rw [hsame]
      exact hw.2

theorem serve_due (ins : List Input) {w : Serving (Conn σ)} (hserved : Served b .asio w) (hw : Due b w.acts)
    (hrunning : Running w) : Due b (final (serve N b results ins w)).acts := by
  induction ins generalizing w with
  | nil => exact hw
  | cons i ins ih =>
    unfold serve
    rw [get_bind, if_neg (by simp [hrunning.2.2])]
    have hdue₁ : Outcome _ _ (reqs N results i w) := reqs_due i hserved hw
    have hreqs : Outcome _ Stopped (reqs N results i w) := reqs_outcome i hrunning
    cases h₁ : reqs N results i w with
    | error e w₁ =>
      rw [h₁] at hdue₁
      rw [bind_error h₁]
      exact hdue₁
    | ok rs w₁ =>
      rw [h₁] at hdue₁ hreqs
      rw [bind_ok h₁]
      have hdue₂ : Outcome _ _ (answer N b results rs w₁) := answer_due rs hdue₁.1 hdue₁.2
      cases h₂ : answer N b results rs w₁ with
      | error e w₂ =>
        rw [h₂] at hdue₂
        rw [bind_error h₂]
        exact hdue₂
      | ok u w₂ =>
        rw [h₂] at hdue₂
        rw [bind_ok h₂]
        rcases hreqs with hrunning₁ | ⟨rfl, heos, -⟩
        · have hanswer : Outcome _ Stopped (answer N b results rs w₁) := answer_outcome rs hrunning₁
          rw [h₂] at hanswer
          exact ih (round_served hserved h₁ hrunning₁ h₂) hdue₂ hanswer
        · -- the stream has ended, and the rest of the inputs is not read
          cases h₂
          cases ins with
          | nil => exact hdue₂
          | cons j ins =>
            show Due b (final (serve N b results (j :: ins) w₁)).acts
            unfold serve
            rw [get_bind, if_pos heos]
            exact hdue₂

end Asio

/-! ## Either backend -/

theorem serve_due (B : Backend) (m : σ) (ins : List Input) :
    Due b (final (B.serve N b results ins { conn := B.fresh m })).acts := by
  have hstart : Due b [] := by
    intro pre hpre
    rw [List.prefix_nil.1 hpre]
    exact List.nil_prefix
  cases B with
  | uv =>
    have hfresh : Uv.Between b ({ conn := Backend.fresh .uv m } : Serving (Uv.Conn σ)) :=
      ⟨⟨rfl, rfl⟩, hstart⟩
    have hend : Outcome (fun _ w => Due b w.acts) (fun w => Due b w.acts)
        (Uv.serve N b results ins { conn := Backend.fresh .uv m }) :=
      (Uv.serve_due ins hfresh).mono (fun _ _ h => h.2) fun _ h => h
    exact outcome_final hend
  | asio =>
    have hrunning : Asio.Running ({ conn := Backend.fresh .asio m } : Serving (Asio.Conn σ)) := by
      refine ⟨?_, rfl, rfl⟩
      intro a ha
      cases ha
    exact Asio.serve_due ins ⟨rfl, rfl⟩ hstart hrunning

/-- A request has at most one handler called. -/
theorem length_process (req : Request) : (b.process req).1.length ≤ 1 := by
  unfold ServerBase.process
  split
  · exact Nat.zero_le 1
  · split
    · exact Nat.zero_le 1
    · rename_i service _
      have hcall : (service.call (.ofRequest req) req.method req.data).1.length ≤ 1 := by
        unfold Service.call
        cases service.handlers.lookup req.method with
        | none => exact Nat.zero_le 1
        | some handler => exact Nat.le_refl 1
      dsimp only
      split
      · exact hcall
      · split <;> exact hcall

theorem length_calls (reqs : List Request) : (b.calls reqs).length ≤ reqs.length := by
  induction reqs with
  | nil => exact Nat.le_refl 0
  | cons req reqs ih =>
    have hone := length_process (b := b) req
    simp only [ServerBase.calls, List.flatMap_cons, List.length_append, List.length_cons] at ih ⊢
    omega

/-- **At most once.** At every moment of every run of either backend, whatever reads and writes fail and
whatever the handlers do, the handlers called are the first of those that the delivered requests
call for, in the order of dispatch. So they are no more than the ends of streams delivered, and none is called
twice for one of them. -/
theorem handled_at_most_once (N : Nghttp2 σ) (b : ServerBase) (results : ℕ → WriteResult) (B : Backend) (m : σ)
    (ins : List Input) {pre : List Act}
    (hpre : pre <+: (final (B.serve N b results ins { conn := B.fresh m })).acts) :
    handled pre <+: b.calls (batched [] (delivered pre)) ∧
      (handled pre).length ≤ (delivered pre).flatten.countP Event.completes := by
  have hdue : handled pre <+: b.calls (handed (delivered pre)).2 := serve_due B m ins pre hpre
  rw [(handed_eq (delivered pre)).2] at hdue
  refine ⟨hdue, ?_⟩
  calc (handled pre).length
      ≤ (b.calls (batched [] (delivered pre))).length := hdue.length_le
    _ ≤ (batched [] (delivered pre)).length := length_calls _
    _ = (ended [] (delivered pre).flatten).length := (batched_perm [] (delivered pre)).length_eq
    _ = (delivered pre).flatten.countP Event.completes := length_ended [] _

/-- Two requests in one read, and no write goes through: with Asio the second handler is not called. -/
theorem handled_at_most_once_two :
    let acts := (final (Backend.asio.serve (Mini.nghttp2 bothMethods) twoMethods (fun _ => .failed "reset")
      [.bytes [0x00]] { conn := Backend.asio.fresh {} })).acts
    handled acts = [⟨lit "a", lit "c", []⟩] ∧
      twoMethods.calls (batched [] (delivered acts)) = [⟨lit "a", lit "c", []⟩, ⟨lit "a", lit "b", []⟩] ∧
      (handled acts <+: twoMethods.calls (batched [] (delivered acts)) ∧
        (handled acts).length ≤ (delivered acts).flatten.countP Event.completes) := by
  refine ⟨by decide +kernel, by decide +kernel, ?_⟩
  exact handled_at_most_once (Mini.nghttp2 bothMethods) twoMethods (fun _ => .failed "reset") .asio {}
    [.bytes [0x00]] List.prefix_rfl

end Grpcxx
