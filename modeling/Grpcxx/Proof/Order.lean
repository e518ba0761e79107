import Grpcxx.Proof.Failure
import Grpcxx.Proof.Reset

/-!
# The order of dispatch

`conn::read` collects the requests of a batch with `push_front`, and `server::conn` processes
them as they stand in the list. So a batch's requests are processed last end first, and
batches in the order in which they were read.

* `foldl_onEvent_ended`: what a batch does, in terms of the events before it.
* `handed_eq`: the requests of a sequence of batches.
* `serve_handled`: in a run in which nothing fails, handlers are called for them in that order.
* `dispatch_order`: both together; with at most one end in each batch, the order is that of the
  ends.
-/

namespace Grpcxx

open Serving

/-! ## What a stream has sent -/

namespace StreamEvent

/-- What a session event tells a stream's request. -/
def ofEvent (ev : Event) : Option StreamEvent :=
  match ev.type, ev.header with
  | .stream_header, some h => some (.header h.name h.value)
  | .stream_data, _ => some (.data ev.data)
  | _, _ => none

/-- One more event, in what its stream has sent since its last end or close. -/
def track (id : StreamId) (sent : List StreamEvent) (ev : Event) : List StreamEvent :=
  if ev.stream_id ≠ id then sent
  else if ev.closing then []
  else sent ++ (ofEvent ev).toList

/-- What the stream has sent since its last end or close. -/
def sent (id : StreamId) (evs : List Event) : List StreamEvent := evs.foldl (track id) []

theorem sent_snoc (id : StreamId) (evs : List Event) (ev : Event) :
    sent id (evs ++ [ev]) = track id (sent id evs) ev := by
  simp [sent, List.foldl_append]

end StreamEvent

open StreamEvent

/-- An event that ends a stream with a request. -/
def Event.completes (ev : Event) : Bool := 0 < ev.stream_id && ev.type = .stream_end

/-- The requests completed by `evs` after `pre`, in the order of the events that end them. -/
def ended (pre : List Event) : List Event → List Request
  | [] => []
  | ev :: evs =>
    (if ev.completes then [built ev.stream_id (sent ev.stream_id pre)] else []) ++
      ended (pre ++ [ev]) evs

theorem ended_append (pre evs evs' : List Event) :
    ended pre (evs ++ evs') = ended pre evs ++ ended (pre ++ evs) evs' := by
  induction evs generalizing pre with
  | nil => simp [ended]
  | cons ev evs ih => simp only [List.cons_append, ended, ih, List.append_assoc, List.nil_append]

theorem length_ended (pre evs : List Event) : (ended pre evs).length = evs.countP Event.completes := by
  induction evs generalizing pre with
  | nil => rfl
  | cons ev evs ih =>
    simp only [ended, List.length_append, ih, List.countP_cons]
    split <;> simp [Nat.add_comm]

/-- The table holds of each stream the request that it has sent so far. -/
def TableOf (streams : Streams) (pre : List Event) : Prop :=
  ∀ id, 0 < id → (streams.lookup id).getD { id } = built id (sent id pre)

theorem tableOf_nil : TableOf ∅ [] := by
  intro id _
  rfl

theorem onEvent_ended {st : Streams × List Request} {pre : List Event} (h : TableOf st.1 pre)
    (ev : Event) : TableOf (onEvent st ev).1 (pre ++ [ev]) ∧
      (onEvent st ev).2 = (ended pre [ev]).reverse ++ st.2 := by
  by_cases hpos : 0 < ev.stream_id
  · obtain ⟨hreqs, hstreams⟩ := onEvent_eq st ev hpos
    have hreq := h ev.stream_id hpos
    refine ⟨fun id hid => ?_, ?_⟩
    · rw [hstreams, sent_snoc]
      unfold track
      by_cases hown : ev.stream_id = id
      · subst hown
        rw [if_pos rfl, if_neg (by simp)]
        unfold onOwn ofEvent Event.closing
        rw [hreq]
        -- a header or a chunk is one more thing sent, an end or a close starts anew
        cases ev.type with
        | stream_header =>
          cases ev.header with
          | none => simp
          | some hd => simp [built_snoc, on]
        | stream_data => simp [built_snoc, on]
        | stream_end => rfl
        | stream_close => rfl
        | noop => cases ev.header <;> simp
      · rw [if_neg (Ne.symm hown), if_pos hown]
        exact h id hid
    · rw [hreqs]
      unfold onOwn ended Event.completes
      rw [hreq]
      cases ev.type with
      | stream_header => cases ev.header <;> simp [ended]
      | _ => simp [ended, hpos]
  · rw [onEvent_skip st ev (not_lt.1 hpos)]
    have hnone : ev.completes = false := by simp [Event.completes, hpos]
    refine ⟨fun id hid => ?_, by simp [ended, hnone]⟩
    have hne : ev.stream_id ≠ id := fun heq => hpos (heq ▸ hid)
    rw [sent_snoc, track, if_pos hne]
    exact h id hid

/-- **A batch.** Its requests stand in the reverse order of their ends. -/
theorem foldl_onEvent_ended {st : Streams × List Request} {pre : List Event} (h : TableOf st.1 pre)
    (evs : List Event) : TableOf (evs.foldl onEvent st).1 (pre ++ evs) ∧
      (evs.foldl onEvent st).2 = (ended pre evs).reverse ++ st.2 := by
  induction evs using List.reverseRecOn with
  | nil => exact ⟨by simpa using h, rfl⟩
  | append_singleton evs ev ih =>
    obtain ⟨htable, hreqs⟩ := ih
    obtain ⟨htable', hreqs'⟩ := onEvent_ended htable ev
    rw [List.foldl_append, List.foldl_cons, List.foldl_nil]
    refine ⟨by rw [← List.append_assoc]; exact htable', ?_⟩
    rw [hreqs', hreqs, ended_append, List.reverse_append, List.append_assoc]

/-! ## Batches -/

/-- One `conn::read`: the table, and the requests returned so far. -/
def hand (st : Streams × List Request) (evs : List Event) : Streams × List Request :=
  let r := evs.foldl onEvent (st.1, [])
  (r.1, st.2 ++ r.2)

/-- The table and the requests returned, one list after the other, when `session::read`
delivers these batches. -/
def handed (batches : List (List Event)) : Streams × List Request := batches.foldl hand (∅, [])

/-- Batch by batch, the requests last end first. -/
def batched (pre : List Event) : List (List Event) → List Request
  | [] => []
  | evs :: batches => (ended pre evs).reverse ++ batched (pre ++ evs) batches

theorem handed_snoc (batches : List (List Event)) (evs : List Event) :
    handed (batches ++ [evs]) = hand (handed batches) evs := by
  simp [handed, List.foldl_append]

theorem batched_snoc (pre : List Event) (batches : List (List Event)) (evs : List Event) :
    batched pre (batches ++ [evs]) =
      batched pre batches ++ (ended (pre ++ batches.flatten) evs).reverse := by
  induction batches generalizing pre with
  | nil => simp [batched]
  | cons evs' batches ih => simp [batched, ih]

/-- **The requests of a sequence of batches.** -/
theorem handed_eq (batches : List (List Event)) :
    TableOf (handed batches).1 batches.flatten ∧ (handed batches).2 = batched [] batches := by
  induction batches using List.reverseRecOn with
  | nil => exact ⟨tableOf_nil, rfl⟩
  | append_singleton batches evs ih =>
    obtain ⟨htable, hreqs⟩ := ih
    obtain ⟨htable', hreqs'⟩ := @foldl_onEvent_ended ((handed batches).1, []) _ htable evs
    rw [handed_snoc, batched_snoc, List.flatten_append]
    refine ⟨by simpa [hand] using htable', ?_⟩
    show (handed batches).2 ++ _ = _
    rw [hreqs', hreqs, List.append_nil, List.nil_append]

/-- With at most one end in each batch the order is that of the ends. -/
theorem batched_single {batches : List (List Event)} (pre : List Event)
    (h : ∀ evs ∈ batches, evs.countP Event.completes ≤ 1) :
    batched pre batches = ended pre batches.flatten := by
  induction batches generalizing pre with
  | nil => rfl
  | cons evs batches ih =>
    have hone : (ended pre evs).length ≤ 1 := by
      rw [length_ended]
      exact h evs List.mem_cons_self
    have hrev : (ended pre evs).reverse = ended pre evs := by
      match hevs : ended pre evs with
      | [] => rfl
      | [r] => rfl
      | r :: r' :: rs => rw [hevs] at hone; simp at hone
    rw [batched, hrev, ih _ fun e he => h e (List.mem_cons_of_mem _ he), List.flatten_cons,
      ended_append]

theorem batched_perm (pre : List Event) (batches : List (List Event)) :
    List.Perm (batched pre batches) (ended pre batches.flatten) := by
  induction batches generalizing pre with
  | nil => exact List.Perm.refl _
  | cons evs batches ih =>
    rw [batched, List.flatten_cons, ended_append]
    exact (List.reverse_perm _).append (ih _)

/-- A request completed is what its stream sent before the event that ends it. -/
theorem mem_ended {pre evs : List Event} {r : Request} (h : r ∈ ended pre evs) :
    ∃ before ev after, evs = before ++ ev :: after ∧ ev.completes = true ∧
      r = built ev.stream_id (sent ev.stream_id (pre ++ before)) := by
  induction evs generalizing pre with
  | nil => cases h
  | cons ev evs ih =>
    rcases List.mem_append.1 h with h | h
    · split at h
      · rename_i hev
        exact ⟨[], ev, evs, rfl, hev, by rw [List.mem_singleton.1 h, List.append_nil]⟩
      · cases h
    · obtain ⟨before, e, after, rfl, he, hr⟩ := ih h
      exact ⟨ev :: before, e, after, rfl, he, by rw [hr, List.append_assoc, List.singleton_append]⟩

/-! ## The loop over the requests -/

/-- The batches `session::read` delivered. -/
def delivered (acts : List Act) : List (List Event) :=
  acts.filterMap fun
    | .deliver evs => some evs
    | _ => none

/-- The handlers called. -/
def handled (acts : List Act) : List Invocation :=
  acts.filterMap fun
    | .handle i => some i
    | _ => none

/-- The handler calls for these requests, processed one after the other. -/
def ServerBase.calls (b : ServerBase) (reqs : List Request) : List Invocation :=
  reqs.flatMap fun req => (b.process req).1

theorem delivered_handles (is : List Invocation) : delivered (is.map .handle) = [] := by
  induction is with
  | nil => rfl
  | cons i is ih => exact ih

theorem handled_handles (is : List Invocation) : handled (is.map .handle) = is := by
  induction is with
  | nil => rfl
  | cons i is ih => exact congrArg (i :: ·) ih

variable {σ : Type} {N : Nghttp2 σ} {b : ServerBase} {results : ℕ → WriteResult}

/-- What was handled are the requests of what was delivered, in that order. -/
def Served (b : ServerBase) (B : Backend) (w : Serving (B.Conn σ)) : Prop :=
  B.streams w.conn = (handed (delivered w.acts)).1 ∧
    handled w.acts = b.calls (handed (delivered w.acts)).2

/-- One batch taken in and answered. -/
theorem served_batch {B : Backend} {w w' : Serving (B.Conn σ)} (hw : Served b B w) {bytes : Bytes}
    {evs : List Event}
    (hstreams : B.streams w'.conn = (evs.foldl onEvent (B.streams w.conn, [])).1)
    (hacts : w'.acts = w.acts ++ ([.recv bytes, .deliver evs] ++
      (b.calls (evs.foldl onEvent (B.streams w.conn, [])).2).map .handle)) : Served b B w' := by
  obtain ⟨htable, hhandled⟩ := hw
  have hdelivered : delivered w'.acts = delivered w.acts ++ [evs] := by
    have hnone := delivered_handles (b.calls (evs.foldl onEvent (B.streams w.conn, [])).2)
    unfold delivered at hnone ⊢
    rw [hacts, List.filterMap_append, List.filterMap_append, hnone]
    rfl
  have hcalls : handled w'.acts =
      handled w.acts ++ b.calls (evs.foldl onEvent (B.streams w.conn, [])).2 := by
    have hall := handled_handles (b.calls (evs.foldl onEvent (B.streams w.conn, [])).2)
    unfold handled at hall ⊢
    rw [hacts, List.filterMap_append, List.filterMap_append, hall]
    rfl
  unfold Served
  rw [hdelivered, handed_snoc, hcalls, hhandled, hstreams, htable]
  exact ⟨rfl, by simp [hand, ServerBase.calls]⟩

theorem process_eq_ok {C : Type} {req : Request} {w w' : Serving C} {resp : Response}
    (h : process b req w = .ok resp w') :
    (b.process req).2 = .ok resp ∧
      w' = { w with acts := w.acts ++ (b.process req).1.map .handle } := by
  cases hp : (b.process req).2 with
  | ok resp' =>
    rw [process_ok hp] at h
    cases h
    exact ⟨rfl, rfl⟩
  | error e =>
    rw [process_error hp] at h
    cases h

theorem writing_ok {C : Type} {f : Call C Unit} {w w' : Serving C}
    (h : writing f w = .ok () w') : ∃ c, f w.conn = .ok () c ∧ w' = { w with conn := c } := by
  unfold writing at h
  split at h
  · rename_i c hc
    cases h
    exact ⟨c, hc, rfl⟩
  · cases h

/-- A write that fails is recorded. -/
theorem writing_error {C : Type} {f : Call C Unit} {w w' : Serving C} {e : Fault}
    (h : writing f w = .error e w') : ¬ Unfailed w'.acts := by
  unfold writing at h
  split at h
  · cases h
  · cases h
    intro hun
    cases hun .writeFailed (by simp)

theorem unfailed_of_append {acts as : List Act} (h : Unfailed (acts ++ as)) : Unfailed acts :=
  fun a ha => h a (List.mem_append_left _ ha)

namespace Uv

theorem answer_acts (reqs : List Request) {w w' : Serving (Conn σ)}
    (h : answer N b reqs w = .ok () w') :
    w'.acts = w.acts ++ (b.calls reqs).map .handle ∧ w'.conn.streams = w.conn.streams := by
  induction reqs generalizing w with
  | nil =>
    cases h
    exact ⟨(List.append_nil _).symm, rfl⟩
  | cons req reqs ih =>
    unfold answer at h
    obtain ⟨resp, w₁, h₁, h⟩ := bind_eq_ok_iff.1 h
    obtain ⟨_, w₂, h₂, h⟩ := bind_eq_ok_iff.1 h
    obtain ⟨hacts, hstreams⟩ := ih h
    obtain ⟨-, rfl⟩ := process_eq_ok h₁
    obtain ⟨c, hc, rfl⟩ := zoom_eq_ok_iff.1 h₂
    have hsame := (Conn.write_wrote hc).2
    refine ⟨?_, hstreams.trans hsame⟩
    rw [hacts]
    simp [ServerBase.calls]

/-- What the loop over the requests throws is past catching. -/
theorem answer_error (reqs : List Request) {w w' : Serving (Conn σ)} {e : Fault}
    (h : answer N b reqs w = .error e w') : e.isThrown = false := by
  induction reqs generalizing w with
  | nil => cases h
  | cons req reqs ih =>
    unfold answer at h
    cases h₁ : process b req w with
    | error e₁ w₁ =>
      rw [bind_error h₁] at h
      cases h
      unfold process at h₁
      dsimp only at h₁
      split at h₁
      · cases h₁
      · rename_i hp
        cases h₁
        rw [ServerBase.process_error hp]; rfl
    | ok resp w₁ =>
      rw [bind_ok h₁] at h
      cases h₂ : onConn (Conn.write N resp) w₁ with
      | ok _ w₂ =>
        rw [bind_ok h₂] at h
        exact ih h
      | error e₂ w₂ =>
        rw [bind_error h₂] at h
        cases h
        obtain ⟨c, hc, -⟩ := zoom_eq_error_iff.1 h₂
        exact noexcept_thrown hc

theorem task_ok {C : Type} {f : Call C Unit} {s s' : C} (h : task f s = .ok () s') :
    f s = .ok () s' ∨ ∃ e, f s = .error e s' ∧ e.isThrown = true := by
  unfold task at h
  split at h
  · rename_i t ht
    cases h
    exact Or.inl ht
  · rename_i e t ht
    split at h
    · rename_i he
      cases h
      exact Or.inr ⟨e, ht, he⟩
    · cases h

theorem job_acts {bytes : Bytes} {w w' : Serving (Conn σ)} (h : job N b bytes w = .ok () w') :
    ∃ evs, w'.conn.streams = (evs.foldl onEvent (w.conn.streams, [])).1 ∧
      w'.acts = w.acts ++ ([.recv bytes, .deliver evs] ++
        (b.calls (evs.foldl onEvent (w.conn.streams, [])).2).map .handle) := by
  unfold job at h
  rw [get_bind, act_bind] at h
  obtain ⟨reqs, w₁, h₁, h⟩ := bind_eq_ok_iff.1 h
  obtain ⟨c, hc, rfl⟩ := zoom_eq_ok_iff.1 h₁
  have hreceive : Backend.uv.receive N (fun _ => .completed) bytes w.conn = .ok reqs c := hc
  obtain ⟨evs, t, hread, hstreams, rfl, -⟩ := Backend.receive_ok hreceive
  obtain ⟨hacts, hsame⟩ := answer_acts _ h
  refine ⟨evs, hsame.trans hstreams, ?_⟩
  have hreadActs : readActs N bytes w.conn.session = [.recv bytes, .deliver evs] := by
    unfold readActs
    rw [show Session.read N bytes w.conn.session = .ok evs t from hread]
  rw [hacts, hreadActs, List.append_assoc]
  rfl

/-- What a job throws is the failure of its read, or past catching. -/
theorem job_throws {bytes : Bytes} {w w' : Serving (Conn σ)} {e : Fault}
    (h : job N b bytes w = .error e w') (he : e.isThrown = true) : ¬ Unfailed w'.acts := by
  unfold job at h
  rw [get_bind, act_bind] at h
  rcases readActs_eq (N := N) bytes w.conn.session with ⟨evs, t, hread, hacts⟩ | ⟨why, t, evs, hread, hacts⟩
  · exfalso
    cases h₁ : onConn (Conn.read N bytes) { w with acts := w.acts ++ readActs N bytes w.conn.session } with
    | ok reqs w₁ =>
      rw [bind_ok h₁] at h
      rw [answer_error reqs h] at he
      cases he
    | error e₁ w₁ =>
      rw [bind_error h₁] at h
      cases h
      obtain ⟨c, hc, -⟩ := zoom_eq_error_iff.1 h₁
      unfold Conn.read at hc
      rw [bind_ok (Conn.onSession_ok hread), get_bind, set_bind] at hc
      cases h₂ : Conn.fill N _ with
      | ok _ c₂ =>
        rw [bind_ok h₂] at hc
        cases hc
      | error e₂ c₂ =>
        rw [bind_error h₂] at hc
        cases hc
        rw [noexcept_thrown h₂] at he
        cases he
  · have hfails : onConn (Conn.read N bytes) { w with acts := w.acts ++ readActs N bytes w.conn.session } =
        .error (.runtime_error why) _ := zoom_error (bind_error (Conn.onSession_error hread))
    rw [bind_error hfails, hacts] at h
    cases h
    intro hun
    cases hun (.readFailed evs) (by simp)

/-- One turn in which nothing fails. -/
theorem turn_served {bytes : Bytes} {w w' : Serving (Conn σ)} (hw : Served b .uv w)
    (h : turn N b results bytes w = .ok () w') (hun : Unfailed w'.acts) : Served b .uv w' := by
  unfold turn at h
  obtain ⟨_, w₁, hjob, hflush⟩ := bind_eq_ok_iff.1 h
  rcases task_ok hflush with hflush | ⟨e, hflush, -⟩
  · obtain ⟨c, hc, rfl⟩ := writing_ok hflush
    have hsame := (Conn.flush_ok hc).2
    rcases task_ok hjob with hjob | ⟨e, hjob, he⟩
    · obtain ⟨evs, hstreams, hacts⟩ := job_acts hjob
      exact served_batch hw (hsame.trans hstreams) hacts
    · exact absurd (show Unfailed w₁.acts from hun) (job_throws hjob he)
  · exact absurd hun (writing_error hflush)

/-- Once failed, always failed. -/
theorem serve_unfailed {ins : List Input} {w w' : Serving (Conn σ)}
    (h : serve N b results ins w = .ok () w') (hun : Unfailed w'.acts) : Unfailed w.acts := by
  obtain ⟨as, has⟩ : ∃ as, (final (serve N b results ins w)).acts = w.acts ++ as := serve_acts ins w
  rw [h] at has
  have hacts : w'.acts = w.acts ++ as := has
  rw [hacts] at hun
  exact unfailed_of_append hun

theorem serve_served (ins : List Input) {w w' : Serving (Conn σ)} (hw : Served b .uv w)
    (h : serve N b results ins w = .ok () w') (hun : Unfailed w'.acts) : Served b .uv w' := by
  induction ins generalizing w with
  | nil => cases h; exact hw
  | cons i ins ih =>
    cases i with
    | eos | error => cases h; exact hw
    | bytes bytes =>
      cases bytes with
      | nil => exact ih hw h
      | cons x bytes =>
        obtain ⟨_, w₁, hturn, hrest⟩ := bind_eq_ok_iff.1 h
        exact ih (turn_served hw hturn (serve_unfailed hrest hun)) hrest

end Uv

namespace Asio

theorem answer_acts (reqs : List Request) {w w' : Serving (Conn σ)} (hw : Running w)
    (h : answer N b results reqs w = .ok () w') :
    w'.acts = w.acts ++ (b.calls reqs).map .handle ∧ w'.conn.streams = w.conn.streams := by
  induction reqs generalizing w with
  | nil =>
    cases h
    exact ⟨(List.append_nil _).symm, rfl⟩
  | cons req reqs ih =>
    have hone : Outcome (fun _ => Running) Stopped (answer N b results [req] w) := answer_outcome [req] hw
    unfold answer at h hone
    rw [get_bind, if_neg (by simp [hw.2.2])] at h hone
    obtain ⟨resp, w₁, h₁, h⟩ := bind_eq_ok_iff.1 h
    obtain ⟨_, w₂, h₂, h⟩ := bind_eq_ok_iff.1 h
    rw [bind_ok h₁, bind_ok h₂] at hone
    have hrunning : Running w₂ := by
      unfold answer at hone
      exact hone
    obtain ⟨hacts, hstreams⟩ := ih hrunning h
    obtain ⟨-, rfl⟩ := process_eq_ok h₁
    obtain ⟨c, hc, rfl⟩ := writing_ok h₂
    have hsame := (Conn.write_wrote hc).2
    refine ⟨?_, hstreams.trans hsame⟩
    rw [hacts]
    simp [ServerBase.calls]

theorem answer_unfailed (reqs : List Request) {w w' : Serving (Conn σ)}
    (h : answer N b results reqs w = .ok () w') (hun : Unfailed w'.acts) : Unfailed w.acts := by
  induction reqs generalizing w with
  | nil => cases h; exact hun
  | cons req reqs ih =>
    unfold answer at h
    rw [get_bind] at h
    split at h
    · cases h; exact hun
    · obtain ⟨resp, w₁, h₁, h⟩ := bind_eq_ok_iff.1 h
      obtain ⟨_, w₂, h₂, h⟩ := bind_eq_ok_iff.1 h
      obtain ⟨-, rfl⟩ := process_eq_ok h₁
      obtain ⟨c, -, rfl⟩ := writing_ok h₂
      exact unfailed_of_append (ih h)

/-- One `reqs()` in which nothing fails: the batch it returns, or the end of the stream. -/
theorem reqs_acts (i : Input) {w w' : Serving (Conn σ)} {reqs : List Request}
    (h : Asio.reqs N results i w = .ok reqs w') (hun : Unfailed w'.acts) :
    (∃ bytes evs, w'.conn.streams = (evs.foldl onEvent (w.conn.streams, [])).1 ∧
        reqs = (evs.foldl onEvent (w.conn.streams, [])).2 ∧
        w'.acts = w.acts ++ [.recv bytes, .deliver evs]) ∨
      reqs = [] ∧ w'.conn.streams = w.conn.streams ∧ w'.acts = w.acts := by
  cases i with
  | eos | error =>
    cases h
    exact Or.inr ⟨rfl, rfl, rfl⟩
  | bytes bytes =>
    unfold Asio.reqs at h
    dsimp only at h
    rcases readActs_eq (N := N) bytes w.conn.session with ⟨evs, t, hread, hacts⟩ | ⟨why, t, evs, hread, hacts⟩
    · have hok : onConn (Conn.read N bytes) { w with acts := w.acts ++ readActs N bytes w.conn.session } =
          .ok (evs.foldl onEvent (w.conn.streams, [])).2
            { conn := { w.conn with session := t, streams := (evs.foldl onEvent (w.conn.streams, [])).1 },
              acts := w.acts ++ readActs N bytes w.conn.session } := zoom_ok (Conn.read_ok hread)
      rw [hok] at h
      obtain ⟨_, w₁, h₁, h⟩ := bind_eq_ok_iff.1 h
      cases h
      obtain ⟨c, hc, rfl⟩ := writing_ok h₁
      refine Or.inl ⟨bytes, evs, (Conn.writePending_drained hc).2, rfl, ?_⟩
      rw [← hacts]
    · have hfails : onConn (Conn.read N bytes) { w with acts := w.acts ++ readActs N bytes w.conn.session } =
          .error (.runtime_error why)
            { conn := { w.conn with session := t }, acts := w.acts ++ readActs N bytes w.conn.session } :=
        zoom_error (bind_error (zoom_error hread))
      rw [hfails, hacts] at h
      cases h
      cases hun (.readFailed evs) (by simp)

theorem reqs_unfailed (i : Input) {w w' : Serving (Conn σ)} {reqs : List Request}
    (h : Asio.reqs N results i w = .ok reqs w') (hun : Unfailed w'.acts) : Unfailed w.acts := by
  rcases reqs_acts i h hun with ⟨bytes, evs, -, -, hacts⟩ | ⟨-, -, hacts⟩
  · rw [hacts] at hun
    exact unfailed_of_append hun
  · rw [hacts] at hun
    exact hun

theorem serve_unfailed (ins : List Input) {w w' : Serving (Conn σ)}
    (h : serve N b results ins w = .ok () w') (hun : Unfailed w'.acts) : Unfailed w.acts := by
  induction ins generalizing w with
  | nil => cases h; exact hun
  | cons i ins ih =>
    unfold serve at h
    rw [get_bind] at h
    split at h
    · cases h; exact hun
    · obtain ⟨reqs, w₁, h₁, h⟩ := bind_eq_ok_iff.1 h
      obtain ⟨_, w₂, h₂, h⟩ := bind_eq_ok_iff.1 h
      exact reqs_unfailed i h₁ (answer_unfailed reqs h₂ (ih h))

theorem serve_served (ins : List Input) {w w' : Serving (Conn σ)} (hw : Served b .asio w)
    (hrunning : Running w) (h : serve N b results ins w = .ok () w') (hun : Unfailed w'.acts) :
    Served b .asio w' := by
  induction ins generalizing w with
  | nil => cases h; exact hw
  | cons i ins ih =>
    unfold serve at h
    rw [get_bind, if_neg (by simp [hrunning.2.2])] at h
    obtain ⟨reqs, w₁, h₁, h⟩ := bind_eq_ok_iff.1 h
    obtain ⟨_, w₂, h₂, h⟩ := bind_eq_ok_iff.1 h
    have hun₁ : Unfailed w₁.acts := answer_unfailed reqs h₂ (serve_unfailed ins h hun)
    have hreqs : Outcome _ Stopped (Asio.reqs N results i w) := reqs_outcome i hrunning
    rw [h₁] at hreqs
    rcases hreqs with hrunning₁ | ⟨rfl, heos, -⟩
    · -- the loop over the requests runs, and the connection goes on
      have hanswer : Outcome _ Stopped (answer N b results reqs w₁) := answer_outcome reqs hrunning₁
      rw [h₂] at hanswer
      obtain ⟨hacts₂, hstreams₂⟩ := answer_acts reqs hrunning₁ h₂
      refine ih ?_ hanswer h
      rcases reqs_acts i h₁ hun₁ with ⟨bytes, evs, hstreams, rfl, hacts⟩ | ⟨rfl, hstreams, hacts⟩
      · have hall : w₂.acts = w.acts ++ ([.recv bytes, .deliver evs] ++
            (b.calls (evs.foldl onEvent (w.conn.streams, [])).2).map .handle) := by
          rw [hacts₂, hacts, List.append_assoc]
        exact served_batch hw (hstreams₂.trans hstreams) hall
      · have hsame : w₂.acts = w.acts := by rw [hacts₂, hacts]; exact List.append_nil _
        have htable : w₂.conn.streams = w.conn.streams := hstreams₂.trans hstreams
        refine ⟨?_, ?_⟩
        · show w₂.conn.streams = _
          rw [htable, hsame]
          exact hw.1
        · rw [hsame]
          exact hw.2
    · -- the stream has ended, which leaves the rest of the inputs unread
      cases h₂
      have hend : w' = w₁ := by
        cases ins with
        | nil => cases h; rfl
        | cons j ins =>
          unfold serve at h
          rw [get_bind, if_pos heos] at h
          cases h
          rfl
      subst hend
      rcases reqs_acts i h₁ hun₁ with ⟨bytes, evs, hstreams, hnone, hacts⟩ | ⟨-, hstreams, hacts⟩
      · have hcalls : b.calls (evs.foldl onEvent (w.conn.streams, [])).2 = [] := by
          rw [← hnone]
          rfl
        have hall : w'.acts = w.acts ++ ([.recv bytes, .deliver evs] ++
            (b.calls (evs.foldl onEvent (w.conn.streams, [])).2).map .handle) := by
          rw [hacts, hcalls]
          rfl
        exact served_batch hw hstreams hall
      · refine ⟨?_, ?_⟩
        · show w'.conn.streams = _
          rw [hstreams, hacts]
          exact hw.1
        · rw [hacts]
          exact hw.2

end Asio

/-! ## Either backend -/

/-- A run in which nothing fails serves what it was delivered. -/
theorem serve_handled (B : Backend) {m : σ} {ins : List Input} {w : Serving (B.Conn σ)}
    (h : B.serve N b results ins { conn := B.fresh m } = .ok () w) (hun : Unfailed w.acts) :
    Served b B w := by
  cases B with
  | uv => exact Uv.serve_served ins ⟨rfl, rfl⟩ h hun
  | asio =>
    have hrunning : Asio.Running ({ conn := Backend.fresh .asio m } : Serving (Asio.Conn σ)) := by
      refine ⟨?_, rfl, rfl⟩
      intro a ha
      cases ha
    exact Asio.serve_served ins ⟨rfl, rfl⟩ hrunning h hun

/-- **The order of dispatch.** In every run of either backend in which nothing fails, the requests
are processed batch by batch, in each batch in the reverse order of the events that ended
them. So it is the order of these events if each batch has at most one of them, and then it does not
depend on the cut. -/
theorem dispatch_order (B : Backend) {m : σ} {ins : List Input} {w : Serving (B.Conn σ)}
    (h : B.serve N b results ins { conn := B.fresh m } = .ok () w) (hun : Unfailed w.acts) :
    handled w.acts = b.calls (handed (delivered w.acts)).2 ∧
      (handed (delivered w.acts)).2 = batched [] (delivered w.acts) ∧
      ((∀ evs ∈ delivered w.acts, evs.countP Event.completes ≤ 1) →
        (handed (delivered w.acts)).2 = ended [] (delivered w.acts).flatten) := by
  have hserved := serve_handled B h hun
  have hreqs := (handed_eq (delivered w.acts)).2
  refine ⟨hserved.2, hreqs, fun hsingle => ?_⟩
  rw [hreqs]
  exact batched_single [] hsingle

/-- What a coroutine that returns leaves behind. -/
def returned {S : Type} : EStateM.Result Fault S Unit → Option S
  | .ok _ s => some s
  | .error _ _ => none

theorem returned_eq_some {S : Type} {r : EStateM.Result Fault S Unit} {s : S}
    (h : returned r = some s) : r = .ok () s := by
  cases r with
  | ok a t => cases h; rfl
  | error e t => cases h

/-- A server with two methods, which return nothing. -/
def twoMethods : ServerBase :=
  ({} : ServerBase).add
    { name := lit "a"
      handlers := ((∅ : Map Bytes Handler).emplace (lit "b") fun _ _ => .ok ({}, [])).emplace (lit "c")
        fun _ _ => .ok ({}, []) }

/-- Bytes that bring a whole request for either method, for `/a/b` first. -/
def bothMethods : Bytes → Arrival := fun _ =>
  { callbacks := [.header 1 (lit ":path") (lit "/a/b"), .frame_recv 1 0x05,
      .header 3 (lit ":path") (lit "/a/c"), .frame_recv 3 0x05] }

/-- Two requests in one read: the handler of the second is called first. -/
theorem dispatch_order_two : ∃ w : Serving (Backend.uv.Conn Mini),
    Backend.uv.serve (Mini.nghttp2 bothMethods) twoMethods (fun _ => .completed) [.bytes [0x00]]
      { conn := Backend.uv.fresh {} } = .ok () w ∧
    handled w.acts = [⟨lit "a", lit "c", []⟩, ⟨lit "a", lit "b", []⟩] ∧
    handled w.acts = twoMethods.calls (batched [] (delivered w.acts)) := by
  obtain ⟨w, hw⟩ := Option.isSome_iff_exists.1 (show (returned (Backend.uv.serve
    (Mini.nghttp2 bothMethods) twoMethods (fun _ => .completed) [.bytes [0x00]]
    { conn := Backend.uv.fresh {} })).isSome = true by decide +kernel)
  have hall : (returned (Backend.uv.serve (Mini.nghttp2 bothMethods) twoMethods (fun _ => .completed)
      [.bytes [0x00]] { conn := Backend.uv.fresh {} })).map
        (fun w => (w.acts.all fun a => !a.failed, handled w.acts)) =
      some (true, [⟨lit "a", lit "c", []⟩, ⟨lit "a", lit "b", []⟩]) := by decide +kernel
  rw [hw, Option.map_some, Option.some.injEq, Prod.mk.injEq] at hall
  have hun : Unfailed w.acts := by
    intro a ha
    simpa using List.all_eq_true.1 hall.1 a ha
  have hok := returned_eq_some hw
  obtain ⟨hhandled, hreqs, -⟩ := dispatch_order .uv hok hun
  exact ⟨w, hok, hall.2, by rw [hhandled, hreqs]⟩

/-- Two requests, in one batch or in two. -/
theorem dispatch_order_fails : ¬ ∀ batches batches' : List (List Event),
    batches.flatten = batches'.flatten → (handed batches).2 = (handed batches').2 := by
  intro h
  have hsame := h
    [[(StreamEvent.header (lit ":path") (lit "/a/b")).event 1, .end 1,
      (StreamEvent.header (lit ":path") (lit "/a/c")).event 3, .end 3]]
    [[(StreamEvent.header (lit ":path") (lit "/a/b")).event 1, .end 1],
      [(StreamEvent.header (lit ":path") (lit "/a/c")).event 3, .end 3]] rfl
  exact absurd hsame (by decide +kernel)

end Grpcxx
