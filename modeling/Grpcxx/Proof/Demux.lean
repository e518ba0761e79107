import Grpcxx.Lib.Run
import Grpcxx.Model.Reference
import Grpcxx.Proof.Complete
import Grpcxx.Proof.Calls

/-!
# One stream among many

nghttp2's callbacks reach the connection as one queue of events, for all streams and
also for closes made while sending. `Demux` is that much of a connection: the queue,
the stream table, the requests returned. Its runs are those of either backend under any
nghttp2 (`watched_demux`).

* `onEvent_other`, `onEvent_view`: an event is seen by its own stream only, and by that one
  without a look at the others.
* `Demux.run_only`, `Demux.run_same`: a stream's requests do not depend on the other streams,
  nor on how its events were cut into reads.
* `demultiplexed`: so in every run of a connection; there is one request for each END_STREAM,
  and the table holds the streams with an event after their last end or close.
* `Demux.requests_built`: a stream's request is the one its headers and chunks build.
-/

namespace Grpcxx

/-! ## One event -/

/-- Every entry of the table is a request of its stream. -/
def Keyed (streams : Streams) : Prop := ∀ id r, streams.lookup id = some r → r.id = id

theorem Request.header_id (r : Request) (name value : Bytes) : (r.header name value).id = r.id := by
  unfold header headerPath
  dsimp only [setFlag]
  repeat' split
  all_goals rfl

theorem Request.read_id (r : Request) (data : Bytes) : (r.read data).id = r.id := by
  unfold read
  repeat' split
  all_goals rfl

/-- What becomes of a stream's request at one of its events: what the table then has, and
what is returned. -/
def onOwn (id : StreamId) (entry : Option Request) (ev : Event) : Option Request × List Request :=
  let req := entry.getD { id }
  match ev.type, ev.header with
  | .stream_close, _ => (none, [])
  | .stream_data, _ => (some (req.read ev.data), [])
  | .stream_end, _ => (none, [req])
  | .stream_header, some h => (some (req.header h.name h.value), [])
  | _, _ => (some req, [])

/-- **What an event does.** It changes the entry of its own stream, and that by `onOwn`. -/
theorem onEvent_eq (st : Streams × List Request) (ev : Event) (h : 0 < ev.stream_id) :
    (onEvent st ev).2 = (onOwn ev.stream_id (st.1.lookup ev.stream_id) ev).2 ++ st.2 ∧
      ∀ id, (onEvent st ev).1.lookup id =
        if id = ev.stream_id then (onOwn ev.stream_id (st.1.lookup ev.stream_id) ev).1
        else st.1.lookup id := by
  have hpos : ¬ ev.stream_id ≤ 0 := not_le.2 h
  have herase : ∀ (m : Streams) id, (m.erase ev.stream_id).lookup id =
      if id = ev.stream_id then none else m.lookup id := by
    intro m id
    split
    · rename_i hid; rw [hid, AList.lookup_erase]
    · rename_i hid; rw [AList.lookup_erase_ne hid]
  have hinsert : ∀ (m : Streams) r id, (m.insert ev.stream_id r).lookup id =
      if id = ev.stream_id then some r else m.lookup id := by
    intro m r id
    split
    · rename_i hid; rw [hid, AList.lookup_insert]
    · rename_i hid; rw [AList.lookup_insert_ne hid]
  have hemplace : ∀ r id, (st.1.emplace ev.stream_id r).lookup id =
      if id = ev.stream_id then some ((st.1.lookup ev.stream_id).getD r) else st.1.lookup id := by
    intro r id
    split
    · rename_i hid; rw [hid, Map.lookup_emplace_self]
    · rename_i hid; rw [Map.lookup_emplace_ne _ _ _ _ hid]
  unfold onEvent onOwn
  simp only [hpos, if_false, Map.lookup_emplace_self, Option.getD_some]
  -- the entry is emplaced first, whatever the event is, unless it is a close
  cases ev.type with
  | noop => cases ev.header <;> exact ⟨rfl, fun id => hemplace _ id⟩
  | stream_header =>
    cases ev.header with
    | none => exact ⟨rfl, fun id => hemplace _ id⟩
    | some hd =>
      refine ⟨rfl, fun id => (hinsert _ _ id).trans ?_⟩
      rw [hemplace]
      split <;> rfl
  | stream_close => exact ⟨rfl, fun id => herase _ id⟩
  | stream_data =>
    refine ⟨rfl, fun id => (hinsert _ _ id).trans ?_⟩
    rw [hemplace]
    split <;> rfl
  | stream_end =>
    refine ⟨rfl, fun id => (herase _ id).trans ?_⟩
    rw [hemplace]
    split <;> rfl

theorem onEvent_skip (st : Streams × List Request) (ev : Event) (h : ev.stream_id ≤ 0) :
    onEvent st ev = st := by
  simp only [onEvent, h, if_true]

theorem onOwn_id {id : StreamId} {entry : Option Request} (h : ∀ r, entry = some r → r.id = id)
    (ev : Event) : (∀ r, (onOwn id entry ev).1 = some r → r.id = id) ∧
      ∀ r ∈ (onOwn id entry ev).2, r.id = id := by
  have hreq : (entry.getD { id }).id = id := by
    cases entry with
    | none => rfl
    | some r => exact h r rfl
  unfold onOwn
  cases ev.type with
  | stream_header =>
    cases ev.header with
    | none => simp [hreq]
    | some hd => simp [Request.header_id, hreq]
  | _ => simp [Request.read_id, hreq]

theorem onEvent_keyed {st : Streams × List Request} (h : Keyed st.1) (ev : Event) :
    Keyed (onEvent st ev).1 := by
  by_cases hpos : 0 < ev.stream_id
  · intro id r hr
    rw [(onEvent_eq st ev hpos).2 id] at hr
    split at hr
    · rename_i hid
      subst hid
      exact (onOwn_id (h ev.stream_id) ev).1 r hr
    · exact h id r hr
  · rw [onEvent_skip st ev (not_lt.1 hpos)]
    exact h

/-! ## What one stream sees -/

/-- The entry of a stream and its requests. -/
def viewOf (id : StreamId) (st : Streams × List Request) : Option Request × List Request :=
  (st.1.lookup id, st.2.filter fun r => r.id = id)

/-- Events of other streams are not seen. -/
theorem onEvent_other {st : Streams × List Request} (h : Keyed st.1) {ev : Event} {id : StreamId}
    (hne : ev.stream_id ≠ id) : viewOf id (onEvent st ev) = viewOf id st := by
  by_cases hpos : 0 < ev.stream_id
  · obtain ⟨hreqs, hstreams⟩ := onEvent_eq st ev hpos
    have hnone : ((onOwn ev.stream_id (st.1.lookup ev.stream_id) ev).2.filter fun r => r.id = id) = [] := by
      rw [List.filter_eq_nil_iff]
      intro r hr
      simpa [(onOwn_id (h ev.stream_id) ev).2 r hr] using hne
    unfold viewOf
    rw [hstreams, if_neg (Ne.symm hne), hreqs, List.filter_append, hnone, List.nil_append]
  · rw [onEvent_skip st ev (not_lt.1 hpos)]

/-- What an event of the stream does is a matter of what the stream sees. -/
theorem onEvent_view {st st' : Streams × List Request} {ev : Event} {id : StreamId}
    (hev : ev.stream_id = id) (h : viewOf id st = viewOf id st') :
    viewOf id (onEvent st ev) = viewOf id (onEvent st' ev) := by
  by_cases hpos : 0 < ev.stream_id
  · obtain ⟨hreqs, hstreams⟩ := onEvent_eq st ev hpos
    obtain ⟨hreqs', hstreams'⟩ := onEvent_eq st' ev hpos
    obtain ⟨hl, hr⟩ := Prod.mk.injEq _ _ _ _ ▸ h
    subst hev
    unfold viewOf
    rw [hstreams, hstreams', if_pos rfl, if_pos rfl, hreqs, hreqs', List.filter_append,
      List.filter_append, hl, hr]
  · rw [onEvent_skip st ev (not_lt.1 hpos), onEvent_skip st' ev (not_lt.1 hpos)]
    exact h

/-- A batch of events, as one stream sees it. -/
theorem foldl_onEvent_view {st st' : Streams × List Request} (hst : Keyed st.1) (hst' : Keyed st'.1)
    {id : StreamId} (h : viewOf id st = viewOf id st') (evs : List Event) :
    viewOf id (evs.foldl onEvent st) =
      viewOf id ((evs.filter fun ev => ev.stream_id = id).foldl onEvent st') := by
  refine Run.foldl_unwind (I := fun st => Keyed st.1) (fun st ev hk => onEvent_keyed hk ev) ?_ ?_
    evs hst hst' h
  · intro st ev hk hev
    exact onEvent_other hk (by simpa using hev)
  · intro st st' ev _ _ hev hv
    exact onEvent_view (by simpa using hev) hv

theorem foldl_onEvent_keyed {st : Streams × List Request} (h : Keyed st.1) (evs : List Event) :
    Keyed (evs.foldl onEvent st).1 := by
  induction evs generalizing st with
  | nil => exact h
  | cons ev evs ih => exact ih (onEvent_keyed h ev)

theorem onEvent_append (streams : Streams) (rs : List Request) (ev : Event) :
    onEvent (streams, rs) ev =
      ((onEvent (streams, []) ev).1, (onEvent (streams, []) ev).2 ++ rs) := by
  unfold onEvent
  dsimp only
  repeat' split
  all_goals rfl

/-- The requests already collected play no part. -/
theorem foldl_onEvent_append (streams : Streams) (rs : List Request) (evs : List Event) :
    evs.foldl onEvent (streams, rs) =
      ((evs.foldl onEvent (streams, [])).1, (evs.foldl onEvent (streams, [])).2 ++ rs) := by
  induction evs generalizing streams rs with
  | nil => rfl
  | cons ev evs ih =>
    rw [List.foldl_cons, List.foldl_cons, onEvent_append, ih]
    conv_rhs => rw [← Prod.mk.eta (p := onEvent (streams, []) ev), ih]
    simp only [List.append_assoc]

/-! ## Requests of a batch -/

/-- The end of the stream `id`. -/
def Event.ends (id : StreamId) (ev : Event) : Bool := ev.type = .stream_end && ev.stream_id = id

theorem countP_onOwn {id : StreamId} {entry : Option Request} (h : ∀ r, entry = some r → r.id = id)
    (ev : Event) (hev : ev.stream_id = id) :
    (onOwn id entry ev).2.countP (fun r => r.id = id) = [ev].countP (Event.ends id) := by
  have hids := (onOwn_id h ev).2
  have hall : (onOwn id entry ev).2.countP (fun r => r.id = id) = (onOwn id entry ev).2.length := by
    rw [List.countP_eq_length]
    intro r hr
    simpa using hids r hr
  rw [hall, List.countP_singleton]
  unfold onOwn Event.ends
  cases ev.type with
  | stream_header => cases ev.header <;> simp
  | _ => simp [hev]

/-- One request for each end of a stream, and none for streams up to 0. -/
theorem countP_foldl_onEvent {st : Streams × List Request} (hst : Keyed st.1) (id : StreamId)
    (evs : List Event) :
    (evs.foldl onEvent st).2.countP (fun r => r.id = id) =
      st.2.countP (fun r => r.id = id) + if 0 < id then evs.countP (Event.ends id) else 0 := by
  induction evs generalizing st with
  | nil => simp
  | cons ev evs ih =>
    rw [List.foldl_cons, ih (onEvent_keyed hst ev)]
    by_cases hpos : 0 < ev.stream_id
    · rw [(onEvent_eq st ev hpos).1, List.countP_append]
      by_cases hev : ev.stream_id = id
      · subst hev
        have hone := countP_onOwn (hst ev.stream_id) ev rfl
        rw [List.countP_singleton] at hone
        simp only [hpos, if_true, List.countP_cons, hone]
        omega
      · have hzero : (onOwn ev.stream_id (st.1.lookup ev.stream_id) ev).2.countP
            (fun r => r.id = id) = 0 := by
          rw [List.countP_eq_zero]
          intro r hr
          simpa [(onOwn_id (hst ev.stream_id) ev).2 r hr] using hev
        have hno : Event.ends id ev = false := by simp [Event.ends, hev]
        simp [hzero, hno]
    · rw [onEvent_skip st ev (not_lt.1 hpos)]
      by_cases hid : 0 < id
      · have hno : Event.ends id ev = false := by
          have : ev.stream_id ≠ id := fun h => hpos (h ▸ hid)
          simp [Event.ends, this]
        simp [hno]
      · simp [hid]

/-- Requests come from events of their stream. -/
theorem mem_foldl_onEvent_requests {st : Streams × List Request} (hst : Keyed st.1) {evs : List Event}
    {r : Request} (h : r ∈ (evs.foldl onEvent st).2) : r ∈ st.2 ∨ ∃ ev ∈ evs, ev.stream_id = r.id := by
  induction evs generalizing st with
  | nil => exact Or.inl h
  | cons ev evs ih =>
    rcases ih (onEvent_keyed hst ev) h with h | ⟨e, he, hid⟩
    · by_cases hpos : 0 < ev.stream_id
      · rw [(onEvent_eq st ev hpos).1] at h
        rcases List.mem_append.1 h with h | h
        · exact Or.inr ⟨ev, List.mem_cons_self, ((onOwn_id (hst ev.stream_id) ev).2 r h).symm⟩
        · exact Or.inl h
      · rw [onEvent_skip st ev (not_lt.1 hpos)] at h
        exact Or.inl h
    · exact Or.inr ⟨e, List.mem_cons_of_mem _ he, hid⟩

/-! ## Streams in the table -/

/-- The event takes its stream out of the table. -/
def Event.closing (ev : Event) : Bool := ev.type = .stream_end || ev.type = .stream_close

/-- The stream had an event after its last end or close. -/
def Open (id : StreamId) (evs : List Event) : Prop :=
  ∃ pre ev post, evs = pre ++ ev :: post ∧ ev.stream_id = id ∧ ev.closing = false ∧
    ∀ e ∈ post, e.stream_id = id → e.closing = false

theorem not_open_nil (id : StreamId) : ¬ Open id [] := by
  rintro ⟨pre, ev, post, h, -⟩
  simp at h

theorem open_snoc (id : StreamId) (evs : List Event) (e : Event) :
    Open id (evs ++ [e]) ↔ if e.stream_id = id then e.closing = false else Open id evs := by
  constructor
  · rintro ⟨pre, ev, post, h, hid, hopen, hpost⟩
    -- the event found is the last one, or it is among those before
    rcases List.eq_nil_or_concat post with rfl | ⟨post, e', rfl⟩
    · obtain ⟨-, heq⟩ := List.append_inj' h rfl
      cases heq
      rw [if_pos hid]
      exact hopen
    · rw [List.concat_eq_append, ← List.cons_append, ← List.append_assoc] at h
      obtain ⟨hevs, heq⟩ := List.append_inj' h rfl
      cases heq
      split
      · rename_i he
        exact hpost e (by simp) he
      · exact ⟨pre, ev, post, hevs, hid, hopen, fun x hx => hpost x (by simp [hx])⟩
  · intro h
    split at h
    · rename_i he
      exact ⟨evs, e, [], rfl, he, h, by simp⟩
    · rename_i he
      obtain ⟨pre, ev, post, hevs, hid, hopen, hpost⟩ := h
      refine ⟨pre, ev, post ++ [e], by rw [hevs]; simp, hid, hopen, ?_⟩
      intro x hx hxid
      rcases List.mem_append.1 hx with hx | hx
      · exact hpost x hx hxid
      · rw [List.mem_singleton.1 hx] at hxid
        exact absurd hxid he

theorem onOwn_isSome (id : StreamId) (entry : Option Request) (ev : Event) :
    (onOwn id entry ev).1.isSome = !ev.closing := by
  unfold onOwn Event.closing
  cases ev.type with
  | stream_header => cases ev.header <;> simp
  | _ => simp

/-- The table of a connection that was handed the events `evs`. -/
theorem mem_foldl_onEvent (id : StreamId) (rs : List Request) (evs : List Event) :
    id ∈ (evs.foldl onEvent (∅, rs)).1 ↔ 0 < id ∧ Open id evs := by
  induction evs using List.reverseRecOn with
  | nil => simp [not_open_nil]
  | append_singleton evs e ih =>
    rw [List.foldl_append, List.foldl_cons, List.foldl_nil, open_snoc]
    by_cases hpos : 0 < e.stream_id
    · rw [← AList.lookup_isSome, (onEvent_eq _ e hpos).2 id]
      by_cases hid : e.stream_id = id
      · subst hid
        simp [onOwn_isSome, hpos]
      · rw [if_neg (Ne.symm hid), if_neg hid, AList.lookup_isSome]
        exact ih
    · -- an event of stream 0 or below is passed over
      rw [onEvent_skip _ e (not_lt.1 hpos), ih]
      by_cases hid : e.stream_id = id
      · subst hid
        simp [hpos]
      · rw [if_neg hid]

/-! ## The connection, as its streams see it -/

/-- What nghttp2 does with a session: callbacks in one `read`, closes while sending. -/
inductive Exchange
  | read (cbs : List Callback)
  | send (closes : List StreamId)

def Event.close (id : StreamId) : Event := { stream_id := id, type := .stream_close }

namespace Exchange

def callbacks : Exchange → List Callback
  | read cbs => cbs
  | send _ => []

/-- The events it queues. -/
def emitted : Exchange → List Event
  | read cbs => cbs.flatMap Callback.emitted
  | send closes => closes.map Event.close

/-- What of it is about the stream `id`. -/
def only (id : StreamId) : Exchange → Exchange
  | read cbs => read (cbs.filter fun cb => cb.stream_id = id)
  | send closes => send (closes.filter fun i => i = id)

theorem emitted_only (id : StreamId) (x : Exchange) :
    (x.only id).emitted = x.emitted.filter fun ev => ev.stream_id = id := by
  cases x with
  | read cbs =>
    simp only [only, emitted]
    induction cbs with
    | nil => rfl
    | cons cb cbs ih =>
      rw [List.flatMap_cons, List.filter_append, ← ih]
      by_cases hid : cb.stream_id = id
      · rw [List.filter_cons_of_pos (by simpa using hid), List.flatMap_cons]
        congr 1
        symm
        rw [List.filter_eq_self]
        intro ev hev
        simpa [Callback.emitted_stream_id hev] using hid
      · rw [List.filter_cons_of_neg (by simpa using hid)]
        have hnone : (cb.emitted.filter fun ev => ev.stream_id = id) = [] := by
          rw [List.filter_eq_nil_iff]
          intro ev hev
          simpa [Callback.emitted_stream_id hev] using hid
        rw [hnone, List.nil_append]
  | send closes =>
    simp only [only, emitted, List.filter_map]
    rfl

end Exchange

/-- The queue of events, the stream table and the requests returned. -/
structure Demux where
  events : List Event := []
  streams : Streams := ∅
  requests : List Request := []

namespace Demux

def step (d : Demux) (x : Exchange) : Demux :=
  match x with
  | .read _ =>
    let r := (d.events ++ x.emitted).foldl onEvent (d.streams, [])
    { events := [], streams := r.1, requests := d.requests ++ r.2 }
  | .send _ => { d with events := d.events ++ x.emitted }

def run (xs : List Exchange) : Demux := xs.foldl step {}

theorem run_snoc (xs : List Exchange) (x : Exchange) : run (xs ++ [x]) = (run xs).step x := by
  simp [run, List.foldl_append]

theorem run_keyed (xs : List Exchange) : Keyed (run xs).streams := by
  induction xs using List.reverseRecOn with
  | nil => intro id r h; simp [run] at h
  | append_singleton xs x ih =>
    rw [run_snoc]
    cases x with
    | read cbs => exact foldl_onEvent_keyed ih _
    | send closes => exact ih

/-- **Non-interference.** A stream sees of a run what it sees of the run with only its own
callbacks. -/
theorem run_only (id : StreamId) (xs : List Exchange) :
    ((run xs).events.filter fun ev => ev.stream_id = id) = (run (xs.map (Exchange.only id))).events ∧
      viewOf id ((run xs).streams, (run xs).requests) =
        viewOf id ((run (xs.map (Exchange.only id))).streams,
          (run (xs.map (Exchange.only id))).requests) := by
  induction xs using List.reverseRecOn with
  | nil => exact ⟨rfl, rfl⟩
  | append_singleton xs x ih =>
    rw [List.map_append, List.map_singleton, run_snoc, run_snoc]
    obtain ⟨hevents, hview⟩ := ih
    have hqueue : ((run xs).events ++ x.emitted).filter (fun ev => ev.stream_id = id) =
        (run (xs.map (Exchange.only id))).events ++ (x.only id).emitted := by
      rw [List.filter_append, hevents, Exchange.emitted_only]
    cases x with
    | send closes => exact ⟨hqueue, hview⟩
    | read cbs =>
      -- the read hands over the queue, of which the stream sees its own events
      refine ⟨rfl, ?_⟩
      obtain ⟨hl, hr⟩ := Prod.mk.injEq _ _ _ _ ▸ hview
      have hempty : viewOf id ((run xs).streams, []) =
          viewOf id ((run (xs.map (Exchange.only id))).streams, []) := Prod.ext hl rfl
      have hfold := foldl_onEvent_view (run_keyed xs) (run_keyed _) hempty
        ((run xs).events ++ (Exchange.read cbs).emitted)
      rw [hqueue] at hfold
      obtain ⟨hl', hr'⟩ := Prod.mk.injEq _ _ _ _ ▸ hfold
      refine Prod.ext hl' ?_
      show ((run xs).requests ++ _).filter _ =
        ((run (xs.map (Exchange.only id))).requests ++ _).filter _
      rw [List.filter_append, List.filter_append, hr]
      exact congrArg _ hr'

/-- With only its callbacks, all that there is is about the stream. -/
theorem run_only_ids (id : StreamId) (xs : List Exchange) :
    (∀ ev ∈ (run (xs.map (Exchange.only id))).events, ev.stream_id = id) ∧
      ∀ r ∈ (run (xs.map (Exchange.only id))).requests, r.id = id := by
  induction xs using List.reverseRecOn with
  | nil => exact ⟨fun ev h => absurd h List.not_mem_nil, fun r h => absurd h List.not_mem_nil⟩
  | append_singleton xs x ih =>
    rw [List.map_append, List.map_singleton, run_snoc]
    obtain ⟨hevents, hrequests⟩ := ih
    have hqueue : ∀ ev ∈ (run (xs.map (Exchange.only id))).events ++ (x.only id).emitted,
        ev.stream_id = id := by
      intro ev hev
      rcases List.mem_append.1 hev with hev | hev
      · exact hevents ev hev
      · rw [Exchange.emitted_only] at hev
        simpa using (List.mem_filter.1 hev).2
    cases x with
    | send closes => exact ⟨hqueue, hrequests⟩
    | read cbs =>
      refine ⟨fun ev h => absurd h List.not_mem_nil, fun r hr => ?_⟩
      rcases List.mem_append.1 hr with hr | hr
      · exact hrequests r hr
      · rcases mem_foldl_onEvent_requests (run_keyed _) hr with hr | ⟨ev, hev, hid⟩
        · cases hr
        · rw [← hid]; exact hqueue ev hev

/-- Between reads only closes wait. -/
theorem run_events_close (xs : List Exchange) : ∀ ev ∈ (run xs).events, ∃ id, ev = Event.close id := by
  induction xs using List.reverseRecOn with
  | nil => intro ev h; cases h
  | append_singleton xs x ih =>
    rw [run_snoc]
    cases x with
    | read cbs => intro ev h; cases h
    | send closes =>
      intro ev h
      rcases List.mem_append.1 h with h | h
      · exact ih ev h
      · obtain ⟨id, -, rfl⟩ := List.mem_map.1 h
        exact ⟨id, rfl⟩

theorem countP_ends_emitted (id : StreamId) (cbs : List Callback) :
    (cbs.flatMap Callback.emitted).countP (Event.ends id) =
      cbs.countP fun cb => cb.endsStream && cb.stream_id = id := by
  induction cbs with
  | nil => rfl
  | cons cb cbs ih =>
    rw [List.flatMap_cons, List.countP_append, ih, List.countP_cons, Nat.add_comm]
    congr 1
    cases cb with
    | frame_recv i flags =>
      simp only [Callback.emitted, Callback.endsStream, Callback.stream_id]
      split
      · rename_i h; by_cases hi : i = id <;> simp [h, hi, Event.ends]
      · rename_i h; simp [h]
    | _ => simp [Callback.emitted, Callback.endsStream, Event.ends]

/-- **One request for each END_STREAM**, and none for stream 0. -/
theorem run_count (id : StreamId) (xs : List Exchange) :
    (run xs).requests.countP (fun r => r.id = id) =
      if 0 < id then
        (xs.flatMap Exchange.callbacks).countP fun cb => cb.endsStream && cb.stream_id = id
      else 0 := by
  induction xs using List.reverseRecOn with
  | nil => simp [run]
  | append_singleton xs x ih =>
    rw [run_snoc, List.flatMap_append, List.countP_append, List.flatMap_singleton]
    cases x with
    | send closes => simpa [step, Exchange.callbacks] using ih
    | read cbs =>
      -- no end of a stream waits from before
      have hqueue : (run xs).events.countP (Event.ends id) = 0 := by
        rw [List.countP_eq_zero]
        intro ev hev
        obtain ⟨i, rfl⟩ := run_events_close xs ev hev
        simp [Event.ends, Event.close]
      have hends : ((run xs).events ++ (Exchange.read cbs).emitted).countP (Event.ends id) =
          cbs.countP fun cb => cb.endsStream && cb.stream_id = id := by
        rw [List.countP_append, hqueue, Nat.zero_add]
        exact countP_ends_emitted id cbs
      show ((run xs).requests ++ _).countP _ = _
      rw [List.countP_append, countP_foldl_onEvent (run_keyed xs), ih, hends]
      simp only [List.countP_nil, Exchange.callbacks]
      split <;> omega

/-- However it was cut into reads, all that was handed over is as good as one batch. -/
theorem run_batch (xs : List Exchange) :
    ∃ delivered, xs.flatMap Exchange.emitted = delivered ++ (run xs).events ∧
      (run xs).streams = (delivered.foldl onEvent (∅, [])).1 ∧
      List.Perm (run xs).requests (delivered.foldl onEvent (∅, [])).2 := by
  induction xs using List.reverseRecOn with
  | nil => exact ⟨[], rfl, rfl, List.Perm.refl _⟩
  | append_singleton xs x ih =>
    obtain ⟨delivered, hall, hstreams, hrequests⟩ := ih
    rw [run_snoc, List.flatMap_append, List.flatMap_singleton, hall]
    cases x with
    | send closes => exact ⟨delivered, by simp [step], hstreams, hrequests⟩
    | read cbs =>
      have hsoFar : delivered.foldl onEvent (∅, []) =
          ((run xs).streams, (delivered.foldl onEvent (∅, [])).2) := Prod.ext hstreams.symm rfl
      refine ⟨delivered ++ ((run xs).events ++ (Exchange.read cbs).emitted), by simp [step], ?_, ?_⟩
      · rw [List.foldl_append, hsoFar, foldl_onEvent_append]
        rfl
      · rw [List.foldl_append, hsoFar, foldl_onEvent_append]
        exact List.perm_append_comm.trans (List.Perm.append_left _ hrequests)

/-- Closes return no requests. -/
theorem foldl_onEvent_closes (st : Streams × List Request) {evs : List Event}
    (h : ∀ ev ∈ evs, ∃ id, ev = Event.close id) : (evs.foldl onEvent st).2 = st.2 := by
  induction evs generalizing st with
  | nil => rfl
  | cons ev evs ih =>
    rw [List.foldl_cons, ih _ fun e he => h e (List.mem_cons_of_mem _ he)]
    obtain ⟨id, rfl⟩ := h ev List.mem_cons_self
    by_cases hpos : 0 < id
    · have hown := (onEvent_eq st (Event.close id) hpos).1
      rw [hown]
      rfl
    · rw [onEvent_skip st (Event.close id) (not_lt.1 hpos)]

/-- The requests are those of all events in one batch, also of those that still wait. -/
theorem run_requests (xs : List Exchange) :
    List.Perm (run xs).requests ((xs.flatMap Exchange.emitted).foldl onEvent (∅, [])).2 := by
  obtain ⟨delivered, hall, -, hrequests⟩ := run_batch xs
  rw [hall, List.foldl_append, foldl_onEvent_closes _ (run_events_close xs)]
  exact hrequests

/-- **Two runs in which a stream has the same events** return the same requests for it, however
they were cut into reads and whatever the other streams did. -/
theorem run_same {id : StreamId} {xs ys : List Exchange}
    (h : ((xs.flatMap Exchange.emitted).filter fun ev => ev.stream_id = id) =
      (ys.flatMap Exchange.emitted).filter fun ev => ev.stream_id = id) :
    List.Perm ((run xs).requests.filter fun r => r.id = id)
      ((run ys).requests.filter fun r => r.id = id) := by
  have hkeyed : Keyed (∅ : Streams) := fun i r hr => by simp at hr
  -- what the stream sees of either run is what its own events come to
  have hview : ∀ evs : List Event, viewOf id (evs.foldl onEvent (∅, [])) =
      viewOf id ((evs.filter fun ev => ev.stream_id = id).foldl onEvent (∅, [])) :=
    foldl_onEvent_view hkeyed hkeyed rfl
  have hsame : viewOf id ((xs.flatMap Exchange.emitted).foldl onEvent (∅, [])) =
      viewOf id ((ys.flatMap Exchange.emitted).foldl onEvent (∅, [])) := by
    rw [hview, h, ← hview]
  have hrequests : ((xs.flatMap Exchange.emitted).foldl onEvent (∅, [])).2.filter (fun r => r.id = id) =
      ((ys.flatMap Exchange.emitted).foldl onEvent (∅, [])).2.filter (fun r => r.id = id) :=
    congrArg Prod.snd hsame
  have hxs := (run_requests xs).filter fun r => r.id = id
  have hys := (run_requests ys).filter fun r => r.id = id
  rw [hrequests] at hxs
  exact hxs.trans hys.symm

/-- **The stream table** holds the streams with an event after their last end or close,
among the events handed over. -/
theorem run_streams (xs : List Exchange) :
    ∃ delivered, xs.flatMap Exchange.emitted = delivered ++ (run xs).events ∧
      ∀ id, id ∈ (run xs).streams ↔ 0 < id ∧ Open id delivered := by
  obtain ⟨delivered, hall, hstreams, -⟩ := run_batch xs
  exact ⟨delivered, hall, fun id => by rw [hstreams]; exact mem_foldl_onEvent id [] delivered⟩

end Demux

/-! ## The request of a stream -/

def StreamEvent.event (id : StreamId) : StreamEvent → Event
  | header name value => { stream_id := id, type := .stream_header, header := some { name, value } }
  | data chunk => { data := chunk, stream_id := id, type := .stream_data }

def Event.end (id : StreamId) : Event := { stream_id := id, type := .stream_end }

theorem StreamEvent.built_id (id : StreamId) (evs : List StreamEvent) : (built id evs).id = id := by
  induction evs using List.reverseRecOn with
  | nil => rfl
  | append_singleton evs e ih =>
    rw [built_snoc]
    cases e with
    | header name value => exact (Request.header_id _ name value).trans ih
    | data chunk => exact (Request.read_id _ chunk).trans ih

/-- The entry of a stream is the request that is being built. -/
theorem foldl_onEvent_building {id : StreamId} (hid : 0 < id) (evs : List StreamEvent) :
    (((evs.map (StreamEvent.event id)).foldl onEvent (∅, [])).1.lookup id).getD { id } =
        StreamEvent.built id evs ∧
      ((evs.map (StreamEvent.event id)).foldl onEvent (∅, [])).2 = [] := by
  induction evs using List.reverseRecOn with
  | nil => exact ⟨rfl, rfl⟩
  | append_singleton evs e ih =>
    obtain ⟨hentry, hnone⟩ := ih
    have hpos : 0 < (StreamEvent.event id e).stream_id := by cases e <;> exact hid
    have hown : (StreamEvent.event id e).stream_id = id := by cases e <;> rfl
    obtain ⟨hreqs, hstreams⟩ :=
      onEvent_eq ((evs.map (StreamEvent.event id)).foldl onEvent (∅, [])) (StreamEvent.event id e) hpos
    rw [List.map_append, List.map_singleton, List.foldl_append, List.foldl_cons, List.foldl_nil,
      StreamEvent.built_snoc, hreqs, hstreams, hown, if_pos rfl, hnone, ← hentry]
    cases e with
    | header name value => exact ⟨rfl, rfl⟩
    | data chunk => exact ⟨rfl, rfl⟩

/-- **A stream's request is built from its own headers and chunks**, however they were cut
into reads and whatever the other streams did. -/
theorem Demux.requests_built {id : StreamId} (hid : 0 < id) {xs : List Exchange}
    {evs : List StreamEvent}
    (h : ((xs.flatMap Exchange.emitted).filter fun ev => ev.stream_id = id) =
      evs.map (StreamEvent.event id) ++ [Event.end id]) :
    ((run xs).requests.filter fun r => r.id = id) = [StreamEvent.built id evs] := by
  obtain ⟨delivered, hall, -, hrequests⟩ := run_batch xs
  -- what waits is closes, and none of them is the stream's
  have hwait : ((run xs).events.filter fun ev => ev.stream_id = id) = [] := by
    rw [List.filter_eq_nil_iff]
    intro ev hev hown
    obtain ⟨i, rfl⟩ := run_events_close xs ev hev
    have hmem : Event.close i ∈ evs.map (StreamEvent.event id) ++ [Event.end id] := by
      rw [← h, hall]
      exact List.mem_filter.2 ⟨List.mem_append_right _ hev, hown⟩
    rcases List.mem_append.1 hmem with hm | hm
    · obtain ⟨e, -, he⟩ := List.mem_map.1 hm
      cases e <;> cases he
    · cases List.mem_singleton.1 hm
  rw [hall, List.filter_append, hwait, List.append_nil] at h
  have hkeyed : Keyed (∅ : Streams) := fun i r hr => by simp at hr
  have hview : viewOf id (delivered.foldl onEvent (∅, [])) = viewOf id (_ : Streams × List Request) :=
    foldl_onEvent_view hkeyed hkeyed rfl delivered
  rw [h, List.foldl_append, List.foldl_cons, List.foldl_nil] at hview
  obtain ⟨hentry, hnone⟩ := foldl_onEvent_building hid evs
  have hreturned : (onEvent ((evs.map (StreamEvent.event id)).foldl onEvent (∅, [])) (Event.end id)).2 =
      [StreamEvent.built id evs] := by
    rw [(onEvent_eq _ (Event.end id) hid).1, hnone, ← hentry]
    rfl
  have hone : ((delivered.foldl onEvent (∅, [])).2.filter fun r => r.id = id) =
      [StreamEvent.built id evs] := by
    refine (congrArg Prod.snd hview).trans ?_
    show List.filter _ (onEvent _ _).2 = _
    rw [hreturned, List.filter_cons_of_pos (by simp [StreamEvent.built_id]), List.filter_nil]
  exact List.perm_singleton.1 (hone ▸ hrequests.filter _)

/-! ## Either backend -/

variable {σ : Type} {N : Nghttp2 σ} {results : ℕ → WriteResult}

theorem Session.pending_events {s s' : Session σ} {bytes : Bytes}
    (h : Session.pending N s = .ok bytes s') :
    ∃ closes : List StreamId, s'.events = s.events ++ closes.map Event.close := by
  obtain ⟨-, rfl⟩ := pending_ok h
  refine ⟨((N.memSend s.session).run s.data).closed.map Prod.fst, ?_⟩
  rw [afterSend_eq, List.map_map]
  rfl

theorem Session.drained_events {s s' : Session σ} (h : Drained N s s') :
    ∃ closes : List StreamId, s'.events = s.events ++ closes.map Event.close := by
  induction h with
  | done h => exact pending_events h
  | more h _ _ ih =>
    obtain ⟨closes, h⟩ := pending_events h
    obtain ⟨closes', h'⟩ := ih
    exact ⟨closes ++ closes', by rw [h', h, List.map_append, List.append_assoc]⟩

theorem Session.wrote_events {resp : Response} {s s' : Session σ} (h : Wrote N resp s s') :
    ∃ closes : List StreamId, s'.events = s.events ++ closes.map Event.close := by
  obtain ⟨s₁, s₂, s₃, s₄, h₁, h₂, h₃, h₄, h₅⟩ := h.steps
  obtain ⟨closes, h₃⟩ := drained_events h₃
  obtain ⟨closes', h₅⟩ := drained_events h₅
  obtain ⟨-, rfl⟩ := submitted_eq_ok h₁
  obtain ⟨-, rfl⟩ := submitted_eq_ok h₂
  obtain ⟨-, rfl⟩ := submitted_eq_ok h₄
  exact ⟨closes ++ closes', by rw [h₅, h₃, List.map_append, List.append_assoc]⟩

/-- A connection, what nghttp2 did with its session, and the requests it returned. -/
structure Watched (C : Type) where
  conn : C
  exchanges : List Exchange := []
  requests : List Request := []

/-- A call that succeeds, with what nghttp2 did in it: the callbacks of a `read`, and the
closes that were queued while sending. -/
def Watched.step (N : Nghttp2 σ) (results : ℕ → WriteResult) (B : Backend) (w : Watched (B.Conn σ))
    (op : Backend.Op) : Option (Watched (B.Conn σ)) :=
  match B.call N results op w.conn with
  | .error _ _ => none
  | .ok reqs conn =>
    let before := B.session w.conn
    let after := B.session conn
    let xs := match op with
      | .receive bytes =>
        [.read (N.memRecv before.session bytes).callbacks, .send (after.events.map (·.stream_id))]
      | .write _ => [.send ((after.events.drop before.events.length).map (·.stream_id))]
    some { conn, exchanges := w.exchanges ++ xs, requests := w.requests ++ reqs }

theorem map_close_stream_id (closes : List StreamId) :
    (closes.map Event.close).map (·.stream_id) = closes := by
  induction closes with
  | nil => rfl
  | cons id closes ih => rw [List.map_cons, List.map_cons, ih]; rfl

/-- **Every connection is a `Demux`.** -/
theorem watched_demux {B : Backend} {session : σ} {ops : List Backend.Op} {w : Watched (B.Conn σ)}
    (h : Run.runFrom (Watched.step N results B) { conn := B.fresh session } ops = some w) :
    Demux.run w.exchanges = ⟨(B.session w.conn).events, B.streams w.conn, w.requests⟩ := by
  refine Run.inv_run (I := fun w : Watched (B.Conn σ) =>
    Demux.run w.exchanges = ⟨(B.session w.conn).events, B.streams w.conn, w.requests⟩) ?_ ?_ h
  · intro w op w' hw hstep
    unfold Watched.step at hstep
    cases hcall : B.call N results op w.conn with
    | error e c => rw [hcall] at hstep; cases hstep
    | ok reqs c' =>
      rw [hcall] at hstep
      cases hstep
      have hok := Backend.call_ok hcall
      cases op with
      | receive bytes =>
        -- a read, and then a send
        obtain ⟨evs, t, hread, hs, hr, hdrained⟩ := hok
        obtain ⟨-, rfl, rfl⟩ := Session.read_ok hread
        -- what waits are closes, which have no data
        have hwaits := Demux.run_events_close w.exchanges
        rw [hw] at hwaits
        rw [reread_dataless _ _ fun ev hev => by obtain ⟨i, rfl⟩ := hwaits ev hev; nofun] at hs hr
        obtain ⟨closes, hcloses⟩ := Session.drained_events hdrained
        simp only [List.nil_append] at hcloses
        simp only [hcloses, map_close_stream_id]
        rw [List.append_cons, Demux.run_snoc, Demux.run_snoc, hw]
        simp only [Demux.step, Exchange.emitted, List.nil_append]
        rw [hs, hr]
      | write resp =>
        obtain ⟨hwrote, hstreams, rfl⟩ := hok
        obtain ⟨closes, hcloses⟩ := Session.wrote_events hwrote
        simp only [hcloses, List.drop_left, map_close_stream_id, List.append_nil]
        rw [Demux.run_snoc, hw, hstreams]
        rfl
  · cases B <;> rfl

/-- **Streams do not interfere.** In every run of successful calls, under any nghttp2: the
requests of a stream are those of the run with only its own callbacks, and, up to their order,
those of any other run, of either backend and cut into calls in any way, in which it has the same
events; it gets one for each END_STREAM, stream 0 none; and after every call the table holds the
streams with an event after their last end or close, of the events handed over (only closes
queued while sending still wait). -/
theorem demultiplexed (B : Backend) {session : σ} {ops : List Backend.Op} {w : Watched (B.Conn σ)}
    (h : Run.runFrom (Watched.step N results B) { conn := B.fresh session } ops = some w)
    (id : StreamId) :
    (w.requests.filter fun r => r.id = id) = (Demux.run (w.exchanges.map (Exchange.only id))).requests ∧
      (∀ {τ : Type} (M : Nghttp2 τ) (results' : ℕ → WriteResult) (B' : Backend) (session' : τ)
        (ops' : List Backend.Op) (w' : Watched (B'.Conn τ)),
        Run.runFrom (Watched.step M results' B') { conn := B'.fresh session' } ops' = some w' →
        ((w.exchanges.flatMap Exchange.emitted).filter fun ev => ev.stream_id = id) =
          ((w'.exchanges.flatMap Exchange.emitted).filter fun ev => ev.stream_id = id) →
        List.Perm (w.requests.filter fun r => r.id = id) (w'.requests.filter fun r => r.id = id)) ∧
      (w.requests.countP fun r => r.id = id) =
        (if 0 < id then
          (w.exchanges.flatMap Exchange.callbacks).countP fun cb => cb.endsStream && cb.stream_id = id
        else 0) ∧
      ∃ delivered, w.exchanges.flatMap Exchange.emitted = delivered ++ (B.session w.conn).events ∧
        (∀ ev ∈ (B.session w.conn).events, ∃ i, ev = Event.close i) ∧
        (id ∈ B.streams w.conn ↔ 0 < id ∧ Open id delivered) := by
  have hw := watched_demux h
  have hview := (Demux.run_only id w.exchanges).2
  have hcount := Demux.run_count id w.exchanges
  have hwait := Demux.run_events_close w.exchanges
  obtain ⟨delivered, hall, hopen⟩ := Demux.run_streams w.exchanges
  rw [hw] at hview hcount hwait hall hopen
  refine ⟨?_, fun M results' B' session' ops' w' h' hsame => ?_, hcount, delivered, hall, hwait, hopen id⟩
  · calc (w.requests.filter fun r => r.id = id)
        = (Demux.run (w.exchanges.map (Exchange.only id))).requests.filter fun r => r.id = id :=
          congrArg Prod.snd hview
      _ = (Demux.run (w.exchanges.map (Exchange.only id))).requests := by
          rw [List.filter_eq_self]
          intro r hr
          simpa using (Demux.run_only_ids id w.exchanges).2 r hr
  · have hperm := Demux.run_same hsame
    rw [hw, watched_demux h'] at hperm
    exact hperm

/-- Callbacks for two streams, and the acknowledgement of settings, in one batch. -/
def twoStreams : Bytes → Arrival := fun _ =>
  { callbacks := [.header 1 (lit ":method") (lit "POST"), .frame_recv 0 0x01,
      .header 3 (lit ":method") (lit "GET"), .frame_recv 1 0x05] }

/-- Those of stream 1 alone, in two batches. -/
def oneStream : Bytes → Arrival
  | [0x00] => { callbacks := [.header 1 (lit ":method") (lit "POST")] }
  | _ => { callbacks := [.frame_recv 1 0x05] }

theorem demultiplexed_two : ∃ (w : Watched (Backend.uv.Conn Mini)) (w' : Watched (Backend.asio.Conn Mini)),
    Run.runFrom (Watched.step (Mini.nghttp2 twoStreams) (fun _ => .completed) .uv)
      { conn := Backend.uv.fresh ({} : Mini) } [.receive [0x00]] = some w ∧
    Run.runFrom (Watched.step (Mini.nghttp2 oneStream) (fun _ => .completed) .asio)
      { conn := Backend.asio.fresh ({} : Mini) } [.receive [0x00], .receive [0x01]] = some w' ∧
    List.Perm (w.requests.filter fun r => r.id = 1) (w'.requests.filter fun r => r.id = 1) := by
  obtain ⟨w, hw⟩ := Option.isSome_iff_exists.1 (show (Run.runFrom
    (Watched.step (Mini.nghttp2 twoStreams) (fun _ => .completed) .uv)
    { conn := Backend.uv.fresh ({} : Mini) } [.receive [0x00]]).isSome = true by decide)
  obtain ⟨w', hw'⟩ := Option.isSome_iff_exists.1 (show (Run.runFrom
    (Watched.step (Mini.nghttp2 oneStream) (fun _ => .completed) .asio)
    { conn := Backend.asio.fresh ({} : Mini) } [.receive [0x00], .receive [0x01]]).isSome = true by
      decide +kernel)
  have hsame : (Run.runFrom (Watched.step (Mini.nghttp2 twoStreams) (fun _ => .completed) .uv)
        { conn := Backend.uv.fresh ({} : Mini) } [.receive [0x00]]).map
          (fun w => (w.exchanges.flatMap Exchange.emitted).filter fun ev => ev.stream_id = 1) =
      (Run.runFrom (Watched.step (Mini.nghttp2 oneStream) (fun _ => .completed) .asio)
        { conn := Backend.asio.fresh ({} : Mini) } [.receive [0x00], .receive [0x01]]).map
          fun w => (w.exchanges.flatMap Exchange.emitted).filter fun ev => ev.stream_id = 1 := by
    decide +kernel
  rw [hw, hw', Option.map_some, Option.map_some, Option.some.injEq] at hsame
  exact ⟨w, w', hw, hw', (demultiplexed .uv hw 1).2.1 _ _ .asio _ _ w' hw' hsame⟩

end Grpcxx
