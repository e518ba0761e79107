import Grpcxx.Proof.Drive
import Grpcxx.Proof.Interleaving

/-!
# The backends agree

With any number of connections, workers and any interleaving of their steps, the uv backend does
with each connection what the asio backend does: its session is driven through the same operations,
and the socket is handed the same bytes. nghttp2 is given a record of the calls made to it
(`Nghttp2.logged`), which is part of the state that the two have in common.

* `Drives.spelled`: the record spells the operations.
* `Line.Ok.agrees`: a connection between two turns, against a run of the asio backend.
* `backends_agree`: the same in every run of the system, and that no run ends before it is through.
-/

namespace Grpcxx

/-! ## A record of the calls -/

/-- A call of the session to nghttp2. -/
inductive LibraryCall
  | mem_recv (bytes : Bytes)
  | mem_send
  | submit_headers (id : StreamId) (hdrs : List Header)
  | submit_data (id : StreamId)
  | submit_trailer (id : StreamId) (hdrs : List Header)
  deriving DecidableEq, Repr

def Send.map {σ τ : Type} (f : σ → τ) : Send σ → Send τ
  | .done session closed out => .done (f session) closed out
  | .pull id length next => .pull id length fun p => (next p).map f

theorem Send.run_map {σ τ : Type} (f : σ → τ) (x : Send σ) (data : Bytes) :
    ((x.map f).run data).session = f (x.run data).session ∧
      ((x.map f).run data).data = (x.run data).data ∧ ((x.map f).run data).out = (x.run data).out := by
  induction x generalizing data with
  | done session closed out => exact ⟨rfl, rfl, rfl⟩
  | pull id length next ih => exact ih _ _

variable {σ : Type} {N : Nghttp2 σ} {b : ServerBase}

/-- nghttp2 with a record of the calls made to it. -/
def Nghttp2.logged (N : Nghttp2 σ) : Nghttp2 (σ × List LibraryCall) where
  memRecv s bytes :=
    let r := N.memRecv s.1 bytes
    { session := (r.session, s.2 ++ [.mem_recv bytes]), callbacks := r.callbacks, error := r.error }
  memSend s := (N.memSend s.1).map fun t => (t, s.2 ++ [.mem_send])
  submitHeaders s id hdrs :=
    let r := N.submitHeaders s.1 id hdrs
    ((r.1, s.2 ++ [.submit_headers id hdrs]), r.2)
  submitData s id :=
    let r := N.submitData s.1 id
    ((r.1, s.2 ++ [.submit_data id]), r.2)
  submitTrailer s id hdrs :=
    let r := N.submitTrailer s.1 id hdrs
    ((r.1, s.2 ++ [.submit_trailer id hdrs]), r.2)
  strerror := N.strerror
  backlog s data := N.backlog s.1 data
  drains s data bytes h hne := by
    obtain ⟨hsession, hdata, hout⟩ := (N.memSend s.1).run_map (fun t => (t, s.2 ++ [.mem_send])) data
    rw [hsession, hdata]
    rw [hout] at h
    exact N.drains s.1 data bytes h hne

/-- The operation is made of these calls. A drain sends until there is nothing to send. -/
def Operation.Spelled : Operation → List LibraryCall → Prop
  | read bytes, calls => calls = [.mem_recv bytes]
  | drain, calls => ∃ k, calls = List.replicate (k + 1) .mem_send
  | headers id hdrs, calls => calls = [.submit_headers id (Session.nv hdrs)]
  | data id _, calls => calls = [.submit_data id]
  | trailers id hdrs, calls => calls = [.submit_trailer id (Session.nv hdrs)]

/-- The operations are made of these calls, one after the other. -/
def Spelled (ops : List Operation) (calls : List LibraryCall) : Prop :=
  ∃ parts, List.Forall₂ Operation.Spelled ops parts ∧ calls = parts.flatten

theorem spelled_cons {op : Operation} {ops : List Operation} {calls calls' : List LibraryCall}
    (h : op.Spelled calls) (hs : Spelled ops calls') : Spelled (op :: ops) (calls ++ calls') := by
  obtain ⟨parts, hparts, rfl⟩ := hs
  exact ⟨calls :: parts, .cons h hparts, rfl⟩

theorem spelled_append {ops ops' : List Operation} {calls calls' : List LibraryCall}
    (h : Spelled ops calls) (h' : Spelled ops' calls') : Spelled (ops ++ ops') (calls ++ calls') := by
  obtain ⟨parts, hparts, rfl⟩ := h
  obtain ⟨parts', hparts', rfl⟩ := h'
  exact ⟨parts ++ parts', List.rel_append hparts hparts', List.flatten_append.symm⟩

theorem Session.pending_logged {s s' : Session (σ × List LibraryCall)} {bytes : Bytes}
    (h : Session.pending N.logged s = .ok bytes s') : s'.session.2 = s.session.2 ++ [.mem_send] := by
  obtain ⟨-, rfl⟩ := Session.pending_ok h
  rw [Session.afterSend_eq]
  have hsession := ((N.memSend s.session.1).run_map (fun t => (t, s.session.2 ++ [.mem_send])) s.data).1
  exact congrArg Prod.snd hsession

theorem Session.Drained.spelled {s s' : Session (σ × List LibraryCall)}
    (h : Session.Drained N.logged s s') :
    ∃ calls, Operation.drain.Spelled calls ∧ s'.session.2 = s.session.2 ++ calls := by
  induction h with
  | done h => exact ⟨_, ⟨0, rfl⟩, Session.pending_logged h⟩
  | more h _ _ ih =>
    obtain ⟨calls, ⟨k, rfl⟩, hcalls⟩ := ih
    refine ⟨List.replicate (k + 1 + 1) .mem_send, ⟨k + 1, rfl⟩, ?_⟩
    rw [hcalls, Session.pending_logged h, List.append_assoc]
    rfl

theorem Operation.Takes.spelled {op : Operation} {s s' : Session (σ × List LibraryCall)}
    (h : op.Takes N.logged s s') : ∃ calls, op.Spelled calls ∧ s'.session.2 = s.session.2 ++ calls := by
  cases op with
  | read bytes =>
    obtain ⟨evs, hread⟩ := h
    obtain ⟨-, -, rfl⟩ := Session.read_ok hread
    exact ⟨_, rfl, rfl⟩
  | drain => exact Session.Drained.spelled h
  | headers id hdrs =>
    obtain ⟨-, rfl⟩ := Session.submitted_eq_ok h
    exact ⟨_, rfl, rfl⟩
  | data id bytes =>
    obtain ⟨-, rfl⟩ := Session.submitted_eq_ok h
    exact ⟨_, rfl, rfl⟩
  | trailers id hdrs =>
    obtain ⟨-, rfl⟩ := Session.submitted_eq_ok h
    exact ⟨_, rfl, rfl⟩

/-- **The record spells the operations.** -/
theorem Drives.spelled {ops : List Operation} {s s' : Session (σ × List LibraryCall)}
    (h : Drives N.logged ops s s') : ∃ calls, Spelled ops calls ∧ s'.session.2 = s.session.2 ++ calls := by
  induction h with
  | nil s => exact ⟨[], ⟨[], .nil, rfl⟩, (List.append_nil _).symm⟩
  | cons h _ ih =>
    obtain ⟨calls, hspelled, hcalls⟩ := h.spelled
    obtain ⟨calls', hspelled', hcalls'⟩ := ih
    exact ⟨calls ++ calls', spelled_cons hspelled hspelled',
      by rw [hcalls', hcalls, List.append_assoc]⟩

/-- The operations of all chunks. -/
def allOperations (batches : List (Bytes × List Response)) : List Operation :=
  batches.flatMap fun batch => operations batch.1 batch.2

theorem Faultless.spelled {ins : List Input} {st st' : Session (σ × List LibraryCall) × Streams}
    {batches : List (Bytes × List Response)} (h : Faultless N.logged b ins st batches st') :
    batches.map Prod.fst = Uv.arrivals ins ∧
      ∃ calls, Spelled (allOperations batches) calls ∧ st'.1.session.2 = st.1.session.2 ++ calls := by
  induction h with
  | nil st => exact ⟨rfl, [], ⟨[], .nil, rfl⟩, (List.append_nil _).symm⟩
  | eos ins st => exact ⟨rfl, [], ⟨[], .nil, rfl⟩, (List.append_nil _).symm⟩
  | error ins st => exact ⟨rfl, [], ⟨[], .nil, rfl⟩, (List.append_nil _).symm⟩
  | empty _ ih => exact ih
  | @chunk x bytes ins s t s' streams evs resps batches st' hread _ hdrives _ ih =>
    obtain ⟨harrivals, calls', hspelled', hcalls'⟩ := ih
    have hall : Drives N.logged (operations (x :: bytes) resps) s s' := .cons ⟨evs, hread⟩ hdrives
    obtain ⟨calls, hspelled, hcalls⟩ := hall.spelled
    refine ⟨congrArg ((x :: bytes) :: ·) harrivals, calls ++ calls', ?_, ?_⟩
    · exact spelled_append hspelled hspelled'
    · rw [hcalls', hcalls, List.append_assoc]

/-! ## A connection in either backend -/

/-- What the uv backend has made of a connection is what the asio backend makes of the same
inputs: the session has been driven through the same operations, on the chunks read, and the
same bytes were handed to the socket. -/
def Agrees (N : Nghttp2 σ) (b : ServerBase) (session : σ) (ins : List Input)
    (c : Uv.Conn (σ × List LibraryCall)) : Prop :=
  ∃ w batches, Asio.serve N.logged b (fun _ => .completed) (ins.filter Input.present)
      { conn := Backend.fresh .asio (session, []) } = .ok () w ∧
    c.session = w.conn.session ∧ c.streams = w.conn.streams ∧ c.sock.handed = w.conn.sock.handed ∧
    c.buffer = [] ∧ batches.map Prod.fst = Uv.arrivals ins ∧
    Faultless N.logged b ins ({ session := (session, []) }, ∅) batches (c.session, c.streams) ∧
    Spelled (allOperations batches) c.session.session.2

/-- **One connection**, served alone by either backend. -/
theorem agrees_of_faultless {session : σ} {ins : List Input}
    {st : Session (σ × List LibraryCall) × Streams} {batches : List (Bytes × List Response)}
    (h : Faultless N.logged b ins ({ session := (session, []) }, ∅) batches st) :
    ∃ w, Uv.serve N.logged b (fun _ => .completed) ins { conn := Backend.fresh .uv (session, []) } =
      .ok () w ∧ Agrees N b session ins w.conn := by
  obtain ⟨w, hserve, hsession, hstreams, hpaid, hbuffer⟩ := Uv.serve_of_faultless (fun _ => rfl) h
    (w := { conn := Backend.fresh .uv (session, []) }) rfl rfl rfl rfl
  obtain ⟨w', hserve', hsession', hstreams', hpaid'⟩ := Asio.serve_of_faultless (fun _ => rfl) h
    (w := { conn := Backend.fresh .asio (session, []) }) rfl rfl ⟨rfl, rfl⟩
  obtain ⟨harrivals, calls, hspelled, hcalls⟩ := h.spelled
  have hhanded : w.conn.sock.handed = w'.conn.sock.handed := by
    calc w.conn.sock.handed = w.conn.session.produced := by rw [hpaid, hbuffer, List.append_nil]
      _ = w'.conn.session.produced := by rw [hsession, hsession']
      _ = w'.conn.sock.handed := hpaid'
  refine ⟨w, hserve, w', batches, hserve', hsession.trans hsession'.symm, hstreams.trans hstreams'.symm,
    hhanded, hbuffer, harrivals, ?_, ?_⟩
  · rw [hsession, hstreams]
    exact h
  · rw [hsession, hcalls]
    exact hspelled

namespace Uv.System

open Scheduler (Coroutine)

variable {n : ℕ} {sessions : Coroutine → σ} {inputs : Coroutine → List Input}
  {s : State (σ × List LibraryCall) n} {as : List (Action n)}

/-- No call of nghttp2 fails on the inputs of any connection. -/
def NoFaults (N : Nghttp2 σ) (b : ServerBase) (sessions : Coroutine → σ)
    (inputs : Coroutine → List Input) : Prop :=
  ∀ h, ∃ batches st, Faultless N.logged b (inputs h) ({ session := (sessions h, []) }, ∅) batches st

/-- **The backends agree.** In every run of the uv server with any number of workers, on inputs on
which no call of nghttp2 and no write fails, a connection between two turns is where the asio backend
is after the same inputs. And the run can go on until each connection has taken in all of
its inputs, up to its end. -/
theorem backends_agree (hinputs : NoFaults N b sessions inputs)
    (hrun : Run.runFrom (step N.logged b fun _ _ => .completed)
      (start (fun h => (sessions h, [])) inputs) as = some s) :
    (∀ h, (s.lines h).taken ++ (s.lines h).inputs = inputs h ∧
      ((s.lines h).point = .reading ∨ (s.lines h).point = .ended →
        Agrees N b (sessions h) (s.lines h).taken (s.lines h).serving.conn)) ∧
    (Stuck N.logged b (fun _ _ => .completed) s →
      ∀ h, (s.lines h).point = .reading ∧ (s.lines h).inputs = [] ∨ (s.lines h).point = .ended) := by
  obtain ⟨loc, hs⟩ := inv_reached hrun
  -- what each connection comes to, served alone
  have hagrees : ∀ h, ∃ w, serve N.logged b (fun _ => .completed) (s.lines h).taken
      { conn := Backend.fresh .uv (sessions h, []) } = .ok () w ∧
      Agrees N b (sessions h) (s.lines h).taken w.conn := by
    intro h
    obtain ⟨batches, st, hall⟩ := hinputs h
    have htaken : (s.lines h).taken <+: inputs h := ⟨_, (hs.lines h).order⟩
    obtain ⟨batches', st', hfaultless⟩ := hall.prefix htaken
    exact agrees_of_faultless hfaultless
  refine ⟨fun h => ⟨(hs.lines h).order, fun hrest => ?_⟩, fun hstuck => ?_⟩
  · obtain ⟨w, hserve, hagree⟩ := hagrees h
    have hsame := (hs.lines h).at_rest hrest
    rw [hserve] at hsame
    cases hsame
    exact hagree
  · refine all_served hrun (fun h => ?_) hstuck
    obtain ⟨w, hserve, -⟩ := hagrees h
    exact ⟨w, hserve⟩

/-! ### Two connections and a worker -/

/-- Each of the first two connections is sent the requests of `bothMethods`; the second has a read
that returns nothing before, and ends. -/
def twoClients : Coroutine → List Input
  | 0 => [.bytes [0x00]]
  | 1 => [.bytes [], .bytes [0x01], .eos]
  | _ => []

/-- The one worker. -/
def theWorker : Fin 1 := Fin.last 0

/-- It takes the function of the second while the first is flushed. -/
def twoTurns : List (Action 1) :=
  [.read 0, .run, .read 1, .pass (.take theWorker), .skip, .suspend, .work theWorker, .read 1,
    .work theWorker, .run, .work theWorker, .work theWorker, .work theWorker, .ret theWorker,
    .pass (.complete theWorker), .pass (.send theWorker), .pass .wake, .pass .test, .pass .pop,
    .pass .resume, .pass (.leave theWorker), .pass (.take theWorker), .work theWorker, .destroy,
    .work theWorker, .flush, .work theWorker, .pass .test, .written 0, .suspend, .work theWorker,
    .work theWorker, .ret theWorker, .pass (.complete theWorker), .pass (.send theWorker),
    .pass (.leave theWorker), .pass .wake, .pass .test, .pass .pop, .pass .resume, .destroy, .flush,
    .pass .test, .written 1, .suspend, .read 1, .suspend]

theorem noFaults_twoClients :
    NoFaults (Mini.nghttp2 bothMethods) twoMethods (fun _ => {}) twoClients := by
  have hrun : ∀ ins, (returned (serve (Mini.nghttp2 bothMethods).logged twoMethods (fun _ => .completed) ins
      { conn := Backend.fresh .uv ({}, []) })).map (fun w => w.acts.all fun a => !a.failed) = some true →
      ∃ batches st, Faultless (Mini.nghttp2 bothMethods).logged twoMethods ins
        ({ session := ({}, []) }, ∅) batches st := by
    intro ins h
    obtain ⟨w, hw, hall⟩ := Option.map_eq_some_iff.1 h
    refine faultless_of_serve ins (returned_eq_some hw) fun a ha => ?_
    simpa using List.all_eq_true.1 hall a ha
  intro h
  match h with
  | 0 => exact hrun _ (by decide +kernel)
  | 1 => exact hrun _ (by decide +kernel)
  | _ + 2 => exact ⟨_, _, .nil _⟩

theorem backends_agree_two : ∃ s, Run.runFrom (step (Mini.nghttp2 bothMethods).logged twoMethods
      fun _ _ => .completed) (start (fun _ => ({}, [])) twoClients) twoTurns = some s ∧
    ∀ h, (s.lines h).point = .reading ∨ (s.lines h).point = .ended →
      Agrees (Mini.nghttp2 bothMethods) twoMethods {} (s.lines h).taken (s.lines h).serving.conn := by
  obtain ⟨s, hs⟩ := Option.isSome_iff_exists.1 (show (Run.runFrom (step (Mini.nghttp2 bothMethods).logged
    twoMethods fun _ _ => .completed) (start (fun _ => ({}, [])) twoClients) twoTurns).isSome = true by
    decide +kernel)
  exact ⟨s, hs, fun h => ((backends_agree noFaults_twoClients hs).1 h).2⟩

end Uv.System

end Grpcxx
