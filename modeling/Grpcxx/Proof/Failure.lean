import Grpcxx.Lib.Outcome
import Grpcxx.Lib.Run
import Grpcxx.Model.Reference
import Grpcxx.Proof.Calls

/-!
# What follows a failure

A read that throws or a write that fails has to be the end of a connection. In the asio
backend it is. In the uv backend the exception is swallowed by the `task` it is thrown in,
and the connection goes on with what the peer sends next; only a write that libuv refuses to start
ends the process.

* `Uv.turn_took`, `Uv.turn_owed`: one turn of the uv backend.
* `Asio.serve_stops`: the asio backend stops after a failure.
* `Uv.turned_unfailed`: a turn of the uv backend fails exactly if nghttp2 or libuv says so.
* `stops_iff`: the uv backend stops exactly if the peer sends nothing more.
-/

namespace Grpcxx

open Serving

variable {σ α : Type} {N : Nghttp2 σ} {b : ServerBase} {results : ℕ → WriteResult}

/-! ## Acts after a failure -/

/-- `session::read` threw, or a write failed. -/
def Act.failed : Act → Bool
  | readFailed _ | writeFailed => true
  | recv _ | deliver _ | handle _ => false

/-- Bytes of the peer are taken in, events delivered or a handler called. -/
def Act.serves : Act → Bool
  | recv _ | deliver _ | handle _ => true
  | readFailed _ | writeFailed => false

/-- After a failure, the connection takes in nothing, delivers nothing and calls no handler. -/
def EndsWithFailure (acts : List Act) : Prop :=
  acts.Pairwise fun a x => ¬ (a.failed = true ∧ x.serves = true)

instance (acts : List Act) : Decidable (EndsWithFailure acts) :=
  inferInstanceAs (Decidable (acts.Pairwise _))

/-- No failure so far. -/
def Unfailed (acts : List Act) : Prop := ∀ a ∈ acts, a.failed = false

theorem unfailed_append {acts as : List Act} (h : Unfailed acts) (h' : Unfailed as) :
    Unfailed (acts ++ as) := by
  intro a ha
  rcases List.mem_append.1 ha with ha | ha
  · exact h a ha
  · exact h' a ha

theorem endsWithFailure_of_unfailed {acts : List Act} (h : Unfailed acts) : EndsWithFailure acts := by
  induction acts with
  | nil => exact List.Pairwise.nil
  | cons a acts ih =>
    have hrest : Unfailed acts := fun x hx => h x (List.mem_cons_of_mem _ hx)
    refine List.Pairwise.cons (fun x _ hfail => ?_) (ih hrest)
    rw [h a List.mem_cons_self] at hfail
    cases hfail.1

theorem endsWithFailure_append {acts as : List Act} (h : Unfailed acts) (h' : EndsWithFailure as) :
    EndsWithFailure (acts ++ as) := by
  refine List.pairwise_append.2 ⟨endsWithFailure_of_unfailed h, h', fun a ha x _ hfail => ?_⟩
  rw [h a ha] at hfail
  cases hfail.1

theorem endsWithFailure_snoc {acts : List Act} {a : Act} (h : EndsWithFailure acts)
    (ha : a.serves = false) : EndsWithFailure (acts ++ [a]) := by
  refine List.pairwise_append.2 ⟨h, List.pairwise_singleton _ _, ?_⟩
  intro x _ y hy hfail
  rw [List.mem_singleton.1 hy, ha] at hfail
  cases hfail.2

/-- Taking in bytes after a failure. -/
theorem not_endsWithFailure {acts as : List Act} (h : ¬ Unfailed acts) (bytes : Bytes) :
    ¬ EndsWithFailure (acts ++ .recv bytes :: as) := by
  intro hends
  have hbefore := (List.pairwise_append.1 hends).2.2
  apply h
  intro a ha
  by_contra hfail
  exact hbefore a ha (.recv bytes) List.mem_cons_self ⟨by simpa using hfail, rfl⟩

/-- What `session::read` does has its failure last. -/
theorem readActs_eq (bytes : Bytes) (s : Session σ) :
    (∃ evs t, Session.read N bytes s = .ok evs t ∧ readActs N bytes s = [.recv bytes, .deliver evs]) ∨
      ∃ why t evs, Session.read N bytes s = .error (.runtime_error why) t ∧
        readActs N bytes s = [.recv bytes, .readFailed evs] := by
  unfold readActs
  cases h : Session.read N bytes s with
  | ok evs t => exact Or.inl ⟨evs, t, rfl, rfl⟩
  | error e t =>
    obtain ⟨-, why, rfl⟩ := Session.read_error h
    exact Or.inr ⟨why, t, t.events, rfl, rfl⟩

/-! ## What is produced -/

/-- The call produces no output. -/
def Silent (f : Call (Session σ) α) : Prop :=
  ∀ s, Outcome (fun _ t => t.produced = s.produced) (fun t => t.produced = s.produced) (f s)

theorem silent_submitted {what : String} {s : Session σ} {r : σ × ℤ} :
    Outcome (fun _ t => t.produced = s.produced) (fun t => t.produced = s.produced)
      (Session.submitted N what s r) := by
  unfold Session.submitted
  dsimp only
  split <;> rfl

theorem silent_headers (id : StreamId) (hdrs : List Header) : Silent (Session.headers N id hdrs) :=
  fun _ => silent_submitted

theorem silent_submitBody (id : StreamId) (d : Bytes) : Silent (Session.submitBody N id d) :=
  fun s => silent_submitted (s := { s with data := d })

theorem silent_trailers (id : StreamId) (hdrs : List Header) : Silent (Session.trailers N id hdrs) :=
  fun _ => silent_submitted

theorem silent_read (bytes : Bytes) : Silent (Session.read N bytes) := by
  intro s
  unfold Session.read
  simp only [Session.foldl_callback]
  split <;> rfl

theorem Session.produced_of_pending {s t : Session σ} {bytes : Bytes} (h : Session.pending N s = .ok bytes t) :
    t.produced = s.produced ++ bytes := by
  obtain ⟨-, rfl⟩ := pending_ok h
  rfl

theorem Session.produced_of_failed {s t : Session σ} {e : Fault} (h : Session.pending N s = .error e t) :
    t.produced = s.produced := by
  unfold pending at h
  simp only [foldl_close] at h
  split at h
  · cases h
    rfl
  · cases h

/-! ## Parts of a coroutine -/

theorem zoom_outcome {S T : Type} {get : T → S} {set : T → S → T} {f : Call S α} {t : T}
    {P : α → S → Prop} {E : S → Prop} (h : Outcome P E (f (get t))) :
    Outcome (fun a t' => ∃ s, P a s ∧ t' = set t s) (fun t' => ∃ s, E s ∧ t' = set t s)
      (zoom get set f t) := by
  unfold zoom
  cases hr : f (get t) with
  | ok a s =>
    rw [hr] at h
    exact ⟨s, h, rfl⟩
  | error e s =>
    rw [hr] at h
    exact ⟨s, h, rfl⟩

theorem onConn_outcome {C : Type} {f : Call C α} {w : Serving C} {P E : C → Prop}
    (h : Outcome (fun _ => P) E (f w.conn)) :
    Outcome (fun _ w' => w'.acts = w.acts ∧ P w'.conn) (fun w' => w'.acts = w.acts ∧ E w'.conn)
      (onConn f w) := by
  refine (zoom_outcome h).mono ?_ ?_
  · rintro a w' ⟨c, hc, rfl⟩
    exact ⟨rfl, hc⟩
  · rintro w' ⟨c, hc, rfl⟩
    exact ⟨rfl, hc⟩

theorem process_outcome {C : Type} {req : Request} {w : Serving C} :
    Outcome (fun _ w' => w'.conn = w.conn ∧ ∃ as, w'.acts = w.acts ++ as ∧ Unfailed as)
      (fun w' => w'.conn = w.conn ∧ ∃ as, w'.acts = w.acts ++ as ∧ Unfailed as) (process b req w) := by
  have hhandles : Unfailed ((b.process req).1.map Act.handle) := by
    intro a ha
    obtain ⟨i, -, rfl⟩ := List.mem_map.1 ha
    rfl
  cases hp : (b.process req).2 with
  | ok resp =>
    rw [process_ok hp]
    exact ⟨rfl, _, rfl, hhandles⟩
  | error e =>
    rw [process_error hp]
    exact ⟨rfl, _, rfl, hhandles⟩

theorem writing_outcome {C : Type} {f : Call C Unit} {w : Serving C} {P E : C → Prop}
    (h : Outcome (fun _ => P) E (f w.conn)) :
    Outcome (fun _ w' => w'.acts = w.acts ∧ P w'.conn)
      (fun w' => w'.acts = w.acts ++ [.writeFailed] ∧ E w'.conn) (writing f w) := by
  unfold writing
  cases hr : f w.conn with
  | ok a c =>
    rw [hr] at h
    exact ⟨rfl, h⟩
  | error e c =>
    rw [hr] at h
    exact ⟨rfl, h⟩

/-- A write on the socket: handed over if it completes, at most handed over if not. -/
theorem Socket.write_outcome (bytes : Bytes) (s : Socket) :
    Outcome (fun _ s' => s'.handed = s.handed ++ bytes)
      (fun s' => s'.handed = s.handed ++ bytes ∨ s'.handed = s.handed) (Socket.write results bytes s) := by
  unfold Socket.write
  split
  · rfl
  · exact Or.inl rfl
  · exact Or.inr rfl

/-! ## libuv -/

namespace Uv

/-- All output is with the socket or in the buffer. -/
def Paid (c : Conn σ) : Prop := c.session.produced = c.sock.handed ++ c.buffer

theorem keeps_onSession {f : Call (Session σ) α} (hf : Silent f) : Keeps Paid (Conn.onSession f) := by
  intro c hc
  refine (zoom_outcome (hf c.session)).mono ?_ ?_
  · rintro a c' ⟨t, ht, rfl⟩
    exact Eq.trans ht hc
  · rintro c' ⟨t, ht, rfl⟩
    exact Eq.trans ht hc

theorem keeps_fill : Keeps Paid (Conn.fill N) := by
  intro c hc
  refine Conn.fill_rule (I := Paid) (Q := Outcome (fun _ => Paid) Paid) ?_ ?_ ?_ hc
  · intro d e t hd h
    exact (Session.produced_of_failed h).trans hd
  · intro d t hd h
    have hp := Session.produced_of_pending h
    rw [List.append_nil] at hp
    exact hp.trans hd
  · intro d bytes t hd h _
    show t.produced = d.sock.handed ++ (d.buffer ++ bytes)
    rw [Session.produced_of_pending h, hd, List.append_assoc]

theorem keeps_noexcept {S : Type} {I : S → Prop} {f : Call S α} (hf : Keeps I f) (boundary : Boundary) :
    Keeps I (noexcept boundary f) := by
  intro s hs
  have h := hf s hs
  refine noexcept_rule (fun a t ht => ?_) fun e t ht => ?_
  · rw [ht] at h
    exact h
  · rw [ht] at h
    exact h

theorem keeps_read (bytes : Bytes) : Keeps Paid (Conn.read N bytes) := by
  unfold Conn.read
  refine Keeps.bind (keeps_onSession (silent_read bytes)) fun evs => ?_
  intro c hc
  rw [get_bind, set_bind]
  exact (Keeps.bind keeps_fill fun _ => Keeps.pure _) _ hc

theorem keeps_write (resp : Response) : Keeps Paid (Conn.write N resp) := by
  unfold Conn.write
  refine keeps_noexcept ?_ _
  exact Keeps.bind (keeps_onSession (silent_headers _ _)) fun _ =>
    Keeps.bind (keeps_onSession (silent_submitBody _ _)) fun _ =>
    Keeps.bind keeps_fill fun _ =>
    Keeps.bind (keeps_onSession (silent_trailers _ _)) fun _ => keeps_fill

theorem keeps_answer {acts : List Act} (reqs : List Request) :
    Keeps (fun w : Serving (Conn σ) => ∃ as, w.acts = acts ++ as ∧ Unfailed as) (answer N b reqs) := by
  induction reqs with
  | nil => exact Keeps.pure _
  | cons req reqs ih =>
    unfold answer
    refine Keeps.bind (fun w hw => ?_) fun resp => Keeps.bind (fun w hw => ?_) fun _ => ih
    · -- `process` adds the handlers it calls
      obtain ⟨as, hacts, has⟩ := hw
      have hmore : ∀ w' : Serving (Conn σ),
          (w'.conn = w.conn ∧ ∃ as, w'.acts = w.acts ++ as ∧ Unfailed as) →
          ∃ as, w'.acts = acts ++ as ∧ Unfailed as := by
        rintro w' ⟨-, as', hacts', has'⟩
        exact ⟨as ++ as', by rw [hacts', hacts, List.append_assoc], unfailed_append has has'⟩
      exact process_outcome.mono (fun _ w' h => hmore w' h) hmore
    · -- and writing the response nothing
      obtain ⟨as, hacts, has⟩ := hw
      refine (onConn_outcome (P := fun _ => True) (E := fun _ => True) ?_).mono
        (fun _ w' h => ⟨as, h.1.trans hacts, has⟩) fun w' h => ⟨as, h.1.trans hacts, has⟩
      cases Conn.write N resp w.conn <;> trivial

theorem answer_paid (reqs : List Request) :
    Keeps (fun w : Serving (Conn σ) => Paid w.conn) (answer N b reqs) := by
  induction reqs with
  | nil => exact Keeps.pure _
  | cons req reqs ih =>
    unfold answer
    refine Keeps.bind (fun w hw => ?_) fun resp => Keeps.bind (fun w hw => ?_) fun _ => ih
    · exact process_outcome.mono (fun _ w' h => h.1 ▸ hw) fun w' h => h.1 ▸ hw
    · exact (onConn_outcome (keeps_write resp w.conn hw)).mono (fun _ w' h => h.2) fun w' h => h.2

/-- What a job does is taking in the bytes, and then at most one failure, at its end. -/
def Took (w : Serving (Conn σ)) (bytes : Bytes) (w' : Serving (Conn σ)) : Prop :=
  ∃ as, w'.acts = w.acts ++ .recv bytes :: as ∧ EndsWithFailure (.recv bytes :: as)

/-- The job records its read first, and no failure after it. -/
theorem job_records (bytes : Bytes) (w : Serving (Conn σ)) :
    Outcome (fun _ w' => ∃ as, w'.acts = (w.acts ++ readActs N bytes w.conn.session) ++ as ∧ Unfailed as)
      (fun w' => ∃ as, w'.acts = (w.acts ++ readActs N bytes w.conn.session) ++ as ∧ Unfailed as)
      (job N b bytes w) := by
  unfold job
  rw [get_bind, act_bind]
  have hnone : ∀ w' : Serving (Conn σ), w'.acts = w.acts ++ readActs N bytes w.conn.session →
      ∃ as, w'.acts = (w.acts ++ readActs N bytes w.conn.session) ++ as ∧ Unfailed as := fun w' h =>
    ⟨[], by rw [h, List.append_nil], by simp [Unfailed]⟩
  refine outcome_bind (M := fun _ w' => w'.acts = w.acts ++ readActs N bytes w.conn.session) ?_
    fun reqs w' hw' => keeps_answer reqs w' (hnone w' hw')
  refine (onConn_outcome (P := fun _ => True) (E := fun _ => True) ?_).mono (fun _ w' h => h.1)
    fun w' h => hnone w' h.1
  cases Conn.read N bytes _ <;> trivial

theorem job_took (bytes : Bytes) (w : Serving (Conn σ)) :
    Outcome (fun _ => Took w bytes) (Took w bytes) (job N b bytes w) := by
  rcases readActs_eq (N := N) bytes w.conn.session with ⟨evs, t, -, hacts⟩ | ⟨why, t, evs, hread, hacts⟩
  · -- the read succeeds; what the job can throw later is neither a read nor a write on the socket
    have hunfailed : Unfailed [Act.recv bytes, .deliver evs] := by simp [Unfailed, Act.failed]
    have htook : ∀ w' : Serving (Conn σ), (∃ as, w'.acts = (w.acts ++ readActs N bytes w.conn.session) ++ as ∧
        Unfailed as) → Took w bytes w' := by
      rintro w' ⟨as, h, has⟩
      refine ⟨.deliver evs :: as, by rw [h, hacts, List.append_assoc]; rfl, ?_⟩
      exact endsWithFailure_of_unfailed (unfailed_append hunfailed has)
    exact (job_records bytes w).mono (fun _ => htook) htook
  · -- the read throws, and with it the job
    have hfails : onConn (Conn.read N bytes) { w with acts := w.acts ++ readActs N bytes w.conn.session } =
        .error (.runtime_error why) _ := zoom_error (bind_error (Conn.onSession_error hread))
    unfold job
    rw [get_bind, act_bind, bind_error hfails, hacts]
    exact ⟨[.readFailed evs], rfl, endsWithFailure_snoc (List.pairwise_singleton _ _) rfl⟩

theorem job_paid (bytes : Bytes) : Keeps (fun w : Serving (Conn σ) => Paid w.conn) (job N b bytes) := by
  intro w hw
  unfold job
  rw [get_bind, act_bind]
  have hread := onConn_outcome (w := { w with acts := w.acts ++ readActs N bytes w.conn.session })
    (keeps_read (N := N) bytes w.conn hw)
  exact outcome_bind (hread.mono (fun _ _ h => h.2) fun _ h => h.2) fun reqs w' hw' =>
    answer_paid reqs w' hw'

theorem task_outcome {C : Type} {f : Call C Unit} {s : C} {P : C → Prop}
    (h : Outcome (fun _ => P) P (f s)) : Outcome (fun _ => P) P (task f s) := by
  unfold task
  cases hr : f s with
  | ok a t =>
    rw [hr] at h
    exact h
  | error e t =>
    rw [hr] at h
    dsimp only
    split
    · exact h
    · exact h

/-- Flushing empties the buffer, or fails with at most the buffer handed over. -/
theorem flush_outcome {c : Conn σ} (hc : Paid c) :
    Outcome (fun _ => Paid) (fun c' => c'.sock.handed <+: c'.session.produced)
      (Conn.flush results c) := by
  cases hempty : c.buffer.isEmpty with
  | true =>
    rw [Conn.flush_empty hempty]
    exact hc
  | false =>
    rw [Conn.flush_eq hempty]
    cases results c.sock.writes with
    | completed =>
      show c.session.produced = c.sock.handed ++ c.buffer ++ []
      rw [hc, List.append_nil]
    | failed why =>
      show c.sock.handed ++ c.buffer <+: c.session.produced
      exact ⟨[], by rw [List.append_nil, hc]⟩
    | refused why =>
      show c.sock.handed <+: c.session.produced
      rw [hc]
      exact List.prefix_append _ _

/-- Nothing is handed over twice; unless something failed, all output is accounted for. -/
def Owed (w : Serving (Conn σ)) : Prop :=
  w.conn.sock.handed <+: w.conn.session.produced ∧ (Unfailed w.acts → Paid w.conn)

theorem Paid.owed {w : Serving (Conn σ)} (h : Paid w.conn) : Owed w :=
  ⟨⟨_, h.symm⟩, fun _ => h⟩

/-- **One turn** takes in the bytes, and has its failures last. -/
theorem turn_took (bytes : Bytes) (w : Serving (Conn σ)) :
    Outcome (fun _ => Took w bytes) (Took w bytes) (turn N b results bytes w) := by
  unfold turn
  -- the flush comes also after a job that threw
  refine outcome_bind (task_outcome (job_took bytes w)) fun _ w' hw' => task_outcome ?_
  obtain ⟨as, hacts, has⟩ := hw'
  refine (writing_outcome (P := fun _ => True) (E := fun _ => True) ?_).mono
    (fun _ w'' h => ⟨as, h.1.trans hacts, has⟩) fun w'' h => ?_
  · cases Conn.flush results w'.conn <;> trivial
  · refine ⟨as ++ [.writeFailed], by rw [h.1, hacts]; simp, ?_⟩
    rw [← List.cons_append]
    exact endsWithFailure_snoc has rfl

theorem turn_owed (bytes : Bytes) {w : Serving (Conn σ)} (hw : Paid w.conn) :
    Outcome (fun _ => Owed) Owed (turn N b results bytes w) := by
  unfold turn
  have hjob : Outcome (fun _ w' => Paid w'.conn) Owed (task (job N b bytes) w) :=
    (task_outcome (job_paid bytes w hw)).mono (fun _ _ h => h) fun _ h => h.owed
  refine outcome_bind hjob fun _ w' hw' => task_outcome ?_
  refine (writing_outcome (flush_outcome hw')).mono (fun _ w'' h => Paid.owed h.2) fun w'' h => ?_
  refine ⟨h.2, fun hunfailed => ?_⟩
  have hnot : Act.failed .writeFailed = false := hunfailed .writeFailed (by rw [h.1]; simp)
  cases hnot

/-! ### Runs -/

/-- What the peer sends before the end of the stream or an error. -/
def arrivals : List Input → List Bytes
  | [] | .eos :: _ | .error :: _ => []
  | .bytes [] :: ins => arrivals ins
  | .bytes (x :: bytes) :: ins => (x :: bytes) :: arrivals ins

/-- A turn after which the loop goes on. -/
def turned (N : Nghttp2 σ) (b : ServerBase) (results : ℕ → WriteResult) (w : Serving (Conn σ))
    (bytes : Bytes) : Option (Serving (Conn σ)) :=
  match turn N b results bytes w with
  | .ok () w' => some w'
  | .error _ _ => none

end Uv

/-- The state a coroutine ends in. -/
def final {S : Type} : EStateM.Result Fault S Unit → S
  | .ok _ s | .error _ s => s

theorem outcome_final {S : Type} {P : S → Prop} {r : EStateM.Result Fault S Unit}
    (h : Outcome (fun _ => P) P r) : P (final r) := by
  cases r with
  | ok a s => exact h
  | error e s => exact h

namespace Uv

theorem serve_cons (x : UInt8) (bytes : Bytes) (ins : List Input) (w : Serving (Conn σ)) :
    final (serve N b results (.bytes (x :: bytes) :: ins) w) =
      match turned N b results w (x :: bytes) with
      | some w' => final (serve N b results ins w')
      | none => final (turn N b results (x :: bytes) w) := by
  show final ((turn N b results (x :: bytes) >>= fun _ => serve N b results ins) w) = _
  unfold turned
  cases h : turn N b results (x :: bytes) w with
  | ok a w' => rw [bind_ok h]
  | error e w' => rw [bind_error h]

theorem turn_end (bytes : Bytes) (w : Serving (Conn σ)) :
    Took w bytes (final (turn N b results bytes w)) ∧
      (Paid w.conn → Owed (final (turn N b results bytes w))) :=
  ⟨outcome_final (turn_took bytes w), fun hw => outcome_final (turn_owed bytes hw)⟩

theorem turned_final {bytes : Bytes} {w w' : Serving (Conn σ)}
    (h : turned N b results w bytes = some w') : w' = final (turn N b results bytes w) := by
  unfold turned at h
  split at h
  · rename_i hr
    cases h
    rw [hr]
    rfl
  · cases h

/-- The acts of a run only grow. -/
theorem serve_acts (ins : List Input) (w : Serving (Conn σ)) :
    ∃ as, (final (serve N b results ins w)).acts = w.acts ++ as := by
  induction ins generalizing w with
  | nil => exact ⟨[], (List.append_nil _).symm⟩
  | cons i ins ih =>
    cases i with
    | eos | error => exact ⟨[], (List.append_nil _).symm⟩
    | bytes bytes =>
      cases bytes with
      | nil => exact ih w
      | cons x bytes =>
        obtain ⟨as, hacts, -⟩ := (turn_end (N := N) (b := b) (x :: bytes) w).1
        rw [serve_cons]
        split
        · rename_i w' hturned
          obtain ⟨more, hmore⟩ := ih w'
          exact ⟨_, by rw [hmore, turned_final hturned, hacts, List.append_assoc]⟩
        · exact ⟨_, hacts⟩

theorem serve_nothing (ins : List Input) (w : Serving (Conn σ)) (h : arrivals ins = []) :
    serve N b results ins w = .ok () w := by
  induction ins with
  | nil => rfl
  | cons i ins ih =>
    cases i with
    | eos | error => rfl
    | bytes bytes =>
      cases bytes with
      | nil => exact ih h
      | cons x bytes => cases h

/-- Bytes that arrive after a failure are taken in. -/
theorem serve_failed (ins : List Input) {w : Serving (Conn σ)} (hw : ¬ Unfailed w.acts)
    (h : arrivals ins ≠ []) : ¬ EndsWithFailure (final (serve N b results ins w)).acts := by
  induction ins with
  | nil => exact absurd rfl h
  | cons i ins ih =>
    cases i with
    | eos | error => exact absurd rfl h
    | bytes bytes =>
      cases bytes with
      | nil => exact ih h
      | cons x bytes =>
        obtain ⟨as, hacts, -⟩ := (turn_end (N := N) (b := b) (x :: bytes) w).1
        obtain ⟨more, hmore⟩ : ∃ more, (final (serve N b results (.bytes (x :: bytes) :: ins) w)).acts =
            w.acts ++ .recv (x :: bytes) :: more := by
          rw [serve_cons]
          split
          · rename_i w' hturned
            obtain ⟨more, hmore⟩ := serve_acts (N := N) (b := b) ins w'
            exact ⟨as ++ more, by rw [hmore, turned_final hturned, hacts]; simp⟩
          · exact ⟨as, hacts⟩
        rw [hmore]
        exact not_endsWithFailure hw _

/-- nghttp2 refuses the bytes in the state in which the session is, or libuv says that the write of what is
in the buffer before the flush has failed. -/
def Breaks (N : Nghttp2 σ) (b : ServerBase) (results : ℕ → WriteResult) (w : Serving (Conn σ))
    (bytes : Bytes) : Prop :=
  (N.memRecv w.conn.session.session bytes).error ≠ none ∨
    ∃ w', task (job N b bytes) w = .ok () w' ∧ w'.conn.buffer.isEmpty = false ∧
      ∃ why, results w'.conn.sock.writes = .failed why

/-- Nothing arrives after a turn that the process survives and in which reading or writing breaks. -/
def Heeded (N : Nghttp2 σ) (b : ServerBase) (results : ℕ → WriteResult) :
    Serving (Conn σ) → List Bytes → Prop
  | _, [] => True
  | w, bytes :: rest => ∀ w', turned N b results w bytes = some w' →
      (Breaks N b results w bytes → rest = []) ∧ Heeded N b results w' rest

theorem unfailed_readActs (bytes : Bytes) (s : Session σ) :
    Unfailed (readActs N bytes s) ↔ (N.memRecv s.session bytes).error = none := by
  unfold readActs
  cases h : Session.read N bytes s with
  | ok evs t => exact iff_of_true (by simp [Unfailed, Act.failed]) (Session.read_ok h).1
  | error e t => exact iff_of_false (by simp [Unfailed, Act.failed]) (Session.read_error h).1

theorem unfailed_append_iff {acts as : List Act} : Unfailed (acts ++ as) ↔ Unfailed acts ∧ Unfailed as :=
  List.forall_mem_append

/-- A flush that the process survives records a failure exactly if libuv reports one. -/
theorem flush_unfailed {w w' : Serving (Conn σ)} (h : task (writing (Conn.flush results)) w = .ok () w') :
    Unfailed w'.acts ↔ Unfailed w.acts ∧
      ¬ (w.conn.buffer.isEmpty = false ∧ ∃ why, results w.conn.sock.writes = .failed why) := by
  unfold task writing at h
  cases hempty : w.conn.buffer.isEmpty with
  | true =>
    rw [Conn.flush_empty hempty] at h
    cases h
    simp
  | false =>
    rw [Conn.flush_eq hempty] at h
    cases hr : results w.conn.sock.writes with
    | completed =>
      rw [hr] at h
      cases h
      simp
    | failed why =>
      rw [hr] at h
      cases h
      refine iff_of_false (fun hun => ?_) fun hnot => hnot.2 ⟨rfl, why, rfl⟩
      cases (unfailed_append_iff.1 hun).2 .writeFailed List.mem_cons_self
    | refused why =>
      rw [hr] at h
      cases h

theorem turned_unfailed {bytes : Bytes} {w w' : Serving (Conn σ)}
    (h : turned N b results w bytes = some w') :
    Unfailed w'.acts ↔ Unfailed w.acts ∧ ¬ Breaks N b results w bytes := by
  unfold turned at h
  split at h
  · rename_i hturn
    cases h
    unfold turn at hturn
    obtain ⟨_, w₁, hjob, hflush⟩ := bind_eq_ok_iff.1 hturn
    have hacts := task_outcome (P := fun w' : Serving (Conn σ) => ∃ as,
      w'.acts = (w.acts ++ readActs N bytes w.conn.session) ++ as ∧ Unfailed as) (job_records (b := b) bytes w)
    rw [hjob] at hacts
    obtain ⟨as, hacts, has⟩ := hacts
    rw [flush_unfailed hflush, hacts, unfailed_append_iff, unfailed_append_iff, unfailed_readActs,
      and_iff_left has, and_assoc]
    refine and_congr_right fun _ => ?_
    unfold Breaks
    rw [not_or, not_not]
    refine and_congr_right fun _ => not_congr ⟨fun hfails => ⟨w₁, hjob, hfails⟩, ?_⟩
    rintro ⟨w₂, hjob', hfails⟩
    rw [hjob] at hjob'
    cases hjob'
    exact hfails
  · cases h

/-- **The uv backend** stops after its first failure exactly if nothing arrives after it. -/
theorem serve_stops_iff (ins : List Input) {w : Serving (Conn σ)} (hw : Unfailed w.acts) (hpaid : Paid w.conn) :
    (EndsWithFailure (final (serve N b results ins w)).acts ∧
      (final (serve N b results ins w)).conn.sock.handed <+:
        (final (serve N b results ins w)).conn.session.produced) ↔
      Heeded N b results w (arrivals ins) := by
  -- on the inputs, as long as nothing has failed
  induction ins generalizing w with
  | nil => exact iff_of_true ⟨endsWithFailure_of_unfailed hw, hpaid.owed.1⟩ trivial
  | cons i ins ih =>
    cases i with
    | eos | error => exact iff_of_true ⟨endsWithFailure_of_unfailed hw, hpaid.owed.1⟩ trivial
    | bytes bytes =>
      cases bytes with
      | nil => exact ih hw hpaid
      | cons x bytes =>
        have hturn : Took w (x :: bytes) (final (turn N b results (x :: bytes) w)) ∧ _ := turn_end (x :: bytes) w
        obtain ⟨⟨as, hacts, has⟩, howed⟩ := hturn
        have hends : EndsWithFailure (final (turn N b results (x :: bytes) w)).acts := by
          rw [hacts]
          exact endsWithFailure_append hw has
        have hserve : final (serve N b results (.bytes (x :: bytes) :: ins) w) = _ := serve_cons x bytes ins w
        rw [show arrivals (.bytes (x :: bytes) :: ins) = (x :: bytes) :: arrivals ins from rfl]
        cases hturned : turned N b results w (x :: bytes) with
        | none =>
          rw [hturned] at hserve
          dsimp only at hserve
          rw [hserve]
          -- the process has ended
          refine iff_of_true ⟨hends, (howed hpaid).1⟩ fun w' h => ?_
          rw [hturned] at h
          cases h
        | some w' =>
          obtain rfl := turned_final hturned
          rw [hturned] at hserve
          dsimp only at hserve
          rw [hserve]
          have hheeded : Heeded N b results w ((x :: bytes) :: arrivals ins) ↔
              (Breaks N b results w (x :: bytes) → arrivals ins = []) ∧
                Heeded N b results (final (turn N b results (x :: bytes) w)) (arrivals ins) := by
            refine ⟨fun h => h _ hturned, fun h w'' h'' => ?_⟩
            rw [hturned] at h''
            cases h''
            exact h
          rw [hheeded]
          by_cases hbreaks : Breaks N b results w (x :: bytes)
          · by_cases hnothing : arrivals ins = []
            · rw [serve_nothing ins _ hnothing, hnothing]
              exact iff_of_true ⟨hends, (howed hpaid).1⟩ ⟨fun _ => rfl, trivial⟩
            · have hfailed : ¬ Unfailed (final (turn N b results (x :: bytes) w)).acts := fun hun =>
                ((turned_unfailed hturned).1 hun).2 hbreaks
              exact iff_of_false (fun h => serve_failed ins hfailed hnothing h.1) fun h => hnothing (h.1 hbreaks)
          · have hunfailed := (turned_unfailed hturned).2 ⟨hw, hbreaks⟩
            rw [and_iff_right fun h => absurd h hbreaks]
            exact ih hunfailed ((howed hpaid).2 hunfailed)

end Uv

/-! ## Asio -/

namespace Asio

/-- All output is with the socket. -/
def Paid (c : Conn σ) : Prop := c.session.produced = c.sock.handed

/-- Nothing is handed over twice. -/
def Owed (c : Conn σ) : Prop := c.sock.handed <+: c.session.produced

theorem Paid.owed {c : Conn σ} (h : Paid c) : Owed c := ⟨[], by rw [List.append_nil, h]⟩

theorem onSession_outcome {f : Call (Session σ) α} (hf : Silent f) {c : Conn σ} (hc : Paid c) (eos : Bool)
    (heos : c.eos = eos) :
    Outcome (fun _ c' => Paid c' ∧ c'.eos = eos) (fun c' => Paid c' ∧ c'.eos = eos)
      (Conn.onSession f c) := by
  refine (zoom_outcome (hf c.session)).mono ?_ ?_
  · rintro a c' ⟨t, ht, rfl⟩
    exact ⟨Eq.trans ht hc, heos⟩
  · rintro c' ⟨t, ht, rfl⟩
    exact ⟨Eq.trans ht hc, heos⟩

theorem writePending_outcome {c : Conn σ} (hc : Paid c) (eos : Bool) (heos : c.eos = eos) :
    Outcome (fun _ c' => Paid c' ∧ c'.eos = eos) Owed (Conn.writePending N results c) := by
  refine Conn.writePending_rule (I := fun d => Paid d ∧ d.eos = eos)
    (Q := Outcome (fun _ c' => Paid c' ∧ c'.eos = eos) Owed) ?_ ?_ ?_ ?_ ⟨hc, heos⟩
  · intro d e t hd h
    exact Paid.owed ((Session.produced_of_failed h).trans hd.1)
  · intro d t hd h
    have hp := Session.produced_of_pending h
    rw [List.append_nil] at hp
    exact ⟨hp.trans hd.1, hd.2⟩
  · intro d bytes t e sock hd h _ hsock
    have hs : Outcome _ _ (Socket.write results bytes d.sock) := Socket.write_outcome bytes d.sock
    rw [hsock] at hs
    show sock.handed <+: t.produced
    rw [Session.produced_of_pending h, hd.1]
    -- the piece was handed over, or it was not
    rcases hs with hs | hs
    · refine ⟨[], ?_⟩
      rw [hs, List.append_nil]
    · rw [hs]
      exact List.prefix_append _ _
  · intro d bytes t sock hd h _ hsock
    have hs : Outcome _ _ (Socket.write results bytes d.sock) := Socket.write_outcome bytes d.sock
    rw [hsock] at hs
    have hhanded : sock.handed = d.sock.handed ++ bytes := hs
    refine ⟨?_, hd.2⟩
    show t.produced = sock.handed
    rw [Session.produced_of_pending h, hhanded, hd.1]

theorem write_outcome (resp : Response) {c : Conn σ} (hc : Paid c) (eos : Bool) (heos : c.eos = eos) :
    Outcome (fun _ c' => Paid c' ∧ c'.eos = eos) Owed (Conn.write N results resp c) := by
  have hsilent : ∀ {f : Call (Session σ) Unit} {d : Conn σ}, Silent f → Paid d ∧ d.eos = eos →
      Outcome (fun _ c' => Paid c' ∧ c'.eos = eos) Owed (Conn.onSession f d) := fun hf hd =>
    (onSession_outcome hf hd.1 eos hd.2).mono (fun _ _ h => h) fun _ h => h.1.owed
  unfold Conn.write
  refine outcome_bind (hsilent (silent_headers _ _) ⟨hc, heos⟩) fun _ c₁ h₁ => ?_
  refine outcome_bind (hsilent (silent_submitBody _ _) h₁) fun _ c₂ h₂ => ?_
  refine outcome_bind (writePending_outcome h₂.1 eos h₂.2) fun _ c₃ h₃ => ?_
  refine outcome_bind (hsilent (silent_trailers _ _) h₃) fun _ c₄ h₄ => ?_
  exact writePending_outcome h₄.1 eos h₄.2

/-- The connection goes on and nothing failed. -/
def Running (w : Serving (Conn σ)) : Prop := Unfailed w.acts ∧ Paid w.conn ∧ w.conn.eos = false

/-- Whatever failed was the last thing that happened. -/
def Stopped (w : Serving (Conn σ)) : Prop := EndsWithFailure w.acts ∧ Owed w.conn

theorem Running.stopped {w : Serving (Conn σ)} (h : Running w) : Stopped w :=
  ⟨endsWithFailure_of_unfailed h.1, h.2.1.owed⟩

theorem writing_running {f : Call (Conn σ) Unit} {w : Serving (Conn σ)} (hw : Running w)
    (hf : Outcome (fun _ c' => Paid c' ∧ c'.eos = false) Owed (f w.conn)) :
    Outcome (fun _ => Running) Stopped (writing f w) := by
  have hends := endsWithFailure_of_unfailed hw.1
  refine (writing_outcome hf).mono (fun _ w' h => ⟨?_, h.2⟩) fun w' h => ⟨?_, h.2⟩
  · rw [h.1]
    exact hw.1
  · rw [h.1]
    exact endsWithFailure_snoc hends rfl

theorem answer_outcome (rs : List Request) {w : Serving (Conn σ)} (hw : Running w) :
    Outcome (fun _ => Running) Stopped (answer N b results rs w) := by
  induction rs generalizing w with
  | nil => exact hw
  | cons req rs ih =>
    unfold answer
    rw [get_bind, if_neg (by simp [hw.2.2])]
    refine outcome_bind (M := fun _ => Running) ?_ fun resp w₁ h₁ =>
      outcome_bind (writing_running h₁ (write_outcome resp h₁.2.1 false h₁.2.2)) fun _ w₂ h₂ => ih h₂
    have hrunning : ∀ w' : Serving (Conn σ), (w'.conn = w.conn ∧ ∃ as, w'.acts = w.acts ++ as ∧
        Unfailed as) → Running w' := by
      rintro w' ⟨hconn, as, hacts, has⟩
      refine ⟨?_, by rw [hconn]; exact hw.2⟩
      rw [hacts]
      exact unfailed_append hw.1 has
    exact process_outcome.mono (fun _ => hrunning) fun w' h => (hrunning w' h).stopped

/-- `conn::read` of a session that reads without failing. -/
theorem read_running {bytes : Bytes} {c : Conn σ} {evs : List Event} {t : Session σ}
    (h : Session.read N bytes c.session = .ok evs t) (hc : Paid c) :
    ∃ rs c', Conn.read N bytes c = .ok rs c' ∧ Paid c' ∧ c'.eos = c.eos := by
  have hsilent := silent_read (N := N) bytes c.session
  rw [h] at hsilent
  exact ⟨_, _, Conn.read_ok h, Eq.trans hsilent hc, rfl⟩

/-- One `reqs()`: it may fail, and then the stream has ended and there is nothing to answer. -/
theorem reqs_outcome (i : Input) {w : Serving (Conn σ)} (hw : Running w) :
    Outcome (fun rs w' => Running w' ∨ rs = [] ∧ w'.conn.eos = true ∧ Stopped w') Stopped
      (reqs N results i w) := by
  cases i with
  | eos | error => exact Or.inr ⟨rfl, rfl, hw.stopped⟩
  | bytes bytes =>
    unfold reqs
    dsimp only
    rcases readActs_eq (N := N) bytes w.conn.session with ⟨evs, t, hread, hacts⟩ | ⟨why, t, evs, hread, hacts⟩
    · obtain ⟨rs, c', hc', hpaid, heos⟩ := read_running hread hw.2.1
      have hok : onConn (Conn.read N bytes) { w with acts := w.acts ++ readActs N bytes w.conn.session } =
          .ok rs { conn := c', acts := w.acts ++ readActs N bytes w.conn.session } := zoom_ok hc'
      rw [hok, hacts]
      have hrunning : Running { conn := c', acts := w.acts ++ [.recv bytes, .deliver evs] } :=
        ⟨unfailed_append hw.1 (by simp [Unfailed, Act.failed]), hpaid, heos.trans hw.2.2⟩
      refine outcome_bind (writing_running hrunning (writePending_outcome hpaid false hrunning.2.2))
        fun _ w' hw' => Or.inl hw'
    · -- the exception is caught, and `_eos` set
      have hfails : onConn (Conn.read N bytes) { w with acts := w.acts ++ readActs N bytes w.conn.session } =
          .error (.runtime_error why)
            { conn := { w.conn with session := t }, acts := w.acts ++ readActs N bytes w.conn.session } :=
        zoom_error (bind_error (zoom_error hread))
      rw [hfails, hacts]
      refine Or.inr ⟨rfl, rfl, ?_, ?_⟩
      · refine endsWithFailure_append hw.1 ?_
        exact endsWithFailure_snoc (a := .readFailed evs) (List.pairwise_singleton _ (.recv bytes)) rfl
      · have hsilent := silent_read (N := N) bytes w.conn.session
        rw [hread] at hsilent
        exact Paid.owed (c := { w.conn with session := t, eos := true }) (Eq.trans hsilent hw.2.1)

/-- **The asio backend** stops after its first failure. -/
theorem serve_stops (ins : List Input) {w : Serving (Conn σ)} (hw : Running w) :
    Stopped (final (serve N b results ins w)) := by
  induction ins generalizing w with
  | nil => exact hw.stopped
  | cons i ins ih =>
    unfold serve
    rw [get_bind, if_neg (by simp [hw.2.2])]
    have hreqs : Outcome _ Stopped (reqs N results i w) := reqs_outcome i hw
    cases hr : reqs N results i w with
    | error e w' =>
      rw [hr] at hreqs
      rw [bind_error hr]
      exact hreqs
    | ok rs w' =>
      rw [hr] at hreqs
      rw [bind_ok hr]
      rcases hreqs with hrunning | ⟨rfl, heos, hstopped⟩
      · have hanswer : Outcome _ Stopped (answer N b results rs w') := answer_outcome rs hrunning
        cases ha : answer N b results rs w' with
        | error e w'' =>
          rw [ha] at hanswer
          rw [bind_error ha]
          exact hanswer
        | ok u w'' =>
          rw [ha] at hanswer
          rw [bind_ok ha]
          exact ih hanswer
      · -- the stream has ended: the loop's condition fails
        cases ins with
        | nil => exact hstopped
        | cons j ins =>
          show Stopped (final (serve N b results (j :: ins) w'))
          unfold serve
          rw [get_bind, if_pos heos]
          exact hstopped

end Asio

/-! ## Either backend -/

/-- **A failure ends the connection**, with any client, nghttp2, handlers and outcomes of the
writes: always in the asio backend, and in the uv backend exactly if nothing arrives after a
turn in which reading or writing failed. -/
theorem stops_iff (N : Nghttp2 σ) (b : ServerBase) (results : ℕ → WriteResult) (B : Backend) (m : σ)
    (ins : List Input) :
    (EndsWithFailure (final (B.serve N b results ins { conn := B.fresh m })).acts ∧
      (B.sock (final (B.serve N b results ins { conn := B.fresh m })).conn).handed <+:
        (B.session (final (B.serve N b results ins { conn := B.fresh m })).conn).produced) ↔
      match B with
      | .uv => Uv.Heeded N b results { conn := Backend.fresh .uv m } (Uv.arrivals ins)
      | .asio => True := by
  cases B with
  | uv =>
    exact Uv.serve_stops_iff ins (fun _ ha => absurd ha List.not_mem_nil) rfl
  | asio =>
    have hrunning : Asio.Running { conn := Backend.fresh .asio m } := by
      refine ⟨?_, rfl, rfl⟩
      intro a ha
      cases ha
    exact iff_true_intro (Asio.serve_stops ins hrunning)

/-- A client whose first bytes nghttp2 refuses: the uv backend gives it the next ones too. -/
theorem stops_fails :
    ¬ EndsWithFailure (final (Backend.uv.serve (Mini.nghttp2 fun _ => { error := some (-903) }) { services := ∅ }
      (fun _ => .completed) [.bytes [0x47], .bytes [0x45]] { conn := Backend.uv.fresh {} })).acts := by
  decide +kernel

end Grpcxx
