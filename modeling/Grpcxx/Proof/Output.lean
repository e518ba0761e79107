import Grpcxx.Proof.Strands

/-!
# All output is accounted for

At every moment of every run of either server, what nghttp2 has produced for a connection is what its socket
was given, and after that what the connection still owes: what is in its buffer, or the piece that
`async_write` has. Whichever threads produced it, nothing is lost, repeated or out of order, unless a write
on that connection has failed.

* `Job.accounts`, `Point.accounts`: the parts of a connection's code.
* `Uv.System.accounted_step`, `Asio.System.accounted_step`: the steps of the servers.
* `output_accounted`: all runs.
-/

namespace Grpcxx

open Serving

variable {σ : Type} {N : Nghttp2 σ} {b : ServerBase}

/-- No write on the connection has failed. -/
def Written (acts : List Act) : Prop := .writeFailed ∉ acts

theorem Written.before {acts acts' : List Act} (h : Written acts') (hacts : acts <+: acts') : Written acts :=
  fun hmem => h (hacts.subset hmem)

theorem not_written (acts : List Act) : ¬ Written (acts ++ [.writeFailed]) := fun h => h (by simp)

/-! ## libuv -/

namespace Uv

/-- What was done before is kept, and so are the accounts. -/
def Accounts (w w' : Serving (Conn σ)) : Prop := w.acts <+: w'.acts ∧ (Paid w.conn → Paid w'.conn)

/-- A call on the connection. -/
theorem onConn_accounts {α : Type} {f : Call (Conn σ) α} (hf : Keeps Paid f) (w : Serving (Conn σ)) :
    Outcome (fun _ => Accounts w) (Accounts w) (onConn f w) := by
  refine (onConn_outcome (hf.outcome w.conn)).mono (fun _ w' h => ⟨?_, h.2⟩) fun w' h => ⟨?_, h.2⟩
  · rw [h.1]
  · rw [h.1]

theorem Accounts.trans {w w' w'' : Serving (Conn σ)} (h : Accounts w w') (h' : Accounts w' w'') :
    Accounts w w'' := ⟨h.1.trans h'.1, fun hpaid => h'.2 (h.2 hpaid)⟩

namespace System

open Scheduler (Coroutine Task)

/-- **A part of a function.** -/
theorem Job.accounts (job : Job) (w : Serving (Conn σ)) :
    Outcome (fun _ => Accounts w) (Accounts w) (job.work N b w) := by
  cases job with
  | read bytes =>
    rw [Job.work, get_bind, act_bind]
    have hstart : Accounts w { w with acts := w.acts ++ readActs N bytes w.conn.session } :=
      ⟨List.prefix_append _ _, id⟩
    have hread := onConn_accounts (keeps_read (N := N) bytes)
      { w with acts := w.acts ++ readActs N bytes w.conn.session }
    exact outcome_bind (hread.mono (fun _ _ h => hstart.trans h) fun _ h => hstart.trans h) fun _ _ h => h
  | answer reqs =>
    cases reqs with
    | nil => exact ⟨List.prefix_rfl, id⟩
    | cons req reqs =>
      rw [Job.work]
      refine outcome_bind (M := fun _ => Accounts w) ?_ fun resp w' h => h
      refine process_outcome.mono (fun _ w' h => ?_) fun w' h => ?_ <;>
      · obtain ⟨hconn, as, hacts, -⟩ := h
        refine ⟨?_, fun hpaid => hconn ▸ hpaid⟩
        rw [hacts]
        exact List.prefix_append _ _
  | write resp reqs =>
    rw [Job.work]
    exact outcome_bind (onConn_accounts (keeps_write resp) w) fun _ w' h => h

/-- What the connection still has to give to its socket. libuv has the buffer while it writes it. -/
def Line.owes (l : Line σ) : Bytes :=
  match l.point with
  | .writing _ => []
  | _ => l.serving.conn.buffer

def Line.Accounted (l : Line σ) : Prop :=
  Written l.serving.acts → l.serving.conn.session.produced = l.serving.conn.sock.handed ++ l.owes

/-- Where libuv does not write. -/
theorem Line.owes_eq {l : Line σ} (h : ∀ r, l.point ≠ .writing r) : l.owes = l.serving.conn.buffer := by
  unfold Line.owes
  cases hp : l.point with
  | writing r => exact absurd hp (h r)
  | _ => rfl

theorem Line.accounted {l : Line σ} (h : Written l.serving.acts → Paid l.serving.conn)
    (hpoint : ∀ r, l.point ≠ .writing r) : l.Accounted := by
  intro hwritten
  rw [Line.owes_eq hpoint]
  exact h hwritten

/-- And what that is elsewhere. -/
theorem Line.Accounted.paid {l : Line σ} (h : l.Accounted) (hpoint : ∀ r, l.point ≠ .writing r)
    (hwritten : Written l.serving.acts) : Paid l.serving.conn := by
  have haccounts := h hwritten
  rw [Line.owes_eq hpoint] at haccounts
  exact haccounts

/-- A move of the coroutine alone. -/
theorem Line.Accounted.move {l l' : Line σ} (h : l.Accounted) (hserving : l'.serving = l.serving)
    (hpoint : ∀ r, l.point ≠ .writing r) (hpoint' : ∀ r, l'.point ≠ .writing r) : l'.Accounted := by
  refine Line.accounted (fun hwritten => ?_) hpoint'
  rw [hserving] at hwritten ⊢
  exact h.paid hpoint hwritten

/-- `co_await flush()`: libuv has the buffer, or there is none. -/
theorem Line.Accounted.flush {results : ℕ → WriteResult} {l l' : Line σ} (h : l.Accounted)
    (hpoint : l.point = .flushing) (hflush : l.flush results = some l') : l'.Accounted := by
  have hnone : ∀ r, l.point ≠ .writing r := by simp [hpoint]
  cases Line.flush_inv hflush with
  | nothing hempty => exact h.move rfl hnone (by simp)
  | begins hne hr hstarted =>
    intro hwritten
    show l.serving.conn.session.produced = l.serving.conn.sock.handed ++ l.serving.conn.buffer ++ []
    rw [List.append_nil]
    exact h.paid hnone hwritten

/-- The end of the write. -/
theorem Line.Accounted.written {l : Line σ} (h : l.Accounted) {r : WriteResult} (hpoint : l.point = .writing r) :
    (l.written r).Accounted := by
  have howes : l.owes = [] := by
    unfold Line.owes
    rw [hpoint]
  cases r with
  | completed =>
    intro hwritten
    have haccounts := h hwritten
    rw [howes] at haccounts
    exact haccounts
  | failed | refused => exact fun hwritten => absurd hwritten (not_written _)

variable {n : ℕ} {sessions : Coroutine → σ} {inputs : Coroutine → List Input}
  {results : Coroutine → ℕ → WriteResult} {s s' : State σ n}

/-- **A step of the server.** -/
theorem accounted_step {loc : Task → Scheduler.Place n} (hs : Inv N b results sessions inputs s loc)
    (hl : ∀ h, (s.lines h).Accounted) {a : Action n} (h : Moves N b results s a s') (i : Coroutine) :
    (s'.lines i).Accounted := by
  have hother : ∀ {h : Coroutine} {l : Line σ}, s'.lines = Function.update s.lines h l → l.Accounted →
      (s'.lines i).Accounted := by
    intro h l hlines haccounted
    rw [hlines]
    exact (Function.forall_update_iff s.lines fun _ => Line.Accounted).2 ⟨haccounted, fun j _ => hl j⟩ i
  -- where a worker goes on with a connection, libuv does not write
  have hworks : ∀ {t : Task} {w : Serving (Conn σ)} {v : Option (Fin n)}, s.executes v = some t →
      Accounts (s.lines t.coro).serving w → s'.lines = Function.update s.lines t.coro
        { s.lines t.coro with serving := w } → (s'.lines i).Accounted := by
    intro t w v hv hw hlines
    have hfn := (hs.executes hv).2
    have hworking := (hs.lines _).working.2 (by rw [hfn]; rfl)
    have hnone : ∀ r, (s.lines t.coro).point ≠ .writing r := by simp [hworking]
    refine hother hlines (Line.accounted (fun hwritten => hw.2 ?_) hnone)
    exact (hl t.coro).paid hnone (hwritten.before hw.1)
  cases h with
  | @read h j rest sched hpoint _ _ =>
    refine hother rfl ((hl h).move rfl (by simp [hpoint]) ?_)
    cases j <;> simp [Line.take]
  | @skip h _ hpoint => exact hother rfl ((hl h).move rfl (by simp [hpoint]) (by simp))
  | @run h x bytes sched _ hpoint _ => exact hother rfl ((hl h).move rfl (by simp [hpoint]) (by simp))
  | @destroy h sched hres hsched =>
    have hworking : (s.lines h).point = .working := by
      obtain ⟨m, hm, -, -⟩ := hs.schedule hsched
      cases hm with
      | @destroy _ _ t hio ht =>
        obtain ⟨_, hio'⟩ := resumed_eq_some.1 hres
        cases hio.symm.trans hio'
        exact (hs.lines _).working.2 (by rw [State.fn, ht]; rfl)
    exact hother rfl ((hl h).move rfl (by simp [hworking]) (by simp))
  | flushed _ hpoint hflush _ => exact hother rfl ((hl _).flush hpoint hflush)
  | flush _ hpoint hflush _ _ => exact hother rfl ((hl _).flush hpoint hflush)
  | @written h r sched hpoint _ => exact hother rfl ((hl h).written hpoint)
  | @work v t job w hv _ hwork =>
    have haccounts := Job.accounts (N := N) (b := b) (s.jobs t) (s.lines t.coro).serving
    rw [hwork] at haccounts
    exact hworks hv haccounts rfl
  | @throw v t e w hv _ hwork =>
    have haccounts := Job.accounts (N := N) (b := b) (s.jobs t) (s.lines t.coro).serving
    rw [hwork] at haccounts
    exact hworks hv haccounts rfl
  | suspend | ret | pass => exact hl i

theorem accounted_run {as : List (Action n)}
    (hrun : Run.runFrom (step N b results) (start sessions inputs) as = some s) (h : Coroutine) :
    (s.lines h).Accounted := by
  have hboth : (∃ loc, Inv N b results sessions inputs s loc) ∧ ∀ h, (s.lines h).Accounted := by
    refine Run.inv_run (I := fun s : State σ n => (∃ loc, Inv N b results sessions inputs s loc) ∧
      ∀ h, (s.lines h).Accounted) ?_ ⟨inv_start, fun h _ => rfl⟩ hrun
    rintro s a s' ⟨⟨loc, hs⟩, hl⟩ h
    exact ⟨hs.step h, accounted_step hs hl (step_moves h)⟩
  exact hboth.2 h

end System

end Uv

/-! ## Asio -/

namespace Asio

theorem keeps_onSession {α : Type} {f : Call (Session σ) α} (hf : Silent f) : Keeps Paid (Conn.onSession f) :=
  fun _ hc => (onSession_outcome hf hc _ rfl).mono (fun _ _ h => h.1) fun _ h => h.1

theorem keeps_read (bytes : Bytes) : Keeps Paid (Conn.read N bytes) := by
  unfold Conn.read
  refine Keeps.bind (keeps_onSession (silent_read bytes)) fun evs => ?_
  intro c hc
  rw [get_bind, set_bind]
  exact hc

/-- What was done before is kept, and what was paid is, but for what is owed now. -/
def Accounts (w : Serving (Conn σ)) (owed : Bytes) (w' : Serving (Conn σ)) : Prop :=
  w.acts <+: w'.acts ∧ (Written w'.acts → Paid w.conn →
    w'.conn.session.produced = w'.conn.sock.handed ++ owed)

theorem Paid.accounts {w w' : Serving (Conn σ)} (hacts : w.acts <+: w'.acts)
    (hpaid : Paid w.conn → Paid w'.conn) : Accounts w [] w' := by
  refine ⟨hacts, fun _ hw => ?_⟩
  rw [List.append_nil]
  exact hpaid hw

theorem Accounts.paid {w w' : Serving (Conn σ)} (h : Accounts w [] w') (hwritten : Written w'.acts)
    (hw : Paid w.conn) : Paid w'.conn := by
  have haccounts := h.2 hwritten hw
  rw [List.append_nil] at haccounts
  exact haccounts

theorem Accounts.trans {w w' w'' : Serving (Conn σ)} {owed : Bytes} (h : Accounts w [] w')
    (h' : Accounts w' owed w'') : Accounts w owed w'' :=
  ⟨h.1.trans h'.1, fun hwritten hw => h'.2 hwritten (h.paid (hwritten.before h'.1) hw)⟩

/-- A write that has failed is on record. -/
theorem accounts_failed (w w' : Serving (Conn σ)) (owed : Bytes) (h : w'.acts = w.acts ++ [.writeFailed]) :
    Accounts w owed w' := by
  rw [Accounts, h]
  exact ⟨List.prefix_append _ _, fun hwritten => absurd hwritten (not_written _)⟩

theorem writing_accounts {f : Call (Conn σ) Unit} (hf : Keeps Paid f) (w : Serving (Conn σ)) :
    Outcome (fun _ => Accounts w []) (Accounts w []) (Serving.writing f w) := by
  refine (writing_outcome (hf.outcome w.conn)).mono (fun _ w' h => ?_) fun w' h => ?_
  · refine Paid.accounts ?_ h.2
    rw [h.1]
  · exact accounts_failed w w' [] h.1

theorem process_accounts (req : Request) (w : Serving (Conn σ)) :
    Outcome (fun _ => Accounts w []) (Accounts w []) (Serving.process b req w) := by
  have haccounts : ∀ w' : Serving (Conn σ), (w'.conn = w.conn ∧ ∃ as, w'.acts = w.acts ++ as ∧ Unfailed as) →
      Accounts w [] w' := by
    rintro w' ⟨hconn, as, hacts, -⟩
    refine Paid.accounts ?_ fun hw => hconn ▸ hw
    rw [hacts]
    exact List.prefix_append _ _
  exact process_outcome.mono (fun _ => haccounts) haccounts

namespace System

/-- What `async_write` has. -/
def Point.owes : Point → Bytes
  | writing chunk _ => chunk
  | _ => []

theorem Next.owes_point (k : Next) : k.point.owes = [] := by cases k <;> rfl

/-- `pending()`: what it returns is owed. -/
theorem chunk_accounts (w : Serving (Conn σ)) :
    Outcome (fun bytes => Accounts w bytes) (Accounts w []) (chunk N w) := by
  unfold chunk
  cases hp : Conn.onSession (Session.pending N) w.conn with
  | error e c => exact accounts_failed w _ [] rfl
  | ok bytes c =>
    refine ⟨List.prefix_rfl, fun _ hw => ?_⟩
    obtain ⟨t, ht, rfl⟩ := zoom_eq_ok_iff.1 hp
    show t.produced = w.conn.sock.handed ++ bytes
    rw [Session.produced_of_pending ht, hw]

/-- The bytes that were read. -/
theorem read_accounts (bytes : Bytes) (w : Serving (Conn σ)) :
    Outcome (fun _ => Accounts w []) (Accounts w [])
      (Serving.onConn (Conn.read N bytes) { w with acts := w.acts ++ Serving.readActs N bytes w.conn.session }) := by
  have hread := onConn_outcome (w := { w with acts := w.acts ++ Serving.readActs N bytes w.conn.session })
    ((keeps_read (N := N) bytes).outcome w.conn)
  refine hread.mono (fun _ w' h => ?_) fun w' h => ?_ <;>
  · refine Paid.accounts ?_ h.2
    rw [h.1]
    exact List.prefix_append _ _

/-- **A part of a coroutine.** -/
theorem Point.accounts (p : Point) (w : Serving (Conn σ)) (hp : p.waits = false) :
    Outcome (fun p' => Accounts w p'.owes) (Accounts w []) (p.part N b w) := by
  have hstays : ∀ eos, Accounts w [] { w with conn := { w.conn with eos } } := fun eos =>
    Paid.accounts List.prefix_rfl id
  cases p with
  | outside | reading | writing | ended => cases hp
  | testing =>
    have howes : (if w.conn.eos then Point.ended else Point.reading).owes = [] := by
      cases w.conn.eos <;> rfl
    show Accounts w (if w.conn.eos then Point.ended else Point.reading).owes w
    rw [howes]
    exact hstays w.conn.eos
  | parsing i =>
    cases i with
    | eos | error => exact hstays true
    | bytes bytes =>
      have hread := read_accounts (N := N) bytes w
      unfold Point.part
      dsimp only
      cases hr : Serving.onConn (Conn.read N bytes)
          { w with acts := w.acts ++ Serving.readActs N bytes w.conn.session } with
      | ok rs w' =>
        rw [hr] at hread
        exact hread
      | error e w' =>
        rw [hr] at hread
        dsimp only
        split
        · -- it is caught, and the stream ends
          exact Accounts.trans hread (Paid.accounts List.prefix_rfl id)
        · exact hread
  | pending k =>
    refine outcome_bind (chunk_accounts w) fun bytes w' h => ?_
    have howes : (if bytes.isEmpty then k.point else Point.writing bytes k).owes = bytes := by
      split
      · rename_i hempty
        rw [Next.owes_point, List.isEmpty_iff.1 hempty]
      · rfl
    show Accounts w (if bytes.isEmpty then k.point else Point.writing bytes k).owes w'
    rw [howes]
    exact h
  | trailing resp rs =>
    exact outcome_bind (writing_accounts (keeps_onSession (silent_trailers _ _)) w) fun _ _ h => h
  | answering rs =>
    cases rs with
    | nil => exact hstays w.conn.eos
    | cons req rs =>
      unfold Point.part
      dsimp only
      rw [get_bind]
      split
      · exact hstays w.conn.eos
      · refine outcome_bind (process_accounts req w) fun resp w₁ h₁ => ?_
        have hwrites := writing_accounts (Keeps.bind (keeps_onSession (silent_headers (N := N) resp.id responseHeaders))
          fun _ => keeps_onSession (silent_submitBody (N := N) resp.id resp.bytes)) w₁
        exact outcome_bind (hwrites.mono (fun _ _ h => h₁.trans h) fun _ h => h₁.trans h) fun _ _ h => h

/-- The accounts of a connection. -/
def Line.Accounted (l : Line σ) : Prop :=
  Written l.serving.acts → l.serving.conn.session.produced = l.serving.conn.sock.handed ++ l.point.owes

/-- Where `async_write` has nothing. -/
theorem Line.Accounted.paid {l : Line σ} (h : l.Accounted) (hpoint : l.point.owes = [])
    (hwritten : Written l.serving.acts) : Paid l.serving.conn := by
  have haccounts := h hwritten
  rw [hpoint, List.append_nil] at haccounts
  exact haccounts

/-- What the coroutine has done from there. -/
theorem Line.Accounted.go {l : Line σ} (h : l.Accounted) (hpoint : l.point.owes = [])
    {p : Point} {w : Serving (Conn σ)} (hw : Accounts l.serving p.owes w) :
    ({ l with point := p, serving := w } : Line σ).Accounted :=
  fun hwritten => hw.2 hwritten (h.paid hpoint (hwritten.before hw.1))

variable {results : ℕ → WriteResult}

theorem Line.Moves.accounted {l l' : Line σ} (h : Line.Moves N b results l l') (hl : l.Accounted) :
    l'.Accounted := by
  cases h with
  | go h =>
    unfold Line.go at h
    split at h
    · cases h
    · rename_i hwaits
      have hwaits : l.point.waits = false := by simpa using hwaits
      have hnone : l.point.owes = [] := by
        cases hp : l.point with
        | writing =>
          rw [hp] at hwaits
          cases hwaits
        | _ => rfl
      have haccounts := Point.accounts (N := N) (b := b) l.point l.serving hwaits
      split at h
      · rename_i p w hpart
        cases h
        rw [hpart] at haccounts
        exact hl.go hnone haccounts
      · rename_i e w hpart
        rw [hpart] at haccounts
        split at h
        · cases h
          exact hl.go hnone haccounts
        · cases h
  | read h =>
    unfold Line.read at h
    split at h
    · rename_i hpoint _
      cases h
      exact hl.go (by rw [hpoint]; rfl) (Paid.accounts List.prefix_rfl id)
    · cases h
  | wrote h =>
    unfold Line.wrote at h
    split at h
    · rename_i bytes k hpoint
      have howes : l.point.owes = bytes := by rw [hpoint]; rfl
      unfold Serving.writing Conn.send zoom at h
      have hsock : Outcome _ _ (Socket.write results bytes l.serving.conn.sock) :=
        Socket.write_outcome bytes l.serving.conn.sock
      cases hw : Socket.write results bytes l.serving.conn.sock with
      | ok u sock =>
        rw [hw] at h hsock
        cases h
        intro hwritten
        show l.serving.conn.session.produced = sock.handed ++ []
        have hhanded : sock.handed = l.serving.conn.sock.handed ++ bytes := hsock
        rw [List.append_nil, hhanded, hl hwritten, howes]
      | error e sock =>
        rw [hw] at h
        cases h
        exact fun hwritten => absurd hwritten (not_written _)
    · cases h

variable {accepts : List Accept} {sessions : ℕ → σ} {inputs : ℕ → List Input} {s s' : State σ}
  {results : ℕ → ℕ → WriteResult}

/-- **A step of the server.** -/
theorem accounted_step (hs : Inv N b results accepts sessions inputs s) (hl : ∀ h, (s.lines h).Accounted)
    (h : Moves N b results s s') (i : ℕ) : (s'.lines i).Accounted := by
  have hother : ∀ {h : ℕ} {l : Line σ}, l.Accounted → (Function.update s.lines h l i).Accounted := by
    intro h l haccounted
    exact (Function.forall_update_iff s.lines fun _ => Line.Accounted).2 ⟨haccounted, fun j _ => hl j⟩ i
  cases h with
  | socket _ _ =>
    have hout : (s.lines s.accepted).point = .outside := (hs.outside _).2 le_rfl
    exact hother ((hl s.accepted).go (by rw [hout]; rfl) (Paid.accounts List.prefix_rfl id))
  | failed _ _ => exact hl i
  | @line h l hmoves => exact hother (hmoves.accounted (hl h))

theorem accounted_run {as : List Action}
    (hrun : Run.runFrom (step N b results) (start accepts sessions inputs) as = some s) (h : ℕ) :
    (s.lines h).Accounted := by
  have hboth : Inv N b results accepts sessions inputs s ∧ ∀ h, (s.lines h).Accounted := by
    refine Run.inv_run (I := fun s : State σ => Inv N b results accepts sessions inputs s ∧
      ∀ h, (s.lines h).Accounted) ?_ ⟨inv_start, fun h _ => rfl⟩ hrun
    rintro s a s' ⟨hs, hl⟩ h
    exact ⟨hs.step (step_moves h), accounted_step hs hl (step_moves h)⟩
  exact hboth.2 h

end System

end Asio

/-! ## Either server -/

/-- **All output is accounted for.** In every run of either server, at every moment, in any order of the
steps: what nghttp2 has produced for a connection on which no write has failed is what its socket was given, and
after it what the connection owes. -/
theorem output_accounted {sessions : ℕ → σ} {inputs : ℕ → List Input} {results : ℕ → ℕ → WriteResult} :
    (∀ (n : ℕ) (as : List (Uv.System.Action n)) (s : Uv.System.State σ n),
      Run.runFrom (Uv.System.step N b results) (Uv.System.start sessions inputs) as = some s →
      ∀ h, Written (s.lines h).serving.acts → (s.lines h).serving.conn.session.produced =
        (s.lines h).serving.conn.sock.handed ++ (s.lines h).owes) ∧
    (∀ (accepts : List Asio.System.Accept) (as : List Asio.System.Action) (s : Asio.System.State σ),
      Run.runFrom (Asio.System.step N b results) (Asio.System.start accepts sessions inputs) as = some s →
      ∀ h, Written (s.lines h).serving.acts → (s.lines h).serving.conn.session.produced =
        (s.lines h).serving.conn.sock.handed ++ (s.lines h).point.owes) :=
  ⟨fun _ _ _ hrun h => Uv.System.accounted_run hrun h, fun _ _ _ hrun h => Asio.System.accounted_run hrun h⟩

/-- Before its first write each server owes the one connection all that was produced. -/
theorem output_accounted_one :
    (∃ s : Uv.System.State Mini 1, Run.runFrom (Uv.System.step (Mini.nghttp2 bothMethods) twoMethods
        fun _ _ => .completed) (Uv.System.start (fun _ => {}) fun _ => [.bytes [0x00]])
        Uv.System.oneFlush.dropLast = some s ∧
      (s.lines 0).owes ≠ [] ∧ (s.lines 0).serving.conn.session.produced =
        (s.lines 0).serving.conn.sock.handed ++ (s.lines 0).owes) ∧
    ∃ s : Asio.System.State Mini, Run.runFrom (Asio.System.step (Mini.nghttp2 bothMethods) twoMethods
        fun _ _ => .completed) (Asio.System.start [.socket, .error] (fun _ => {}) fun _ => [.bytes [0x00], .eos])
        (Asio.System.oneTurn.take 7) = some s ∧
      (s.lines 0).point.owes ≠ [] ∧ (s.lines 0).serving.conn.session.produced =
        (s.lines 0).serving.conn.sock.handed ++ (s.lines 0).point.owes := by
  have huv : ((Run.runFrom (Uv.System.step (Mini.nghttp2 bothMethods) twoMethods fun _ _ => .completed)
      (Uv.System.start (fun _ => {}) fun _ => [.bytes [0x00]]) Uv.System.oneFlush.dropLast).map fun s =>
        ((s.lines 0).owes.isEmpty, (s.lines 0).serving.acts.contains .writeFailed)) = some (false, false) := by
    decide +kernel
  have hasio : ((Run.runFrom (Asio.System.step (Mini.nghttp2 bothMethods) twoMethods fun _ _ => .completed)
      (Asio.System.start [.socket, .error] (fun _ => {}) fun _ => [.bytes [0x00], .eos])
      (Asio.System.oneTurn.take 7)).map fun s =>
        ((s.lines 0).point.owes.isEmpty, (s.lines 0).serving.acts.contains .writeFailed)) =
      some (false, false) := by
    decide +kernel
  obtain ⟨s, hs, huv⟩ := Option.map_eq_some_iff.1 huv
  obtain ⟨t, ht, hasio⟩ := Option.map_eq_some_iff.1 hasio
  obtain ⟨howes, hacts⟩ := Prod.mk.inj huv
  obtain ⟨howes', hacts'⟩ := Prod.mk.inj hasio
  have hwritten : Written (s.lines 0).serving.acts := by simpa [Written] using hacts
  have hwritten' : Written (t.lines 0).serving.acts := by simpa [Written] using hacts'
  exact ⟨⟨s, hs, by simpa using howes, output_accounted.1 1 _ s hs 0 hwritten⟩,
    t, ht, by simpa using howes', output_accounted.2 _ _ t ht 0 hwritten'⟩

end Grpcxx
