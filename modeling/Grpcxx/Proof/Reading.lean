import Grpcxx.Lib.Run
import Grpcxx.Lib.Spans
import Grpcxx.Model.Reader

/-!
# The reader loses nothing

Reading is started in `await_ready` and stopped in `await_resume`, so libuv can call back only
while the coroutine is suspended in the reader; `read_cb` then resumes it before it returns.

* `step_inv`: what a step can do.
* `Reads.step`: what holds at each point of the coroutine.
* `reader_exact`: in every run, the views are what arrived, each as it was read, and nothing is
  awaited after the end of the stream or an error.
-/

namespace Grpcxx.Uv.Reader

open Spans Run

/-! ## What the log tells -/

/-- The bytes that libuv read. -/
def received (log : List Entry) : Bytes :=
  log.flatMap fun
    | .read bytes => bytes
    | _ => []

/-- The views that the coroutine got. -/
def views (log : List Entry) : List Bytes :=
  log.filterMap fun
    | .resumed bytes => some bytes
    | _ => none

/-- The bytes that the session read through them. -/
def parsed (log : List Entry) : Bytes :=
  log.flatMap fun
    | .parsed bytes => bytes
    | _ => []

/-- `await_resume` is over. -/
def Entry.resumes : Entry → Prop
  | .resumed _ | .thrown => True
  | _ => False

/-- libuv calls back. -/
def Entry.called : Entry → Prop
  | .read _ | .reported => True
  | _ => False

/-- The bytes that `await_resume` will return, where the coroutine is at this point. -/
def unread (r : Reader) : Point → Bytes
  | .resuming => if r.ok then r.view r.nread else []
  | _ => []

/-- The bytes of the view that the session has yet to read. -/
def inUse (r : Reader) : Point → Bytes
  | .viewing size | .working size => r.view size
  | _ => []

section Log

variable (log : List Entry) (e : Entry)

theorem received_snoc : received (log ++ [e]) = received log ++ received [e] := List.flatMap_append

theorem views_snoc : views (log ++ [e]) = views log ++ views [e] := List.filterMap_append

theorem parsed_snoc : parsed (log ++ [e]) = parsed log ++ parsed [e] := List.flatMap_append

end Log

/-! ## What a step can do -/

/-- The steps that happen, with what allows them. -/
inductive Step (s : State) : Action → State → Prop
  | arrive (bytes : Bytes) : Step s (.arrive bytes) { s with socket := s.socket ++ bytes }
  | callback (a : Arrival) (hreading : s.reading = true) (hidle : s.point.idle = true)
      (hfits : a.fits s.socket = true) : Step s (.callback a) (s.read_cb a)
  | test (hp : s.point = .testing) :
      Step s .test { s with point := if s.reader.ok then .awaiting else .unwinding }
  | ready (r : Option String) (hp : s.point = .awaiting) : Step s (.ready r) (s.await_ready r)
  | suspend (hp : s.point = .suspending) : Step s .suspend s.await_suspend
  | resume (hp : s.point = .resuming) : Step s .resume s.await_resume
  | check (size : ℕ) (hp : s.point = .viewing size) :
      Step s .check { s with point := if size = 0 then .testing else .working size }
  | parse (size : ℕ) (hp : s.point = .working size) :
      Step s .parse { s with point := .flushing, log := s.log ++ [.parsed (s.reader.view size)] }
  | finish (hp : s.point = .flushing) : Step s .finish { s with point := .testing }
  | destroy (hp : s.point = .unwinding) : Step s .destroy { s with point := .ended, reading := false }

variable {s s' : State}

/-- **What a step does.** -/
theorem step_inv {a : Action} (h : step s a = some s') : Step s a s' := by
  cases a with
  | arrive bytes =>
    cases h
    exact .arrive bytes
  | callback a =>
    obtain ⟨hcond, rfl⟩ := guard_eq_some h
    simp only [Bool.and_eq_true] at hcond
    exact .callback a hcond.1.1 hcond.1.2 hcond.2
  | test =>
    obtain ⟨hp, rfl⟩ := guard_eq_some h
    exact .test hp
  | ready r =>
    obtain ⟨hp, rfl⟩ := guard_eq_some h
    exact .ready r hp
  | suspend =>
    obtain ⟨hp, rfl⟩ := guard_eq_some h
    exact .suspend hp
  | resume =>
    obtain ⟨hp, rfl⟩ := guard_eq_some h
    exact .resume hp
  | check =>
    simp only [step] at h
    split at h
    · rename_i size hp
      cases h
      exact .check size hp
    · cases h
  | parse =>
    simp only [step] at h
    split at h
    · rename_i size hp
      cases h
      exact .parse size hp
    · cases h
  | finish =>
    obtain ⟨hp, rfl⟩ := guard_eq_some h
    exact .finish hp
  | destroy =>
    obtain ⟨hp, rfl⟩ := guard_eq_some h
    exact .destroy hp

/-! ## The invariant -/

/-- `await_ready` was called after the last `await_resume`. -/
def Awaited (log : List Entry) : Prop := ¬ Open Entry.resumes (· = .ready) log

/-- What holds where the coroutine is. -/
def State.Right (s : State) : Point → Prop
  | .testing => s.reader.ok = true → s.reading = false
  | .awaiting => s.reader.ok = true ∧ s.reading = false
  | .suspending => s.reader.ok = true ∧ Awaited s.log
  | .suspended => s.reader.ok = true ∧ s.reader.h = true ∧ Awaited s.log
  | .viewing size => (s.reader.ok = true → s.reading = false) ∧ (size ≠ 0 → s.reader.ok = true)
  | .working _ | .flushing => s.reader.ok = true ∧ s.reading = false
  | .resuming | .unwinding => True
  | .ended => s.reading = false

/-- **The reader's invariant.** -/
structure Reads (s : State) : Prop where
  length : s.reader.buf.length = capacity
  right : s.Right s.point
  ok : s.reader.ok = true → ¬ Open (· = .reported) (fun _ => False) s.log
  received_eq : received s.log = (views s.log).flatten ++ s.reader.unread s.point
  views_eq : (views s.log).flatten = parsed s.log ++ s.reader.inUse s.point
  spans : Fenced Entry.resumes (· = .ready) Entry.called s.log
  reports : Fenced (· = .reported) (fun _ => False) (· = .ready) s.log

theorem Reads.init : Reads {} where
  length := List.length_replicate
  right := fun _ => rfl
  ok := fun _ => not_open_nil
  received_eq := rfl
  views_eq := rfl
  spans := fenced_nil
  reports := fenced_nil

/-- **A callback comes while the coroutine is suspended in the reader.** -/
theorem Reads.suspended (h : Reads s) (hreading : s.reading = true) (hidle : s.point.idle = true) :
    s.point = .suspended := by
  have hright := h.right
  cases hp : s.point with
  | suspended => rfl
  | working size =>
    rw [hp] at hright
    exact absurd hreading (by simp [hright.2])
  | flushing =>
    rw [hp] at hright
    exact absurd hreading (by simp [hright.2])
  | ended =>
    rw [hp] at hright
    exact absurd hreading (by simp [show s.reading = false from hright])
  | _ =>
    rw [hp] at hidle
    cases hidle

/-- The coroutine moves on, and nothing else changes. -/
theorem Reads.move (h : Reads s) {p : Point} (hright : s.Right p)
    (hunread : s.reader.unread p = s.reader.unread s.point)
    (hinUse : s.reader.inUse p = s.reader.inUse s.point) : Reads { s with point := p } where
  length := h.length
  right := by
    cases p <;> exact hright
  ok := h.ok
  received_eq := by rw [hunread]; exact h.received_eq
  views_eq := by rw [hinUse]; exact h.views_eq
  spans := h.spans
  reports := h.reports

/-- A step that adds to the log. -/
theorem Reads.add (h : Reads s) {e : Entry} (hlog : s'.log = s.log ++ [e])
    (hlength : s'.reader.buf.length = capacity) (hright : s'.Right s'.point)
    (hok : s'.reader.ok = true → s.reader.ok = true ∧ e ≠ .reported)
    (hreceived : s.reader.unread s.point ++ received [e] =
      (views [e]).flatten ++ s'.reader.unread s'.point)
    (hviews : s.reader.inUse s.point ++ (views [e]).flatten =
      parsed [e] ++ s'.reader.inUse s'.point)
    (hcalled : e.called → Awaited s.log) (hready : e = .ready → s.reader.ok = true) : Reads s' where
  length := hlength
  right := hright
  ok := by
    intro hok'
    obtain ⟨hbefore, he⟩ := hok hok'
    rw [hlog, open_snoc]
    rintro (hbad | ⟨-, hopen⟩)
    · exact he hbad
    · exact h.ok hbefore hopen
  received_eq := by
    rw [hlog, received_snoc, views_snoc, h.received_eq, List.flatten_append, List.append_assoc,
      List.append_assoc, hreceived]
  views_eq := by
    rw [hlog, views_snoc, parsed_snoc, List.flatten_append, h.views_eq, List.append_assoc,
      List.append_assoc, hviews]
  spans := by
    rw [hlog]
    exact h.spans.snoc hcalled
  reports := by
    rw [hlog]
    exact h.reports.snoc fun he => h.ok (hready he)

theorem awaited_ready (log : List Entry) : Awaited (log ++ [.ready]) := by
  unfold Awaited
  rw [open_snoc]
  rintro (h | ⟨h, -⟩)
  · exact h
  · exact h rfl

theorem Reads.await_ready (h : Reads s) (hp : s.point = .awaiting) (r : Option String) :
    Reads (s.await_ready r) := by
  have hright := h.right
  rw [hp] at hright
  obtain ⟨hok, hstopped⟩ := hright
  have hunread : s.reader.unread s.point = [] := by rw [hp]; rfl
  have hinUse : s.reader.inUse s.point = [] := by rw [hp]; rfl
  cases r with
  | none =>
    apply h.add (e := .ready)
    · rfl
    · exact h.length
    · exact ⟨hok, awaited_ready s.log⟩
    · exact fun _ => ⟨hok, by simp⟩
    · rw [hunread]; rfl
    · rw [hinUse]; rfl
    · exact fun hcalled => hcalled.elim
    · exact fun _ => hok
  | some why =>
    have hcalled : Reads { s with log := s.log ++ [.ready] } := by
      apply h.add (e := .ready)
      · rfl
      · exact h.length
      · show State.Right _ s.point
        rw [hp]
        exact ⟨hok, hstopped⟩
      · exact fun _ => ⟨hok, by simp⟩
      · rw [hunread]; rfl
      · rw [hinUse]; rfl
      · exact fun hcalled => hcalled.elim
      · exact fun _ => hok
    have hbad : (s.await_ready (some why)).reader.ok = false := by simp [State.await_ready, Reader.ok]
    apply hcalled.add (e := .reported)
    · simp [State.await_ready]
    · exact h.length
    · trivial
    · intro hgood
      rw [hbad] at hgood
      cases hgood
    · show s.reader.unread s.point ++ [] = [] ++ if _ then _ else _
      rw [hunread, hbad]
      rfl
    · show s.reader.inUse s.point ++ [] = []
      rw [hinUse]
      rfl
    · exact fun _ => awaited_ready s.log
    · exact fun hready => by cases hready

theorem Reads.await_suspend (h : Reads s) (hp : s.point = .suspending) : Reads s.await_suspend := by
  have hright := h.right
  have hreceived := h.received_eq
  have hviews := h.views_eq
  rw [hp] at hright hreceived hviews
  exact ⟨h.length, ⟨hright.1, rfl, hright.2⟩, h.ok, hreceived, hviews, h.spans, h.reports⟩

/-- What `read_cb` reports. -/
theorem Reads.report (h : Reads s) (hp : s.point = .suspended) {r : Reader}
    (hbuf : r.buf = s.reader.buf) (hbad : r.ok = false) :
    Reads { s with reader := r, point := .resuming, log := s.log ++ [.reported] } := by
  have hright := h.right
  rw [hp] at hright
  apply h.add (e := .reported)
  · rfl
  · rw [hbuf]
    exact h.length
  · trivial
  · intro hgood
    rw [hbad] at hgood
    cases hgood
  · rw [hp]
    show [] = if r.ok then _ else _
    rw [hbad]
    rfl
  · rw [hp]
    rfl
  · exact fun _ => hright.2.2
  · exact fun hready => by cases hready

/-- `read_cb` with bytes. The view that `await_resume` is about to return shows them. -/
theorem Reads.fill (h : Reads s) (hp : s.point = .suspended) {n : ℕ} (hfits : n ≤ capacity)
    (hn : n ≤ s.socket.length) :
    Reads { s with
      reader := { s.reader with buf := s.socket.take n ++ s.reader.buf.drop n, nread := n }
      point := .resuming
      socket := s.socket.drop n
      log := s.log ++ [.read (s.socket.take n)] } := by
  have hright := h.right
  rw [hp] at hright
  obtain ⟨hok, -, hout⟩ := hright
  have hlen : (s.socket.take n).length = n := List.length_take_of_le hn
  apply h.add (e := .read (s.socket.take n))
  · rfl
  · show (s.socket.take n ++ s.reader.buf.drop n).length = capacity
    rw [List.length_append, hlen, List.length_drop, h.length]
    omega
  · trivial
  · exact fun _ => ⟨hok, by simp⟩
  · have hshown : (s.socket.take n ++ s.reader.buf.drop n).take n = s.socket.take n := by
      rw [List.take_append_of_le_length (Nat.le_of_eq hlen.symm), List.take_of_length_le (Nat.le_of_eq hlen)]
    have hgood : ({ s.reader with buf := s.socket.take n ++ s.reader.buf.drop n, nread := n } :
        Reader).ok = true := hok
    rw [hp]
    show received [.read (s.socket.take n)] = if _ then (_ : Bytes).take n else []
    rw [if_pos hgood, hshown]
    simp [received]
  · rw [hp]
    rfl
  · exact fun _ => hout
  · exact fun hready => by cases hready

theorem Reads.read_cb (h : Reads s) (hp : s.point = .suspended) {a : Arrival}
    (ha : a.fits s.socket = true) : Reads (s.read_cb a) := by
  have hright := h.right
  rw [hp] at hright
  -- the handle is there, and the coroutine is resumed
  have hh : s.reader.h = true := hright.2.1
  cases a with
  | read n =>
    simp only [Arrival.fits, Bool.and_eq_true, decide_eq_true_eq] at ha
    have hfill := h.fill hp ha.1 ha.2
    simpa only [State.read_cb, State.resume, hh, if_true] using hfill
  | eof =>
    have hreport := h.report hp (r := { s.reader with eos := true }) rfl (by simp [Reader.ok])
    simpa only [State.read_cb, State.resume, hh, if_true] using hreport
  | error why =>
    have hreport := h.report hp
      (r := { s.reader with e := some (.runtime_error ("Failed to read data: " ++ why)) })
      rfl (by simp [Reader.ok])
    simpa only [State.read_cb, State.resume, hh, if_true] using hreport

theorem Reads.await_resume (h : Reads s) (hp : s.point = .resuming) : Reads s.await_resume := by
  have hinUse : s.reader.inUse s.point = [] := by rw [hp]; rfl
  have hunread : s.reader.unread s.point = if s.reader.ok then s.reader.view s.reader.nread else [] := by
    rw [hp]; rfl
  cases he : s.reader.e with
  | some e =>
    have hbad : s.reader.ok = false := by simp [Reader.ok, he]
    have heq : s.await_resume = { s with
        reader := { s.reader with h := false }, point := .unwinding, log := s.log ++ [.thrown] } := by
      simp [State.await_resume, he]
    rw [heq]
    apply h.add (e := .thrown)
    · rfl
    · exact h.length
    · trivial
    · exact fun hgood => ⟨hgood, by simp⟩
    · rw [hunread, hbad]; rfl
    · rw [hinUse]; rfl
    · exact fun hcalled => hcalled.elim
    · exact fun hready => by cases hready
  | none =>
    cases heos : s.reader.eos with
    | true =>
      have hbad : s.reader.ok = false := by simp [Reader.ok, heos]
      have heq : s.await_resume = { s with
          reader := { s.reader with h := false }, point := .viewing 0, log := s.log ++ [.resumed []] } := by
        simp [State.await_resume, he, heos]
      rw [heq]
      apply h.add (e := .resumed [])
      · rfl
      · exact h.length
      · refine ⟨fun hgood => ?_, fun hne => absurd rfl hne⟩
        have hgood' : s.reader.ok = true := hgood
        rw [hbad] at hgood'
        cases hgood'
      · exact fun hgood => ⟨hgood, by simp⟩
      · rw [hunread, hbad]; rfl
      · rw [hinUse]; rfl
      · exact fun hcalled => hcalled.elim
      · exact fun hready => by cases hready
    | false =>
      have hgood : s.reader.ok = true := by simp [Reader.ok, he, heos]
      have heq : s.await_resume = { s with
          reader := { s.reader with h := false, nread := 0 }
          point := .viewing s.reader.nread
          reading := false
          log := s.log ++ [.resumed (s.reader.view s.reader.nread)] } := by
        simp [State.await_resume, he, heos, view]
      rw [heq]
      apply h.add (e := .resumed (s.reader.view s.reader.nread))
      · rfl
      · exact h.length
      · exact ⟨fun _ => rfl, fun _ => hgood⟩
      · exact fun _ => ⟨hgood, by simp⟩
      · rw [hunread, if_pos hgood]
        simp [received, views, unread]
      · rw [hinUse]
        simp [views, parsed, inUse, view]
      · exact fun hcalled => hcalled.elim
      · exact fun hready => by cases hready

theorem Reads.parse (h : Reads s) {size : ℕ} (hp : s.point = .working size) :
    Reads { s with point := .flushing, log := s.log ++ [.parsed (s.reader.view size)] } := by
  have hright := h.right
  rw [hp] at hright
  apply h.add (e := .parsed (s.reader.view size))
  · rfl
  · exact h.length
  · exact hright
  · exact fun _ => ⟨hright.1, by simp⟩
  · rw [hp]; rfl
  · rw [hp]
    simp [views, parsed, inUse]
  · exact fun hcalled => hcalled.elim
  · exact fun hready => by cases hready

/-- **Every step keeps the invariant.** -/
theorem Reads.step {a : Action} (h : Reads s) (ha : step s a = some s') : Reads s' := by
  have hright := h.right
  cases step_inv ha with
  | arrive bytes => exact ⟨h.length, h.right, h.ok, h.received_eq, h.views_eq, h.spans, h.reports⟩
  | callback a hreading hidle hfits => exact h.read_cb (h.suspended hreading hidle) hfits
  | test hp =>
    rw [hp] at hright
    cases hok : s.reader.ok with
    | true => exact h.move ⟨hok, hright hok⟩ (by rw [hp]; rfl) (by rw [hp]; rfl)
    | false => exact h.move trivial (by rw [hp]; rfl) (by rw [hp]; rfl)
  | ready r hp => exact h.await_ready hp r
  | suspend hp => exact h.await_suspend hp
  | resume hp => exact h.await_resume hp
  | check size hp =>
    rw [hp] at hright
    by_cases hsize : size = 0
    · subst hsize
      rw [if_pos rfl]
      exact h.move hright.1 (by rw [hp]; rfl) (by rw [hp]; rfl)
    · rw [if_neg hsize]
      have hok := hright.2 hsize
      exact h.move ⟨hok, hright.1 hok⟩ (by rw [hp]; rfl) (by rw [hp]; rfl)
  | parse size hp => exact h.parse hp
  | finish hp =>
    rw [hp] at hright
    exact h.move (fun _ => hright.2) (by rw [hp]; rfl) (by rw [hp]; rfl)
  | destroy hp =>
    have hreceived := h.received_eq
    have hviews := h.views_eq
    rw [hp] at hreceived hviews
    exact ⟨h.length, rfl, h.ok, hreceived, hviews, h.spans, h.reports⟩

/-! ## Runs -/

/-- What arrives with an action. -/
def Action.arrives : Action → Bytes
  | .arrive bytes => bytes
  | _ => []

/-- A log that gets no more of what libuv read. -/
theorem arrives_none {s s' : State} {l : List Entry} (hlog : s'.log = s.log ++ l)
    (hl : received l = []) (hsocket : s'.socket = s.socket) :
    received s'.log ++ s'.socket = received s.log ++ s.socket ++ [] := by
  have happend : received (s.log ++ l) = received s.log ++ received l := List.flatMap_append
  rw [hlog, happend, hl, hsocket, List.append_nil, List.append_nil]

theorem log_resume (s : State) : s.resume.log = s.log := by
  unfold State.resume
  split <;> rfl

theorem socket_resume (s : State) : s.resume.socket = s.socket := by
  unfold State.resume
  split <;> rfl

/-- What arrives is read or waits on the socket. -/
theorem step_arrives (s : State) (a : Action) (s' : State) (ha : step s a = some s') :
    received s'.log ++ s'.socket = received s.log ++ s.socket ++ a.arrives := by
  cases step_inv ha with
  | arrive bytes => exact (List.append_assoc _ _ _).symm
  | callback a =>
    cases a with
    | read n =>
      show received (State.resume _).log ++ (State.resume _).socket = _
      rw [log_resume, socket_resume, received_snoc]
      simp [received, Action.arrives]
    | eof => exact arrives_none (log_resume _) rfl (socket_resume _)
    | error why => exact arrives_none (log_resume _) rfl (socket_resume _)
  | ready r =>
    cases r with
    | none => exact arrives_none (l := [.ready]) rfl rfl rfl
    | some why => exact arrives_none (l := [.ready, .reported]) rfl rfl rfl
  | resume =>
    unfold State.await_resume
    dsimp only
    split
    · exact arrives_none (l := [.thrown]) rfl rfl rfl
    · split
      · exact arrives_none (l := [.resumed []]) rfl rfl rfl
      · exact arrives_none rfl rfl rfl
  | parse size => exact arrives_none rfl rfl rfl
  | test | suspend | check | finish | destroy =>
    exact arrives_none (List.append_nil _).symm rfl rfl

/-- **The reader is exact.** In every run, whatever arrives when and however long the coroutine is
busy: what libuv read, and what still waits, is what arrived; once the coroutine has resumed, the
views are what was read, and the session reads them as they were; between an `await_resume` and
the next `await_ready` there is no callback; after the end of the stream or an error was reported
nothing is awaited. -/
theorem reader_exact {as : List Action} (h : runFrom step {} as = some s) :
    received s.log ++ s.socket = as.flatMap Action.arrives ∧
      received s.log = ((views s.log).filter (· ≠ [])).flatten ++ s.reader.unread s.point ∧
      (s.point ≠ .resuming → received s.log = ((views s.log).filter (· ≠ [])).flatten) ∧
      ((views s.log).filter (· ≠ [])).flatten = parsed s.log ++ s.reader.inUse s.point ∧
      (∀ pre o mid x post, s.log = pre ++ o :: mid ++ x :: post → o.resumes → x.called →
        .ready ∈ mid) ∧
      ∀ pre post, s.log = pre ++ .reported :: post → .ready ∉ post := by
  have harrives := run_appends (f := fun s => received s.log ++ s.socket) step_arrives h
  have hreads : Reads s := inv_run (fun _ _ _ hs ha => hs.step ha) Reads.init h
  have hviews : ((views s.log).filter (· ≠ [])).flatten = (views s.log).flatten :=
    List.flatten_filter_ne_nil
  rw [hviews]
  refine ⟨harrives, hreads.received_eq, fun hp => ?_, hreads.views_eq, ?_, ?_⟩
  · have hnone : s.reader.unread s.point = [] := by
      unfold unread
      split
      · rename_i hp'
        exact absurd hp' hp
      · rfl
    rw [hreads.received_eq, hnone, List.append_nil]
  · intro pre o mid x post hlog ho hx
    obtain ⟨c, hc, hready⟩ := hreads.spans pre o mid x post hlog ho hx
    exact hready ▸ hc
  · intro pre post hlog hmem
    obtain ⟨mid, post', rfl⟩ := List.append_of_mem hmem
    rw [← List.cons_append, ← List.append_assoc] at hlog
    obtain ⟨c, -, hfalse⟩ := hreads.reports pre _ mid _ post' hlog rfl rfl
    exact hfalse

/-- Two bytes are read, one comes while the session is busy, and the peer closes. -/
def busy : List Action :=
  [.arrive [1, 2], .test, .ready none, .suspend, .callback (.read 2), .resume, .check, .arrive [3], .parse,
    .finish, .test, .ready none, .suspend, .callback (.read 0), .resume, .check, .test, .ready none, .suspend,
    .callback (.read 1), .resume, .check, .parse, .finish, .test, .ready none, .suspend, .callback .eof, .resume,
    .check, .test, .destroy]

theorem reader_exact_busy : ∃ s, runFrom step {} busy = some s ∧
    views s.log = [[1, 2], [], [3], []] ∧ received s.log = [1, 2, 3] ∧
    ∀ pre post, s.log = pre ++ .reported :: post → .ready ∉ post := by
  have hruns : ((runFrom step {} busy).map fun s => (views s.log, decide (s.point = .ended))) =
      some ([[1, 2], [], [3], []], true) := by decide +kernel
  obtain ⟨s, hs, hend⟩ := Option.map_eq_some_iff.1 hruns
  obtain ⟨hviews, hpoint⟩ := Prod.mk.inj hend
  obtain ⟨-, -, hreceived, -, -, hreports⟩ := reader_exact hs
  have hended : s.point = .ended := of_decide_eq_true hpoint
  refine ⟨s, hs, hviews, ?_, hreports⟩
  rw [hreceived (by rw [hended]; exact fun h => by cases h), hviews]
  rfl

end Grpcxx.Uv.Reader
