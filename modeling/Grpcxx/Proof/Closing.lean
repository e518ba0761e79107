import Grpcxx.Lib.Run
import Grpcxx.Model.Shutdown
import Mathlib.Data.List.Basic

/-!
# Which handles are closed twice

Until `~loop` a connection's coroutine and its handle go together: the handle is open as long as
the coroutine is there. The walk closes the handles of coroutines that are suspended. One that
waits for a write is then resumed, finds that it cannot read, ends, and closes its handle
once more.

* `Valid.step`: what is open, in every stage.
* `Doomed.step`: a flush in progress at the walk makes for a second close before the loop is closed.
* `closed_once`: a complete run closes every handle once exactly if no flush is in progress
  at the walk and `_async` is initialised or does not seem active.
-/

namespace Grpcxx.Uv.Shutdown

open Run State

variable {n : ℕ} {active : Bool} {s s' : State} {i j : ℕ} {h h' : Handle}

/-- **`uv_close` is only called on open handles.** -/
def Safe (s : State) : Prop := ∀ x ∈ s.closes, x.2 = .opened

/-- The condition on a step: at the walk no connection waits for a write, and when the scheduler
is destroyed `_async` was initialised or does not read as active. -/
def Spared (n : ℕ) (active : Bool) (s : State) : Action → Prop
  | .destroyLoop => ∀ i, s.phase i ≠ .flushing
  | .destroyScheduler => n ≠ 0 ∨ active = false
  | _ => True

/-! ## Lives and phases -/

@[simp] theorem life_setPhase (p : Phase) : (s.setPhase i p).life h = s.life h := by
  cases h with
  | conn j =>
    simp only [setPhase, life, List.getElem?_modify]
    cases s.conns[j]? with
    | none => simp
    | some c => by_cases hij : i = j <;> simp [hij]
  | _ => rfl

theorem phase_setPhase_ne (p : Phase) (hj : j ≠ i) : (s.setPhase i p).phase j = s.phase j := by
  simp only [setPhase, phase, List.getElem?_modify, if_neg hj.symm, id_map']

theorem phase_setPhase_ended : (s.setPhase i .ended).phase i = .ended := by
  simp only [setPhase, phase, List.getElem?_modify, if_pos]
  cases s.conns[i]? <;> rfl

@[simp] theorem phase_setLife (l : Life) : (s.setLife l h).phase j = s.phase j := by
  cases h with
  | conn i =>
    simp only [setLife, phase, List.getElem?_modify]
    cases s.conns[j]? with
    | none => simp
    | some c => by_cases hij : i = j <;> simp [hij]
  | _ => rfl

theorem life_setLife_ne (l : Life) (hh : h' ≠ h) : (s.setLife l h).life h' = s.life h' := by
  cases h with
  | conn i =>
    cases h' with
    | conn j =>
      have hij : i ≠ j := fun heq => hh (heq ▸ rfl)
      simp only [setLife, life, List.getElem?_modify, if_neg hij, id_map']
    | _ => rfl
  | _ => cases h' <;> first | rfl | exact absurd rfl hh

theorem life_setLife_self (l : Life) (hh : s.life h ≠ .uninit) : (s.setLife l h).life h = l := by
  cases h with
  | conn i =>
    simp only [setLife, life, List.getElem?_modify, if_pos]
    cases hc : s.conns[i]? with
    | none => simp [life, hc] at hh
    | some c => rfl
  | _ => rfl

@[simp] theorem setLife_closes (l : Life) : (s.setLife l h).closes = s.closes := by
  cases h <;> rfl

theorem life_close_ne (hh : h' ≠ h) : (s.close h).life h' = s.life h' := life_setLife_ne _ hh

theorem life_close_self (hh : s.life h ≠ .uninit) : (s.close h).life h = .closing :=
  life_setLife_self _ hh

@[simp] theorem phase_close : (s.close h).phase j = s.phase j := phase_setLife _

/-! ## Before the walk -/

/-- What holds before the walk. -/
structure Early (n : ℕ) (s : State) : Prop where
  /-- a coroutine that is there has an open handle -/
  alive : ∀ i, s.phase i ≠ .ended → s.life (.conn i) = .opened
  timer : s.stage = .serving → s.timer = .uninit ∨ s.timer = .opened → s.listener = .opened
  listener : s.listener ≠ .uninit
  async : s.stage ≠ .stopped → s.async = (init n).async

/-- A step of connections: it moves them on, and closes only what is open. -/
structure Moved (s s' : State) : Prop where
  stage : s'.stage = s.stage
  listener : s'.listener = s.listener
  timer : s'.timer = s.timer
  async : s'.async = s.async
  alive : (∀ i, s.phase i ≠ .ended → s.life (.conn i) = .opened) →
    ∀ i, s'.phase i ≠ .ended → s'.life (.conn i) = .opened
  closes : ∃ es, s'.closes = s.closes ++ es ∧ ∀ e ∈ es, e.2 = Life.opened

theorem Moved.early (hm : Moved s s') (he : Early n s) : Early n s' where
  alive := hm.alive he.alive
  timer := by
    rw [hm.stage, hm.timer, hm.listener]
    exact he.timer
  listener := by
    rw [hm.listener]
    exact he.listener
  async := by
    rw [hm.stage, hm.async]
    exact he.async

theorem Safe.append {es : List (Handle × Life)} (hs : Safe s) (hcloses : s'.closes = s.closes ++ es)
    (hes : ∀ e ∈ es, e.2 = .opened) : Safe s' := by
  intro x hx
  rw [hcloses] at hx
  rcases List.mem_append.1 hx with hx | hx
  · exact hs x hx
  · exact hes x hx

theorem Moved.safe (hm : Moved s s') (hs : Safe s) : Safe s' := by
  obtain ⟨es, hcloses, hes⟩ := hm.closes
  exact hs.append hcloses hes

theorem Moved.setPhase (p : Phase) (hi : s.life (.conn i) = .opened) : Moved s (s.setPhase i p) where
  stage := rfl
  listener := rfl
  timer := rfl
  async := rfl
  alive := by
    intro hall j hj
    rw [life_setPhase]
    by_cases hij : j = i
    · rw [hij]
      exact hi
    · rw [phase_setPhase_ne p hij] at hj
      exact hall j hj
  closes := ⟨[], (List.append_nil _).symm, fun e he => absurd he List.not_mem_nil⟩

theorem Moved.leave (hi : s.life (.conn i) = .opened) : Moved s (s.leave i) where
  stage := rfl
  listener := rfl
  timer := rfl
  async := rfl
  alive := by
    intro hall j hj
    unfold State.leave at hj ⊢
    rw [phase_close] at hj
    by_cases hij : j = i
    · subst hij
      exact absurd phase_setPhase_ended hj
    · rw [phase_setPhase_ne _ hij] at hj
      have hne : Handle.conn j ≠ .conn i := fun h => hij (Handle.conn.inj h)
      rw [life_close_ne hne, life_setPhase]
      exact hall j hj
  closes := by
    refine ⟨[(.conn i, (s.setPhase i .ended).life (.conn i))], rfl, fun e he => ?_⟩
    rw [List.mem_singleton.1 he]
    exact (life_setPhase _).trans hi

theorem Moved.await (hi : s.life (.conn i) = .opened) (start : Bool) : Moved s (s.await i start) := by
  unfold State.await
  split
  · exact .setPhase _ hi
  · exact .leave hi

theorem Moved.flush (hi : s.life (.conn i) = .opened) (pending start : Bool) :
    Moved s (s.flush i pending start) := by
  unfold State.flush
  split
  · exact .setPhase _ hi
  · exact .await hi start

theorem Moved.trans {s'' : State} (hm : Moved s s') (hm' : Moved s' s'') : Moved s s'' where
  stage := hm'.stage.trans hm.stage
  listener := hm'.listener.trans hm.listener
  timer := hm'.timer.trans hm.timer
  async := hm'.async.trans hm.async
  alive := fun hall => hm'.alive (hm.alive hall)
  closes := by
    obtain ⟨es, hcloses, hes⟩ := hm.closes
    obtain ⟨es', hcloses', hes'⟩ := hm'.closes
    refine ⟨es ++ es', by rw [hcloses', hcloses, List.append_assoc], fun e he => ?_⟩
    rcases List.mem_append.1 he with he | he
    · exact hes e he
    · exact hes' e he

/-- A connection that is accepted gets the next number. -/
def State.accepted (s : State) : State := { s with conns := s.conns ++ [({} : Conn)] }

theorem accepted_life_self : s.accepted.life (.conn s.conns.length) = .opened := by
  simp [State.accepted, life]

theorem accepted_ne (hj : j ≠ s.conns.length) :
    s.accepted.life (.conn j) = s.life (.conn j) ∧ s.accepted.phase j = s.phase j := by
  have hget : (s.conns ++ [({} : Conn)])[j]? = s.conns[j]? := by
    rcases Nat.lt_or_gt_of_ne hj with hlt | hgt
    · exact List.getElem?_append_left hlt
    · have hlen : (s.conns ++ [({} : Conn)]).length ≤ j := by
        rw [List.length_append, List.length_singleton]
        omega
      rw [List.getElem?_eq_none hlen, List.getElem?_eq_none (by omega)]
  simp only [State.accepted, life, phase, hget, and_self]

theorem Moved.accepted : Moved s s.accepted where
  stage := rfl
  listener := rfl
  timer := rfl
  async := rfl
  alive := by
    intro hall j hj
    by_cases hlast : j = s.conns.length
    · rw [hlast]
      exact accepted_life_self
    · obtain ⟨hlife, hphase⟩ := accepted_ne hlast
      rw [hlife]
      rw [hphase] at hj
      exact hall j hj
  closes := ⟨[], (List.append_nil _).symm, fun e he => absurd he List.not_mem_nil⟩

/-! ## What a step can do -/

/-- The steps that happen, with what allows them. -/
inductive Step (n : ℕ) (active : Bool) (s : State) : Action → State → Prop
  | run (stopPossible : Bool) (hserving : s.stage = .serving) (htimer : s.timer = .uninit) :
      Step n active s (.run stopPossible) (if stopPossible then { s with timer := .opened } else s)
  | requestStop : Step n active s .requestStop { s with stop := true }
  | tick (hloop : s.loopRuns = true) (htimer : s.timer = .opened) :
      Step n active s .tick (if s.stop then (s.close .timer).close .listener else s)
  | accept (accepted start : Bool) (hloop : s.loopRuns = true) (hlistener : s.listener = .opened) :
      Step n active s (.accept accepted start)
        (if accepted then s.accepted.await s.conns.length start else s.accepted.leave s.conns.length)
  | bytes (i : ℕ) (pending start : Bool) (hi : s.life (.conn i) = .opened) :
      Step n active s (.bytes i pending start)
        (if n = 0 then s.flush i pending start else s.setPhase i .queued)
  | empty (i : ℕ) (start : Bool) (hi : s.life (.conn i) = .opened) :
      Step n active s (.empty i start) (s.await i start)
  | eof (i : ℕ) (hi : s.life (.conn i) = .opened) : Step n active s (.eof i) (s.leave i)
  | take (i : ℕ) (hworkers : s.workersRun = true) (hi : s.phase i = .queued) :
      Step n active s (.take i) (s.setPhase i .running)
  | complete (i : ℕ) (hworkers : s.workersRun = true) (hi : s.phase i = .running) :
      Step n active s (.complete i) (s.setPhase i .joining)
  | join (i : ℕ) (pending start : Bool) (hasync : s.async = .opened) (hi : s.phase i = .joining) :
      Step n active s (.join i pending start) (s.flush i pending start)
  | written (i : ℕ) (start : Bool) (hi : s.phase i = .flushing) :
      Step n active s (.written i start) (s.await i start)
  | closed (h : Handle) (hloop : s.loopRuns = true) (hclosing : s.life h = .closing)
      (hwrites : s.writes h = false) : Step n active s (.closed h) (s.setLife .closed h)
  | destroyServer (hserving : s.stage = .serving) : Step n active s .destroyServer s.destroyServer
  | destroyScheduler (hstopping : s.stage = .stopping) :
      Step n active s .destroyScheduler (s.destroyScheduler active)
  | destroyLoop (hstopped : s.stage = .stopped) : Step n active s .destroyLoop s.destroyLoop
  | closeLoop (hdraining : s.stage = .draining)
      (hhandles : ∀ h ∈ s.handles, s.life h ≠ .opened ∧ s.life h ≠ .closing) :
      Step n active s .closeLoop { s with stage := .done }

/-- **What a step does.** -/
theorem act_inv {a : Action} (hs : act n active s a = some s') : Step n active s a s' := by
  cases a with
  | requestStop =>
    cases hs
    exact .requestStop
  | run b =>
    obtain ⟨⟨hserving, htimer⟩, rfl⟩ := guard_eq_some hs
    exact .run b hserving htimer
  | tick =>
    obtain ⟨⟨hloop, htimer⟩, rfl⟩ := guard_eq_some hs
    exact .tick hloop htimer
  | accept accepted start =>
    obtain ⟨⟨hloop, hlistener⟩, rfl⟩ := guard_eq_some hs
    exact .accept accepted start hloop hlistener
  | bytes i pending start =>
    obtain ⟨⟨-, hi, -⟩, rfl⟩ := guard_eq_some hs
    exact .bytes i pending start hi
  | empty i start =>
    obtain ⟨⟨-, hi, -⟩, rfl⟩ := guard_eq_some hs
    exact .empty i start hi
  | eof i =>
    obtain ⟨⟨-, hi, -⟩, rfl⟩ := guard_eq_some hs
    exact .eof i hi
  | take i =>
    obtain ⟨⟨hworkers, hi, -⟩, rfl⟩ := guard_eq_some hs
    exact .take i hworkers hi
  | complete i =>
    obtain ⟨⟨hworkers, hi⟩, rfl⟩ := guard_eq_some hs
    exact .complete i hworkers hi
  | join i pending start =>
    obtain ⟨⟨-, hasync, hi⟩, rfl⟩ := guard_eq_some hs
    exact .join i pending start hasync hi
  | written i start =>
    obtain ⟨⟨-, hi⟩, rfl⟩ := guard_eq_some hs
    exact .written i start hi
  | closed h =>
    obtain ⟨⟨hloop, hclosing, hwrites⟩, rfl⟩ := guard_eq_some hs
    exact .closed h hloop hclosing (by simpa using hwrites)
  | destroyServer =>
    obtain ⟨hserving, rfl⟩ := guard_eq_some hs
    exact .destroyServer hserving
  | destroyScheduler =>
    obtain ⟨⟨hstopping, -⟩, rfl⟩ := guard_eq_some hs
    exact .destroyScheduler hstopping
  | destroyLoop =>
    obtain ⟨hstopped, rfl⟩ := guard_eq_some hs
    exact .destroyLoop hstopped
  | closeLoop =>
    obtain ⟨⟨hdraining, hall⟩, rfl⟩ := guard_eq_some hs
    refine .closeLoop hdraining fun h hh => ?_
    simpa using List.all_eq_true.1 hall h hh

/-- The first close of a handle that is not open is the last step. -/
theorem aborted_eq_false : s.aborted = false ↔ Safe s := by
  simp [aborted, Safe]

theorem step_eq_some {a : Action} :
    step n active s a = some s' ↔ Safe s ∧ act n active s a = some s' := by
  rw [← aborted_eq_false]
  unfold step
  cases s.aborted <;> simp

/-- The steps of connections and workers. -/
def Action.moves : Action → Bool
  | .run _ | .tick | .closed _ | .destroyServer | .destroyScheduler | .destroyLoop | .closeLoop => false
  | _ => true

/-- Before the walk connections close only what is open. -/
theorem moved_step {a : Action} (he : Early n s) (ha : a.moves = true)
    (hs : act n active s a = some s') : Moved s s' := by
  cases act_inv hs with
  | requestStop => exact ⟨rfl, rfl, rfl, rfl, id, [], (List.append_nil _).symm, nofun⟩
  | accept accepted start _ _ =>
    cases accepted with
    | true => exact Moved.accepted.trans (.await accepted_life_self start)
    | false => exact Moved.accepted.trans (.leave accepted_life_self)
  | bytes i pending start hi =>
    split
    · exact .flush hi pending start
    · exact .setPhase _ hi
  | empty i start hi => exact .await hi start
  | eof i hi => exact .leave hi
  | take i _ hi => exact .setPhase _ (he.alive i (by rw [hi]; nofun))
  | complete i _ hi => exact .setPhase _ (he.alive i (by rw [hi]; nofun))
  | join i pending start _ hi => exact .flush (he.alive i (by rw [hi]; nofun)) pending start
  | written i start hi => exact .await (he.alive i (by rw [hi]; nofun)) start
  | run | tick | closed | destroyServer | destroyScheduler | destroyLoop | closeLoop => cases ha

theorem serving_of_loopRuns (hl : s.loopRuns = true) (hd : s.stage ≠ .draining) : s.stage = .serving := by
  simpa [loopRuns, hd] using hl

theorem Early.run (he : Early n s) (hserving : s.stage = .serving) (htimer : s.timer = .uninit) :
    Early n { s with timer := .opened } where
  alive := he.alive
  timer := fun _ _ => he.timer hserving (.inl htimer)
  listener := he.listener
  async := he.async

/-- The stop timer closes itself and the listener, both open. -/
theorem Early.tick (he : Early n s) (hserving : s.stage = .serving) (htimer : s.timer = .opened) :
    Early n ((s.close .timer).close .listener) ∧
      ((s.close .timer).close .listener).closes = s.closes ++ [(.timer, .opened), (.listener, .opened)] := by
  have hlistener : s.listener = .opened := he.timer hserving (.inr htimer)
  constructor
  · exact
      { alive := he.alive
        timer := fun _ h => by rcases h with h | h <;> cases h
        listener := by simp [State.close, setLife]
        async := he.async }
  · simp [State.close, setLife, life, htimer, hlistener]

/-- A handle that is closing has no coroutine any more. -/
theorem Early.closed (he : Early n s) (hserving : s.stage = .serving) (hh : s.life h = .closing) :
    Early n (s.setLife .closed h) := by
  have hopen : ∀ h', s.life h' = .opened → h' ≠ h := by
    rintro h' ho rfl
    rw [hh] at ho
    cases ho
  have halive : ∀ i, (s.setLife .closed h).phase i ≠ .ended →
      (s.setLife .closed h).life (.conn i) = .opened := by
    intro i hi
    rw [phase_setLife] at hi
    have ho := he.alive i hi
    rw [life_setLife_ne _ (hopen _ ho)]
    exact ho
  cases h with
  | conn i => exact ⟨halive, he.timer, he.listener, he.async⟩
  | timer => exact ⟨halive, (fun _ h => by rcases h with h | h <;> cases h), he.listener, he.async⟩
  | listener =>
    refine ⟨halive, fun hs ht => ?_, nofun, he.async⟩
    have ho := he.timer hs ht
    rw [show s.listener = .closing from hh] at ho
    cases ho
  | async =>
    have hasync := he.async (by rw [hserving]; exact fun h => by cases h)
    rw [show s.async = .closing from hh] at hasync
    unfold init at hasync
    split at hasync <;> cases hasync

/-- `~server` closes the listener, if it is open. -/
theorem Early.destroyServer (he : Early n s) (hserving : s.stage = .serving) :
    Early n s.destroyServer ∧ ∃ es, s.destroyServer.closes = s.closes ++ es ∧ ∀ e ∈ es, e.2 = .opened := by
  have hasync : s.stage ≠ .stopped := by rw [hserving]; exact fun h => by cases h
  unfold State.destroyServer
  dsimp only
  split
  · exact ⟨⟨he.alive, nofun, he.listener, fun _ => he.async hasync⟩,
      [], (List.append_nil _).symm, fun e he => by cases he⟩
  · rename_i hnot
    have hopen : s.listener = .opened := by
      cases hl : s.listener with
      | opened => rfl
      | uninit => exact absurd hl he.listener
      | closing => exact absurd (.inl hl) hnot
      | closed => exact absurd (.inr hl) hnot
    refine ⟨⟨he.alive, nofun, nofun, fun _ => he.async hasync⟩,
      [(.listener, .opened)], (by rw [← hopen]; rfl), fun e he => by rw [List.mem_singleton.1 he]⟩

/-- What a step adds to the calls of `uv_close`: handles that are open, if it is spared. -/
def Adds (n : ℕ) (active : Bool) (s : State) (a : Action) (s' : State) : Prop :=
  ∃ es, s'.closes = s.closes ++ es ∧ (Spared n active s a → ∀ e ∈ es, e.2 = Life.opened) ∧
    (¬ Spared n active s a → ∃ e ∈ es, e.2 ≠ Life.opened)

theorem adds_of_spared {a : Action} (ha : Spared n active s a)
    (h : ∃ es, s'.closes = s.closes ++ es ∧ ∀ e ∈ es, e.2 = Life.opened) : Adds n active s a s' := by
  obtain ⟨es, hcloses, hes⟩ := h
  exact ⟨es, hcloses, fun _ => hes, fun hnot => absurd ha hnot⟩

/-- `~scheduler` closes `_async`, if that seems active. -/
theorem Early.destroyScheduler (he : Early n s) (hstopping : s.stage = .stopping) :
    Early n (s.destroyScheduler active) ∧
      Adds n active s .destroyScheduler (s.destroyScheduler active) := by
  have hasync := he.async (by rw [hstopping]; nofun)
  have hearly : ∀ (l : Life) (es : List (Handle × Life)),
      Early n { s with async := l, closes := es, stage := .stopped } := fun l es =>
    ⟨he.alive, nofun, he.listener, fun h => absurd rfl h⟩
  unfold State.destroyScheduler
  dsimp only
  by_cases hn : n = 0
  · have huninit : s.async = .uninit := by rw [hasync, init, if_pos hn]
    cases active with
    | true =>
      -- what was never initialised is closed
      have hcond : isActive true s.async = true := by rw [huninit]; rfl
      rw [if_pos hcond]
      refine ⟨hearly _ _, [(.async, .uninit)], ?_, fun hspared => ?_, fun _ => ?_⟩
      · rw [← huninit]
        rfl
      · rcases hspared with h | h
        · exact absurd hn h
        · cases h
      · exact ⟨_, List.mem_singleton_self _, nofun⟩
    | false =>
      have hcond : ¬ isActive false s.async = true := by rw [huninit]; exact Bool.false_ne_true
      rw [if_neg hcond]
      exact ⟨hearly s.async s.closes, adds_of_spared (.inr rfl) ⟨[], (List.append_nil _).symm, nofun⟩⟩
  · have hopened : s.async = .opened := by rw [hasync, init, if_neg hn]
    have hcond : isActive active s.async = true := by rw [hopened]; rfl
    rw [if_pos hcond]
    refine ⟨hearly _ _, adds_of_spared (.inl hn) ⟨[(.async, .opened)], ?_, fun e he => ?_⟩⟩
    · rw [← hopened]
      rfl
    · rw [List.mem_singleton.1 he]

/-! ## The walk -/

theorem life_closeOpen : (s.closeOpen h').life h =
    if h = h' ∧ s.life h = .opened then .closing else s.life h := by
  unfold closeOpen
  by_cases hh : h = h'
  · subst hh
    by_cases ho : s.life h = .opened
    · rw [if_pos ho, if_pos ⟨rfl, ho⟩]
      exact life_close_self (by rw [ho]; nofun)
    · rw [if_neg ho, if_neg fun hc => ho hc.2]
  · rw [if_neg (c := h = h' ∧ _) fun hc => hh hc.1]
    split
    · exact life_close_ne hh
    · rfl

theorem foldl_closeOpen (hs : List Handle) (s : State) :
    (∀ h, (hs.foldl closeOpen s).life h =
        if h ∈ hs ∧ s.life h = .opened then .closing else s.life h) ∧
      (∀ i, (hs.foldl closeOpen s).phase i = s.phase i) ∧
      ∃ es, (hs.foldl closeOpen s).closes = s.closes ++ es ∧ ∀ e ∈ es, e.2 = Life.opened := by
  induction hs generalizing s with
  | nil => exact ⟨fun h => by simp, fun i => rfl, [], (List.append_nil _).symm, nofun⟩
  | cons h' hs ih =>
    obtain ⟨hlife, hphase, es, hcloses, hes⟩ := ih (s.closeOpen h')
    refine ⟨fun h => ?_, fun i => ?_, ?_⟩
    · rw [List.foldl_cons, hlife, life_closeOpen]
      by_cases ho : s.life h = .opened
      · by_cases hh : h = h'
        · subst hh
          simp [ho]
        · simp [hh, ho]
      · simp [ho]
    · rw [List.foldl_cons, hphase]
      unfold closeOpen
      split
      · exact phase_close
      · rfl
    · rw [List.foldl_cons, hcloses]
      unfold closeOpen
      split
      · rename_i ho
        refine ⟨(h', .opened) :: es, by simp [State.close, ho], fun e he => ?_⟩
        rcases List.mem_cons.1 he with rfl | he
        · rfl
        · exact hes e he
      · exact ⟨es, rfl, hes⟩

/-- A handle that is there is walked. -/
theorem mem_handles (hh : s.life h ≠ .uninit) : h ∈ s.handles := by
  cases h with
  | conn i =>
    have hlt : i < s.conns.length := by
      by_contra hge
      rw [life, List.getElem?_eq_none (by omega)] at hh
      exact hh rfl
    simp [handles, hlt]
  | _ => simp [handles]

/-- **The walk** closes what is open, and leaves the coroutines where they are. -/
theorem destroyLoop_spec (s : State) :
    (∀ h, s.destroyLoop.life h = if s.life h = .opened then .closing else s.life h) ∧
      (∀ i, s.destroyLoop.phase i = s.phase i) ∧
      ∃ es, s.destroyLoop.closes = s.closes ++ es ∧ ∀ e ∈ es, e.2 = Life.opened := by
  obtain ⟨hlife, hphase, hcloses⟩ := foldl_closeOpen s.handles s
  refine ⟨fun h => ?_, hphase, hcloses⟩
  have hwalk : s.destroyLoop.life h = (s.handles.foldl closeOpen s).life h := by cases h <;> rfl
  rw [hwalk, hlife]
  by_cases ho : s.life h = .opened
  · have hmem : h ∈ s.handles := mem_handles (by rw [ho]; nofun)
    simp [ho, hmem]
  · simp [ho]

/-! ## After the walk -/

/-- After the walk no handle is open. -/
def Late (s : State) : Prop := ∀ h, s.life h ≠ .opened

/-- What can happen after the walk. -/
inductive Drained (s : State) : State → Prop
  | requestStop : Drained s { s with stop := true }
  /-- a coroutine that waited for its write ends -/
  | written (i : ℕ) (hi : s.phase i = .flushing) : Drained s (s.leave i)
  | closed (h : Handle) (hh : s.writes h = false) : Drained s (s.setLife .closed h)
  | done (hh : ∀ h, s.life h ≠ .closing) : Drained s { s with stage := .done }

/-- **After the walk** libuv calls back for nothing but writes. -/
theorem Late.step {a : Action} (hl : Late s) (hstage : s.stage = .draining ∨ s.stage = .done)
    (hs : act n active s a = some s') : Drained s s' := by
  have hworkers : ¬ s.workersRun = true := by
    unfold workersRun
    rcases hstage with h | h <;> simp [h]
  have hnot : ∀ st, st ≠ .draining → st ≠ .done → s.stage ≠ st := by
    rintro st hd hdone rfl
    rcases hstage with h | h
    · exact hd h
    · exact hdone h
  cases act_inv hs with
  | requestStop => exact .requestStop
  | run _ hserving _ => exact absurd hserving (hnot _ nofun nofun)
  | tick _ htimer => exact absurd htimer (hl .timer)
  | accept _ _ _ hlistener => exact absurd hlistener (hl .listener)
  | bytes _ _ _ hi => exact absurd hi (hl _)
  | empty _ _ hi => exact absurd hi (hl _)
  | eof _ hi => exact absurd hi (hl _)
  | take _ h _ => exact absurd h hworkers
  | complete _ h _ => exact absurd h hworkers
  | join _ _ _ hasync _ => exact absurd hasync (hl .async)
  | written i start hi =>
    -- `uv_read_start` fails
    have hawait : s.await i start = s.leave i := if_neg fun hc => hl _ hc.1
    rw [hawait]
    exact .written i hi
  | closed h _ _ hwrites => exact .closed h hwrites
  | destroyServer hserving => exact absurd hserving (hnot _ nofun nofun)
  | destroyScheduler hstopping => exact absurd hstopping (hnot _ nofun nofun)
  | destroyLoop hstopped => exact absurd hstopped (hnot _ nofun nofun)
  | closeLoop _ hhandles =>
    refine .done fun h hh => ?_
    have hmem : h ∈ s.handles := mem_handles (by rw [hh]; nofun)
    exact (hhandles h hmem).2 hh

theorem setLife_stage (l : Life) : (s.setLife l h).stage = s.stage := by
  cases h <;> rfl

/-- A handle that is set to something else than open is not open. -/
theorem life_setLife_not_opened {l : Life} (hl : l ≠ .opened) : (s.setLife l h).life h ≠ .opened := by
  cases h with
  | conn i =>
    simp only [setLife, life, List.getElem?_modify, if_pos]
    cases s.conns[i]? with
    | none => nofun
    | some c => exact hl
  | _ => exact hl

theorem Late.setLife {l : Life} (hlate : Late s) (hl : l ≠ .opened) : Late (s.setLife l h) := by
  intro h'
  by_cases hh : h' = h
  · rw [hh]
    exact life_setLife_not_opened hl
  · rw [life_setLife_ne l hh]
    exact hlate h'

theorem Late.leave (hlate : Late s) : Late (s.leave i) := by
  have hphase : Late (s.setPhase i .ended) := fun h => by
    rw [life_setPhase]
    exact hlate h
  have hclosing : Late ((s.setPhase i .ended).setLife .closing (.conn i)) := hphase.setLife nofun
  intro h
  exact fun ho => hclosing h (by cases h <;> exact ho)

/-! ## Every stage -/

/-- **What is open, in every stage.** -/
def Valid (n : ℕ) (s : State) : Prop :=
  match s.stage with
  | .serving | .stopping | .stopped => Early n s
  | .draining | .done => Late s

theorem Valid.early (hv : Valid n s) (hd : s.stage ≠ .draining) (hdone : s.stage ≠ .done) : Early n s := by
  unfold Valid at hv
  split at hv
  · exact hv
  · exact hv
  · exact hv
  · rename_i h
    exact absurd h hd
  · rename_i h
    exact absurd h hdone

theorem Early.valid (he : Early n s) (hd : s.stage ≠ .draining) (hdone : s.stage ≠ .done) : Valid n s := by
  unfold Valid
  split
  · exact he
  · exact he
  · exact he
  · rename_i h
    exact absurd h hd
  · rename_i h
    exact absurd h hdone

theorem Valid.late (hv : Valid n s) (hstage : s.stage = .draining ∨ s.stage = .done) : Late s := by
  unfold Valid at hv
  rcases hstage with h | h
  · rw [h] at hv
    exact hv
  · rw [h] at hv
    exact hv

theorem Late.valid (hl : Late s) (hstage : s.stage = .draining ∨ s.stage = .done) : Valid n s := by
  unfold Valid
  rcases hstage with h | h
  · rw [h]
    exact hl
  · rw [h]
    exact hl

theorem Drained.late (h : Drained s s') (hl : Late s) : Late s' := by
  cases h with
  | requestStop => exact fun h ho => hl h (by cases h <;> exact ho)
  | written i hi => exact hl.leave
  | closed h hh => exact hl.setLife nofun
  | done hh => exact fun h ho => hl h (by cases h <;> exact ho)

theorem Drained.stage (h : Drained s s') (hstage : s.stage = .draining ∨ s.stage = .done) :
    s'.stage = .draining ∨ s'.stage = .done := by
  cases h with
  | requestStop => exact hstage
  | written i hi => exact hstage
  | closed h hh => rw [setLife_stage]; exact hstage
  | done hh => exact .inr rfl

/-- **Before the walk** a step keeps the handles of coroutines open. -/
theorem Early.step {a : Action} (he : Early n s) (hd : s.stage ≠ .draining)
    (ha : a ≠ .destroyLoop) (hs : act n active s a = some s') :
    Early n s' ∧ Adds n active s a s' ∧ (s'.stage = s.stage ∨ s'.stage = .stopping ∨ s'.stage = .stopped) := by
  by_cases hmoves : a.moves = true
  · have hmoved := moved_step he hmoves hs
    have hspared : Spared n active s a := by cases a <;> trivial
    exact ⟨hmoved.early he, adds_of_spared hspared hmoved.closes, .inl hmoved.stage⟩
  · have hnone : ∃ es, s.closes = s.closes ++ es ∧ ∀ e ∈ es, e.2 = Life.opened :=
      ⟨[], (List.append_nil _).symm, nofun⟩
    cases act_inv hs with
    | run b hserving htimer =>
      split
      · exact ⟨he.run hserving htimer, adds_of_spared trivial hnone, .inl rfl⟩
      · exact ⟨he, adds_of_spared trivial hnone, .inl rfl⟩
    | tick hloop htimer =>
      split
      · obtain ⟨hearly, hcloses⟩ := he.tick (serving_of_loopRuns hloop hd) htimer
        refine ⟨hearly, adds_of_spared trivial ⟨_, hcloses, fun e he => ?_⟩, .inl rfl⟩
        rcases List.mem_cons.1 he with rfl | he
        · rfl
        · rw [List.mem_singleton.1 he]
      · exact ⟨he, adds_of_spared trivial hnone, .inl rfl⟩
    | closed h hloop hclosing _ =>
      refine ⟨he.closed (serving_of_loopRuns hloop hd) hclosing, adds_of_spared trivial ?_,
        .inl (setLife_stage _)⟩
      rw [setLife_closes]
      exact hnone
    | destroyServer hserving =>
      obtain ⟨hearly, hcloses⟩ := he.destroyServer hserving
      exact ⟨hearly, adds_of_spared trivial hcloses, .inr (.inl rfl)⟩
    | destroyScheduler hstopping =>
      obtain ⟨hearly, hadds⟩ := he.destroyScheduler hstopping
      exact ⟨hearly, hadds, .inr (.inr rfl)⟩
    | destroyLoop => exact absurd rfl ha
    | closeLoop hdraining _ => exact absurd hdraining hd
    | requestStop | accept | bytes | empty | eof | take | complete | join | written =>
      exact absurd rfl hmoves

/-! ## Runs -/

theorem early_init (n : ℕ) : Early n (init n) where
  alive := fun _ hi => absurd rfl hi
  timer := fun _ _ => rfl
  listener := nofun
  async := fun _ => rfl

/-- **Every step** keeps what is open in each stage. -/
theorem Valid.step {a : Action} (hv : Valid n s) (hs : act n active s a = some s') :
    Valid n s' := by
  by_cases hlate : s.stage = .draining ∨ s.stage = .done
  · have hl := hv.late hlate
    have hdrained := hl.step hlate hs
    exact (hdrained.late hl).valid (hdrained.stage hlate)
  · have hd : s.stage ≠ .draining := fun h => hlate (.inl h)
    have hdone : s.stage ≠ .done := fun h => hlate (.inr h)
    have he := hv.early hd hdone
    by_cases ha : a = .destroyLoop
    · subst ha
      obtain ⟨-, rfl⟩ := guard_eq_some hs
      have hl : Late s.destroyLoop := by
        intro h
        rw [(destroyLoop_spec s).1]
        split
        · nofun
        · assumption
      exact hl.valid (.inl rfl)
    · obtain ⟨he', -, hstage⟩ := he.step hd ha hs
      rcases hstage with h | h | h
      · exact he'.valid (by rw [h]; exact hd) (by rw [h]; exact hdone)
      · exact he'.valid (by rw [h]; nofun) (by rw [h]; nofun)
      · exact he'.valid (by rw [h]; nofun) (by rw [h]; nofun)

/-- What holds along a run whose steps are spared. -/
structure Closed (n : ℕ) (s : State) : Prop where
  valid : Valid n s
  safe : Safe s
  /-- after the walk no coroutine will be resumed -/
  still : s.stage = .draining ∨ s.stage = .done → ∀ i, s.phase i ≠ .flushing

/-- **A spared step closes only what is open.** -/
theorem Closed.step {a : Action} (hc : Closed n s) (ha : Spared n active s a)
    (hs : act n active s a = some s') : Closed n s' := by
  have hvalid := hc.valid.step hs
  by_cases hlate : s.stage = .draining ∨ s.stage = .done
  · have hl := hc.valid.late hlate
    have hstill := hc.still hlate
    cases hl.step hlate hs with
    | requestStop => exact ⟨hvalid, hc.safe, fun _ => hstill⟩
    | written _ hi => exact absurd hi (hstill _)
    | closed h hh =>
      refine ⟨hvalid, fun x hx => hc.safe x (by rwa [setLife_closes] at hx), fun _ i => ?_⟩
      rw [phase_setLife]
      exact hstill i
    | done hh => exact ⟨hvalid, hc.safe, fun _ => hstill⟩
  · have hd : s.stage ≠ .draining := fun h => hlate (.inl h)
    have hdone : s.stage ≠ .done := fun h => hlate (.inr h)
    have he := hc.valid.early hd hdone
    by_cases hwalk : a = .destroyLoop
    · subst hwalk
      obtain ⟨-, rfl⟩ := guard_eq_some hs
      obtain ⟨-, hphase, es, hcloses, hes⟩ := destroyLoop_spec s
      refine ⟨hvalid, hc.safe.append hcloses hes, fun _ i => ?_⟩
      rw [hphase]
      exact ha i
    · obtain ⟨-, ⟨es, hcloses, hes, -⟩, hstage⟩ := he.step hd hwalk hs
      refine ⟨hvalid, hc.safe.append hcloses (hes ha), fun hl => ?_⟩
      exfalso
      rcases hstage with h | h | h
      · rw [h] at hl
        exact hlate hl
      · rw [h] at hl
        rcases hl with hl | hl <;> cases hl
      · rw [h] at hl
        rcases hl with hl | hl <;> cases hl

/-! ## Steps that are not spared -/

/-- A handle was closed that was not open, or one will be: a coroutine waits for a write on
a handle that the walk has closed. -/
def Doomed (s : State) : Prop :=
  ¬ Safe s ∨ s.stage = .draining ∧ Late s ∧ ∃ i, s.phase i = .flushing ∧ s.life (.conn i) = .closing

/-- A step that is not spared brings a second close, or leaves it to the loop. -/
theorem doomed_of_not_spared {a : Action} (hv : Valid n s) (ha : ¬ Spared n active s a)
    (hs : act n active s a = some s') : Doomed s' := by
  cases a with
  | destroyScheduler =>
    obtain ⟨⟨hstopping, -⟩, rfl⟩ := guard_eq_some hs
    have he := hv.early (by rw [hstopping]; nofun) (by rw [hstopping]; nofun)
    have hadds : Adds n active s .destroyScheduler _ := (he.destroyScheduler hstopping).2
    obtain ⟨es, hcloses, -, hbad⟩ := hadds
    obtain ⟨e, he, hne⟩ := hbad ha
    exact .inl fun hsafe => hne (hsafe e (by rw [hcloses]; exact List.mem_append_right _ he))
  | destroyLoop =>
    have hlate := hv.step hs
    obtain ⟨hstopped, rfl⟩ := guard_eq_some hs
    have he := hv.early (by rw [hstopped]; nofun) (by rw [hstopped]; nofun)
    obtain ⟨i, hi⟩ := not_forall.1 ha
    have hflushing : s.phase i = .flushing := not_not.1 hi
    obtain ⟨hlife, hphase, -⟩ := destroyLoop_spec s
    refine .inr ⟨rfl, hlate.late (.inl rfl), i, by rw [hphase, hflushing], ?_⟩
    rw [hlife, if_pos (he.alive i (by rw [hflushing]; nofun))]
  | _ => exact absurd trivial ha

/-- **There is no way out**: the write is cancelled before the handle is closed. -/
theorem Doomed.step {a : Action} (h : Doomed s) (hs : Shutdown.step n active s a = some s') :
    Doomed s' := by
  obtain ⟨hsafe, hs⟩ := step_eq_some.1 hs
  rcases h with hbad | ⟨hstage, hl, i, hi, hclosing⟩
  · exact absurd hsafe hbad
  · have hdrained := hl.step (.inl hstage) hs
    have hl' := hdrained.late hl
    cases hdrained with
    | requestStop => exact .inr ⟨hstage, hl', i, hi, hclosing⟩
    | written j hj =>
      by_cases hij : j = i
      · -- the coroutine closes its handle again
        subst hij
        refine .inl fun hsafe => ?_
        have hopen := hsafe (.conn j, (s.setPhase j .ended).life (.conn j))
          (List.mem_append_right _ (List.mem_singleton_self _))
        rw [life_setPhase, hclosing] at hopen
        cases hopen
      · have hne : Handle.conn i ≠ .conn j := fun h => hij (Handle.conn.inj h).symm
        refine .inr ⟨hstage, hl', i, ?_, ?_⟩
        · unfold State.leave
          rw [phase_close, phase_setPhase_ne _ (Ne.symm hij), hi]
        · unfold State.leave
          rw [life_close_ne hne, life_setPhase, hclosing]
    | closed h hh =>
      have hne : Handle.conn i ≠ h := by
        rintro rfl
        simp [State.writes, hi] at hh
      refine .inr ⟨(setLife_stage _).trans hstage, hl', i, ?_, ?_⟩
      · rw [phase_setLife, hi]
      · rw [life_setLife_ne _ hne, hclosing]
    | done hh => exact absurd hclosing (hh _)

theorem safe_of_spared {as : List Action} (hr : runFrom (step n active) (init n) as = some s)
    (halong : Along (step n active) (Spared n active) (init n) as) : Safe s := by
  have hvalid : Valid n (init n) := (early_init n).valid nofun nofun
  have hclosed : Closed n (init n) := ⟨hvalid, nofun, fun h => by rcases h with h | h <;> cases h⟩
  exact (inv_runAlong (fun _ _ _ hc ha hs => hc.step ha (step_eq_some.1 hs).2) hclosed halong hr).safe

theorem spared_of_done {as : List Action} (hr : runFrom (step n active) (init n) as = some s)
    (hdone : s.stage = .done) (hsafe : Safe s) : Along (step n active) (Spared n active) (init n) as := by
  have hvalid : Valid n (init n) := (early_init n).valid nofun nofun
  rcases along_or (G := Spared n active) hr with halong | ⟨pre, a, post, t, t', -, hpre, hnot, hs, hpost⟩
  · exact halong
  · exfalso
    have hvt : Valid n t := inv_run (fun _ _ _ hv hs => hv.step (step_eq_some.1 hs).2) hvalid hpre
    have hdoomed : Doomed s := inv_run (fun _ _ _ h hs => h.step hs)
      (doomed_of_not_spared hvt hnot (step_eq_some.1 hs).2) hpost
    rcases hdoomed with hbad | ⟨hdraining, -⟩
    · exact hbad hsafe
    · rw [hdone] at hdraining
      cases hdraining

/-- **Each handle is closed once** in every run in which no flush is in progress when `~loop` walks
the handles, and `_async` was initialised or does not read as active when `~scheduler` looks at
it. A run to the end in which each handle is closed once is such a run. -/
theorem closed_once {as : List Action} (hr : runFrom (step n active) (init n) as = some s) :
    (Along (step n active) (Spared n active) (init n) as → Safe s) ∧
      (s.stage = .done → Safe s → Along (step n active) (Spared n active) (init n) as) :=
  ⟨safe_of_spared hr, spared_of_done hr⟩

/-- A response is being written when the server is destroyed. -/
def cancelled : List Action :=
  [.accept true true, .bytes 0 false false, .take 0, .complete 0, .join 0 true true, .destroyServer,
    .destroyScheduler, .destroyLoop, .written 0 true]

theorem closed_once_fails : ¬ ∀ (n : ℕ) (active : Bool) (as : List Action) (s : State),
    runFrom (step n active) (init n) as = some s → Safe s := by
  intro h
  have hruns : ((runFrom (step 1 false) (init 1) cancelled).map fun s =>
      s.closes.any fun x => x.2 ≠ .opened) = some true := by decide
  obtain ⟨s, hs, hbad⟩ := Option.map_eq_some_iff.1 hruns
  obtain ⟨x, hx, hne⟩ := List.any_eq_true.1 hbad
  exact (of_decide_eq_true hne) (h 1 false cancelled s hs x hx)

/-- A connection is served, and is idle when the server is destroyed. -/
def idle : List Action :=
  [.run true, .accept true true, .bytes 0 false false, .take 0, .complete 0, .join 0 true true,
    .written 0 true, .requestStop, .tick, .closed .timer, .destroyServer, .destroyScheduler, .destroyLoop,
    .closed (.conn 0), .closed .listener, .closed .async, .closeLoop]

theorem closed_once_idle : ∃ s, runFrom (step 1 false) (init 1) idle = some s ∧ s.stage = .done ∧
    Safe s ∧ Along (step 1 false) (Spared 1 false) (init 1) idle := by
  have hruns : ((runFrom (step 1 false) (init 1) idle).map fun s =>
      (decide (s.stage = .done), s.closes.all fun x => x.2 = .opened)) = some (true, true) := by decide
  obtain ⟨s, hs, hend⟩ := Option.map_eq_some_iff.1 hruns
  obtain ⟨hstage, hsafe⟩ := Prod.mk.inj hend
  have hdone : s.stage = .done := of_decide_eq_true hstage
  have hclosed : Safe s := fun x hx => of_decide_eq_true (List.all_eq_true.1 hsafe x hx)
  obtain ⟨-, hspared⟩ := closed_once hs
  exact ⟨s, hs, hdone, hclosed, hspared hdone hclosed⟩

end Grpcxx.Uv.Shutdown
