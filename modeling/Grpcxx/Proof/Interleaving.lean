import Grpcxx.Proof.Handover
import Grpcxx.Proof.Turns

/-!
# Any interleaving serves each connection alone

In every state that the system reaches, a connection is where a single coroutine would be
that serves it and nothing else (`Uv.serve`), as far as its turn has come. No two threads are at work on
one connection: its coroutine does not run while it awaits a function, and that function is at one place.

* `Inv.step`: what holds of every connection is kept by every step of any thread.
* `exclusive`: no two threads are at work on one connection.
* `served_alone`: what has come of a connection between two turns.
* `all_served`: when no thread can take a step, everything has been taken in and answered.
-/

namespace Grpcxx.Uv.System

open Scheduler (Coroutine Task Place Placed Awake moved)

variable {σ : Type} {n : ℕ} {N : Nghttp2 σ} {b : ServerBase} {results : Coroutine → ℕ → WriteResult}
  {sessions : Coroutine → σ} {inputs : Coroutine → List Input} {s s' : State σ n} {loc : Task → Place n}

/-- What is left of the function that the coroutine awaits. -/
def State.fn (s : State σ n) (h : Coroutine) : Option Job := (s.sched.awaits h).map s.jobs

/-- Only a function that is queued or running has something left to do. -/
def Left (jobs : Task → Job) (loc : Task → Place n) : Prop :=
  ∀ t, jobs t ≠ .answer [] → (loc t).rank = 1 ∨ (loc t).rank = 2

structure Inv (N : Nghttp2 σ) (b : ServerBase) (results : Coroutine → ℕ → WriteResult)
    (sessions : Coroutine → σ) (inputs : Coroutine → List Input) (s : State σ n)
    (loc : Task → Place n) : Prop where
  placed : Placed s.sched loc
  awake : Awake s.sched
  left : Left s.jobs loc
  inline : n = 0 → s.sched.shifters = []
  lines : ∀ h, (s.lines h).Ok N b (results h) { conn := Backend.fresh .uv (sessions h) } (inputs h)
    (s.fn h) (s.running = some h)

/-! ## Parts of the state -/

namespace Left

variable {jobs : Task → Job} {t : Task}

theorem move (h : Left jobs loc) {p : Place n} (hp : jobs t = .answer [] ∨ p.rank = 1 ∨ p.rank = 2) :
    Left jobs (Function.update loc t p) := by
  intro x hx
  by_cases hxt : x = t
  · rw [hxt, Function.update_self]
    rw [hxt] at hx
    exact hp.resolve_left hx
  · rw [Function.update_of_ne hxt]
    exact h x hx

theorem setJob (h : Left jobs loc) {job : Job} (ht : (loc t).rank = 1 ∨ (loc t).rank = 2) :
    Left (Function.update jobs t job) loc := by
  intro x hx
  by_cases hxt : x = t
  · rw [hxt]
    exact ht
  · rw [Function.update_of_ne hxt] at hx
    exact h x hx

/-- Past its return, nothing is left. -/
theorem returned (h : Left jobs loc) (ht : 2 < (loc t).rank) : jobs t = .answer [] := by
  by_contra hne
  have hrank := h t hne
  omega

end Left

theorem schedule_eq_some {a : Scheduler.Action n} :
    s.schedule a = some s' ↔ ∃ sched, Scheduler.step s.sched a = some sched ∧ s' = { s with sched } := by
  unfold State.schedule
  rw [Option.map_eq_some_iff]
  constructor
  · rintro ⟨sched, hstep, rfl⟩
    exact ⟨sched, hstep, rfl⟩
  · rintro ⟨sched, hstep, rfl⟩
    exact ⟨sched, hstep, rfl⟩

theorem running_eq_some {h : Coroutine} :
    s.running = some h ↔ ∃ caller, s.sched.io = .running h caller := by
  unfold State.running
  cases s.sched.io <;> simp

theorem resumed_eq_some {h : Coroutine} :
    s.resumed = some h ↔ ∃ caller, s.sched.io = .resumed h caller := by
  unfold State.resumed
  cases s.sched.io <;> simp

theorem executes_worker {w : Fin n} {t : Task} :
    s.executes (some w) = some t ↔ s.sched.workers w = .running t := by
  simp only [State.executes]
  cases s.sched.workers w <;> simp

theorem executes_inline {t : Task} :
    s.executes none = some t ↔ ∃ caller, s.sched.io = .inline t caller := by
  simp only [State.executes]
  cases s.sched.io <;> simp

/-- Where no coroutine runs. -/
theorem running_none {io : Scheduler.Io} (hio : s.sched.io = io) (h : ∀ i caller, io ≠ .running i caller) :
    s.running = none := by
  cases hr : s.running with
  | none => rfl
  | some i =>
    obtain ⟨caller, hcaller⟩ := running_eq_some.1 hr
    rw [hio] at hcaller
    exact absurd hcaller (h i caller)

/-- The event loop has no coroutine in its hands, before and after. -/
theorem running_kept {io : Scheduler.Io} (hio : s.sched.io = io) (h : ∀ i caller, io ≠ .running i caller)
    (h' : s'.running = none) : s'.running = s.running :=
  h'.trans (running_none hio h).symm

namespace Inv

theorem schedule (hs : Inv N b results sessions inputs s loc) {a : Scheduler.Action n}
    {sched : Scheduler.State n} (h : Scheduler.step s.sched a = some sched) :
    ∃ m, Scheduler.Step s.sched a m sched ∧ Placed sched (moved loc m) ∧ Awake sched := by
  obtain ⟨m, hm⟩ := Scheduler.step_inv hs.placed h
  exact ⟨m, hm, hs.placed.step hm, hs.awake.step hs.placed hm⟩

/-- The function a thread executes is the one that its coroutine awaits. -/
theorem executes (hs : Inv N b results sessions inputs s loc) {v : Option (Fin n)} {t : Task}
    (h : s.executes v = some t) : loc t = .running v ∧ s.fn t.coro = some (s.jobs t) := by
  have hloc : loc t = .running v := by
    cases v with
    | some w => exact hs.placed.running (executes_worker.1 h)
    | none =>
      obtain ⟨caller, hio⟩ := executes_inline.1 h
      exact hs.placed.inline hio
  have hactive : (loc t).active := by
    rw [hloc]
    exact ⟨nofun, nofun⟩
  refine ⟨hloc, ?_⟩
  unfold State.fn
  rw [hs.placed.awaited hactive, Option.map_some]

/-- What one coroutine does leaves the functions of the others. -/
theorem fn_of_ne (hs : Inv N b results sessions inputs s loc) {i : Coroutine} {t : Task} (hi : i ≠ t.coro)
    {job : Job} (hawaits : s'.sched.awaits i = s.sched.awaits i)
    (hjobs : s'.jobs = Function.update s.jobs t job) : s'.fn i = s.fn i := by
  unfold State.fn
  rw [hawaits]
  cases ha : s.sched.awaits i with
  | none => rfl
  | some x =>
    have hx : x ≠ t := by
      rintro rfl
      exact hi ((hs.placed.book.awaits i x).1 ha).1.symm
    rw [Option.map_some, Option.map_some, hjobs, Function.update_of_ne hx]

/-- A coroutine that runs awaits no function. -/
theorem fn_running (hs : Inv N b results sessions inputs s loc) {h : Coroutine} (hrun : s.running = some h) :
    s.fn h = none := by
  obtain ⟨caller, hio⟩ := running_eq_some.1 hrun
  unfold State.fn
  rw [(hs.placed.fresh hio).1, Option.map_none]

/-- A step on one connection. -/
theorem only (hs : Inv N b results sessions inputs s loc) (h : Coroutine) {loc' : Task → Place n}
    (hplaced : Placed s'.sched loc') (hawake : Awake s'.sched) (hleft : Left s'.jobs loc')
    (hinline : n = 0 → s'.sched.shifters = [])
    (hother : ∀ i, i ≠ h → s'.lines i = s.lines i ∧ s'.fn i = s.fn i ∧
      (s.running = some i ↔ s'.running = some i))
    (hline : (s'.lines h).Ok N b (results h) { conn := Backend.fresh .uv (sessions h) } (inputs h)
      (s'.fn h) (s'.running = some h)) : Inv N b results sessions inputs s' loc' := by
  refine ⟨hplaced, hawake, hleft, hinline, fun i => ?_⟩
  by_cases hi : i = h
  · rw [hi]
    exact hline
  · obtain ⟨hlines, hfn, hruns⟩ := hother i hi
    rw [hlines, hfn]
    exact (hs.lines i).congr hruns

/-! ## Steps -/

/-- The event loop calls a coroutine that awaits no function. -/
theorem call (hs : Inv N b results sessions inputs s loc) {h : Coroutine} {sched : Scheduler.State n}
    (hstep : Scheduler.step s.sched (.read h) = some sched) {l : Line σ}
    (hl : (s.lines h).Ok N b (results h) { conn := Backend.fresh .uv (sessions h) } (inputs h) none
        (s.running = some h) →
      l.Ok N b (results h) { conn := Backend.fresh .uv (sessions h) } (inputs h) none True) :
    Inv N b results sessions inputs ({ s with sched }.setLine h l) loc := by
  obtain ⟨m, hm, hplaced, hawake⟩ := hs.schedule hstep
  cases hm with
  | read hio hh =>
    have hfn : s.fn h = none := by
      unfold State.fn
      rw [hh, Option.map_none]
    have hbefore : s.running = none := running_none hio nofun
    have hline := hs.lines h
    rw [hfn] at hline
    refine hs.only h hplaced hawake hs.left hs.inline (fun i hi => ⟨?_, rfl, ?_⟩) ?_
    · exact Function.update_of_ne hi _ _
    · rw [hbefore]
      exact iff_of_false nofun fun hrun => hi (Option.some.inj hrun).symm
    · show Line.Ok N b (results h) _ (inputs h) (Function.update s.lines h l h) (s.fn h) _
      rw [Function.update_self, hfn]
      exact (hl hline).congr (iff_of_true trivial rfl)

/-- The running coroutine goes on, on its thread. -/
theorem goOn (hs : Inv N b results sessions inputs s loc) {h : Coroutine} (hrun : s.running = some h)
    {l : Line σ}
    (hl : (s.lines h).Ok N b (results h) { conn := Backend.fresh .uv (sessions h) } (inputs h) none
        (s.running = some h) →
      l.Ok N b (results h) { conn := Backend.fresh .uv (sessions h) } (inputs h) none True) :
    Inv N b results sessions inputs (s.setLine h l) loc := by
  have hfn : s.fn h = none := hs.fn_running hrun
  have hline := hs.lines h
  rw [hfn] at hline
  refine hs.only h hs.placed hs.awake hs.left hs.inline (fun i hi => ⟨?_, rfl, Iff.rfl⟩) ?_
  · exact Function.update_of_ne hi _ _
  · show Line.Ok N b (results h) _ (inputs h) (Function.update s.lines h l h) (s.fn h) _
    rw [Function.update_self, hfn]
    exact (hl hline).congr (iff_of_true trivial hrun)

/-- The running coroutine suspends. -/
theorem suspend (hs : Inv N b results sessions inputs s loc) {h : Coroutine} (hrun : s.running = some h)
    {sched : Scheduler.State n} (hstep : Scheduler.step s.sched .suspend = some sched) {l : Line σ}
    (hl : (s.lines h).Ok N b (results h) { conn := Backend.fresh .uv (sessions h) } (inputs h) none
        (s.running = some h) →
      l.Ok N b (results h) { conn := Backend.fresh .uv (sessions h) } (inputs h) none False) :
    Inv N b results sessions inputs ({ s with sched }.setLine h l) loc := by
  have hfn : s.fn h = none := hs.fn_running hrun
  obtain ⟨m, hm, hplaced, hawake⟩ := hs.schedule hstep
  obtain ⟨rfl, ⟨caller, hio⟩, hawaits, hshifters⟩ : m = none ∧ (∃ caller, sched.io = Scheduler.Caller.back caller) ∧
      sched.awaits = s.sched.awaits ∧ sched.shifters = s.sched.shifters := by
    cases hm with
    | suspend hio => exact ⟨rfl, ⟨_, rfl⟩, rfl, rfl⟩
  have hafter : ({ s with sched }.setLine h l).running = none :=
    running_none hio (by cases caller <;> exact nofun)
  have hsame : ∀ i, ({ s with sched }.setLine h l).fn i = s.fn i := by
    intro i
    show (sched.awaits i).map s.jobs = _
    rw [hawaits]
    rfl
  have hline := hs.lines h
  rw [hfn] at hline
  refine hs.only h hplaced hawake hs.left ?_ (fun i hi => ⟨?_, hsame i, ?_⟩) ?_
  · exact fun hn => hshifters.trans (hs.inline hn)
  · exact Function.update_of_ne hi _ _
  · rw [hafter, hrun]
    exact iff_of_false (fun hrun' => hi (Option.some.inj hrun').symm) nofun
  · rw [hsame, hfn, hafter]
    show Line.Ok N b (results h) _ (inputs h) (Function.update s.lines h l h) none _
    rw [Function.update_self]
    exact (hl hline).congr (iff_of_false not_false nofun)

/-- The running coroutine gives a function to the scheduler. -/
theorem run (hs : Inv N b results sessions inputs s loc) {h : Coroutine} (hrun : s.running = some h)
    {sched : Scheduler.State n} (hstep : Scheduler.step s.sched .run = some sched) {x : UInt8}
    {bytes : Bytes} (hl : (s.lines h).point = .viewing (x :: bytes)) :
    ∃ loc', Inv N b results sessions inputs (({ s with sched }.setLine h
      { s.lines h with point := .working }).setJob ⟨h, s.sched.turns h⟩ (.read (x :: bytes))) loc' := by
  have hfn : s.fn h = none := hs.fn_running hrun
  obtain ⟨m, hm, hplaced, hawake⟩ := hs.schedule hstep
  obtain ⟨p, rfl, hp, hawaits, hio, hshifters⟩ : ∃ p : Place n, m = some (⟨h, s.sched.turns h⟩, p) ∧
      (p.rank = 1 ∨ p.rank = 2) ∧
      sched.awaits = Function.update s.sched.awaits h (some ⟨h, s.sched.turns h⟩) ∧
      (∀ i caller, sched.io ≠ .running i caller) ∧ (n = 0 → sched.shifters = s.sched.shifters) := by
    obtain ⟨caller, hcaller⟩ := running_eq_some.1 hrun
    cases hm with
    | queue hio hn =>
      cases hcaller.symm.trans hio
      refine ⟨.queued, rfl, Or.inl rfl, rfl, ?_, fun hn' => absurd hn' hn⟩
      cases caller <;> exact nofun
    | inline hio hn =>
      cases hcaller.symm.trans hio
      exact ⟨.running none, rfl, Or.inr rfl, rfl, nofun, fun _ => rfl⟩
  have hafter : (({ s with sched }.setLine h { s.lines h with point := .working }).setJob
      ⟨h, s.sched.turns h⟩ (.read (x :: bytes))).running = none := running_none rfl hio
  have hline := hs.lines h
  rw [hfn] at hline
  refine ⟨_, hs.only h hplaced hawake ?_ ?_ (fun i hi => ⟨?_, ?_, ?_⟩) ?_⟩
  · refine (hs.left.move (Or.inr hp)).setJob ?_
    rw [Function.update_self]
    exact hp
  · exact fun hn => (hshifters hn).trans (hs.inline hn)
  · exact Function.update_of_ne hi _ _
  · refine @fn_of_ne _ _ _ _ _ _ _ _ _ _ hs i ⟨h, s.sched.turns h⟩ hi _ ?_ rfl
    show sched.awaits i = _
    rw [hawaits, Function.update_of_ne hi]
  · rw [hafter, hrun]
    exact iff_of_false (fun hrun' => hi (Option.some.inj hrun').symm) nofun
  · have hfn' : (({ s with sched }.setLine h { s.lines h with point := .working }).setJob
        ⟨h, s.sched.turns h⟩ (.read (x :: bytes))).fn h = some (.read (x :: bytes)) := by
      show (sched.awaits h).map _ = _
      rw [hawaits, Function.update_self, Option.map_some]
      exact congrArg some (Function.update_self ..)
    rw [hfn', hafter]
    show Line.Ok N b (results h) _ (inputs h) (Function.update s.lines h _ h) _ _
    rw [Function.update_self]
    exact (hline.run hl).congr (iff_of_false not_false nofun)

/-- A thread does one part of the function it executes. -/
theorem does (hs : Inv N b results sessions inputs s loc) {v : Option (Fin n)} {t : Task}
    (hv : s.executes v = some t) {w : Serving (Conn σ)} {job : Job}
    (hl : ∀ runs, (s.lines t.coro).Ok N b (results t.coro) { conn := Backend.fresh .uv (sessions t.coro) }
        (inputs t.coro) (some (s.jobs t)) runs →
      Line.Ok N b (results t.coro) { conn := Backend.fresh .uv (sessions t.coro) } (inputs t.coro)
        { s.lines t.coro with serving := w } (some job) runs) :
    Inv N b results sessions inputs ((s.setLine t.coro { s.lines t.coro with serving := w }).setJob t job)
      loc := by
  obtain ⟨hloc, hfn⟩ := hs.executes hv
  have hline := hs.lines t.coro
  rw [hfn] at hline
  have hawaits : s.sched.awaits t.coro = some t := by
    apply hs.placed.awaited
    rw [hloc]
    exact ⟨nofun, nofun⟩
  refine hs.only t.coro hs.placed hs.awake ?_ hs.inline (fun i hi => ⟨?_, ?_, Iff.rfl⟩) ?_
  · refine hs.left.setJob (Or.inr ?_)
    rw [hloc]
    rfl
  · exact Function.update_of_ne hi _ _
  · exact hs.fn_of_ne hi rfl rfl
  · have hfn' : ((s.setLine t.coro { s.lines t.coro with serving := w }).setJob t job).fn t.coro =
        some job := by
      show (s.sched.awaits t.coro).map _ = _
      rw [hawaits, Option.map_some]
      exact congrArg some (Function.update_self ..)
    rw [hfn']
    show Line.Ok N b (results t.coro) _ (inputs t.coro) (Function.update s.lines t.coro _ t.coro) _ _
    rw [Function.update_self]
    exact hl _ hline

theorem work (hs : Inv N b results sessions inputs s loc) {v : Option (Fin n)} {t : Task}
    (hv : s.executes v = some t) (h : s.work N b t = some s') :
    Inv N b results sessions inputs s' loc := by
  unfold State.work at h
  dsimp only at h
  split at h
  · rename_i job w hwork
    cases h
    exact hs.does hv fun runs hl => hl.work hwork
  · rename_i e w hwork
    split at h
    · rename_i he
      cases h
      exact hs.does hv fun runs hl => hl.throw hwork he
    · cases h

/-- The scheduler moves a function on, and no coroutine. -/
theorem moves (hs : Inv N b results sessions inputs s loc) {sched : Scheduler.State n}
    {loc' : Task → Place n} (hplaced : Placed sched loc') (hawake : Awake sched) (hleft : Left s.jobs loc')
    (hinline : n = 0 → sched.shifters = []) (hawaits : sched.awaits = s.sched.awaits)
    (hruns : State.running { s with sched } = s.running) :
    Inv N b results sessions inputs { s with sched } loc' := by
  refine ⟨hplaced, hawake, hleft, hinline, fun h => ?_⟩
  have hfn : State.fn { s with sched } h = s.fn h := by
    show (sched.awaits h).map s.jobs = _
    rw [hawaits]
    rfl
  rw [hfn, hruns]
  exact hs.lines h

/-- A function that has nothing left to do returns. -/
theorem ret (hs : Inv N b results sessions inputs s loc) {v : Option (Fin n)} {t : Task}
    (hv : s.executes v = some t) (ht : s.jobs t = .answer []) {sched : Scheduler.State n}
    (hstep : Scheduler.step s.sched (returns v) = some sched) :
    ∃ loc', Inv N b results sessions inputs { s with sched } loc' := by
  obtain ⟨m, hm, hplaced, hawake⟩ := hs.schedule hstep
  cases v with
  | some w =>
    have hw := executes_worker.1 hv
    cases hm with
    | ret hw' =>
      cases hw.symm.trans hw'
      exact ⟨_, hs.moves hplaced hawake (hs.left.move (Or.inl ht)) hs.inline rfl rfl⟩
  | none =>
    obtain ⟨caller, hio⟩ := executes_inline.1 hv
    cases hm with
    | retInline hio' =>
      cases hio.symm.trans hio'
      exact ⟨_, hs.moves hplaced hawake (hs.left.move (Or.inl ht)) hs.inline rfl (running_kept hio nofun rfl)⟩

/-- The coroutine goes on after its function has returned. -/
theorem destroy (hs : Inv N b results sessions inputs s loc) {h : Coroutine} (hres : s.resumed = some h)
    {sched : Scheduler.State n} (hstep : Scheduler.step s.sched .destroy = some sched) :
    ∃ loc', Inv N b results sessions inputs
      ({ s with sched }.setLine h { s.lines h with point := .flushing }) loc' := by
  obtain ⟨caller, hio⟩ := resumed_eq_some.1 hres
  obtain ⟨m, hm, hplaced, hawake⟩ := hs.schedule hstep
  cases hm with
  | @destroy _ _ t hio' ht =>
    cases hio.symm.trans hio'
    have hloc := hs.placed.resumed hio ht
    have hnone : s.jobs t = .answer [] := by
      apply hs.left.returned
      rw [hloc]
      show 2 < 5
      omega
    have hfn : s.fn h = some (.answer []) := by
      unfold State.fn
      rw [ht, Option.map_some, hnone]
    have hline := hs.lines h
    rw [hfn] at hline
    refine ⟨_, hs.only h hplaced hawake (hs.left.move (Or.inl hnone)) hs.inline (fun i hi => ⟨?_, ?_, ?_⟩) ?_⟩
    · exact Function.update_of_ne hi _ _
    · show (Function.update s.sched.awaits h none i).map s.jobs = _
      rw [Function.update_of_ne hi]
      rfl
    · rw [running_none hio nofun]
      exact iff_of_false nofun fun hrun => hi (Option.some.inj hrun).symm
    · show Line.Ok N b (results h) _ (inputs h) (Function.update s.lines h _ h)
        ((Function.update s.sched.awaits h none h).map s.jobs) _
      rw [Function.update_self, Function.update_self, Option.map_none]
      exact hline.destroy.congr (iff_of_true trivial rfl)

/-- The threads that have no coroutine and no function in their hands. -/
theorem pass (hs : Inv N b results sessions inputs s loc) {a : Scheduler.Action n} (ha : passes a = true)
    {sched : Scheduler.State n} (hstep : Scheduler.step s.sched a = some sched) :
    ∃ loc', Inv N b results sessions inputs { s with sched } loc' := by
  obtain ⟨m, hm, hplaced, hawake⟩ := hs.schedule hstep
  cases hm with
  | read | queue | inline | suspend | ret | destroy | retInline => cases ha
  | @take w t shifters hw hq =>
    refine ⟨_, hs.moves hplaced hawake (hs.left.move (Or.inr (Or.inr rfl))) (fun hn => ?_) rfl rfl⟩
    have hlt := w.isLt
    omega
  | @push w t hw =>
    have hnone : s.jobs t = .answer [] := by
      apply hs.left.returned
      rw [hs.placed.returned hw]
      exact Nat.lt_add_one 2
    exact ⟨_, hs.moves hplaced hawake (hs.left.move (Or.inl hnone)) hs.inline rfl rfl⟩
  | send hw => exact ⟨_, hs.moves hplaced hawake hs.left hs.inline rfl rfl⟩
  | leave hw => exact ⟨_, hs.moves hplaced hawake hs.left hs.inline rfl rfl⟩
  | wake hio _ =>
    exact ⟨_, hs.moves hplaced hawake hs.left hs.inline rfl (running_kept hio nofun rfl)⟩
  | drained hio _ =>
    exact ⟨_, hs.moves hplaced hawake hs.left hs.inline rfl (running_kept hio nofun rfl)⟩
  | more hio _ =>
    exact ⟨_, hs.moves hplaced hawake hs.left hs.inline rfl (running_kept hio nofun rfl)⟩
  | pop hio _ =>
    exact ⟨_, hs.moves hplaced hawake hs.left hs.inline rfl (running_kept hio nofun rfl)⟩
  | @resume h t hio ht =>
    have hnone : s.jobs t = .answer [] := by
      apply hs.left.returned
      rw [hs.placed.popped hio ht]
      show 2 < 4
      omega
    exact ⟨_, hs.moves hplaced hawake (hs.left.move (Or.inl hnone)) hs.inline rfl (running_kept hio nofun rfl)⟩
  | @transfer t caller hio _ =>
    have hnone : s.jobs t = .answer [] := by
      apply hs.left.returned
      rw [hs.placed.returnedInline hio]
      exact Nat.lt_add_one 2
    exact ⟨_, hs.moves hplaced hawake (hs.left.move (Or.inl hnone)) hs.inline rfl (running_kept hio nofun rfl)⟩

/-- **Every step of any thread keeps what holds of the connections.** -/
theorem step {a : Action n} (hs : Inv N b results sessions inputs s loc)
    (h : System.step N b results s a = some s') : ∃ loc', Inv N b results sessions inputs s' loc' := by
  cases a with
  | read h' =>
    simp only [System.step] at h
    split at h
    · rename_i i rest hpoint hinputs
      obtain ⟨_, hsched, rfl⟩ := Option.map_eq_some_iff.1 h
      obtain ⟨sched, hstep, rfl⟩ := schedule_eq_some.1 hsched
      exact ⟨loc, hs.call hstep fun hl => hl.take hpoint hinputs⟩
    · cases h
  | skip =>
    obtain ⟨h', hrun, h⟩ := Option.bind_eq_some_iff.1 h
    split at h
    · rename_i hpoint
      cases h
      exact ⟨loc, hs.goOn hrun fun hl => (hl.skip hpoint).congr (iff_of_true hrun trivial)⟩
    · cases h
  | suspend =>
    obtain ⟨h', hrun, h⟩ := Option.bind_eq_some_iff.1 h
    split at h
    · rename_i hpoint
      obtain ⟨sched, hstep, rfl⟩ := schedule_eq_some.1 h
      have hline := hs.suspend hrun hstep fun hl => hl.suspend hpoint False
      have hsame : ({ s with sched }.setLine h' (s.lines h')) = { s with sched } := by
        unfold State.setLine
        rw [Function.update_eq_self]
      rw [hsame] at hline
      exact ⟨loc, hline⟩
    · cases h
  | run =>
    obtain ⟨h', hrun, h⟩ := Option.bind_eq_some_iff.1 h
    split at h
    · rename_i x bytes hpoint
      obtain ⟨_, hsched, rfl⟩ := Option.map_eq_some_iff.1 h
      obtain ⟨sched, hstep, rfl⟩ := schedule_eq_some.1 hsched
      exact hs.run hrun hstep hpoint
    · cases h
  | work v =>
    obtain ⟨t, hv, h⟩ := Option.bind_eq_some_iff.1 h
    split at h
    · cases h
    · exact ⟨loc, hs.work hv h⟩
  | ret v =>
    obtain ⟨t, hv, h⟩ := Option.bind_eq_some_iff.1 h
    split at h
    · rename_i ht
      obtain ⟨sched, hstep, rfl⟩ := schedule_eq_some.1 h
      exact hs.ret hv ht hstep
    · cases h
  | destroy =>
    obtain ⟨h', hres, h⟩ := Option.bind_eq_some_iff.1 h
    obtain ⟨_, hsched, rfl⟩ := Option.map_eq_some_iff.1 h
    obtain ⟨sched, hstep, rfl⟩ := schedule_eq_some.1 hsched
    exact hs.destroy hres hstep
  | flush =>
    obtain ⟨h', hrun, h⟩ := Option.bind_eq_some_iff.1 h
    split at h
    · rename_i hpoint
      obtain ⟨l, hflush, h⟩ := Option.bind_eq_some_iff.1 h
      split at h
      · rename_i hreading
        cases h
        exact ⟨loc, hs.goOn hrun fun hl => (hl.flush hpoint hflush).congr (iff_of_true hreading trivial)⟩
      · rename_i hwriting
        obtain ⟨_, hsched, rfl⟩ := Option.map_eq_some_iff.1 h
        obtain ⟨sched, hstep, rfl⟩ := schedule_eq_some.1 hsched
        exact ⟨loc, hs.suspend hrun hstep fun hl =>
          (hl.flush hpoint hflush).congr (iff_of_false hwriting not_false)⟩
    · cases h
  | written h' =>
    simp only [System.step] at h
    split at h
    · rename_i r hpoint
      obtain ⟨_, hsched, rfl⟩ := Option.map_eq_some_iff.1 h
      obtain ⟨sched, hstep, rfl⟩ := schedule_eq_some.1 hsched
      exact ⟨loc, hs.call hstep fun hl => hl.written hpoint⟩
    · cases h
  | pass a =>
    simp only [System.step] at h
    split at h
    · rename_i ha
      obtain ⟨sched, hstep, rfl⟩ := schedule_eq_some.1 h
      exact hs.pass ha hstep
    · cases h

end Inv

/-! ## Runs -/

theorem inv_start : ∃ loc, Inv N b results sessions inputs (start sessions inputs : State σ n) loc := by
  obtain ⟨loc, hplaced, -, hawake⟩ := @Scheduler.inv_start n
  refine ⟨loc, hplaced, hawake, fun t ht => absurd rfl ht, fun _ => rfl, fun h => ?_⟩
  refine ⟨rfl, fun _ i hi => ?_, iff_of_false nofun nofun, trivial, rfl⟩
  cases hi

theorem inv_reached {as : List (Action n)}
    (hrun : Run.runFrom (step N b results) (start sessions inputs) as = some s) :
    ∃ loc, Inv N b results sessions inputs s loc :=
  Run.inv_run (I := fun s => ∃ loc, Inv N b results sessions inputs s loc)
    (fun _ _ _ ⟨_, hs⟩ h => hs.step h) inv_start hrun

/-- **No two threads are at work on one connection**: one function of its coroutine at most is
executed, by one thread, and meanwhile the coroutine runs nowhere: not on the I/O thread, there in its
loop or past the function, and not on a worker. -/
theorem exclusive {as : List (Action n)}
    (hrun : Run.runFrom (step N b results) (start sessions inputs) as = some s) {v v' : Option (Fin n)}
    {t t' : Task} (hv : s.executes v = some t) (hv' : s.executes v' = some t') (hcoro : t.coro = t'.coro) :
    v = v' ∧ t = t' ∧ s.running ≠ some t.coro ∧ s.resumed ≠ some t.coro ∧
      ∀ w, s.sched.workers w ≠ .stray t.coro := by
  obtain ⟨loc, hs⟩ := @inv_reached _ _ N b results sessions inputs _ _ hrun
  obtain ⟨hloc, hfn⟩ := hs.executes hv
  obtain ⟨hloc', -⟩ := hs.executes hv'
  have hactive : ∀ {u : Option (Fin n)}, (Place.running u).active := fun {_} => ⟨nofun, nofun⟩
  have hawaits : s.sched.awaits t.coro = some t := hs.placed.awaited (by rw [hloc]; exact hactive)
  have hawaits' : s.sched.awaits t'.coro = some t' := hs.placed.awaited (by rw [hloc']; exact hactive)
  have hsame : t = t' := by
    rw [hcoro, hawaits'] at hawaits
    exact (Option.some.inj hawaits).symm
  subst hsame
  refine ⟨?_, rfl, fun hruns => ?_, fun hresumed => ?_, fun w => hs.placed.ours w t.coro⟩
  · rw [hloc] at hloc'
    cases hloc'
    rfl
  · rw [hs.fn_running hruns] at hfn
    cases hfn
  · -- the task of a resumed coroutine is past its function
    obtain ⟨caller, hio⟩ := resumed_eq_some.1 hresumed
    rw [hs.placed.resumed hio hawaits] at hloc
    cases hloc

/-- A worker executes the function of the first connection, and a read of the second ends. -/
def oneWorks : List (Action 1) := [.read 0, .run, .pass (.take (Fin.last 0)), .read 1]

theorem exclusive_one : ∃ s : State Mini 1,
    Run.runFrom (step (Mini.nghttp2 bothMethods) twoMethods fun _ _ => .completed)
      (start (fun _ => {}) fun _ => [.bytes [0x00]]) oneWorks = some s ∧
    s.running ≠ some 0 ∧ s.resumed ≠ some 0 ∧ ∀ w, s.sched.workers w ≠ .stray 0 := by
  have hv : ((Run.runFrom (step (Mini.nghttp2 bothMethods) twoMethods fun _ _ => .completed)
      (start (fun _ => {}) fun _ => [.bytes [0x00]]) oneWorks).map fun s => s.executes (some (Fin.last 0))) =
      some (some ⟨0, 0⟩) := by decide +kernel
  obtain ⟨s, hs, hv⟩ := Option.map_eq_some_iff.1 hv
  exact ⟨s, hs, (exclusive hs hv hv rfl).2.2⟩

/-- **Between two turns, a connection is where it would be if it were served alone.** -/
theorem served_alone {as : List (Action n)}
    (hrun : Run.runFrom (step N b results) (start sessions inputs) as = some s) (h : Coroutine)
    (hrest : (s.lines h).point = .reading ∨ (s.lines h).point = .ended) :
    (s.lines h).taken ++ (s.lines h).inputs = inputs h ∧
      serve N b (results h) (s.lines h).taken { conn := Backend.fresh .uv (sessions h) } =
        .ok () (s.lines h).serving := by
  obtain ⟨loc, hs⟩ := inv_reached hrun
  exact ⟨(hs.lines h).order, (hs.lines h).at_rest hrest⟩

/-- The worker answers the first connection's two requests, and the coroutine gives the responses to
libuv. -/
def oneFlush : List (Action 1) :=
  let w := Fin.last 0
  [.read 0, .run, .pass (.take w), .work (some w), .work (some w), .work (some w), .work (some w),
    .work (some w), .ret (some w), .pass (.complete w), .pass (.send w), .pass .wake, .pass .test,
    .pass .pop, .pass .resume, .destroy, .flush]

theorem served_alone_one : ∃ s : State Mini 1,
    Run.runFrom (step (Mini.nghttp2 bothMethods) twoMethods fun _ _ => .completed)
      (start (fun _ => {}) fun _ => [.bytes [0x00]]) (oneFlush ++ [.pass .test, .written 0]) = some s ∧
    serve (Mini.nghttp2 bothMethods) twoMethods (fun _ => .completed) (s.lines 0).taken
      { conn := Backend.fresh .uv {} } = .ok () (s.lines 0).serving := by
  have hpoint : ((Run.runFrom (step (Mini.nghttp2 bothMethods) twoMethods fun _ _ => .completed)
      (start (fun _ => {}) fun _ => [.bytes [0x00]]) (oneFlush ++ [.pass .test, .written 0])).map
        fun s => (s.lines 0).point) = some .reading := by decide +kernel
  obtain ⟨s, hs, hpoint⟩ := Option.map_eq_some_iff.1 hpoint
  exact ⟨s, hs, (served_alone hs 0 (Or.inl hpoint)).2⟩

/-! ## Until nothing is left to do -/

/-- No thread can take a step. -/
def Stuck (N : Nghttp2 σ) (b : ServerBase) (results : Coroutine → ℕ → WriteResult) (s : State σ n) : Prop :=
  ∀ a, step N b results s a = none

theorem Stuck.schedule (h : Stuck N b results s) {a : Scheduler.Action n} (ha : passes a = true) :
    Scheduler.step s.sched a = none := by
  have hnone := h (.pass a)
  simp only [step, ha, if_true, State.schedule, Option.map_eq_none_iff] at hnone
  exact hnone

namespace Inv

/-- A thread that executes a function can go on with it, unless that ends the process. -/
theorem executes_none (hs : Inv N b results sessions inputs s loc) (hstuck : Stuck N b results s)
    (hlive : ∀ h, ∃ w, serve N b (results h) (s.lines h).taken { conn := Backend.fresh .uv (sessions h) } =
      .ok () w) (v : Option (Fin n)) : s.executes v = none := by
  by_contra hne
  obtain ⟨t, hv⟩ := Option.ne_none_iff_exists'.1 hne
  by_cases ht : s.jobs t = .answer []
  · -- it returns
    have hret := hstuck (.ret v)
    simp only [System.step, hv, Option.bind_some, ht, if_true, State.schedule, Option.map_eq_none_iff] at hret
    cases v with
    | some w =>
      have hw := executes_worker.1 hv
      simp only [returns, Scheduler.step, hw] at hret
      cases hret
    | none =>
      obtain ⟨caller, hio⟩ := executes_inline.1 hv
      simp only [returns, Scheduler.step, hio] at hret
      cases hret
  · have hwork := hstuck (.work v)
    simp only [System.step, hv, Option.bind_some, ht, if_false] at hwork
    have hfn := (hs.executes hv).2
    have hline := hs.lines t.coro
    rw [hfn] at hline
    unfold State.work at hwork
    dsimp only at hwork
    split at hwork
    · cases hwork
    · rename_i e w hfail
      split at hwork
      · cases hwork
      · rename_i he
        -- the connection served alone would end the process too
        obtain ⟨w', hserve⟩ := hlive t.coro
        have hturn := hline.turn
        rw [Option.getD_some, rest_terminate hline.point_working hfail he, hserve] at hturn
        cases hturn

/-- A coroutine that runs can go on. -/
theorem running_none_of_stuck (hs : Inv N b results sessions inputs s loc) (hstuck : Stuck N b results s)
    (hlive : ∀ h, ∃ w, serve N b (results h) (s.lines h).taken { conn := Backend.fresh .uv (sessions h) } =
      .ok () w) : s.running = none := by
  by_contra hne
  obtain ⟨h, hrun⟩ := Option.ne_none_iff_exists'.1 hne
  obtain ⟨caller, hio⟩ := running_eq_some.1 hrun
  have hsuspend : Scheduler.step s.sched .suspend ≠ none := by
    simp only [Scheduler.step, hio]
    exact Option.some_ne_none _
  have hline := hs.lines h
  have hseat := hline.seat
  have hnosuspend : ¬ ((s.lines h).point = .reading ∨ (s.lines h).point = .ended) := by
    intro hpoint
    have hnone := hstuck .suspend
    simp only [System.step, hrun, Option.bind_some, if_pos hpoint, State.schedule,
      Option.map_eq_none_iff] at hnone
    exact hsuspend hnone
  cases hpoint : (s.lines h).point with
  | reading => exact hnosuspend (Or.inl hpoint)
  | ended => exact hnosuspend (Or.inr hpoint)
  | working =>
    rw [hpoint] at hseat
    exact hseat hrun
  | writing r =>
    rw [hpoint] at hseat
    exact hseat hrun
  | viewing bytes =>
    cases bytes with
    | nil =>
      have hnone := hstuck .skip
      simp only [System.step, hrun, Option.bind_some, hpoint, if_true] at hnone
      cases hnone
    | cons x bytes =>
      have hnone := hstuck .run
      simp only [System.step, hrun, Option.bind_some, hpoint, State.schedule, Option.map_eq_none_iff,
        Scheduler.step, hio] at hnone
      cases hnone
  | flushing =>
    have hnone := hstuck .flush
    simp only [System.step, hrun, Option.bind_some, hpoint, if_true] at hnone
    cases hflush : (s.lines h).flush (results h) with
    | none =>
      -- the connection served alone would end the process too
      obtain ⟨w', hserve⟩ := hlive h
      obtain ⟨e, w, hfails⟩ := Line.flush_none hflush
      have hturn := hline.turn
      rw [rest_flushing hpoint, hfails, hserve] at hturn
      cases hturn
    | some l =>
      rw [hflush, Option.bind_some] at hnone
      split at hnone
      · cases hnone
      · simp only [State.schedule, Option.map_eq_none_iff] at hnone
        exact hsuspend hnone

/-- The I/O thread can go on, outside the event loop. -/
theorem polling_of_stuck (hs : Inv N b results sessions inputs s loc) (hstuck : Stuck N b results s)
    (hidle : ∀ v, s.executes v = none) (hrunning : s.running = none) : s.sched.io = .polling := by
  by_contra hne
  obtain ⟨a, ha, hstep⟩ := Scheduler.io_steps hs.placed hne
  obtain ⟨sched, hsched⟩ := Option.isSome_iff_exists.1 hstep
  have hpass : ∀ a', passes a' = true → a ≠ a' := by
    rintro a' ha' rfl
    rw [hstuck.schedule ha'] at hsched
    cases hsched
  obtain ⟨m, hm, -, -⟩ := hs.schedule hsched
  cases hm with
  | queue hio _ | inline hio _ =>
    rw [running_eq_some.2 ⟨_, hio⟩] at hrunning
    cases hrunning
  | retInline hio =>
    have hv := hidle none
    rw [executes_inline.2 ⟨_, hio⟩] at hv
    cases hv
  | destroy hio ht =>
    have hnone := hstuck .destroy
    simp only [System.step, resumed_eq_some.2 ⟨_, hio⟩, Option.bind_some, State.schedule, hsched,
      Option.map_some] at hnone
    cases hnone
  | drained | more => exact hpass .test rfl rfl
  | pop => exact hpass .pop rfl rfl
  | resume => exact hpass .resume rfl rfl
  | transfer => exact hpass .completeInline rfl rfl
  | read | suspend | take | ret | push | send | leave | wake => simp at ha

/-- So can a worker that has a task. -/
theorem waiting_of_stuck (hs : Inv N b results sessions inputs s loc) (hstuck : Stuck N b results s)
    (hidle : ∀ v, s.executes v = none) (w : Fin n) : s.sched.workers w = .waiting := by
  by_contra hne
  obtain ⟨a, ha, hstep⟩ := Scheduler.worker_steps hs.placed hne
  obtain ⟨sched, hsched⟩ := Option.isSome_iff_exists.1 hstep
  have hpass : ∀ a', passes a' = true → a ≠ a' := by
    rintro a' ha' rfl
    rw [hstuck.schedule ha'] at hsched
    cases hsched
  simp only [List.mem_cons, List.not_mem_nil, or_false] at ha
  rcases ha with rfl | rfl | rfl | rfl
  · have hv := hidle (some w)
    obtain ⟨m, hm, -, -⟩ := hs.schedule hsched
    cases hm with
    | ret hw =>
      rw [executes_worker.2 hw] at hv
      cases hv
  · exact hpass (.complete w) rfl rfl
  · exact hpass (.send w) rfl rfl
  · exact hpass (.leave w) rfl rfl

/-- And the queues are empty: no coroutine awaits a function. -/
theorem awaits_of_stuck (hs : Inv N b results sessions inputs s loc) (hstuck : Stuck N b results s)
    (hidle : ∀ v, s.executes v = none) (hrunning : s.running = none) (h : Coroutine) :
    s.sched.awaits h = none := by
  have hio := hs.polling_of_stuck hstuck hidle hrunning
  have hworkers := hs.waiting_of_stuck hstuck hidle
  have hshifters : s.sched.shifters = [] := by
    by_contra hne
    obtain ⟨t, shifters, hq⟩ := List.exists_cons_of_ne_nil hne
    have hn : n ≠ 0 := fun hn => hne (hs.inline hn)
    have hstep := hstuck.schedule (a := .take ⟨0, Nat.pos_of_ne_zero hn⟩) rfl
    simp only [Scheduler.step, hworkers, hq] at hstep
    cases hstep
  have hjoiners : s.sched.joiners = [] := by
    by_contra hne
    obtain ⟨i, joiners, hj⟩ := List.exists_cons_of_ne_nil hne
    have hi : i ∈ s.sched.joiners := by
      rw [hj]
      exact List.mem_cons_self
    rcases hs.awake i hi with hin | hasync | ⟨w, t, hpushed, -⟩
    · rw [hio] at hin
      exact hin
    · have hstep := hstuck.schedule (a := .wake) rfl
      simp only [Scheduler.step, hio, hasync, and_self, if_true] at hstep
      cases hstep
    · rw [hworkers w] at hpushed
      cases hpushed
  by_contra hne
  obtain ⟨t, ht⟩ := Option.ne_none_iff_exists'.1 hne
  have hactive := ((hs.placed.book.awaits h t).1 ht).2
  have hmem := ((hs.placed.contents (loc t) hactive).mem_iff t).2 rfl
  have hempty : s.sched.contents (loc t) = [] := by
    cases loc t with
    | outside | done => rfl
    | queued => exact hshifters
    | running v =>
      cases v with
      | none => simp [Scheduler.State.contents, hio, Scheduler.Io.runs]
      | some w => simp [Scheduler.State.contents, hworkers w, Scheduler.Worker.runs]
    | returned v =>
      cases v with
      | none => simp [Scheduler.State.contents, hio, Scheduler.Io.ended]
      | some w => simp [Scheduler.State.contents, hworkers w, Scheduler.Worker.ended]
    | joining => simp [Scheduler.State.contents, hio, hjoiners, Scheduler.Io.took]
    | resumed => simp [Scheduler.State.contents, hio, Scheduler.Io.woken]
  rw [hempty] at hmem
  cases hmem

end Inv

/-- **Everything is served.** When no thread can take a step, and no handler is going to end the
process, each connection has taken in all of its inputs, or those up to its end, and is between two turns. -/
theorem all_served {as : List (Action n)}
    (hrun : Run.runFrom (step N b results) (start sessions inputs) as = some s)
    (hlive : ∀ h, ∃ w, serve N b (results h) (s.lines h).taken { conn := Backend.fresh .uv (sessions h) } =
      .ok () w) (hstuck : Stuck N b results s) (h : Coroutine) :
    (s.lines h).point = .reading ∧ (s.lines h).inputs = [] ∨ (s.lines h).point = .ended := by
  obtain ⟨loc, hs⟩ := inv_reached hrun
  have hidle := hs.executes_none hstuck hlive
  have hrunning := hs.running_none_of_stuck hstuck hlive
  have hio := hs.polling_of_stuck hstuck hidle hrunning
  have hawaits := hs.awaits_of_stuck hstuck hidle hrunning h
  have hread : Scheduler.step s.sched (.read h) ≠ none := by
    simp only [Scheduler.step, hio, hawaits, and_self, if_true]
    exact Option.some_ne_none _
  have hline := hs.lines h
  have hseat := hline.seat
  rw [hrunning] at hseat
  cases hpoint : (s.lines h).point with
  | ended => exact Or.inr rfl
  | reading =>
    cases hinputs : (s.lines h).inputs with
    | nil => exact Or.inl ⟨rfl, rfl⟩
    | cons i rest =>
      have hnone := hstuck (.read h)
      simp only [step, hpoint, hinputs, State.schedule, Option.map_eq_none_iff] at hnone
      exact absurd hnone hread
  | writing r =>
    have hnone := hstuck (.written h)
    simp only [step, hpoint, State.schedule, Option.map_eq_none_iff] at hnone
    exact absurd hnone hread
  | working =>
    have hfn := hline.working.1 hpoint
    rw [State.fn, hawaits] at hfn
    cases hfn
  | viewing bytes | flushing =>
    rw [hpoint] at hseat
    cases hseat

end Grpcxx.Uv.System
