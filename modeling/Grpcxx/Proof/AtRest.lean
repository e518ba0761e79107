import Grpcxx.Lib.Halting
import Grpcxx.Proof.Interleaving
import Mathlib.Data.Fintype.Basic
import Mathlib.Data.Prod.Lex

/-!
# The uv server comes to rest

However the threads take their steps, they run out of steps when no more input comes, and then
every connection is where a coroutine that serves it alone would leave it.

* `step_moves`: what a step of the system can do.
* `Scheduler.Step.cost`: what a step of the scheduler uses up.
* `Moves.spends`: each step uses up something of one connection.
* `comes_to_rest`: so all runs end, with every connection served.
* `write_undisturbed`: nothing touches a connection while libuv has its buffer.
-/

namespace Grpcxx.Uv

/-! ## What the scheduler's steps use up -/

namespace Scheduler

variable {n : ℕ} {s s' : State n} {a : Action n} {m : Option (Task × Place n)}

def Caller.cost : Caller → ℕ
  | loop => 0
  | join => 2

/-- A bound on the steps of the I/O thread until it polls, but for what the coroutine does that
it runs. -/
def Io.cost : Io → ℕ
  | polling => 0
  | joining => 2
  | popping => 1
  | popped _ => 7
  | resumed _ caller => caller.cost + 4
  | running _ caller => caller.cost + 1
  | inline _ caller => caller.cost + 6
  | returned _ caller => caller.cost + 5

def Worker.cost : Worker → ℕ
  | waiting | stray _ => 0
  | running _ => 14
  | returned _ => 13
  | pushed _ => 5
  | sent _ => 1

/-- A bound on the steps that follow from what the state holds. -/
def State.cost (s : State n) : ℕ :=
  s.io.cost + ∑ w, (s.workers w).cost + 15 * s.shifters.length + 7 * s.joiners.length +
    3 * s.async.toNat

/-- What a coroutine or the event loop puts in with the step. -/
def Action.takes : Action n → ℕ
  | read _ => 2
  | run => 15
  | _ => 0

/-- What the step leaves to the coroutine. -/
def Action.gives : Action n → ℕ
  | destroy => 2
  | _ => 0

theorem Io.cost_back (caller : Caller) : caller.back.cost = caller.cost := by
  cases caller <;> rfl

/-- One worker goes on. -/
theorem cost_setWorker (s : State n) (w : Fin n) (x : Worker) :
    ∑ i, ((s.setWorker w x).workers i).cost + (s.workers w).cost = ∑ i, (s.workers i).cost + x.cost := by
  have hchange := Run.sum_change (f := fun i => (s.workers i).cost)
    (g := fun i => ((s.setWorker w x).workers i).cost) (Finset.mem_univ w) fun i hi => by
      show (Function.update s.workers w x i).cost = _
      rw [Function.update_of_ne hi]
  have hself : (s.setWorker w x).workers w = x := Function.update_self ..
  simp only [hself] at hchange
  exact hchange

/-- **Each step uses up something.** -/
theorem Step.cost (h : Step s a m s') : s'.cost + a.gives < s.cost + a.takes := by
  cases h with
  | read hio _ =>
    simp only [State.cost, hio, Io.cost, Caller.cost, Action.gives, Action.takes]
    omega
  | @queue h caller hio _ =>
    have hrunning : s.io.cost = caller.cost + 1 := by rw [hio, Io.cost]
    simp only [State.cost, hrunning, Io.cost_back, Action.gives, Action.takes, List.length_append,
      List.length_singleton]
    omega
  | inline hio _ =>
    simp only [State.cost, hio, Io.cost, Action.gives, Action.takes]
    omega
  | @suspend h caller hio =>
    have hrunning : s.io.cost = caller.cost + 1 := by rw [hio, Io.cost]
    simp only [State.cost, hrunning, Io.cost_back, Action.gives, Action.takes]
    omega
  | @take w t shifters hw hq =>
    have hworkers := cost_setWorker s w (.running t)
    rw [hw] at hworkers
    simp only [State.cost, hq, Worker.cost, Action.gives, Action.takes, List.length_cons,
      State.setWorker] at hworkers ⊢
    omega
  | @ret w t hw =>
    have hworkers := cost_setWorker s w (.returned t)
    rw [hw] at hworkers
    simp only [State.cost, Worker.cost, Action.gives, Action.takes, State.setWorker] at hworkers ⊢
    omega
  | @push w t hw =>
    have hworkers := cost_setWorker s w (.pushed t)
    rw [hw] at hworkers
    simp only [State.cost, Worker.cost, Action.gives, Action.takes, State.setWorker, List.length_append,
      List.length_singleton] at hworkers ⊢
    omega
  | @send w t hw =>
    have hworkers := cost_setWorker s w (.sent t)
    rw [hw] at hworkers
    simp only [State.cost, Worker.cost, Action.gives, Action.takes, State.setWorker, Bool.toNat_true] at hworkers ⊢
    omega
  | @leave w t hw =>
    have hworkers := cost_setWorker s w .waiting
    rw [hw] at hworkers
    simp only [State.cost, Worker.cost, Action.gives, Action.takes, State.setWorker] at hworkers ⊢
    omega
  | wake hio hasync =>
    simp only [State.cost, hio, hasync, Io.cost, Action.gives, Action.takes, Bool.toNat_true,
      Bool.toNat_false]
    omega
  | drained hio _ | more hio _ =>
    simp only [State.cost, hio, Io.cost, Action.gives, Action.takes]
    omega
  | pop hio hj =>
    simp only [State.cost, hio, hj, Io.cost, Action.gives, Action.takes, List.length_cons]
    omega
  | resume hio _ | destroy hio _ =>
    simp only [State.cost, hio, Io.cost, Caller.cost, Action.gives, Action.takes]
    omega
  | retInline hio | transfer hio _ =>
    simp only [State.cost, hio, Io.cost, Action.gives, Action.takes]
    omega

end Scheduler

namespace System

open Scheduler (Coroutine Task Place Placed Awake moved)

variable {σ : Type} {n : ℕ} {N : Nghttp2 σ} {b : ServerBase} {results : Coroutine → ℕ → WriteResult}
  {sessions : Coroutine → σ} {inputs : Coroutine → List Input} {s s' : State σ n} {loc : Task → Place n}

/-! ## What a step can do -/

/-- The steps that happen. -/
inductive Moves (N : Nghttp2 σ) (b : ServerBase) (results : Coroutine → ℕ → WriteResult) (s : State σ n) :
    Action n → State σ n → Prop
  | read {h : Coroutine} {i : Input} {inputs : List Input} {sched : Scheduler.State n}
      (hpoint : (s.lines h).point = .reading) (hinputs : (s.lines h).inputs = i :: inputs)
      (hsched : Scheduler.step s.sched (.read h) = some sched) :
      Moves N b results s (.read h) ({ s with sched }.setLine h ((s.lines h).take i inputs))
  | skip {h : Coroutine} (hrun : s.running = some h) (hpoint : (s.lines h).point = .viewing []) :
      Moves N b results s .skip (s.setLine h { s.lines h with point := .reading })
  | suspend {h : Coroutine} {sched : Scheduler.State n} (hrun : s.running = some h)
      (hpoint : (s.lines h).point = .reading ∨ (s.lines h).point = .ended)
      (hsched : Scheduler.step s.sched .suspend = some sched) :
      Moves N b results s .suspend { s with sched }
  | run {h : Coroutine} {x : UInt8} {bytes : Bytes} {sched : Scheduler.State n} (hrun : s.running = some h)
      (hpoint : (s.lines h).point = .viewing (x :: bytes))
      (hsched : Scheduler.step s.sched .run = some sched) :
      Moves N b results s .run (({ s with sched }.setLine h { s.lines h with point := .working }).setJob
        ⟨h, s.sched.turns h⟩ (.read (x :: bytes)))
  | work {v : Option (Fin n)} {t : Task} {job : Job} {w : Serving (Conn σ)} (hv : s.executes v = some t)
      (ht : s.jobs t ≠ .answer []) (hwork : (s.jobs t).work N b (s.lines t.coro).serving = .ok job w) :
      Moves N b results s (.work v) ((s.setLine t.coro { s.lines t.coro with serving := w }).setJob t job)
  | throw {v : Option (Fin n)} {t : Task} {e : Fault} {w : Serving (Conn σ)} (hv : s.executes v = some t)
      (ht : s.jobs t ≠ .answer []) (hwork : (s.jobs t).work N b (s.lines t.coro).serving = .error e w) :
      Moves N b results s (.work v)
        ((s.setLine t.coro { s.lines t.coro with serving := w }).setJob t (.answer []))
  | ret {v : Option (Fin n)} {t : Task} {sched : Scheduler.State n} (hv : s.executes v = some t)
      (ht : s.jobs t = .answer []) (hsched : Scheduler.step s.sched (returns v) = some sched) :
      Moves N b results s (.ret v) { s with sched }
  | destroy {h : Coroutine} {sched : Scheduler.State n} (hres : s.resumed = some h)
      (hsched : Scheduler.step s.sched .destroy = some sched) :
      Moves N b results s .destroy ({ s with sched }.setLine h { s.lines h with point := .flushing })
  /-- there is nothing to flush -/
  | flushed {h : Coroutine} {l : Line σ} (hrun : s.running = some h) (hpoint : (s.lines h).point = .flushing)
      (hflush : (s.lines h).flush (results h) = some l) (hback : l.point = .reading) :
      Moves N b results s .flush (s.setLine h l)
  | flush {h : Coroutine} {l : Line σ} {r : WriteResult} {sched : Scheduler.State n}
      (hrun : s.running = some h) (hpoint : (s.lines h).point = .flushing)
      (hflush : (s.lines h).flush (results h) = some l) (hwriting : l.point = .writing r)
      (hsched : Scheduler.step s.sched .suspend = some sched) :
      Moves N b results s .flush ({ s with sched }.setLine h l)
  | written {h : Coroutine} {r : WriteResult} {sched : Scheduler.State n}
      (hpoint : (s.lines h).point = .writing r) (hsched : Scheduler.step s.sched (.read h) = some sched) :
      Moves N b results s (.written h) ({ s with sched }.setLine h ((s.lines h).written r))
  | pass {a : Scheduler.Action n} {sched : Scheduler.State n} (ha : passes a = true)
      (hsched : Scheduler.step s.sched a = some sched) : Moves N b results s (.pass a) { s with sched }

/-- **Every step is one of these.** -/
theorem step_moves {a : Action n} (h : step N b results s a = some s') : Moves N b results s a s' := by
  cases a with
  | read h' =>
    simp only [step] at h
    split at h
    · rename_i i rest hpoint hinputs
      obtain ⟨_, hsched, rfl⟩ := Option.map_eq_some_iff.1 h
      obtain ⟨sched, hstep, rfl⟩ := schedule_eq_some.1 hsched
      exact .read hpoint hinputs hstep
    · cases h
  | skip =>
    obtain ⟨h', hrun, h⟩ := Option.bind_eq_some_iff.1 h
    obtain ⟨hpoint, rfl⟩ := Run.guard_eq_some h
    exact .skip hrun hpoint
  | suspend =>
    obtain ⟨h', hrun, h⟩ := Option.bind_eq_some_iff.1 h
    split at h
    · rename_i hpoint
      obtain ⟨sched, hstep, rfl⟩ := schedule_eq_some.1 h
      exact .suspend hrun hpoint hstep
    · cases h
  | run =>
    obtain ⟨h', hrun, h⟩ := Option.bind_eq_some_iff.1 h
    split at h
    · rename_i x bytes hpoint
      obtain ⟨_, hsched, rfl⟩ := Option.map_eq_some_iff.1 h
      obtain ⟨sched, hstep, rfl⟩ := schedule_eq_some.1 hsched
      exact .run hrun hpoint hstep
    · cases h
  | work v =>
    obtain ⟨t, hv, h⟩ := Option.bind_eq_some_iff.1 h
    split at h
    · cases h
    · rename_i ht
      unfold State.work at h
      dsimp only at h
      split at h
      · rename_i hwork
        cases h
        exact .work hv ht hwork
      · rename_i hwork
        obtain ⟨-, rfl⟩ := Run.guard_eq_some h
        exact .throw hv ht hwork
  | ret v =>
    obtain ⟨t, hv, h⟩ := Option.bind_eq_some_iff.1 h
    split at h
    · rename_i ht
      obtain ⟨sched, hstep, rfl⟩ := schedule_eq_some.1 h
      exact .ret hv ht hstep
    · cases h
  | destroy =>
    obtain ⟨h', hres, h⟩ := Option.bind_eq_some_iff.1 h
    obtain ⟨_, hsched, rfl⟩ := Option.map_eq_some_iff.1 h
    obtain ⟨sched, hstep, rfl⟩ := schedule_eq_some.1 hsched
    exact .destroy hres hstep
  | flush =>
    obtain ⟨h', hrun, h⟩ := Option.bind_eq_some_iff.1 h
    split at h
    · rename_i hpoint
      obtain ⟨l, hflush, h⟩ := Option.bind_eq_some_iff.1 h
      split at h
      · rename_i hback
        cases h
        exact .flushed hrun hpoint hflush hback
      · rename_i hback
        obtain ⟨_, hsched, rfl⟩ := Option.map_eq_some_iff.1 h
        obtain ⟨sched, hstep, rfl⟩ := schedule_eq_some.1 hsched
        obtain ⟨-, -, ⟨hreading, -⟩ | ⟨r, hwriting, -⟩⟩ := Line.flush_cases hflush
        · exact absurd hreading hback
        · exact .flush hrun hpoint hflush hwriting hstep
    · cases h
  | written h' =>
    simp only [step] at h
    split at h
    · rename_i r hpoint
      obtain ⟨_, hsched, rfl⟩ := Option.map_eq_some_iff.1 h
      obtain ⟨sched, hstep, rfl⟩ := schedule_eq_some.1 hsched
      exact .written hpoint hstep
    · cases h
  | pass a =>
    simp only [step] at h
    split at h
    · rename_i ha
      obtain ⟨sched, hstep, rfl⟩ := schedule_eq_some.1 h
      exact .pass ha hstep
    · cases h

/-! ## What each step uses up -/

/-- Bytes that the session has not seen yet. -/
def Point.unread : Point → ℕ
  | viewing (_ :: _) => 1
  | _ => 0

def Job.unread : Job → ℕ
  | read _ => 1
  | _ => 0

def Point.cost : Point → ℕ
  | viewing _ => 15
  | flushing | writing _ => 2
  | _ => 0

/-- The parts of a function that has read its bytes. -/
def Job.cost : Job → ℕ
  | read _ => 0
  | answer reqs => 2 * reqs.length
  | write _ reqs => 2 * reqs.length + 1

namespace State

/-- The inputs to come, of one connection. -/
def inputsOf (s : State σ n) (h : Coroutine) : ℕ := (s.lines h).inputs.length

def unreadOf (s : State σ n) (h : Coroutine) : ℕ :=
  (s.lines h).point.unread + ((s.fn h).map Job.unread).getD 0

def costOf (s : State σ n) (h : Coroutine) : ℕ :=
  (s.lines h).point.cost + ((s.fn h).map Job.cost).getD 0

/-- What is left to do for the first `k` connections: inputs to come first, then bytes not read yet. -/
def measure (k : ℕ) (s : State σ n) : ℕ ×ₗ ℕ ×ₗ ℕ :=
  toLex (∑ h ∈ Finset.range k, s.inputsOf h,
    toLex (∑ h ∈ Finset.range k, s.unreadOf h, ∑ h ∈ Finset.range k, s.costOf h + s.sched.cost))

end State

/-- The step changes this connection only, and uses up something. -/
structure Spends (s s' : State σ n) (h : Coroutine) : Prop where
  others : ∀ i, i ≠ h → s'.lines i = s.lines i ∧ s'.fn i = s.fn i
  less : s'.inputsOf h < s.inputsOf h ∨
    s'.inputsOf h = s.inputsOf h ∧ (s'.unreadOf h < s.unreadOf h ∨
      s'.unreadOf h = s.unreadOf h ∧ s'.costOf h + s'.sched.cost < s.costOf h + s.sched.cost)

/-- **So there is less left to do.** -/
theorem Spends.measure {k : ℕ} {h : Coroutine} (hs : Spends s s' h) (hh : h < k) :
    s'.measure k < s.measure k := by
  have hmem : h ∈ Finset.range k := Finset.mem_range.2 hh
  have hinputs := Run.sum_change (ι := ℕ) (f := s.inputsOf) (g := s'.inputsOf) hmem fun i hi => by
    show (s'.lines i).inputs.length = _
    rw [(hs.others i hi).1]
    rfl
  have hunread := Run.sum_change (ι := ℕ) (f := s.unreadOf) (g := s'.unreadOf) hmem fun i hi => by
    unfold State.unreadOf
    rw [(hs.others i hi).1, (hs.others i hi).2]
  have hcost := Run.sum_change (ι := ℕ) (f := s.costOf) (g := s'.costOf) hmem fun i hi => by
    unfold State.costOf
    rw [(hs.others i hi).1, (hs.others i hi).2]
  unfold State.measure
  rw [Prod.Lex.toLex_lt_toLex, Prod.Lex.toLex_lt_toLex]
  rcases hs.less with hlt | ⟨heq, hlt | ⟨heq', hlt⟩⟩
  · exact Or.inl (by omega)
  · exact Or.inr ⟨by omega, Or.inl (by omega)⟩
  · exact Or.inr ⟨by omega, Or.inr ⟨by omega, by omega⟩⟩

/-- A function that goes on has read its bytes, or has less to do. -/
theorem Job.work_spends {job job' : Job} {w w' : Serving (Conn σ)} (hjob : job ≠ .answer [])
    (h : job.work N b w = .ok job' w') :
    job'.unread < job.unread ∨ job'.unread = job.unread ∧ job'.cost < job.cost := by
  cases job with
  | read bytes =>
    refine Or.inl ?_
    unfold Job.work at h
    obtain ⟨_, _, -, h⟩ := bind_eq_ok_iff.1 h
    obtain ⟨_, _, -, h⟩ := bind_eq_ok_iff.1 h
    obtain ⟨reqs, _, -, h⟩ := bind_eq_ok_iff.1 h
    cases h
    exact Nat.zero_lt_one
  | answer reqs =>
    cases reqs with
    | nil => exact absurd rfl hjob
    | cons req reqs =>
      obtain ⟨resp, _, -, h⟩ := bind_eq_ok_iff.1 h
      cases h
      refine Or.inr ⟨rfl, ?_⟩
      simp only [Job.cost, List.length_cons]
      omega
  | write resp reqs =>
    obtain ⟨_, _, -, h⟩ := bind_eq_ok_iff.1 h
    cases h
    exact Or.inr ⟨rfl, Nat.lt_succ_self _⟩

/-- So does one that throws. -/
theorem Job.throw_spends {job : Job} (hjob : job ≠ .answer []) :
    0 < job.unread ∨ 0 = job.unread ∧ 0 < job.cost := by
  cases job with
  | read bytes => exact Or.inl Nat.zero_lt_one
  | answer reqs =>
    cases reqs with
    | nil => exact absurd rfl hjob
    | cons req reqs => exact Or.inr ⟨rfl, Nat.succ_pos _⟩
  | write resp reqs => exact Or.inr ⟨rfl, Nat.succ_pos _⟩

theorem fn_eq {h : Coroutine} (hawaits : s'.sched.awaits h = s.sched.awaits h) (hjobs : s'.jobs = s.jobs) :
    s'.fn h = s.fn h := by
  unfold State.fn
  rw [hawaits, hjobs]

/-- What a step that leaves the inputs alone uses up. -/
theorem Spends.of {h : Coroutine} {l : Line σ} (fn fn' : Option Job)
    (hothers : ∀ i, i ≠ h → s'.lines i = s.lines i ∧ s'.fn i = s.fn i) (hl : s'.lines h = l)
    (hinputs : l.inputs = (s.lines h).inputs) (hfn : s.fn h = fn) (hfn' : s'.fn h = fn')
    (hless : l.point.unread + (fn'.map Job.unread).getD 0 <
        (s.lines h).point.unread + (fn.map Job.unread).getD 0 ∨
      l.point.unread + (fn'.map Job.unread).getD 0 =
          (s.lines h).point.unread + (fn.map Job.unread).getD 0 ∧
        l.point.cost + (fn'.map Job.cost).getD 0 + s'.sched.cost <
          (s.lines h).point.cost + (fn.map Job.cost).getD 0 + s.sched.cost) : Spends s s' h := by
  refine ⟨hothers, Or.inr ⟨?_, ?_⟩⟩
  · unfold State.inputsOf
    rw [hl, hinputs]
  · unfold State.unreadOf State.costOf
    rw [hl, hfn, hfn']
    exact hless

/-- The running coroutine goes on, or one that libuv calls; it awaits no function. -/
theorem Spends.line {h : Coroutine} {l : Line σ} {sched : Scheduler.State n} (hfn : s.fn h = none)
    (hawaits : sched.awaits = s.sched.awaits) (hinputs : l.inputs = (s.lines h).inputs)
    (hunread : l.point.unread = (s.lines h).point.unread)
    (hcost : l.point.cost + sched.cost < (s.lines h).point.cost + s.sched.cost) :
    Spends s ({ s with sched }.setLine h l) h := by
  refine Spends.of none none (fun i hi => ⟨?_, ?_⟩) (Function.update_self ..) hinputs hfn ?_ ?_
  · exact Function.update_of_ne hi _ _
  · exact fn_eq (congrFun hawaits i) rfl
  · rw [← hfn]
    exact fn_eq (congrFun hawaits h) rfl
  · exact Or.inr ⟨by rw [hunread], hcost⟩

/-- A connection between two turns, with no inputs to come. -/
def Idle (l : Line σ) : Prop := l.point = .reading ∧ l.inputs = []

theorem not_idle {l : Line σ} {p : Point} (hl : l.point = p) (hp : p ≠ .reading) : ¬ Idle l := by
  intro hidle
  rw [← hl] at hp
  exact hp hidle.1

/-- A function goes on. -/
theorem Inv.work_spends (hs : Inv N b results sessions inputs s loc) {v : Option (Fin n)} {t : Task}
    (hv : s.executes v = some t) {job : Job} {w : Serving (Conn σ)}
    (hless : job.unread < (s.jobs t).unread ∨
      job.unread = (s.jobs t).unread ∧ job.cost < (s.jobs t).cost) :
    ¬ Idle (s.lines t.coro) ∧
      Spends s ((s.setLine t.coro { s.lines t.coro with serving := w }).setJob t job) t.coro := by
  obtain ⟨hloc, hfn⟩ := hs.executes hv
  have hawaits : s.sched.awaits t.coro = some t := hs.placed.awaited (by rw [hloc]; exact ⟨nofun, nofun⟩)
  have hworking : (s.lines t.coro).point = .working := (hs.lines t.coro).working.2 (by rw [hfn]; rfl)
  refine ⟨not_idle hworking (by simp), Spends.of _ (some job) (fun i hi => ⟨?_, ?_⟩) (Function.update_self ..) rfl hfn
    ?_ ?_⟩
  · exact Function.update_of_ne hi _ _
  · exact hs.fn_of_ne hi rfl rfl
  · show (s.sched.awaits t.coro).map (Function.update s.jobs t job) = some job
    rw [hawaits, Option.map_some, Function.update_self]
  · show (s.lines t.coro).point.unread + job.unread < (s.lines t.coro).point.unread + (s.jobs t).unread ∨
      (s.lines t.coro).point.unread + job.unread = (s.lines t.coro).point.unread + (s.jobs t).unread ∧
        (s.lines t.coro).point.cost + job.cost + s.sched.cost <
          (s.lines t.coro).point.cost + (s.jobs t).cost + s.sched.cost
    omega

/-- A function is given to the scheduler. -/
theorem Inv.run_spends (hs : Inv N b results sessions inputs s loc) {h : Coroutine}
    (hrun : s.running = some h) {x : UInt8} {bytes : Bytes} (hpoint : (s.lines h).point = .viewing (x :: bytes))
    {sched : Scheduler.State n} (hsched : Scheduler.step s.sched .run = some sched) :
    Spends s (({ s with sched }.setLine h { s.lines h with point := .working }).setJob
      ⟨h, s.sched.turns h⟩ (.read (x :: bytes))) h := by
  obtain ⟨m, hm, -, -⟩ := hs.schedule hsched
  have hcost : sched.cost < s.sched.cost + 15 := hm.cost
  have hawaits : sched.awaits = Function.update s.sched.awaits h (some ⟨h, s.sched.turns h⟩) := by
    obtain ⟨caller, hcaller⟩ := running_eq_some.1 hrun
    cases hm with
    | queue hio _ | inline hio _ =>
      cases hcaller.symm.trans hio
      rfl
  refine Spends.of _ (some (.read (x :: bytes))) (fun i hi => ⟨?_, ?_⟩) (Function.update_self ..) rfl
    (hs.fn_running hrun) ?_ ?_
  · exact Function.update_of_ne hi _ _
  · refine @Inv.fn_of_ne _ _ _ _ _ _ _ _ _ _ hs i ⟨h, s.sched.turns h⟩ hi _ ?_ rfl
    show sched.awaits i = _
    rw [hawaits, Function.update_of_ne hi]
  · show (sched.awaits h).map (Function.update s.jobs _ _) = _
    rw [hawaits, Function.update_self, Option.map_some, Function.update_self]
  · rw [hpoint]
    refine Or.inr ⟨rfl, ?_⟩
    show 0 + 0 + sched.cost < 15 + 0 + s.sched.cost
    omega

/-- The coroutine goes on after its function. -/
theorem Inv.destroy_spends (hs : Inv N b results sessions inputs s loc) {h : Coroutine}
    (hres : s.resumed = some h) {sched : Scheduler.State n}
    (hsched : Scheduler.step s.sched .destroy = some sched) :
    ¬ Idle (s.lines h) ∧ Spends s ({ s with sched }.setLine h { s.lines h with point := .flushing }) h := by
  obtain ⟨caller, hio⟩ := resumed_eq_some.1 hres
  obtain ⟨m, hm, -, -⟩ := hs.schedule hsched
  have hcost : sched.cost + 2 < s.sched.cost := hm.cost
  obtain ⟨t, ht, hawaits⟩ : ∃ t, s.sched.awaits h = some t ∧
      sched.awaits = Function.update s.sched.awaits h none := by
    cases hm with
    | destroy hio' ht =>
      cases hio.symm.trans hio'
      exact ⟨_, ht, rfl⟩
  have hnone : s.jobs t = .answer [] := by
    apply hs.left.returned
    rw [hs.placed.resumed hio ht]
    show 2 < 5
    omega
  have hfn : s.fn h = some (.answer []) := by rw [State.fn, ht, Option.map_some, hnone]
  have hworking : (s.lines h).point = .working := (hs.lines h).working.2 (by rw [hfn]; rfl)
  refine ⟨not_idle hworking (by simp), Spends.of _ none (fun i hi => ⟨?_, fn_eq ?_ rfl⟩) (Function.update_self ..) rfl
    hfn ?_ ?_⟩
  · exact Function.update_of_ne hi _ _
  · show sched.awaits i = _
    rw [hawaits, Function.update_of_ne hi]
  · show (sched.awaits h).map s.jobs = none
    rw [hawaits, Function.update_self, Option.map_none]
  · rw [hworking]
    refine Or.inr ⟨rfl, ?_⟩
    show 2 + 0 + sched.cost < 0 + 0 + s.sched.cost
    omega

/-- A step in which no coroutine goes on. -/
theorem sched_spends {sched : Scheduler.State n} (hawaits : sched.awaits = s.sched.awaits)
    (hcost : sched.cost < s.sched.cost) :
    (∀ i, ({ s with sched } : State σ n).lines i = s.lines i ∧ State.fn { s with sched } i = s.fn i) ∧
      sched.cost < s.sched.cost :=
  ⟨fun i => ⟨rfl, fn_eq (congrFun hawaits i) rfl⟩, hcost⟩

/-- **Each step uses up something**, of the scheduler or of one connection. -/
theorem Moves.spends (hs : Inv N b results sessions inputs s loc) {a : Action n}
    (h : Moves N b results s a s') :
    ((∀ i, s'.lines i = s.lines i ∧ s'.fn i = s.fn i) ∧ s'.sched.cost < s.sched.cost) ∨
      ∃ h, ¬ Idle (s.lines h) ∧ Spends s s' h := by
  cases h with
  | @read h i inputs sched hpoint hinputs hsched =>
    obtain ⟨m, hm, -, -⟩ := hs.schedule hsched
    refine Or.inr ⟨h, fun hidle => ?_, fun i hi => ⟨?_, ?_⟩, Or.inl ?_⟩
    · have hnil := hidle.2
      rw [hinputs] at hnil
      cases hnil
    · exact Function.update_of_ne hi _ _
    · cases hm
      rfl
    · show (Function.update s.lines h _ h).inputs.length < (s.lines h).inputs.length
      rw [Function.update_self, hinputs]
      exact Nat.lt_succ_self _
  | @skip h hrun hpoint =>
    refine Or.inr ⟨h, not_idle hpoint (by simp), Spends.line (hs.fn_running hrun) rfl rfl ?_ ?_⟩
    · rw [hpoint]
      rfl
    · rw [hpoint]
      show 0 + s.sched.cost < 15 + s.sched.cost
      omega
  | suspend hrun hpoint hsched =>
    obtain ⟨m, hm, -, -⟩ := hs.schedule hsched
    exact Or.inl (sched_spends (by cases hm; rfl) hm.cost)
  | run hrun hpoint hsched => exact Or.inr ⟨_, not_idle hpoint (by simp), hs.run_spends hrun hpoint hsched⟩
  | work hv ht hwork => exact Or.inr ⟨_, hs.work_spends hv (Job.work_spends ht hwork)⟩
  | throw hv ht hwork => exact Or.inr ⟨_, hs.work_spends hv (Job.throw_spends ht)⟩
  | @ret v t sched hv ht hsched =>
    obtain ⟨m, hm, -, -⟩ := hs.schedule hsched
    have hcost := hm.cost
    cases v with
    | some w => exact Or.inl (sched_spends (by cases hm; rfl) hcost)
    | none => exact Or.inl (sched_spends (by cases hm; rfl) hcost)
  | destroy hres hsched => exact Or.inr ⟨_, hs.destroy_spends hres hsched⟩
  | @flushed h l hrun hpoint hflush hback =>
    obtain ⟨hinputs, -, -⟩ := Line.flush_cases hflush
    refine Or.inr ⟨h, not_idle hpoint (by simp), Spends.line (hs.fn_running hrun) rfl hinputs ?_ ?_⟩
    · rw [hpoint, hback]
      rfl
    · rw [hpoint, hback]
      show 0 + s.sched.cost < 2 + s.sched.cost
      omega
  | @flush h l r sched hrun hpoint hflush hwriting hsched =>
    obtain ⟨m, hm, -, -⟩ := hs.schedule hsched
    have hcost : sched.cost < s.sched.cost := hm.cost
    obtain ⟨hinputs, -, -⟩ := Line.flush_cases hflush
    refine Or.inr ⟨h, not_idle hpoint (by simp),
      Spends.line (hs.fn_running hrun) (by cases hm; rfl) hinputs ?_ ?_⟩
    · rw [hpoint, hwriting]
      rfl
    · rw [hpoint, hwriting]
      show 2 + sched.cost < 2 + s.sched.cost
      omega
  | @written h r sched hpoint hsched =>
    obtain ⟨m, hm, -, -⟩ := hs.schedule hsched
    have hcost : sched.cost < s.sched.cost + 2 := hm.cost
    have hfn : s.fn h = none := by
      rw [State.fn]
      cases hm with
      | read hio hh => rw [hh, Option.map_none]
    have hback : ((s.lines h).written r).point = .reading ∧
        ((s.lines h).written r).inputs = (s.lines h).inputs := by
      cases r <;> exact ⟨rfl, rfl⟩
    refine Or.inr ⟨h, not_idle hpoint (by simp), Spends.line hfn (by cases hm; rfl) hback.2 ?_ ?_⟩
    · rw [hpoint, hback.1]
      rfl
    · rw [hpoint, hback.1]
      show 0 + sched.cost < 2 + s.sched.cost
      omega
  | @pass a sched ha hsched =>
    obtain ⟨m, hm, -, -⟩ := hs.schedule hsched
    have hcost := hm.cost
    have hkept : sched.awaits = s.sched.awaits ∧ sched.cost < s.sched.cost := by
      cases hm with
      | read | queue | inline | suspend | ret | destroy | retInline => cases ha
      | take | push | send | leave | wake | drained | more | pop | resume | transfer => exact ⟨rfl, hcost⟩
    exact Or.inl (sched_spends hkept.1 hkept.2)

/-! ## All runs end -/

variable {k : ℕ}

/-- The connections from `k` on stay idle. -/
def Within (k : ℕ) (s : State σ n) : Prop := ∀ h, k ≤ h → Idle (s.lines h)

theorem Within.step (hk : Within k s) (hs : Inv N b results sessions inputs s loc) {a : Action n}
    (h : Moves N b results s a s') : Within k s' ∧ s'.measure k < s.measure k := by
  rcases h.spends hs with ⟨hsame, hcost⟩ | ⟨h, hidle, hspends⟩
  · refine ⟨fun i hi => ?_, ?_⟩
    · rw [(hsame i).1]
      exact hk i hi
    · have hinputs : s'.inputsOf = s.inputsOf := by
        funext i
        rw [State.inputsOf, (hsame i).1]
        rfl
      have hunread : s'.unreadOf = s.unreadOf := by
        funext i
        rw [State.unreadOf, (hsame i).1, (hsame i).2]
        rfl
      have hcosts : s'.costOf = s.costOf := by
        funext i
        rw [State.costOf, (hsame i).1, (hsame i).2]
        rfl
      unfold State.measure
      rw [hinputs, hunread, hcosts, Prod.Lex.toLex_lt_toLex, Prod.Lex.toLex_lt_toLex]
      exact Or.inr ⟨rfl, Or.inr ⟨rfl, Nat.add_lt_add_left hcost _⟩⟩
  · have hlt : h < k := by
      by_contra hge
      exact hidle (hk h (Nat.le_of_not_lt hge))
    refine ⟨fun i hi => ?_, hspends.measure hlt⟩
    rw [(hspends.others i (Nat.ne_of_gt (Nat.lt_of_lt_of_le hlt hi))).1]
    exact hk i hi

/-- **No run of the system goes on for ever** without more input. -/
theorem halts_start (hinputs : ∀ h, k ≤ h → inputs h = []) :
    Run.Halts (step N b results) (start sessions inputs : State σ n) := by
  have hstep : ∀ (s : State σ n) a s', ((∃ loc, Inv N b results sessions inputs s loc) ∧ Within k s) →
      step N b results s a = some s' →
      ((∃ loc, Inv N b results sessions inputs s' loc) ∧ Within k s') ∧ s'.measure k < s.measure k := by
    rintro s a s' ⟨⟨loc, hs⟩, hk⟩ h
    obtain ⟨hk', hlt⟩ := hk.step hs (step_moves h)
    exact ⟨⟨hs.step h, hk'⟩, hlt⟩
  refine Run.halts_of_measure (I := fun s => (∃ loc, Inv N b results sessions inputs s loc) ∧ Within k s)
    (μ := State.measure k) (fun s a s' hI h => (hstep s a s' hI h).1)
    (fun s a s' hI h => (hstep s a s' hI h).2) ⟨inv_start, fun h hh => ⟨rfl, hinputs h hh⟩⟩

/-! ## What they end with -/

/-- The reads that the coroutine took, the last of which ended its loop. -/
def Closed (l : Line σ) : Prop :=
  ∃ ins i, l.taken = ins ++ [i] ∧ (∀ j ∈ ins, ∃ bytes, j = Input.bytes bytes) ∧ (i = .eos ∨ i = .error)

theorem closed_take {l : Line σ} {i : Input} {inputs : List Input}
    (hl : ∀ j ∈ l.taken, ∃ bytes, j = Input.bytes bytes) (h : (l.take i inputs).point = .ended) :
    Closed (l.take i inputs) := by
  refine ⟨l.taken, i, rfl, hl, ?_⟩
  cases i with
  | bytes bytes => cases h
  | eos => exact Or.inl rfl
  | error => exact Or.inr rfl

/-- **A coroutine ends at the end of its stream or at an error**, and takes nothing after it. -/
theorem closed_step (hs : Inv N b results sessions inputs s loc)
    (hc : ∀ h, (s.lines h).point = .ended → Closed (s.lines h)) {a : Action n}
    (h : Moves N b results s a s') (i : Coroutine) (hi : (s'.lines i).point = .ended) :
    Closed (s'.lines i) := by
  -- a step of one connection
  have hmoved : ∀ {h : Coroutine} {l : Line σ}, s'.lines = Function.update s.lines h l →
      (l.point = .ended → Closed l) → Closed (s'.lines i) := by
    intro h l hlines hl
    rw [hlines] at hi ⊢
    exact (Function.forall_update_iff s.lines fun _ l => l.point = .ended → Closed l).2
      ⟨hl, fun j _ => hc j⟩ i hi
  -- and one that leaves it at another point
  have hother : ∀ {h : Coroutine} {l : Line σ}, s'.lines = Function.update s.lines h l → l.point ≠ .ended →
      Closed (s'.lines i) := fun hlines hne => hmoved hlines fun hended => absurd hended hne
  cases h with
  | @read h j rest sched hpoint hinputs hsched =>
    exact hmoved rfl (closed_take ((hs.lines h).opened (by rw [hpoint]; nofun)))
  | skip => exact hother rfl nofun
  | run => exact hother rfl nofun
  | destroy => exact hother rfl nofun
  | flushed hrun hpoint hflush hback => exact hother rfl (by rw [hback]; nofun)
  | flush hrun hpoint hflush hwriting hsched => exact hother rfl (by rw [hwriting]; nofun)
  | @written h r => exact hother rfl (by cases r <;> nofun)
  | work hv _ _ | throw hv _ _ =>
    have hfn := (hs.executes hv).2
    have hworking := (hs.lines _).working.2 (by rw [hfn]; rfl)
    exact hother rfl (by rw [hworking]; nofun)
  | suspend | ret | pass => exact hc i hi

theorem serve_closed {results : ℕ → WriteResult} {ins ins' : List Input} {i : Input}
    (h : ∀ j ∈ ins, ∃ bytes, j = Input.bytes bytes) (hi : i = .eos ∨ i = .error) :
    serve N b results ((ins ++ [i]) ++ ins') = serve N b results (ins ++ [i]) := by
  rw [List.append_assoc, serve_append h, serve_append h]
  rcases hi with rfl | rfl <;> rfl

theorem closed_reached {as : List (Action n)}
    (hrun : Run.runFrom (step N b results) (start sessions inputs) as = some s) (h : Coroutine)
    (hh : (s.lines h).point = .ended) : Closed (s.lines h) := by
  have hboth : (∃ loc, Inv N b results sessions inputs s loc) ∧
      ∀ h, (s.lines h).point = .ended → Closed (s.lines h) := by
    refine Run.inv_run (I := fun s : State σ n => (∃ loc, Inv N b results sessions inputs s loc) ∧
      ∀ h, (s.lines h).point = .ended → Closed (s.lines h)) ?_ ⟨inv_start, nofun⟩ hrun
    rintro s a s' ⟨⟨loc, hs⟩, hc⟩ h
    exact ⟨hs.step h, closed_step hs hc (step_moves h)⟩
  exact hboth.2 h hh

/-- Where no thread can take a step, every connection is served. -/
theorem served_at_rest
    (hlive : ∀ h, ∃ w, serve N b (results h) (inputs h) { conn := Backend.fresh .uv (sessions h) } = .ok () w)
    {as : List (Action n)} (hrun : Run.runFrom (step N b results) (start sessions inputs) as = some s)
    (hrests : Run.Rests (step N b results) s) (h : Coroutine) :
    serve N b (results h) (inputs h) { conn := Backend.fresh .uv (sessions h) } =
      .ok () (s.lines h).serving := by
  obtain ⟨loc, hs⟩ := inv_reached hrun
  have halive : ∀ h, ∃ w, serve N b (results h) (s.lines h).taken
      { conn := Backend.fresh .uv (sessions h) } = .ok () w := by
    intro h
    by_cases hh : (s.lines h).point = .ended
    · exact ⟨_, (hs.lines h).at_rest (Or.inr hh)⟩
    · obtain ⟨w, hw⟩ := hlive h
      rw [← (hs.lines h).order, serve_append ((hs.lines h).opened hh)] at hw
      obtain ⟨_, w', hw', -⟩ := bind_eq_ok_iff.1 hw
      exact ⟨w', hw'⟩
  rcases all_served hrun halive hrests h with ⟨hreading, hnil⟩ | hended
  · have htaken : (s.lines h).taken = inputs h := by
      rw [← (hs.lines h).order, hnil, List.append_nil]
    rw [← htaken]
    exact (hs.lines h).at_rest (Or.inl hreading)
  · obtain ⟨ins, i, htaken, hbytes, hi⟩ := closed_reached hrun h hended
    rw [← (hs.lines h).order, htaken, serve_closed hbytes hi, ← htaken]
    exact (hs.lines h).at_rest (Or.inr hended)

/-- **The server comes to rest, with every connection served.** With finitely many inputs, no order
in which the threads take their steps goes on for ever. And where none of them can take a step,
whatever the order was, every connection is where a coroutine leaves it that serves it alone. -/
theorem comes_to_rest (hinputs : ∀ h, k ≤ h → inputs h = [])
    (hlive : ∀ h, ∃ w, serve N b (results h) (inputs h) { conn := Backend.fresh .uv (sessions h) } = .ok () w)
    {as : List (Action n)}
    (hrun : Run.runFrom (step N b results) (start sessions inputs) as = some s) :
    Run.Halts (step N b results) s ∧ (Run.Rests (step N b results) s → ∀ h,
      serve N b (results h) (inputs h) { conn := Backend.fresh .uv (sessions h) } =
        .ok () (s.lines h).serving) :=
  ⟨(halts_start hinputs).run hrun, fun hrests h => served_at_rest hlive hrun hrests h⟩

/-- One client, who sends two requests at once and leaves. -/
def oneClient : Coroutine → List Input
  | 0 => [.bytes [0x00], .eos]
  | _ => []

/-- The second worker reads its requests and answers them. -/
def oneAnswered : List (Action 2) :=
  let w := Fin.last 1
  [.read 0, .run, .pass (.take w), .work (some w), .work (some w), .work (some w), .work (some w),
    .work (some w), .ret (some w)]

theorem comes_to_rest_one : ∃ as, ∃ s : State Mini 2,
    Run.runFrom (step (Mini.nghttp2 bothMethods) twoMethods fun _ _ => .completed)
      (start (fun _ => {}) oneClient) (oneAnswered ++ as) = some s ∧
    Run.Rests (step (Mini.nghttp2 bothMethods) twoMethods fun _ _ => .completed) s ∧
    (s.lines 0).serving.conn.sock.writes = 1 := by
  have hinputs : ∀ h, 1 ≤ h → oneClient h = [] := by
    intro h hh
    match h, hh with
    | h + 1, _ => rfl
  have hwrites : (returned (serve (Mini.nghttp2 bothMethods) twoMethods (fun _ => .completed) (oneClient 0)
      { conn := Backend.fresh .uv {} })).map (fun w => w.conn.sock.writes) = some 1 := by decide +kernel
  obtain ⟨w, hw, hone⟩ := Option.map_eq_some_iff.1 hwrites
  have hlive : ∀ h, ∃ w, serve (Mini.nghttp2 bothMethods) twoMethods (fun _ => .completed) (oneClient h)
      { conn := Backend.fresh .uv {} } = .ok () w := by
    intro h
    match h with
    | 0 => exact ⟨w, returned_eq_some hw⟩
    | h + 1 => exact ⟨_, rfl⟩
  obtain ⟨u, hu⟩ := Option.isSome_iff_exists.1 (show (Run.runFrom (step (Mini.nghttp2 bothMethods) twoMethods
    fun _ _ => .completed) (start (fun _ => {}) oneClient : State Mini 2) oneAnswered).isSome = true by
    decide +kernel)
  -- it goes on until it rests, and there the client is served
  obtain ⟨as, s, hs, hrests⟩ := (comes_to_rest hinputs hlive hu).1.rests
  have hrun : Run.runFrom (step (Mini.nghttp2 bothMethods) twoMethods fun _ _ => .completed)
      (start (fun _ => {}) oneClient) (oneAnswered ++ as) = some s := by
    rw [Run.runFrom_append, hu]
    exact hs
  have hserved := (comes_to_rest hinputs hlive hrun).2 hrests 0
  rw [returned_eq_some hw] at hserved
  cases hserved
  exact ⟨as, s, hrun, hrests, hone⟩

/-! ## What libuv is given -/

/-- What libuv writes is what the buffer holds. -/
def Lent (l : Line σ) : Prop :=
  ∀ r, l.point = .writing r →
    l.serving.conn.buffer ≠ [] ∧ l.serving.conn.buffer <:+ l.serving.conn.sock.handed

theorem lent_of_ne {l : Line σ} (h : ∀ r, l.point ≠ .writing r) : Lent l := fun r hr => absurd hr (h r)

theorem lent_flush {results : ℕ → WriteResult} {l l' : Line σ} (h : l.flush results = some l') : Lent l' := by
  cases Line.flush_inv h with
  | nothing hempty => exact lent_of_ne nofun
  | begins hne hr hstarted => exact fun r _ => ⟨hne, List.suffix_append ..⟩

theorem lent_step (hs : Inv N b results sessions inputs s loc) (hl : ∀ h, Lent (s.lines h)) {a : Action n}
    (h : Moves N b results s a s') (i : Coroutine) : Lent (s'.lines i) := by
  have hother : ∀ {h : Coroutine} {l : Line σ}, s'.lines = Function.update s.lines h l → Lent l →
      Lent (s'.lines i) := by
    intro h l hlines hlent
    rw [hlines]
    exact (Function.forall_update_iff s.lines fun _ => Lent).2 ⟨hlent, fun j _ => hl j⟩ i
  cases h with
  | @read h j rest sched => exact hother rfl (lent_of_ne (by cases j <;> exact nofun))
  | skip => exact hother rfl (lent_of_ne nofun)
  | run => exact hother rfl (lent_of_ne nofun)
  | destroy => exact hother rfl (lent_of_ne nofun)
  | flushed hrun hpoint hflush hback => exact hother rfl (lent_flush hflush)
  | flush hrun hpoint hflush hwriting hsched => exact hother rfl (lent_flush hflush)
  | @written h r => exact hother rfl (lent_of_ne (by cases r <;> exact nofun))
  | work hv _ _ | throw hv _ _ =>
    have hfn := (hs.executes hv).2
    have hworking := (hs.lines _).working.2 (by rw [hfn]; rfl)
    exact hother rfl (lent_of_ne (by rw [hworking]; exact nofun))
  | suspend | ret | pass => exact hl i

/-- While libuv writes, only the end of the write goes on with the connection. -/
theorem untouched_step (hs : Inv N b results sessions inputs s loc) {i : Coroutine} {r : WriteResult}
    (hwriting : (s.lines i).point = .writing r) {a : Action n} (h : Moves N b results s a s')
    (ha : a ≠ .written i) : s'.lines i = s.lines i := by
  have hother : ∀ {h : Coroutine} {l : Line σ} {p : Point}, (s.lines h).point = p → p ≠ .writing r →
      Function.update s.lines h l i = s.lines i := by
    intro h l p hpoint hp
    refine Function.update_of_ne ?_ _ _
    rintro rfl
    exact hp (hpoint.symm.trans hwriting)
  cases h with
  | read hpoint _ _ => exact hother hpoint nofun
  | skip _ hpoint => exact hother hpoint nofun
  | run _ hpoint _ => exact hother hpoint nofun
  | flushed _ hpoint _ _ => exact hother hpoint nofun
  | flush _ hpoint _ _ _ => exact hother hpoint nofun
  | destroy hres hsched =>
    obtain ⟨m, hm, -, -⟩ := hs.schedule hsched
    cases hm with
    | @destroy h _ t hio ht =>
      obtain ⟨_, hio'⟩ := resumed_eq_some.1 hres
      cases hio.symm.trans hio'
      exact hother ((hs.lines _).working.2 (by rw [State.fn, ht]; rfl)) nofun
  | written _ _ =>
    refine Function.update_of_ne ?_ _ _
    rintro rfl
    exact ha rfl
  | work hv _ _ | throw hv _ _ =>
    have hfn := (hs.executes hv).2
    exact hother ((hs.lines _).working.2 (by rw [hfn]; rfl)) nofun
  | suspend | ret | pass => rfl

theorem untouched_run {as : List (Action n)} (hs : ∃ loc, Inv N b results sessions inputs s loc)
    {h : Coroutine} {r : WriteResult} (hwriting : (s.lines h).point = .writing r)
    (hrun : Run.runFrom (step N b results) s as = some s') (hnot : .written h ∉ as) :
    s'.lines h = s.lines h := by
  induction as generalizing s with
  | nil =>
    cases hrun
    rfl
  | cons a as ih =>
    obtain ⟨t, ht, hrest⟩ := Run.runFrom_cons_eq_some.1 hrun
    obtain ⟨loc, hs⟩ := hs
    have ha : a ≠ .written h := by
      rintro rfl
      exact hnot List.mem_cons_self
    have hsame : t.lines h = s.lines h := untouched_step hs hwriting (step_moves ht) ha
    rw [← hsame] at hwriting ⊢
    exact ih (hs.step ht) hwriting hrest fun hmem => hnot (List.mem_cons_of_mem _ hmem)

/-- **Nothing touches a connection while libuv writes its buffer.** What libuv was given last is the
buffer, which is not empty. And until libuv reports the end of the write, whatever the other threads
do, the buffer, the session and the rest of the connection stay as they are. -/
theorem write_undisturbed {as as' : List (Action n)}
    (hrun : Run.runFrom (step N b results) (start sessions inputs) as = some s) {h : Coroutine}
    {r : WriteResult} (hwriting : (s.lines h).point = .writing r)
    (hrun' : Run.runFrom (step N b results) s as' = some s') (hnot : .written h ∉ as') :
    s'.lines h = s.lines h ∧ (s.lines h).serving.conn.buffer ≠ [] ∧
      (s.lines h).serving.conn.buffer <:+ (s.lines h).serving.conn.sock.handed := by
  have hboth : (∃ loc, Inv N b results sessions inputs s loc) ∧ ∀ h, Lent (s.lines h) := by
    refine Run.inv_run (I := fun s : State σ n => (∃ loc, Inv N b results sessions inputs s loc) ∧
      ∀ h, Lent (s.lines h)) ?_ ⟨inv_start, fun h => lent_of_ne nofun⟩ hrun
    rintro s a s' ⟨⟨loc, hs⟩, hl⟩ h
    exact ⟨hs.step h, lent_step hs hl (step_moves h)⟩
  exact ⟨untouched_run hboth.1 hwriting hrun' hnot, hboth.2 h r hwriting⟩

theorem write_undisturbed_one : ∃ s s' : State Mini 1,
    Run.runFrom (step (Mini.nghttp2 bothMethods) twoMethods fun _ _ => .completed)
      (start (fun _ => {}) oneClient) oneFlush = some s ∧
    Run.runFrom (step (Mini.nghttp2 bothMethods) twoMethods fun _ _ => .completed) s
      [.pass .test, .pass (.leave (Fin.last 0))] = some s' ∧ s'.lines 0 = s.lines 0 := by
  have hpoint : ((Run.runFrom (step (Mini.nghttp2 bothMethods) twoMethods fun _ _ => .completed)
      (start (fun _ => {}) oneClient) oneFlush).map fun s => (s.lines 0).point) =
      some (.writing .completed) := by decide +kernel
  obtain ⟨s, hs, hwriting⟩ := Option.map_eq_some_iff.1 hpoint
  have hmore : ((Run.runFrom (step (Mini.nghttp2 bothMethods) twoMethods fun _ _ => .completed)
      (start (fun _ => {}) oneClient) oneFlush).bind fun s => Run.runFrom
        (step (Mini.nghttp2 bothMethods) twoMethods fun _ _ => .completed) s
        [.pass .test, .pass (.leave (Fin.last 0))]).isSome = true := by decide +kernel
  rw [hs] at hmore
  obtain ⟨s', hs'⟩ := Option.isSome_iff_exists.1 hmore
  exact ⟨s, s', hs, hs', (write_undisturbed hs hwriting hs' (by decide)).1⟩

end System

end Grpcxx.Uv
