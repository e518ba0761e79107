import Grpcxx.Lib.Queue
import Grpcxx.Lib.Simulation
import Grpcxx.Proof.AtRest

/-!
# First come, first served

The scheduler's two queues keep their order, however the threads interleave. A function that was given to
`run` is taken from `_shifters` when those given before it have been, and before any other; and so with
the coroutines that `join()` resumes. A worker calls what it took when it has released the mutex, so the
calls of two workers may begin in either order.

* `Step.serves_queued`, `Step.serves_joining`: what a step does with either queue.
* `scheduled`: a run of the system is a run of its scheduler.
* `first_come_first_served`: nobody is overtaken.
-/

namespace Grpcxx.Uv

open Queue (Serves)

namespace Scheduler

variable {n : ℕ} {s s' : State n} {loc : Task → Place n} {a : Action n} {m : Option (Task × Place n)}

/-- What is entered is no service of this queue. -/
theorem serves_other {x : What} {y : Happening} (hlog : s'.log = s.log ++ [y]) (hx : y.what ≠ x)
    (waiting : List Task) : Serves (s.logged x) waiting (s'.logged x) waiting := by
  rw [logged_append hlog, if_neg hx]
  exact .refl _ _

/-- What is entered is one. -/
theorem serves_entry {x : What} {y : Happening} (hlog : s'.log = s.log ++ [y]) (hx : y.what = x)
    (waiting : List Task) : Serves (s.logged x) (y.task :: waiting) (s'.logged x) waiting := by
  rw [logged_append hlog, if_pos hx]
  exact .pop _ _ _

/-- Functions are taken in the order of the queue. -/
theorem Step.serves_queued (hn : n ≠ 0) (h : Step s a m s') :
    Serves (s.logged .executed) s.shifters (s'.logged .executed) s'.shifters := by
  cases h with
  | queue hio _ => exact .push _ _ _
  | inline _ hn' | transfer _ hn' => exact absurd hn' hn
  | take hw hq =>
    rw [hq]
    exact serves_entry (y := ⟨.executed, _, .worker⟩) rfl rfl _
  | ret hw => exact serves_other rfl (by simp) _
  | resume hio ht => exact serves_other rfl (by simp) _
  | retInline hio => exact serves_other rfl (by simp) _
  | read | suspend | push | send | leave | wake | drained | more | pop | destroy => exact .refl _ _

/-- The handles in `_joiners`, when `join()` has none in its hands. -/
theorem stage_joining (h : s.io.took = none) : s.stage .joining = s.joiners.filterMap s.awaits := by
  rw [State.stage, h, Option.toList_none, List.nil_append]

theorem took_back (caller : Caller) : caller.back.took = none := by cases caller <;> rfl

/-- A step that leaves the joiners and what they await. -/
theorem serves_same (htook : s.io.took = none) (htook' : s'.io.took = none)
    (hjoiners : s'.joiners.filterMap s'.awaits = s.joiners.filterMap s.awaits) (hlog : s'.log = s.log) :
    Serves (s.logged .resumed) (s.stage .joining) (s'.logged .resumed) (s'.stage .joining) := by
  rw [stage_joining htook, stage_joining htook', hjoiners, State.logged, State.logged, hlog]
  exact .refl _ _

/-- Coroutines are resumed in the order in which their functions were pushed. -/
theorem Step.serves_joining (hn : n ≠ 0) (hs : Placed s loc) (h : Step s a m s') :
    Serves (s.logged .resumed) (s.stage .joining) (s'.logged .resumed) (s'.stage .joining) := by
  cases h with
  | @queue h caller hio _ =>
    obtain ⟨-, -, hnot⟩ := hs.fresh hio
    exact serves_same (by rw [hio]; rfl) (took_back caller) (filterMap_update_of_notMem hnot) rfl
  | inline _ hn' | transfer _ hn' => exact absurd hn' hn
  | take hw hq => exact serves_other rfl (by simp) _
  | ret hw => exact serves_other rfl (by simp) _
  | @push w t hw =>
    have hawaits : s.awaits t.coro = some t := hs.awaited (hs.active_returned hw)
    have hstage : (s.io.took.toList ++ (s.joiners ++ [t.coro])).filterMap s.awaits = s.stage .joining ++ [t] := by
      rw [State.stage, ← List.append_assoc, List.filterMap_append, List.filterMap_cons, hawaits, List.filterMap_nil]
    show Serves _ _ _ ((s.io.took.toList ++ (s.joiners ++ [t.coro])).filterMap s.awaits)
    rw [hstage]
    exact .push _ _ _
  | @resume h t hio ht =>
    have hstage : s.stage .joining = t :: s.joiners.filterMap s.awaits := by
      rw [State.stage, hio]
      exact List.filterMap_cons_some ht
    rw [hstage]
    exact serves_entry (y := ⟨.resumed, t, .join⟩) rfl rfl _
  | retInline hio =>
    rw [stage_joining (s := s) (by rw [hio]; rfl)]
    exact serves_other rfl (by simp) _
  | @destroy h caller t hio ht =>
    exact serves_same (by rw [hio]; rfl) rfl (filterMap_update_of_notMem (hs.woken_notMem hio ht)) rfl
  | @pop h joiners hio hj =>
    have hstage : s.stage .joining = (h :: joiners).filterMap s.awaits := by
      rw [stage_joining (by rw [hio]; rfl), hj]
    rw [hstage]
    exact .refl _ _
  | @suspend h caller hio => exact serves_same (by rw [hio]; rfl) (took_back caller) rfl rfl
  | read hio _ | wake hio _ | drained hio _ | more hio _ =>
    exact serves_same (by rw [hio]; rfl) rfl rfl rfl
  | send | leave => exact .refl _ _

/-- **Both queues keep their order** in every run. -/
theorem serves_run (hn : n ≠ 0) {as : List (Action n)} (hs : Placed s loc)
    (hrun : Run.runFrom step s as = some s') :
    Serves (s.logged .executed) s.shifters (s'.logged .executed) s'.shifters ∧
      Serves (s.logged .resumed) (s.stage .joining) (s'.logged .resumed) (s'.stage .joining) := by
  induction as generalizing s loc with
  | nil =>
    cases hrun
    exact ⟨.refl _ _, .refl _ _⟩
  | cons a as ih =>
    obtain ⟨u, hstep, hrest⟩ := Run.runFrom_cons_eq_some.1 hrun
    obtain ⟨m, hm⟩ := step_inv hs hstep
    obtain ⟨hqueued, hjoining⟩ := ih (hs.step hm) hrest
    exact ⟨(hm.serves_queued hn).trans hqueued, (hm.serves_joining hn hs).trans hjoining⟩

end Scheduler

namespace System

open Scheduler (Coroutine Task)

variable {σ : Type} {n : ℕ} {N : Nghttp2 σ} {b : ServerBase} {results : Coroutine → ℕ → WriteResult}
  {sessions : Coroutine → σ} {inputs : Coroutine → List Input} {s s' : State σ n}

/-- **The scheduler follows the system.** -/
theorem scheduled : Run.Simulates (step N b results) Scheduler.step
    fun (s : State σ n) sched => s.sched = sched := by
  rintro s sched a s' rfl h
  have hone : ∀ {a sched}, Scheduler.step s.sched a = some sched →
      ∃ bs t, Run.runFrom Scheduler.step s.sched bs = some t ∧ sched = t := by
    intro a sched hsched
    refine ⟨[a], sched, ?_, rfl⟩
    rw [Run.runFrom_cons, hsched]
    rfl
  cases step_moves h with
  | skip | work | throw | flushed => exact ⟨[], _, rfl, rfl⟩
  | read _ _ hsched | run _ _ hsched | ret _ _ hsched | flush _ _ _ _ hsched => exact hone hsched
  | suspend _ _ hsched | destroy _ hsched | written _ hsched | pass _ hsched => exact hone hsched

/-- **First come, first served.** From any moment on, a function that waits for a worker is taken right
after those ahead of it, and a coroutine that waits to be joined is resumed right after those ahead of
it, whatever comes later and however the threads interleave. -/
theorem first_come_first_served (hn : n ≠ 0) {as as' : List (Action n)}
    (hrun : Run.runFrom (step N b results) (start sessions inputs) as = some s)
    (hrun' : Run.runFrom (step N b results) s as' = some s') {pre post : List Task} {t : Task} :
    (s.sched.shifters = pre ++ t :: post → ∃ taken,
      s'.sched.logged .executed = s.sched.logged .executed ++ taken ∧
        (taken <+: pre ∨ pre ++ [t] <+: taken)) ∧
      (s.sched.stage .joining = pre ++ t :: post → ∃ resumed,
        s'.sched.logged .resumed = s.sched.logged .resumed ++ resumed ∧
          (resumed <+: pre ∨ pre ++ [t] <+: resumed)) := by
  obtain ⟨loc, hs⟩ := inv_reached hrun
  obtain ⟨bs, sched, hbs, rfl⟩ := scheduled.run rfl hrun'
  obtain ⟨hqueued, hjoining⟩ := Scheduler.serves_run hn hs.placed hbs
  exact ⟨fun ht => hqueued.no_overtaking ht, fun ht => hjoining.no_overtaking ht⟩

/-- Two connections give their functions to the scheduler. -/
def twoQueued : List (Action 1) := [.read 0, .run, .read 1, .run]

/-- The worker takes the first of them, and the second waits. -/
theorem first_come_first_served_two : ∃ s s' : State Mini 1,
    Run.runFrom (step (Mini.nghttp2 bothMethods) twoMethods fun _ _ => .completed)
      (start (fun _ => {}) fun _ => [.bytes [0x00]]) twoQueued = some s ∧
    Run.runFrom (step (Mini.nghttp2 bothMethods) twoMethods fun _ _ => .completed) s
      [.pass (.take (Fin.last 0))] = some s' ∧
    ∃ taken, s'.sched.logged .executed = s.sched.logged .executed ++ taken ∧
      (taken <+: [⟨0, 0⟩] ∨ [⟨0, 0⟩] ++ [⟨1, 0⟩] <+: taken) := by
  have hqueued : ((Run.runFrom (step (Mini.nghttp2 bothMethods) twoMethods fun _ _ => .completed)
      (start (fun _ => {}) fun _ => [.bytes [0x00]]) twoQueued).map
        fun s : State Mini 1 => s.sched.shifters) = some [⟨0, 0⟩, ⟨1, 0⟩] := by decide +kernel
  obtain ⟨s, hs, hqueued⟩ := Option.map_eq_some_iff.1 hqueued
  have htaken : (((Run.runFrom (step (Mini.nghttp2 bothMethods) twoMethods fun _ _ => .completed)
      (start (fun _ => {}) fun _ => [.bytes [0x00]]) twoQueued).bind fun s : State Mini 1 =>
        Run.runFrom (step (Mini.nghttp2 bothMethods) twoMethods fun _ _ => .completed) s
          [.pass (.take (Fin.last 0))]).isSome) = true := by decide +kernel
  rw [hs, Option.bind_some] at htaken
  obtain ⟨s', hs'⟩ := Option.isSome_iff_exists.1 htaken
  exact ⟨s, s', hs, hs', (first_come_first_served (by simp) hs hs').1 hqueued⟩

end System

end Grpcxx.Uv
