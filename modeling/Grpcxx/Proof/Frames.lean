import Grpcxx.Proof.Handover

/-!
# When a task's frame is destroyed

A worker's last steps with a task, the send and the way back out of `final_suspend`, use
the task's coroutine frame. By then its continuation is in `_joiners`, and `join()` does not
wait for the worker before it takes it.

* `Behind.step`: what the workers are not done with is still among the joiners, if `join()`
  takes only what they are done with.
* `frames_outlive`: then no frame is destroyed too early. Otherwise the I/O thread can do so
  in its next three steps.
-/

namespace Grpcxx.Uv.Scheduler

variable {n : ℕ} {s s' : State n} {loc : Task → Place n} {m : Option (Task × Place n)}
  {a : Action n}

/-- The task in whose coroutine a worker is, until `await_suspend` of `final_suspend` returned. -/
def Worker.inside : Worker → Option Task
  | running t | returned t | pushed t | sent t => some t
  | waiting | stray _ => none

/-- No worker is in a task whose frame is destroyed. -/
def FramesOutlive (s : State n) : Prop :=
  ∀ w t, (s.workers w).inside = some t → (s.frames t).isSome = true

/-- `join()` takes a continuation only after the worker that pushed it left `final_suspend`. -/
def PopsLeft (s : State n) (a : Action n) : Prop :=
  a = .pop → ∀ h ∈ s.joiners.head?, ∀ t, s.awaits h = some t → ∀ w, (s.workers w).inside ≠ some t

instance (s : State n) (a : Action n) : Decidable (PopsLeft s a) :=
  decidable_of_iff (a = .pop → ∀ t ∈ s.joiners.head?.bind s.awaits, ∀ w, (s.workers w).inside ≠ some t) (by
    simp only [PopsLeft, Option.mem_def, Option.bind_eq_some_iff]
    exact forall_congr' fun _ => ⟨fun h i hi t ht => h t ⟨i, hi, ht⟩, fun h t ⟨i, hi, ht⟩ => h i hi t ht⟩)

/-- The worker pushed the task's continuation and is still in `final_suspend`. -/
def Worker.late : Worker → Option Task
  | pushed t | sent t => some t
  | _ => none

/-- What a worker pushed and is not done with has not been taken. -/
def Behind (s : State n) : Prop :=
  ∀ w t, (s.workers w).late = some t → t.coro ∈ s.joiners ∧ s.awaits t.coro = some t

theorem Worker.inside_of_late {x : Worker} {t : Task} (h : x.late = some t) : x.inside = some t := by
  cases x <;> first | exact h | cases h

namespace Behind

theorem mono (hb : Behind s) (hw : ∀ w t, (s'.workers w).late = some t → (s.workers w).late = some t)
    (hj : ∀ h ∈ s.joiners, h ∈ s'.joiners ∧ s'.awaits h = s.awaits h) : Behind s' := by
  intro w t ht
  obtain ⟨hmem, hawaits⟩ := hb w t (hw w t ht)
  exact ⟨(hj _ hmem).1, (hj _ hmem).2.trans hawaits⟩

/-- A worker's step changes only what that worker is not done with. -/
theorem late_setWorker {w v : Fin n} {x : Worker} {t : Task}
    (hx : ∀ t, x.late = some t → (s.workers w).late = some t)
    (h : ((s.setWorker w x).workers v).late = some t) : (s.workers v).late = some t := by
  by_cases hv : v = w
  · subst hv
    rw [show (s.setWorker v x).workers v = x from Function.update_self ..] at h
    exact hx t h
  · rwa [show (s.setWorker w x).workers v = s.workers v from Function.update_of_ne hv _ _] at h

/-- **Every step keeps the workers behind**, if `join()` takes only what they are done with. -/
theorem step (hs : Placed s loc) (hb : Behind s) (hG : PopsLeft s a) (h : Step s a m s') : Behind s' := by
  have hother : ∀ {i : Coroutine} {v : Option Task}, i ∉ s.joiners →
      ∀ h ∈ s.joiners, h ∈ s.joiners ∧ Function.update s.awaits i v h = s.awaits h := by
    intro i v hi h hh
    have hne : h ≠ i := by
      rintro rfl
      exact hi hh
    exact ⟨hh, Function.update_of_ne hne _ _⟩
  cases h with
  | read | suspend | wake | drained | more | resume | retInline | transfer =>
    exact hb.mono (fun _ _ => id) fun _ hh => ⟨hh, rfl⟩
  | queue hio _ => exact hb.mono (fun _ _ => id) (hother (hs.fresh hio).2.2)
  | inline hio _ => exact hb.mono (fun _ _ => id) (hother (hs.fresh hio).2.2)
  | destroy hio ht => exact hb.mono (fun _ _ => id) (hother (hs.woken_notMem hio ht))
  | take _ _ => exact hb.mono (fun _ _ => late_setWorker nofun) fun _ hh => ⟨hh, rfl⟩
  | ret _ => exact hb.mono (fun _ _ => late_setWorker nofun) fun _ hh => ⟨hh, rfl⟩
  | leave _ => exact hb.mono (fun _ _ => late_setWorker nofun) fun _ hh => ⟨hh, rfl⟩
  | send hw =>
    -- as late as before
    refine hb.mono (fun _ _ => late_setWorker fun t ht => ?_) fun _ hh => ⟨hh, rfl⟩
    rw [hw]
    exact ht
  | @push w t hw =>
    intro v t' ht'
    by_cases hv : v = w
    · -- the worker that pushes
      subst hv
      change (Function.update s.workers v (.pushed t) v).late = some t' at ht'
      rw [Function.update_self] at ht'
      cases ht'
      have hawaits := hs.awaited (hs.active_returned hw)
      exact ⟨List.mem_append_right _ (List.mem_singleton_self _), hawaits⟩
    · change (Function.update s.workers w (.pushed t) v).late = some t' at ht'
      rw [Function.update_of_ne hv] at ht'
      obtain ⟨hmem, hawaits⟩ := hb v t' ht'
      exact ⟨List.mem_append_left _ hmem, hawaits⟩
  | @pop i joiners hio hj =>
    intro w t ht
    obtain ⟨hmem, hawaits⟩ := hb w t ht
    rw [hj] at hmem
    refine ⟨?_, hawaits⟩
    rcases List.mem_cons.1 hmem with rfl | hmem
    · -- what is taken is of a worker that left
      have hleft := hG rfl t.coro (by rw [hj]; rfl) t hawaits w
      exact absurd (Worker.inside_of_late ht) hleft
    · exact hmem

end Behind

/-- Where the workers are behind, no frame is destroyed too early. -/
theorem framesOutlive_of_behind (hs : Placed s loc) (hb : Behind s) : FramesOutlive s := by
  have halive : ∀ t, (loc t).active → (s.frames t).isSome = true := by
    intro t ht
    rw [hs.book.frames t ht]
    rfl
  intro w t ht
  apply halive
  match hw : s.workers w with
  | .running t' =>
    rw [hw] at ht
    cases ht
    exact hs.active_running hw
  | .returned t' =>
    rw [hw] at ht
    cases ht
    exact hs.active_returned hw
  | .pushed t' | .sent t' =>
    -- the continuation is not taken yet, so the task is still awaited
    rw [hw] at ht
    cases ht
    have hlate : (s.workers w).late = some t := by rw [hw]; rfl
    exact ((hs.book.awaits _ _).1 (hb w t hlate).2).2
  | .waiting | .stray _ =>
    rw [hw] at ht
    cases ht

/-- The I/O thread destroys the task of a continuation that it takes too early. -/
theorem destroyed_early (hio : s.io = .popping) (hpop : ¬ PopsLeft s .pop) :
    ∃ s', Run.runFrom step s [.pop, .resume, .destroy] = some s' ∧ ¬ FramesOutlive s' := by
  obtain ⟨h, hh, t, ht, w, hw⟩ : ∃ h ∈ s.joiners.head?, ∃ t, s.awaits h = some t ∧
      ∃ w, (s.workers w).inside = some t := by
    by_contra hno
    exact hpop fun _ h hh t ht w hw => hno ⟨h, hh, t, ht, w, hw⟩
  obtain ⟨joiners, hj⟩ : ∃ joiners, s.joiners = h :: joiners := by
    cases hcase : s.joiners with
    | nil => rw [hcase] at hh; cases hh
    | cons i joiners =>
      rw [hcase] at hh
      cases hh
      exact ⟨joiners, rfl⟩
  have h₁ : step s .pop = some { s with io := .popped h, joiners } := by simp only [step, hio, hj]
  have h₂ : step { s with io := .popped h, joiners } .resume = some
      { s with io := .resumed h .join, joiners, log := s.log ++ [⟨.resumed, t, .join⟩] } := by
    simp only [step, ht, Option.map_some]
  obtain ⟨s₃, h₃, hframes, hworkers⟩ : ∃ s₃, step { s with
      io := .resumed h .join, joiners, log := s.log ++ [⟨.resumed, t, .join⟩] } .destroy = some s₃ ∧
      s₃.frames t = none ∧ s₃.workers = s.workers := by
    simp only [step, ht, Option.map_some]
    exact ⟨_, rfl, Function.update_self .., rfl⟩
  refine ⟨s₃, ?_, fun houtlive => ?_⟩
  · rw [Run.runFrom_cons, h₁, Option.bind_some, Run.runFrom_cons, h₂, Option.bind_some, Run.runFrom_cons,
      h₃, Option.bind_some, Run.runFrom_nil]
  · have hgone := houtlive w t (by rw [hworkers]; exact hw)
    rw [hframes] at hgone
    cases hgone

/-- **A task's frame is destroyed only after its worker has left it**, in every run in which
`join()` takes a continuation only after that. Wherever it takes one earlier, the I/O thread can go
on to destroy the frame. -/
theorem frames_outlive {as : List (Action n)} (hrun : Run.runFrom step {} as = some s) :
    (Run.Along step PopsLeft {} as → FramesOutlive s) ∧
      (s.io = .popping → ¬ PopsLeft s .pop →
        ∃ s', Run.runFrom step s [.pop, .resume, .destroy] = some s' ∧ ¬ FramesOutlive s') := by
  refine ⟨fun hG => ?_, destroyed_early⟩
  have hinv : ∃ loc, Placed s loc ∧ Behind s := by
    refine Run.inv_runAlong (I := fun s : State n => ∃ loc, Placed s loc ∧ Behind s) ?_ ?_ hG hrun
    · rintro s a s' ⟨loc, hs, hb⟩ hpops h
      obtain ⟨m, hm⟩ := step_inv hs h
      exact ⟨moved loc m, hs.step hm, hb.step hs hpops hm⟩
    · obtain ⟨loc, hs, -, -⟩ := inv_start (n := n)
      exact ⟨loc, hs, fun _ _ h => by cases h⟩
  obtain ⟨loc, hs, hb⟩ := hinv
  exact framesOutlive_of_behind hs hb

/-- The first worker has left its task when that is taken, and the second is still in its own. If the task is
taken meanwhile, its frame goes. -/
theorem frames_outlive_two : ∃ s, Run.runFrom step {} twoFunctions = some s ∧
    (s.workers 1).inside = some ⟨1, 0⟩ ∧ FramesOutlive s ∧
    ∃ u, Run.runFrom step s [.test] = some u ∧
      ∃ s', Run.runFrom step u [.pop, .resume, .destroy] = some s' ∧ ¬ FramesOutlive s' := by
  have hruns : ((Run.runFrom step {} twoFunctions).bind fun s =>
      (Run.runFrom step s [.test]).map fun u =>
        ((s.workers 1).inside, u.io, decide (PopsLeft u .pop))) = some (some ⟨1, 0⟩, .popping, false) := by decide
  obtain ⟨s, hs, hruns⟩ := Option.bind_eq_some_iff.1 hruns
  obtain ⟨u, hu, hfound⟩ := Option.map_eq_some_iff.1 hruns
  simp only [Prod.mk.injEq, decide_eq_false_iff_not] at hfound
  obtain ⟨hinside, hio, hpops⟩ := hfound
  have hwhole : Run.runFrom step {} (twoFunctions ++ [.test]) = some u := by
    rw [Run.runFrom_append, hs]
    exact hu
  exact ⟨s, hs, hinside, (frames_outlive hs).1 (by decide), u, hu, (frames_outlive hwhole).2 hio hpops⟩

/-- Two workers, two connections: `join()`, called for the first, also takes what the second worker has
pushed but not announced. -/
theorem frame_destroyed : ¬ ∀ (n : ℕ) (as : List (Action n)) (s : State n), 0 < n →
    Run.runFrom step {} as = some s → FramesOutlive s := by
  intro h
  have hrun : (Run.runFrom step ({} : State 2) [.read 0, .run, .read 1, .run, .take 0, .take 1, .ret 0,
      .complete 0, .send 0, .leave 0, .ret 1, .complete 1, .wake, .test, .pop, .resume, .destroy, .suspend,
      .test, .pop, .resume, .destroy]).any
      (fun s => s.workers 1 = .pushed ⟨1, 0⟩ ∧ s.frames ⟨1, 0⟩ = none) = true := by
    decide
  obtain ⟨s, hs, hearly⟩ := (Option.any_eq_true _ _).1 hrun
  obtain ⟨hw, hframes⟩ := of_decide_eq_true hearly
  have halive := h 2 _ s Nat.zero_lt_two hs 1 ⟨1, 0⟩ (by rw [hw]; rfl)
  rw [hframes] at halive
  cases halive

end Grpcxx.Uv.Scheduler
