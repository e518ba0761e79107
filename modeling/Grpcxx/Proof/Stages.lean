import Grpcxx.Lib.Places
import Grpcxx.Lib.Run
import Grpcxx.Model.Scheduler
import Mathlib.Data.List.FinRange

/-!
# Where a task is

Every task that a coroutine awaits passes the same places in the same order: queued, running,
returned, waiting to be joined, resumed, done. The state of the scheduler keeps the tasks at
each of them in a queue, in a worker or in the I/O thread (`State.contents`).

* `Step`, `step_inv`: what a step can do, and the task it moves.
* `Placed.step`: each step keeps every task at its place.
* `Step.next`: a step moves a task to its next place, or none.
* `worker_steps`, `io_steps`: no thread gets stuck.
-/

namespace Grpcxx.Uv.Scheduler

variable {n : ℕ}

/-- Where a task is. The worker it is with, if it is not with the I/O thread. -/
inductive Place (n : ℕ)
  | outside
  | queued
  | running (w : Option (Fin n))
  | returned (w : Option (Fin n))
  | joining
  | resumed
  | done
  deriving DecidableEq

namespace Place

def rank : Place n → ℕ
  | outside => 0
  | queued => 1
  | running _ => 2
  | returned _ => 3
  | joining => 4
  | resumed => 5
  | done => 6

/-- From `co_await` to the end of its expression. -/
def active (p : Place n) : Prop := p ≠ .outside ∧ p ≠ .done

end Place

/-! ## What the state holds at each place -/

def Worker.runs : Worker → Option Task
  | running t => some t
  | _ => none

def Worker.ended : Worker → Option Task
  | returned t => some t
  | _ => none

def Io.runs : Io → Option Task
  | inline t _ => some t
  | _ => none

def Io.ended : Io → Option Task
  | returned t _ => some t
  | _ => none

/-- The handle that `join()` took and has not called yet. -/
def Io.took : Io → Option Coroutine
  | popped h => some h
  | _ => none

/-- The coroutine that goes on, before its task is destroyed. -/
def Io.woken : Io → Option Coroutine
  | resumed h _ => some h
  | _ => none

/-- The I/O thread has no task and no handle in its hands. -/
def Io.idle (io : Io) : Prop := io.runs = none ∧ io.ended = none ∧ io.took = none ∧ io.woken = none

theorem Caller.idle_back (caller : Caller) : caller.back.idle := by
  cases caller <;> exact ⟨rfl, rfl, rfl, rfl⟩

/-- The tasks that are at a place. -/
def State.contents (s : State n) : Place n → List Task
  | .outside | .done => []
  | .queued => s.shifters
  | .running none => s.io.runs.toList
  | .running (some w) => (s.workers w).runs.toList
  | .returned none => s.io.ended.toList
  | .returned (some w) => (s.workers w).ended.toList
  | .joining => (s.io.took.toList ++ s.joiners).filterMap s.awaits
  | .resumed => s.io.woken.toList.filterMap s.awaits

/-! ## What a step can do -/

/-- The steps that happen, with the task that each moves. -/
inductive Step (s : State n) : Action n → Option (Task × Place n) → State n → Prop
  | read {h : Coroutine} (hio : s.io = .polling) (hh : s.awaits h = none) :
      Step s (.read h) none { s with io := .running h .loop }
  | queue {h : Coroutine} {caller : Caller} (hio : s.io = .running h caller) (hn : n ≠ 0) :
      Step s .run (some (⟨h, s.turns h⟩, .queued))
        { s with
          turns := Function.update s.turns h (s.turns h + 1)
          awaits := Function.update s.awaits h (some ⟨h, s.turns h⟩)
          frames := Function.update s.frames ⟨h, s.turns h⟩ (some { fn := n ≠ 0, previous := some h })
          shifters := s.shifters ++ [⟨h, s.turns h⟩]
          io := caller.back }
  | inline {h : Coroutine} {caller : Caller} (hio : s.io = .running h caller) (hn : n = 0) :
      Step s .run (some (⟨h, s.turns h⟩, .running none))
        { s with
          turns := Function.update s.turns h (s.turns h + 1)
          awaits := Function.update s.awaits h (some ⟨h, s.turns h⟩)
          frames := Function.update s.frames ⟨h, s.turns h⟩ (some { fn := n ≠ 0, previous := some h })
          io := .inline ⟨h, s.turns h⟩ caller
          log := s.log ++ [⟨.executed, ⟨h, s.turns h⟩, .inline⟩] }
  | suspend {h : Coroutine} {caller : Caller} (hio : s.io = .running h caller) :
      Step s .suspend none { s with io := caller.back }
  | take {w : Fin n} {t : Task} {shifters : List Task} (hw : s.workers w = .waiting)
      (hq : s.shifters = t :: shifters) :
      Step s (.take w) (some (t, .running (some w)))
        { s.setWorker w (.running t) with shifters, log := s.log ++ [⟨.executed, t, .worker⟩] }
  | ret {w : Fin n} {t : Task} (hw : s.workers w = .running t) :
      Step s (.ret w) (some (t, .returned (some w)))
        { s.setWorker w (.returned t) with log := s.log ++ [⟨.returned, t, .worker⟩] }
  | push {w : Fin n} {t : Task} (hw : s.workers w = .returned t) :
      Step s (.complete w) (some (t, .joining))
        { s.setWorker w (.pushed t) with joiners := s.joiners ++ [t.coro] }
  | send {w : Fin n} {t : Task} (hw : s.workers w = .pushed t) :
      Step s (.send w) none { s.setWorker w (.sent t) with async := true }
  | leave {w : Fin n} {t : Task} (hw : s.workers w = .sent t) : Step s (.leave w) none (s.setWorker w .waiting)
  | wake (hio : s.io = .polling) (ha : s.async = true) :
      Step s .wake none { s with io := .joining, async := false }
  | drained (hio : s.io = .joining) (hj : s.joiners = []) : Step s .test none { s with io := .polling }
  | more (hio : s.io = .joining) (hj : s.joiners ≠ []) : Step s .test none { s with io := .popping }
  | pop {h : Coroutine} {joiners : List Coroutine} (hio : s.io = .popping)
      (hj : s.joiners = h :: joiners) : Step s .pop none { s with io := .popped h, joiners }
  | resume {h : Coroutine} {t : Task} (hio : s.io = .popped h) (ht : s.awaits h = some t) :
      Step s .resume (some (t, .resumed))
        { s with io := .resumed h .join, log := s.log ++ [⟨.resumed, t, .join⟩] }
  | destroy {h : Coroutine} {caller : Caller} {t : Task} (hio : s.io = .resumed h caller)
      (ht : s.awaits h = some t) :
      Step s .destroy (some (t, .done))
        { s with
          io := .running h caller
          awaits := Function.update s.awaits h none
          frames := Function.update s.frames t none }
  | retInline {t : Task} {caller : Caller} (hio : s.io = .inline t caller) :
      Step s .retInline (some (t, .returned none))
        { s with io := .returned t caller, log := s.log ++ [⟨.returned, t, .inline⟩] }
  | transfer {t : Task} {caller : Caller} (hio : s.io = .returned t caller) (hn : n = 0) :
      Step s .completeInline (some (t, .resumed))
        { s with io := .resumed t.coro caller, log := s.log ++ [⟨.resumed, t, .inline⟩] }

/-- The places after a step. -/
def moved (loc : Task → Place n) : Option (Task × Place n) → Task → Place n
  | none => loc
  | some (t, p) => Function.update loc t p

/-! ## The invariant -/

/-- What the coroutines and the frames say about a task. -/
structure Book (s : State n) (loc : Task → Place n) : Prop where
  outside : ∀ t, loc t = .outside ↔ s.turns t.coro ≤ t.turn
  awaits : ∀ h t, s.awaits h = some t ↔ t.coro = h ∧ (loc t).active
  frames : ∀ t, (loc t).active → s.frames t = some { fn := n ≠ 0, previous := some t.coro }
  gone : ∀ t, ¬ (loc t).active → s.frames t = none

/-- What the I/O thread may rely on. -/
def IoOk (s : State n) : Prop :=
  match s.io with
  | .polling | .joining => True
  | .popping => s.joiners ≠ []
  | .popped h | .resumed h _ => (s.awaits h).isSome = true
  | .running h _ => s.awaits h = none
  | .inline _ _ | .returned _ _ => n = 0

/-- **Each task is where `loc` says.** -/
structure Placed (s : State n) (loc : Task → Place n) : Prop where
  book : Book s loc
  contents : Tracks Place.active s.contents loc
  joiners : ∀ h ∈ s.joiners, (s.awaits h).isSome = true
  ours : ∀ w h, s.workers w ≠ .stray h
  io : IoOk s

/-! ## Bookkeeping -/

variable {s s' : State n} {loc : Task → Place n} {t : Task} {p : Place n}

theorem not_active_outside : ¬ (Place.outside : Place n).active := fun h => h.1 rfl

theorem not_active_done : ¬ (Place.done : Place n).active := fun h => h.2 rfl

namespace Book

theorem same (h : Book s loc) (hturns : s'.turns = s.turns) (hawaits : s'.awaits = s.awaits)
    (hframes : s'.frames = s.frames) : Book s' loc := by
  refine ⟨?_, ?_, ?_, ?_⟩
  · rw [hturns]; exact h.outside
  · rw [hawaits]; exact h.awaits
  · rw [hframes]; exact h.frames
  · rw [hframes]; exact h.gone

theorem move (h : Book s loc) (hfrom : (loc t).active) (hto : p.active) (hturns : s'.turns = s.turns)
    (hawaits : s'.awaits = s.awaits) (hframes : s'.frames = s.frames) :
    Book s' (Function.update loc t p) := by
  have hactive : ∀ x, (Function.update loc t p x).active ↔ (loc x).active := by
    intro x
    by_cases hx : x = t
    · subst hx
      rw [Function.update_self]
      exact iff_of_true hto hfrom
    · rw [Function.update_of_ne hx]
  refine ⟨fun x => ?_, fun i x => ?_, fun x hx => ?_, fun x hx => ?_⟩
  · rw [hturns, ← h.outside]
    by_cases hx : x = t
    · subst hx
      rw [Function.update_self]
      exact iff_of_false hto.1 hfrom.1
    · rw [Function.update_of_ne hx]
  · rw [hawaits, hactive]
    exact h.awaits i x
  · rw [hframes]
    exact h.frames x ((hactive x).1 hx)
  · rw [hframes]
    exact h.gone x fun hx' => hx ((hactive x).2 hx')

/-- A task that is awaited now. -/
theorem start (h : Book s loc) {i : Coroutine} (hi : s.awaits i = none) (ht : t = ⟨i, s.turns i⟩)
    (hto : p.active) (hturns : s'.turns = Function.update s.turns i (s.turns i + 1))
    (hawaits : s'.awaits = Function.update s.awaits i (some t))
    (hframes : s'.frames = Function.update s.frames t (some { fn := n ≠ 0, previous := some i })) :
    Book s' (Function.update loc t p) := by
  refine ⟨fun x => ?_, fun j x => ?_, fun x hx => ?_, fun x hx => ?_⟩
  · -- `turns` now counts the new task
    rw [hturns]
    by_cases hx : x = t
    · subst hx
      rw [Function.update_self, ht, Function.update_self]
      refine iff_of_false hto.1 ?_
      show ¬ s.turns i + 1 ≤ s.turns i
      omega
    · rw [Function.update_of_ne hx, h.outside]
      by_cases hcoro : x.coro = i
      · -- the coroutine's other tasks have other turns
        have hturn : x.turn ≠ s.turns i := by
          intro hturn
          apply hx
          rw [ht, ← hturn, ← hcoro]
        rw [hcoro, Function.update_self]
        omega
      · rw [Function.update_of_ne hcoro]
  · rw [hawaits]
    by_cases hj : j = i
    · -- the coroutine awaited nothing before
      subst hj
      rw [Function.update_self]
      by_cases hx : x = t
      · subst hx
        rw [Function.update_self]
        exact iff_of_true rfl ⟨by rw [ht], hto⟩
      · rw [Function.update_of_ne hx]
        refine iff_of_false (fun hxt => hx (Option.some.inj hxt).symm) fun hactive => ?_
        rw [(h.awaits j x).2 hactive] at hi
        cases hi
    · rw [Function.update_of_ne hj, h.awaits]
      by_cases hx : x = t
      · subst hx
        refine iff_of_false (fun hactive => hj ?_) fun hactive => hj ?_
        · rw [← hactive.1, ht]
        · rw [← hactive.1, ht]
      · rw [Function.update_of_ne hx]
  · rw [hframes]
    by_cases hxt : x = t
    · rw [hxt, Function.update_self, ht]
    · rw [Function.update_of_ne hxt] at hx ⊢
      exact h.frames x hx
  · rw [hframes]
    by_cases hxt : x = t
    · rw [hxt, Function.update_self] at hx
      exact absurd hto hx
    · rw [Function.update_of_ne hxt] at hx ⊢
      exact h.gone x hx

/-- A task whose `co_await` expression ends. -/
theorem finish (h : Book s loc) {i : Coroutine} (hi : s.awaits i = some t)
    (hturns : s'.turns = s.turns) (hawaits : s'.awaits = Function.update s.awaits i none)
    (hframes : s'.frames = Function.update s.frames t none) :
    Book s' (Function.update loc t .done) := by
  obtain ⟨hcoro, hactive⟩ := (h.awaits i t).1 hi
  refine ⟨fun x => ?_, fun j x => ?_, fun x hx => ?_, fun x hx => ?_⟩
  · rw [hturns, ← h.outside]
    by_cases hx : x = t
    · subst hx
      rw [Function.update_self]
      exact iff_of_false (fun hdone => by cases hdone) hactive.1
    · rw [Function.update_of_ne hx]
  · rw [hawaits]
    by_cases hx : x = t
    · subst hx
      rw [Function.update_self]
      refine iff_of_false (fun hj => ?_) fun hdone => not_active_done hdone.2
      by_cases hji : j = i
      · rw [hji, Function.update_self] at hj
        cases hj
      · rw [Function.update_of_ne hji, h.awaits] at hj
        exact hji (hj.1.symm.trans hcoro)
    · rw [Function.update_of_ne hx, ← h.awaits]
      by_cases hji : j = i
      · subst hji
        rw [Function.update_self, hi]
        exact iff_of_false (fun hnone => by cases hnone) fun hxt => hx (Option.some.inj hxt).symm
      · rw [Function.update_of_ne hji]
  · rw [hframes]
    by_cases hxt : x = t
    · rw [hxt, Function.update_self] at hx
      exact absurd hx not_active_done
    · rw [Function.update_of_ne hxt] at hx ⊢
      exact h.frames x hx
  · rw [hframes]
    by_cases hxt : x = t
    · rw [hxt, Function.update_self]
    · rw [Function.update_of_ne hxt] at hx ⊢
      exact h.gone x hx

end Book

/-! ## Every step is one of these -/

namespace Placed

/-- A task that the state keeps at a place is there. -/
theorem of_mem (h : Placed s loc) (hp : p.active) (ht : t ∈ s.contents p) : loc t = p :=
  ((h.contents p hp).mem_iff t).1 ht

theorem running (h : Placed s loc) {w : Fin n} (hw : s.workers w = .running t) :
    loc t = .running (some w) := by
  refine h.of_mem ⟨nofun, nofun⟩ ?_
  simp [State.contents, hw, Worker.runs]

theorem returned (h : Placed s loc) {w : Fin n} (hw : s.workers w = .returned t) :
    loc t = .returned (some w) := by
  refine h.of_mem ⟨nofun, nofun⟩ ?_
  simp [State.contents, hw, Worker.ended]

theorem inline (h : Placed s loc) {caller : Caller} (hio : s.io = .inline t caller) :
    loc t = .running none := by
  refine h.of_mem ⟨nofun, nofun⟩ ?_
  simp [State.contents, hio, Io.runs]

theorem returnedInline (h : Placed s loc) {caller : Caller} (hio : s.io = .returned t caller) :
    loc t = .returned none := by
  refine h.of_mem ⟨nofun, nofun⟩ ?_
  simp [State.contents, hio, Io.ended]

theorem queued (h : Placed s loc) (ht : t ∈ s.shifters) : loc t = .queued :=
  h.of_mem ⟨nofun, nofun⟩ ht

theorem popped (h : Placed s loc) {i : Coroutine} (hio : s.io = .popped i) (ht : s.awaits i = some t) :
    loc t = .joining := by
  refine h.of_mem ⟨nofun, nofun⟩ ?_
  simp [State.contents, hio, Io.took, ht]

theorem joining (h : Placed s loc) {i : Coroutine} (hi : i ∈ s.joiners) (ht : s.awaits i = some t) :
    loc t = .joining := by
  refine h.of_mem ⟨nofun, nofun⟩ ?_
  exact List.mem_filterMap.2 ⟨i, List.mem_append_right _ hi, ht⟩

theorem resumed (h : Placed s loc) {i : Coroutine} {caller : Caller} (hio : s.io = .resumed i caller)
    (ht : s.awaits i = some t) : loc t = .resumed := by
  refine h.of_mem ⟨nofun, nofun⟩ ?_
  simp [State.contents, hio, Io.woken, ht]

/-- A task with a worker is awaited. -/
theorem active_running (h : Placed s loc) {w : Fin n} (hw : s.workers w = .running t) :
    (loc t).active := by
  rw [h.running hw]
  exact ⟨nofun, nofun⟩

theorem active_returned (h : Placed s loc) {w : Fin n} (hw : s.workers w = .returned t) :
    (loc t).active := by
  rw [h.returned hw]
  exact ⟨nofun, nofun⟩

theorem active_returnedInline (h : Placed s loc) {caller : Caller} (hio : s.io = .returned t caller) :
    (loc t).active := by
  rw [h.returnedInline hio]
  exact ⟨nofun, nofun⟩

theorem awaited (h : Placed s loc) (ht : (loc t).active) : s.awaits t.coro = some t :=
  (h.book.awaits _ _).2 ⟨rfl, ht⟩

end Placed

/-- **What a step does**, in a state where each task is at its place. -/
theorem step_inv (hs : Placed s loc) {a : Action n} (h : step s a = some s') : ∃ m, Step s a m s' := by
  cases a with
  | read i =>
    simp only [step, Option.ite_none_right_eq_some, Option.some.injEq] at h
    obtain ⟨⟨hio, hi⟩, rfl⟩ := h
    exact ⟨_, .read hio hi⟩
  | run =>
    simp only [step] at h
    split at h
    · rename_i i caller hio
      cases h
      by_cases hn : n = 0
      · unfold State.run State.enqueue
        simp only [if_pos hn, Bool.false_eq_true, if_false]
        exact ⟨_, .inline hio hn⟩
      · unfold State.run State.enqueue
        simp only [if_neg hn, if_true]
        exact ⟨_, .queue hio hn⟩
    · cases h
  | suspend =>
    simp only [step] at h
    split at h
    · rename_i hio
      cases h
      exact ⟨_, .suspend hio⟩
    · cases h
  | take w =>
    simp only [step] at h
    split at h
    · rename_i hw hq
      cases h
      exact ⟨_, .take hw hq⟩
    · cases h
  | ret w =>
    simp only [step] at h
    split at h
    · rename_i hw
      cases h
      exact ⟨_, .ret hw⟩
    · cases h
  | complete w =>
    simp only [step] at h
    split at h
    · rename_i t hw
      -- with workers, the frame has its `_fn`
      have hn : n ≠ 0 := by
        have := w.isLt
        omega
      rw [hs.book.frames t (hs.active_returned hw)] at h
      simp only [Option.map_some, State.complete, Promise.finalSuspend, hn, ne_eq, not_false_eq_true,
        decide_true, Bool.not_true, Bool.false_eq_true, if_false, Option.some.injEq] at h
      rw [← h]
      exact ⟨_, .push hw⟩
    · cases h
  | send w =>
    simp only [step] at h
    split at h
    · rename_i hw
      cases h
      exact ⟨_, .send hw⟩
    · cases h
  | leave w =>
    simp only [step] at h
    split at h
    · rename_i hw
      cases h
      exact ⟨_, .leave hw⟩
    · cases h
  | wake =>
    simp only [step, Option.ite_none_right_eq_some, Option.some.injEq] at h
    obtain ⟨⟨hio, ha⟩, rfl⟩ := h
    exact ⟨_, .wake hio ha⟩
  | test =>
    simp only [step, Option.ite_none_right_eq_some, Option.some.injEq] at h
    obtain ⟨hio, rfl⟩ := h
    by_cases hj : s.joiners = []
    · rw [if_pos (by simp [hj])]
      exact ⟨_, .drained hio hj⟩
    · rw [if_neg (by simpa using hj)]
      exact ⟨_, .more hio hj⟩
  | pop =>
    simp only [step] at h
    split at h
    · rename_i hio hj
      cases h
      exact ⟨_, .pop hio hj⟩
    · cases h
  | resume =>
    simp only [step] at h
    split at h
    · rename_i i hio
      obtain ⟨t, ht, rfl⟩ := Option.map_eq_some_iff.1 h
      exact ⟨_, .resume hio ht⟩
    · cases h
  | destroy =>
    simp only [step] at h
    split at h
    · rename_i i caller hio
      obtain ⟨t, ht, rfl⟩ := Option.map_eq_some_iff.1 h
      exact ⟨_, .destroy hio ht⟩
    · cases h
  | retInline =>
    simp only [step] at h
    split at h
    · rename_i hio
      cases h
      exact ⟨_, .retInline hio⟩
    · cases h
  | completeInline =>
    simp only [step] at h
    split at h
    · rename_i t caller hio
      -- without workers, the frame has no `_fn`
      have hn : n = 0 := by
        have := hs.io
        rwa [IoOk, hio] at this
      rw [hs.book.frames t (hs.active_returnedInline hio)] at h
      simp only [Option.map_some, State.completeInline, Promise.finalSuspend, hn, ne_eq, not_true_eq_false,
        decide_false, Bool.not_false, if_true, Option.some.injEq] at h
      rw [← h]
      exact ⟨_, .transfer hio hn⟩
    · cases h

/-! ## Steps keep the places -/

theorem filterMap_update_of_notMem {l : List Coroutine} {f : Coroutine → Option Task} {i : Coroutine}
    {v : Option Task} (hi : i ∉ l) : l.filterMap (Function.update f i v) = l.filterMap f := by
  refine List.filterMap_congr fun j hj => ?_
  have hji : j ≠ i := by
    rintro rfl
    exact hi hj
  exact Function.update_of_ne hji v f

theorem contents_idle (h : s.io.idle) :
    s.contents (.running none) = [] ∧ s.contents (.returned none) = [] ∧
      s.contents .joining = s.joiners.filterMap s.awaits ∧ s.contents .resumed = [] := by
  obtain ⟨hruns, hended, htook, hwoken⟩ := h
  refine ⟨?_, ?_, ?_, ?_⟩
  · simp only [State.contents, hruns, Option.toList_none]
  · simp only [State.contents, hended, Option.toList_none]
  · simp only [State.contents, htook, Option.toList_none, List.nil_append]
  · simp only [State.contents, hwoken, Option.toList_none, List.filterMap_nil]

/-- A step of a worker leaves the tasks of the other threads alone. -/
theorem running_of_ne {w : Fin n} {x : Worker} {v : Option (Fin n)} (hio : s'.io = s.io)
    (hworkers : s'.workers = Function.update s.workers w x) (hv : v ≠ some w) :
    s'.contents (.running v) = s.contents (.running v) := by
  cases v with
  | none => simp only [State.contents, hio]
  | some v =>
    have hne : v ≠ w := fun h => hv (by rw [h])
    simp only [State.contents, hworkers, Function.update_of_ne hne]

theorem returned_of_ne {w : Fin n} {x : Worker} {v : Option (Fin n)} (hio : s'.io = s.io)
    (hworkers : s'.workers = Function.update s.workers w x) (hv : v ≠ some w) :
    s'.contents (.returned v) = s.contents (.returned v) := by
  cases v with
  | none => simp only [State.contents, hio]
  | some v =>
    have hne : v ≠ w := fun h => hv (by rw [h])
    simp only [State.contents, hworkers, Function.update_of_ne hne]

theorem contents_worker {w : Fin n} {x : Worker} (hworkers : s'.workers = Function.update s.workers w x) :
    s'.contents (.running (some w)) = x.runs.toList ∧ s'.contents (.returned (some w)) = x.ended.toList := by
  simp only [State.contents, hworkers, Function.update_self, and_self]

namespace Placed

/-- A coroutine whose task is not waiting to be joined is not among the joiners. -/
theorem notMem_joiners (hs : Placed s loc) {i : Coroutine}
    (hi : ∀ t, s.awaits i = some t → loc t ≠ .joining) : i ∉ s.joiners := by
  intro hmem
  obtain ⟨t, ht⟩ := Option.isSome_iff_exists.1 (hs.joiners i hmem)
  exact hi t ht (hs.joining hmem ht)

/-- A coroutine whose task is about to be destroyed is not among them. -/
theorem woken_notMem (hs : Placed s loc) {i : Coroutine} {caller : Caller} (hio : s.io = .resumed i caller)
    (ht : s.awaits i = some t) : i ∉ s.joiners := by
  refine hs.notMem_joiners fun t' ht' => ?_
  rw [ht] at ht'
  cases ht'
  rw [hs.resumed hio ht]
  nofun

/-- The task that a coroutine awaits next is nowhere yet, and the coroutine not a joiner. -/
theorem fresh (hs : Placed s loc) {i : Coroutine} {caller : Caller} (hio : s.io = .running i caller) :
    s.awaits i = none ∧ loc ⟨i, s.turns i⟩ = .outside ∧ i ∉ s.joiners := by
  have hi : s.awaits i = none := by
    have := hs.io
    rwa [IoOk, hio] at this
  refine ⟨hi, (hs.book.outside _).2 le_rfl, hs.notMem_joiners fun t ht => ?_⟩
  rw [hi] at ht
  cases ht

/-! ### Steps of a worker -/

theorem take (hs : Placed s loc) {w : Fin n} (hw : s.workers w = .waiting)
    (hq : s.shifters = t :: s'.shifters) (hworkers : s'.workers = Function.update s.workers w (.running t))
    (hio : s'.io = s.io) (hj : s'.joiners = s.joiners) (ha : s'.awaits = s.awaits) :
    Tracks Place.active s'.contents (Function.update loc t (.running (some w))) := by
  have hloc : loc t = .queued := hs.queued (by rw [hq]; exact List.mem_cons_self)
  refine hs.contents.move (by rw [hloc]; nofun) (fun _ => ?_) (fun _ => ?_) fun a _ hfrom hto => ?_
  · rw [hloc]
    exact hq
  · rw [(contents_worker hworkers).1]
    simp only [State.contents, hw, Worker.runs, Option.toList_none, Option.toList_some, List.nil_append]
  · rw [hloc] at hfrom
    match a with
    | .queued => exact absurd rfl hfrom
    | .running v => exact running_of_ne hio hworkers fun hv => hto (by rw [hv])
    | .returned v =>
      by_cases hv : v = some w
      · rw [hv, (contents_worker hworkers).2]
        simp only [State.contents, hw, Worker.ended]
      · exact returned_of_ne hio hworkers hv
    | .joining | .resumed => simp only [State.contents, hio, hj, ha]
    | .outside | .done => rfl

theorem ret (hs : Placed s loc) {w : Fin n} (hw : s.workers w = .running t)
    (hworkers : s'.workers = Function.update s.workers w (.returned t)) (hq : s'.shifters = s.shifters)
    (hio : s'.io = s.io) (hj : s'.joiners = s.joiners) (ha : s'.awaits = s.awaits) :
    Tracks Place.active s'.contents (Function.update loc t (.returned (some w))) := by
  have hloc := hs.running hw
  refine hs.contents.move (by rw [hloc]; nofun) (fun _ => ?_) (fun _ => ?_) fun a _ hfrom hto => ?_
  · rw [hloc, (contents_worker hworkers).1]
    simp only [State.contents, hw, Worker.runs, Option.toList_none, Option.toList_some]
  · rw [(contents_worker hworkers).2]
    simp only [State.contents, hw, Worker.ended, Option.toList_none, Option.toList_some, List.nil_append]
  · rw [hloc] at hfrom
    match a with
    | .running v => exact running_of_ne hio hworkers fun hv => hfrom (by rw [hv])
    | .returned v => exact returned_of_ne hio hworkers fun hv => hto (by rw [hv])
    | .queued => exact hq
    | .joining | .resumed => simp only [State.contents, hio, hj, ha]
    | .outside | .done => rfl

theorem push (hs : Placed s loc) {w : Fin n} (hw : s.workers w = .returned t)
    (hworkers : s'.workers = Function.update s.workers w (.pushed t)) (hq : s'.shifters = s.shifters)
    (hio : s'.io = s.io) (hj : s'.joiners = s.joiners ++ [t.coro]) (ha : s'.awaits = s.awaits)
    (ht : s.awaits t.coro = some t) :
    Tracks Place.active s'.contents (Function.update loc t .joining) := by
  have hloc := hs.returned hw
  refine hs.contents.move (by rw [hloc]; nofun) (fun _ => ?_) (fun _ => ?_) fun a _ hfrom hto => ?_
  · rw [hloc, (contents_worker hworkers).2]
    simp only [State.contents, hw, Worker.ended, Option.toList_none, Option.toList_some]
  · have hone : [t.coro].filterMap s.awaits = [t] := by rw [List.filterMap_cons_some ht]; rfl
    simp only [State.contents, hio, hj, ha, ← List.append_assoc, List.filterMap_append, hone]
  · rw [hloc] at hfrom
    match a with
    | .running v =>
      by_cases hv : v = some w
      · rw [hv, (contents_worker hworkers).1]
        simp only [State.contents, hw, Worker.runs]
      · exact running_of_ne hio hworkers hv
    | .returned v => exact returned_of_ne hio hworkers fun hv => hfrom (by rw [hv])
    | .queued => exact hq
    | .joining => exact absurd rfl hto
    | .resumed => simp only [State.contents, hio, ha]
    | .outside | .done => rfl

/-- A worker goes on without a task to run or to return from. -/
theorem work (hs : Placed s loc) {w : Fin n} {x : Worker} (hruns : (s.workers w).runs = none)
    (hended : (s.workers w).ended = none) (hruns' : x.runs = none) (hended' : x.ended = none)
    (hworkers : s'.workers = Function.update s.workers w x) (hq : s'.shifters = s.shifters)
    (hio : s'.io = s.io) (hj : s'.joiners = s.joiners) (ha : s'.awaits = s.awaits) :
    Tracks Place.active s'.contents loc := by
  refine hs.contents.congr fun a _ => ?_
  match a with
  | .running v =>
    by_cases hv : v = some w
    · rw [hv, (contents_worker hworkers).1, hruns']
      simp only [State.contents, hruns]
    · exact running_of_ne hio hworkers hv
  | .returned v =>
    by_cases hv : v = some w
    · rw [hv, (contents_worker hworkers).2, hended']
      simp only [State.contents, hended]
    · exact returned_of_ne hio hworkers hv
  | .queued => exact hq
  | .joining | .resumed => simp only [State.contents, hio, hj, ha]
  | .outside | .done => rfl

/-! ### Steps of the I/O thread -/

/-- The I/O thread goes on, without a task before or after. -/
theorem idle (hs : Placed s loc) (hidle : s.io.idle) (hidle' : s'.io.idle)
    (hq : s'.shifters = s.shifters) (hw : s'.workers = s.workers) (hj : s'.joiners = s.joiners)
    (ha : s'.awaits = s.awaits) : Tracks Place.active s'.contents loc := by
  obtain ⟨hruns, hended, hjoining, hresumed⟩ := contents_idle hidle
  obtain ⟨hruns', hended', hjoining', hresumed'⟩ := contents_idle hidle'
  refine hs.contents.congr fun a _ => ?_
  match a with
  | .running none => rw [hruns, hruns']
  | .returned none => rw [hended, hended']
  | .joining => rw [hjoining, hjoining', hj, ha]
  | .resumed => rw [hresumed, hresumed']
  | .running (some w) | .returned (some w) => simp only [State.contents, hw]
  | .queued => exact hq
  | .outside | .done => rfl

theorem queue (hs : Placed s loc) {i : Coroutine} {caller : Caller} (hio : s.io = .running i caller)
    (ht : t = ⟨i, s.turns i⟩) (hidle' : s'.io.idle) (hq : s'.shifters = s.shifters ++ [t])
    (hw : s'.workers = s.workers) (hj : s'.joiners = s.joiners)
    (ha : s'.awaits = Function.update s.awaits i (some t)) :
    Tracks Place.active s'.contents (Function.update loc t .queued) := by
  obtain ⟨-, hloc, hnot⟩ := hs.fresh hio
  rw [← ht] at hloc
  have hidle : s.io.idle := by
    rw [hio]
    exact ⟨rfl, rfl, rfl, rfl⟩
  obtain ⟨hruns, hended, hjoining, hresumed⟩ := contents_idle hidle
  obtain ⟨hruns', hended', hjoining', hresumed'⟩ := contents_idle hidle'
  refine hs.contents.move (by rw [hloc]; nofun) (fun hactive => ?_) (fun _ => hq) fun a _ hfrom hto => ?_
  · rw [hloc] at hactive
    exact absurd hactive not_active_outside
  · match a with
    | .queued => exact absurd rfl hto
    | .running none => rw [hruns, hruns']
    | .returned none => rw [hended, hended']
    | .resumed => rw [hresumed, hresumed']
    | .joining => rw [hjoining, hjoining', hj, ha, filterMap_update_of_notMem hnot]
    | .running (some w) | .returned (some w) => simp only [State.contents, hw]
    | .outside | .done => rfl

theorem inlined (hs : Placed s loc) {i : Coroutine} {caller : Caller} (hio : s.io = .running i caller)
    (ht : t = ⟨i, s.turns i⟩) (hio' : s'.io = .inline t caller) (hq : s'.shifters = s.shifters)
    (hw : s'.workers = s.workers) (hj : s'.joiners = s.joiners)
    (ha : s'.awaits = Function.update s.awaits i (some t)) :
    Tracks Place.active s'.contents (Function.update loc t (.running none)) := by
  obtain ⟨-, hloc, hnot⟩ := hs.fresh hio
  rw [← ht] at hloc
  refine hs.contents.move (by rw [hloc]; nofun) (fun hactive => ?_) (fun _ => ?_) fun a _ hfrom hto => ?_
  · rw [hloc] at hactive
    exact absurd hactive not_active_outside
  · simp [State.contents, hio, hio', Io.runs]
  · match a with
    | .running none => exact absurd rfl hto
    | .returned none => simp [State.contents, hio, hio', Io.ended]
    | .resumed => simp [State.contents, hio, hio', Io.woken]
    | .joining => simp [State.contents, hio, hio', Io.took, hj, ha, filterMap_update_of_notMem hnot]
    | .running (some w) | .returned (some w) => simp only [State.contents, hw]
    | .queued => exact hq
    | .outside | .done => rfl

theorem pop (hs : Placed s loc) {i : Coroutine} (hidle : s.io.idle) (hio' : s'.io = .popped i)
    (hq : s'.shifters = s.shifters) (hw : s'.workers = s.workers) (hj : s.joiners = i :: s'.joiners)
    (ha : s'.awaits = s.awaits) : Tracks Place.active s'.contents loc := by
  obtain ⟨hruns, hended, hjoining, hresumed⟩ := contents_idle hidle
  refine hs.contents.congr fun a _ => ?_
  match a with
  | .running none =>
    rw [hruns]
    simp [State.contents, hio', Io.runs]
  | .returned none =>
    rw [hended]
    simp [State.contents, hio', Io.ended]
  | .resumed =>
    rw [hresumed]
    simp [State.contents, hio', Io.woken]
  | .joining =>
    -- what is taken comes before what is left
    rw [hjoining, hj]
    simp only [State.contents, hio', Io.took, ha, Option.toList_some, List.singleton_append]
  | .running (some w) | .returned (some w) => simp only [State.contents, hw]
  | .queued => exact hq
  | .outside | .done => rfl

theorem resume (hs : Placed s loc) {i : Coroutine} {caller : Caller} (hio : s.io = .popped i)
    (ht : s.awaits i = some t) (hio' : s'.io = .resumed i caller) (hq : s'.shifters = s.shifters)
    (hw : s'.workers = s.workers) (hj : s'.joiners = s.joiners) (ha : s'.awaits = s.awaits) :
    Tracks Place.active s'.contents (Function.update loc t .resumed) := by
  have hloc := hs.popped hio ht
  refine hs.contents.move (by rw [hloc]; nofun) (fun _ => ?_) (fun _ => ?_) fun a _ hfrom hto => ?_
  · rw [hloc]
    simp [State.contents, hio, hio', Io.took, hj, ha, ht]
  · simp [State.contents, hio, hio', Io.woken, ha, ht]
  · rw [hloc] at hfrom
    match a with
    | .joining => exact absurd rfl hfrom
    | .resumed => exact absurd rfl hto
    | .running none => simp [State.contents, hio, hio', Io.runs]
    | .returned none => simp [State.contents, hio, hio', Io.ended]
    | .running (some w) | .returned (some w) => simp only [State.contents, hw]
    | .queued => exact hq
    | .outside | .done => rfl

theorem destroy (hs : Placed s loc) {i : Coroutine} {caller : Caller} (hio : s.io = .resumed i caller)
    (ht : s.awaits i = some t) (hidle' : s'.io.idle) (hq : s'.shifters = s.shifters)
    (hw : s'.workers = s.workers) (hj : s'.joiners = s.joiners)
    (ha : s'.awaits = Function.update s.awaits i none) :
    Tracks Place.active s'.contents (Function.update loc t .done) := by
  have hloc := hs.resumed hio ht
  have hnot := hs.woken_notMem hio ht
  obtain ⟨hruns', hended', hjoining', hresumed'⟩ := contents_idle hidle'
  refine hs.contents.move (by rw [hloc]; nofun) (fun _ => ?_) (fun hdone => ?_) fun a _ hfrom hto => ?_
  · rw [hloc, hresumed']
    simp [State.contents, hio, Io.woken, ht]
  · exact absurd hdone not_active_done
  · rw [hloc] at hfrom
    match a with
    | .resumed => exact absurd rfl hfrom
    | .running none =>
      rw [hruns']
      simp [State.contents, hio, Io.runs]
    | .returned none =>
      rw [hended']
      simp [State.contents, hio, Io.ended]
    | .joining =>
      rw [hjoining', hj, ha, filterMap_update_of_notMem hnot]
      simp [State.contents, hio, Io.took]
    | .running (some w) | .returned (some w) => simp only [State.contents, hw]
    | .queued => exact hq
    | .outside | .done => rfl

theorem retInline (hs : Placed s loc) {caller : Caller} (hio : s.io = .inline t caller)
    (hio' : s'.io = .returned t caller) (hq : s'.shifters = s.shifters) (hw : s'.workers = s.workers)
    (hj : s'.joiners = s.joiners) (ha : s'.awaits = s.awaits) :
    Tracks Place.active s'.contents (Function.update loc t (.returned none)) := by
  have hloc := hs.inline hio
  refine hs.contents.move (by rw [hloc]; nofun) (fun _ => ?_) (fun _ => ?_) fun a _ hfrom hto => ?_
  · rw [hloc]
    simp [State.contents, hio, hio', Io.runs]
  · simp [State.contents, hio, hio', Io.ended]
  · rw [hloc] at hfrom
    match a with
    | .running none => exact absurd rfl hfrom
    | .returned none => exact absurd rfl hto
    | .joining => simp [State.contents, hio, hio', Io.took, hj, ha]
    | .resumed => simp [State.contents, hio, hio', Io.woken]
    | .running (some w) | .returned (some w) => simp only [State.contents, hw]
    | .queued => exact hq
    | .outside | .done => rfl

theorem transfer (hs : Placed s loc) {caller : Caller} (hio : s.io = .returned t caller)
    (ht : s.awaits t.coro = some t) (hio' : s'.io = .resumed t.coro caller)
    (hq : s'.shifters = s.shifters) (hw : s'.workers = s.workers) (hj : s'.joiners = s.joiners)
    (ha : s'.awaits = s.awaits) : Tracks Place.active s'.contents (Function.update loc t .resumed) := by
  have hloc := hs.returnedInline hio
  refine hs.contents.move (by rw [hloc]; nofun) (fun _ => ?_) (fun _ => ?_) fun a _ hfrom hto => ?_
  · rw [hloc]
    simp [State.contents, hio, hio', Io.ended]
  · simp [State.contents, hio, hio', Io.woken, ha, ht]
  · rw [hloc] at hfrom
    match a with
    | .returned none => exact absurd rfl hfrom
    | .resumed => exact absurd rfl hto
    | .running none => simp [State.contents, hio, hio', Io.runs]
    | .joining => simp [State.contents, hio, hio', Io.took, hj, ha]
    | .running (some w) | .returned (some w) => simp only [State.contents, hw]
    | .queued => exact hq
    | .outside | .done => rfl

end Placed

/-- The next place of a task. -/
inductive Next : Place n → Place n → Prop
  | queue : Next .outside .queued
  | take (w : Fin n) : Next .queued (.running (some w))
  | ret (w : Fin n) : Next (.running (some w)) (.returned (some w))
  | push (w : Fin n) : Next (.returned (some w)) .joining
  | resume : Next .joining .resumed
  | inline : n = 0 → Next .outside (.running none)
  | retInline : Next (.running none) (.returned none)
  | transfer : Next (.returned none) .resumed
  | destroy : Next .resumed .done

/-- **Each step moves a task to its next place, or none.** -/
theorem Step.next {a : Action n} (hs : Placed s loc) (h : Step s a (some (t, p)) s') : Next (loc t) p := by
  cases h with
  | queue hio _ => rw [(hs.fresh hio).2.1]; exact .queue
  | inline hio hn => rw [(hs.fresh hio).2.1]; exact .inline hn
  | take _ hq => rw [hs.queued (by rw [hq]; exact List.mem_cons_self)]; exact .take _
  | ret hw => rw [hs.running hw]; exact .ret _
  | push hw => rw [hs.returned hw]; exact .push _
  | resume hio ht => rw [hs.popped hio ht]; exact .resume
  | destroy hio ht => rw [hs.resumed hio ht]; exact .destroy
  | retInline hio => rw [hs.inline hio]; exact .retInline
  | transfer hio _ => rw [hs.returnedInline hio]; exact .transfer

/-- What the I/O thread relies on depends on where it is, what is awaited and the joiners. -/
theorem IoOk.congr (h : IoOk s) (hio : s'.io = s.io) (ha : s'.awaits = s.awaits)
    (hj : s.joiners ≠ [] → s'.joiners ≠ []) : IoOk s' := by
  unfold IoOk at h ⊢
  rw [hio, ha]
  cases hcase : s.io with
  | popping =>
    rw [hcase] at h
    exact hj h
  | polling | joining | popped | resumed | running | inline | returned =>
    rw [hcase] at h
    exact h

theorem IoOk.back {caller : Caller} (hio : s.io = caller.back) : IoOk s := by
  unfold IoOk
  rw [hio]
  cases caller <;> trivial

theorem idle_of_io {io : Io} (hio : s.io = io) (h : io.idle) : s.io.idle := by
  rw [hio]
  exact h

/-- Awaiting one more task leaves the joiners as they are. -/
theorem Placed.joiners_await (hs : Placed s loc) {i : Coroutine} (hi : i ∉ s.joiners) {v : Option Task} :
    ∀ j ∈ s.joiners, (Function.update s.awaits i v j).isSome = true := by
  intro j hj
  have hji : j ≠ i := by
    rintro rfl
    exact hi hj
  rw [Function.update_of_ne hji]
  exact hs.joiners j hj

/-- Workers stay out of the connections' coroutines. -/
theorem Placed.ours_set (hs : Placed s loc) {w : Fin n} {x : Worker} (hx : ∀ h, x ≠ .stray h) :
    ∀ v h, Function.update s.workers w x v ≠ .stray h := by
  intro v h
  by_cases hv : v = w
  · rw [hv, Function.update_self]
    exact hx h
  · rw [Function.update_of_ne hv]
    exact hs.ours v h

/-- **Every step keeps each task at its place.** -/
theorem Placed.step {a : Action n} {m : Option (Task × Place n)} (hs : Placed s loc) (h : Step s a m s') :
    Placed s' (moved loc m) := by
  cases h with
  | read hio hi =>
    refine ⟨hs.book.same rfl rfl rfl, ?_, hs.joiners, hs.ours, hi⟩
    exact hs.idle (idle_of_io hio ⟨rfl, rfl, rfl, rfl⟩) ⟨rfl, rfl, rfl, rfl⟩ rfl rfl rfl rfl
  | @queue i caller hio _ =>
    obtain ⟨hi, -, hnot⟩ := hs.fresh hio
    refine ⟨hs.book.start hi rfl ?_ rfl rfl rfl, ?_, hs.joiners_await hnot, hs.ours, IoOk.back rfl⟩
    · exact ⟨nofun, nofun⟩
    · exact hs.queue hio rfl caller.idle_back rfl rfl rfl rfl
  | @inline i caller hio hn =>
    obtain ⟨hi, -, hnot⟩ := hs.fresh hio
    refine ⟨hs.book.start hi rfl ?_ rfl rfl rfl, ?_, hs.joiners_await hnot, hs.ours, hn⟩
    · exact ⟨nofun, nofun⟩
    · exact hs.inlined hio rfl rfl rfl rfl rfl rfl
  | @suspend _ caller hio =>
    refine ⟨hs.book.same rfl rfl rfl, ?_, hs.joiners, hs.ours, IoOk.back rfl⟩
    exact hs.idle (idle_of_io hio ⟨rfl, rfl, rfl, rfl⟩) caller.idle_back rfl rfl rfl rfl
  | take hw hq =>
    refine ⟨hs.book.move ?_ ?_ rfl rfl rfl, hs.take hw hq rfl rfl rfl rfl, hs.joiners, hs.ours_set nofun, hs.io⟩
    · rw [hs.queued (by rw [hq]; exact List.mem_cons_self)]
      exact ⟨nofun, nofun⟩
    · exact ⟨nofun, nofun⟩
  | ret hw =>
    refine ⟨hs.book.move (hs.active_running hw) ?_ rfl rfl rfl, hs.ret hw rfl rfl rfl rfl rfl, hs.joiners,
      hs.ours_set nofun, hs.io⟩
    exact ⟨nofun, nofun⟩
  | @push w t hw =>
    have hfrom := hs.active_returned hw
    have hawaits := hs.awaited hfrom
    refine ⟨hs.book.move hfrom ?_ rfl rfl rfl, hs.push hw rfl rfl rfl rfl rfl hawaits, ?_,
      hs.ours_set nofun, ?_⟩
    · exact ⟨nofun, nofun⟩
    · intro j hj
      rcases List.mem_append.1 hj with hj | hj
      · exact hs.joiners j hj
      · rw [List.mem_singleton.1 hj]
        exact Option.isSome_iff_exists.2 ⟨t, hawaits⟩
    · exact hs.io.congr rfl rfl fun _ => by simp
  | send hw =>
    refine ⟨hs.book.same rfl rfl rfl, ?_, hs.joiners, hs.ours_set nofun, hs.io⟩
    exact hs.work (by rw [hw]; rfl) (by rw [hw]; rfl) rfl rfl rfl rfl rfl rfl rfl
  | leave hw =>
    refine ⟨hs.book.same rfl rfl rfl, ?_, hs.joiners, hs.ours_set nofun, hs.io⟩
    exact hs.work (by rw [hw]; rfl) (by rw [hw]; rfl) rfl rfl rfl rfl rfl rfl rfl
  | wake hio _ =>
    refine ⟨hs.book.same rfl rfl rfl, ?_, hs.joiners, hs.ours, trivial⟩
    exact hs.idle (idle_of_io hio ⟨rfl, rfl, rfl, rfl⟩) ⟨rfl, rfl, rfl, rfl⟩ rfl rfl rfl rfl
  | drained hio _ =>
    refine ⟨hs.book.same rfl rfl rfl, ?_, hs.joiners, hs.ours, trivial⟩
    exact hs.idle (idle_of_io hio ⟨rfl, rfl, rfl, rfl⟩) ⟨rfl, rfl, rfl, rfl⟩ rfl rfl rfl rfl
  | more hio hj =>
    refine ⟨hs.book.same rfl rfl rfl, ?_, hs.joiners, hs.ours, hj⟩
    exact hs.idle (idle_of_io hio ⟨rfl, rfl, rfl, rfl⟩) ⟨rfl, rfl, rfl, rfl⟩ rfl rfl rfl rfl
  | @pop i joiners hio hj =>
    refine ⟨hs.book.same rfl rfl rfl, ?_, fun j hmem => ?_, hs.ours, ?_⟩
    · exact hs.pop (idle_of_io hio ⟨rfl, rfl, rfl, rfl⟩) rfl rfl rfl hj rfl
    · exact hs.joiners j (by rw [hj]; exact List.mem_cons_of_mem _ hmem)
    · exact hs.joiners i (by rw [hj]; exact List.mem_cons_self)
  | resume hio ht =>
    refine ⟨hs.book.move ?_ ?_ rfl rfl rfl, hs.resume hio ht rfl rfl rfl rfl rfl, hs.joiners, hs.ours, ?_⟩
    · rw [hs.popped hio ht]
      exact ⟨nofun, nofun⟩
    · exact ⟨nofun, nofun⟩
    · exact Option.isSome_iff_exists.2 ⟨_, ht⟩
  | @destroy i caller t hio ht =>
    refine ⟨hs.book.finish ht rfl rfl rfl, ?_, hs.joiners_await (hs.woken_notMem hio ht), hs.ours,
      Function.update_self ..⟩
    exact hs.destroy hio ht ⟨rfl, rfl, rfl, rfl⟩ rfl rfl rfl rfl
  | retInline hio =>
    have hn := hs.io
    rw [IoOk, hio] at hn
    refine ⟨hs.book.move ?_ ?_ rfl rfl rfl, hs.retInline hio rfl rfl rfl rfl rfl, hs.joiners, hs.ours, hn⟩
    · rw [hs.inline hio]
      exact ⟨nofun, nofun⟩
    · exact ⟨nofun, nofun⟩
  | @transfer t caller hio hn =>
    have hfrom := hs.active_returnedInline hio
    have hawaits := hs.awaited hfrom
    refine ⟨hs.book.move hfrom ?_ rfl rfl rfl, ?_, hs.joiners, hs.ours, ?_⟩
    · exact ⟨nofun, nofun⟩
    · exact hs.transfer hio hawaits rfl rfl rfl rfl rfl
    · exact Option.isSome_iff_exists.2 ⟨t, hawaits⟩

/-! ## Every thread can go on -/

/-- A worker with a task has a next step. -/
theorem worker_steps (hs : Placed s loc) {w : Fin n} (hw : s.workers w ≠ .waiting) :
    ∃ a ∈ [.ret w, .complete w, .send w, .leave w], (step s a).isSome = true := by
  cases hcase : s.workers w with
  | waiting => exact absurd hcase hw
  | running t => exact ⟨.ret w, by simp, by simp only [step, hcase, Option.isSome_some]⟩
  | returned t =>
    have hactive := hs.active_returned hcase
    refine ⟨.complete w, by simp, ?_⟩
    simp only [step, hcase, hs.book.frames t hactive, Option.map_some, Option.isSome_some]
  | pushed t => exact ⟨.send w, by simp, by simp only [step, hcase, Option.isSome_some]⟩
  | sent t => exact ⟨.leave w, by simp, by simp only [step, hcase, Option.isSome_some]⟩
  | stray h => exact absurd hcase (hs.ours w h)

/-- Outside the event loop, so has the I/O thread. -/
theorem io_steps (hs : Placed s loc) (hio : s.io ≠ .polling) :
    ∃ a ∈ [.run, .test, .pop, .resume, .destroy, .retInline, .completeInline],
      (step s a).isSome = true := by
  have hok := hs.io
  unfold IoOk at hok
  cases hcase : s.io with
  | polling => exact absurd hcase hio
  | joining => exact ⟨.test, by simp, by simp only [step, hcase, if_true, Option.isSome_some]⟩
  | popping =>
    rw [hcase] at hok
    obtain ⟨h, joiners, hj⟩ := List.exists_cons_of_ne_nil hok
    exact ⟨.pop, by simp, by simp only [step, hcase, hj, Option.isSome_some]⟩
  | popped h =>
    rw [hcase] at hok
    refine ⟨.resume, by simp, ?_⟩
    simp only [step, hcase, Option.isSome_map, hok]
  | resumed h caller =>
    rw [hcase] at hok
    refine ⟨.destroy, by simp, ?_⟩
    simp only [step, hcase, Option.isSome_map, hok]
  | running h caller => exact ⟨.run, by simp, by simp only [step, hcase, Option.isSome_some]⟩
  | inline t caller => exact ⟨.retInline, by simp, by simp only [step, hcase, Option.isSome_some]⟩
  | returned t caller =>
    have hactive := hs.active_returnedInline hcase
    refine ⟨.completeInline, by simp, ?_⟩
    simp only [step, hcase, hs.book.frames t hactive, Option.map_some, Option.isSome_some]

end Grpcxx.Uv.Scheduler
