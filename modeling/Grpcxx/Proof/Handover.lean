import Grpcxx.Proof.Stages

/-!
# The scheduler hands over every function

What holds in every state that the scheduler reaches, for any number of workers and
coroutines and in any order of their steps.

* `Logged.step`: what happened to a task is what its place says.
* `Awake.step`: no joiner waits without a wake-up to come.
* `never_stuck`: no thread gets stuck.
* `handed_over`: nothing is lost or duplicated.
-/

namespace Grpcxx.Uv.Scheduler

variable {n : ℕ} {s s' : State n} {loc : Task → Place n} {m : Option (Task × Place n)}
  {a : Action n}

/-! ## What happened -/

/-- The first place at which it has happened. -/
def What.rank : What → ℕ
  | executed => 2
  | returned => 3
  | resumed => 5

/-- The tasks to which it happened, in order. -/
def State.logged (s : State n) (x : What) : List Task :=
  (s.log.filter fun y => y.what = x).map Happening.task

/-- Functions return after they are executed, and coroutines are resumed after that. -/
def Ordered (log : List Happening) : Prop :=
  ∀ pre y post, log = pre ++ y :: post →
    ∀ x : What, x.rank < y.what.rank → ∃ z ∈ pre, z.what = x ∧ z.task = y.task

theorem ordered_snoc {log : List Happening} {y : Happening} (h : Ordered log)
    (hy : ∀ x : What, x.rank < y.what.rank → ∃ z ∈ log, z.what = x ∧ z.task = y.task) :
    Ordered (log ++ [y]) := by
  intro pre z post hlog x hx
  rcases List.eq_nil_or_concat post with rfl | ⟨post', last, rfl⟩
  · obtain ⟨rfl, hzy⟩ := List.append_inj' hlog rfl
    cases hzy
    exact hy x hx
  · rw [List.concat_eq_append, ← List.cons_append, ← List.append_assoc] at hlog
    exact h pre z post' (List.append_inj' hlog rfl).1 x hx

theorem logged_append {x : What} {y : Happening} (hlog : s'.log = s.log ++ [y]) :
    s'.logged x = if y.what = x then s.logged x ++ [y.task] else s.logged x := by
  unfold State.logged
  rw [hlog, List.filter_append, List.map_append]
  split
  · rename_i hx
    simp [hx]
  · rename_i hx
    simp [hx]

/-- **What happened to a task is what its place says**, and it happened once. -/
structure Logged (s : State n) (loc : Task → Place n) : Prop where
  lists : ∀ x : What, Lists (s.logged x) fun t => x.rank ≤ (loc t).rank
  ordered : Ordered s.log
  joined : n ≠ 0 → ∀ y ∈ s.log, y.what = .resumed → y.site = .join

/-- What a step that moves `t` to `p` adds to the log. -/
def Adds (s s' : State n) (q p : Place n) (t : Task) : Prop :=
  (s'.log = s.log ∧ ∀ x : What, x.rank ≤ p.rank ↔ x.rank ≤ q.rank) ∨
    ∃ x site, s'.log = s.log ++ [⟨x, t, site⟩] ∧ q.rank < x.rank ∧
      (∀ y : What, y.rank ≤ p.rank ↔ y = x ∨ y.rank ≤ q.rank) ∧ (n ≠ 0 → x = .resumed → site = .join)

/-- A step adds to the log exactly what its move comes to. -/
theorem Step.adds {t : Task} {p : Place n} (hs : Placed s loc) (h : Step s a (some (t, p)) s') :
    Adds s s' (loc t) p t := by
  -- from 0 to 1, from 3 to 4 and from 5 to 6 nothing happens
  have hnone : ∀ {q p : Place n}, (q.rank = 0 ∧ p.rank = 1 ∨ q.rank = 3 ∧ p.rank = 4 ∨
      q.rank = 5 ∧ p.rank = 6) → ∀ x : What, x.rank ≤ p.rank ↔ x.rank ≤ q.rank := by
    intro q p hqp x
    cases x <;> simp only [What.rank] <;> omega
  cases h with
  | queue hio _ =>
    rw [(hs.fresh hio).2.1]
    exact Or.inl ⟨rfl, hnone (Or.inl ⟨rfl, rfl⟩)⟩
  | push hw =>
    rw [hs.returned hw]
    exact Or.inl ⟨rfl, hnone (Or.inr (Or.inl ⟨rfl, rfl⟩))⟩
  | destroy hio ht =>
    rw [hs.resumed hio ht]
    exact Or.inl ⟨rfl, hnone (Or.inr (Or.inr ⟨rfl, rfl⟩))⟩
  | inline hio hn =>
    rw [(hs.fresh hio).2.1]
    refine Or.inr ⟨.executed, .inline, rfl, Nat.zero_lt_succ _, fun y => ?_, fun hne => absurd hn hne⟩
    cases y <;> simp [What.rank, Place.rank]
  | take _ hq =>
    rw [hs.queued (by rw [hq]; exact List.mem_cons_self)]
    refine Or.inr ⟨.executed, .worker, rfl, Nat.lt_add_one 1, fun y => ?_, fun _ h => by cases h⟩
    cases y <;> simp [What.rank, Place.rank]
  | ret hw =>
    rw [hs.running hw]
    refine Or.inr ⟨.returned, .worker, rfl, Nat.lt_add_one 2, fun y => ?_, fun _ h => by cases h⟩
    cases y <;> simp [What.rank, Place.rank]
  | retInline hio =>
    rw [hs.inline hio]
    refine Or.inr ⟨.returned, .inline, rfl, Nat.lt_add_one 2, fun y => ?_, fun _ h => by cases h⟩
    cases y <;> simp [What.rank, Place.rank]
  | resume hio ht =>
    rw [hs.popped hio ht]
    refine Or.inr ⟨.resumed, .join, rfl, Nat.lt_add_one 4, fun y => ?_, fun _ _ => rfl⟩
    cases y <;> simp [What.rank, Place.rank]
  | transfer hio hn =>
    rw [hs.returnedInline hio]
    refine Or.inr ⟨.resumed, .inline, rfl, by simp [What.rank, Place.rank], fun y => ?_,
      fun hne => absurd hn hne⟩
    cases y <;> simp [What.rank, Place.rank]

/-- A step that moves nothing adds nothing. -/
theorem Step.adds_none (h : Step s a none s') : s'.log = s.log := by
  cases h <;> rfl

/-- **Every step keeps the log in step with the places.** -/
theorem Logged.step (hs : Placed s loc) (hl : Logged s loc) (h : Step s a m s') :
    Logged s' (moved loc m) := by
  cases m with
  | none =>
    have hlog := h.adds_none
    refine ⟨fun x => ?_, by rw [hlog]; exact hl.ordered, by rw [hlog]; exact hl.joined⟩
    show Lists ((s'.log.filter _).map _) _
    rw [hlog]
    exact hl.lists x
  | some tp =>
    obtain ⟨t, p⟩ := tp
    rcases h.adds hs with ⟨hlog, hrank⟩ | ⟨x, site, hlog, hlt, hrank, hsite⟩
    · refine ⟨fun y => ?_, by rw [hlog]; exact hl.ordered, by rw [hlog]; exact hl.joined⟩
      have hlogged : s'.logged y = s.logged y := by
        unfold State.logged
        rw [hlog]
      rw [hlogged]
      refine (hl.lists y).congr fun z => ?_
      by_cases hz : z = t
      · rw [hz, moved, Function.update_self, hrank]
      · rw [moved, Function.update_of_ne hz]
    · -- it has not happened to this task before
      have hnot : ¬ x.rank ≤ (loc t).rank := by omega
      refine ⟨fun y => ?_, ?_, fun hne z hz hresumed => ?_⟩
      · rw [logged_append hlog]
        split
        · rename_i hxy
          cases hxy
          refine ((hl.lists x).snoc hnot).congr fun z => ?_
          by_cases hz : z = t
          · rw [hz, moved, Function.update_self, hrank]
            simp
          · rw [moved, Function.update_of_ne hz]
            simp [hz]
        · rename_i hxy
          refine (hl.lists y).congr fun z => ?_
          by_cases hz : z = t
          · rw [hz, moved, Function.update_self, hrank]
            exact ⟨Or.inr, fun h => h.resolve_left fun hyx => hxy hyx.symm⟩
          · rw [moved, Function.update_of_ne hz]
      · -- what has to come before has happened at the places before
        rw [hlog]
        refine ordered_snoc hl.ordered fun y hy => ?_
        have hbelow : y.rank ≤ (loc t).rank := by
          have hp : y.rank ≤ p.rank := le_trans hy.le ((hrank x).2 (Or.inl rfl))
          rcases (hrank y).1 hp with rfl | hle
          · exact absurd hy (lt_irrefl _)
          · exact hle
        obtain ⟨z, hz, htask⟩ := List.mem_map.1 (((hl.lists y).mem_iff t).2 hbelow)
        obtain ⟨hz, hwhat⟩ := List.mem_filter.1 hz
        exact ⟨z, hz, of_decide_eq_true hwhat, htask⟩
      · rw [hlog] at hz
        rcases List.mem_append.1 hz with hz | hz
        · exact hl.joined hne z hz hresumed
        · rw [List.mem_singleton.1 hz] at hresumed ⊢
          exact hsite hne hresumed

/-! ## Wake-ups -/

/-- The I/O thread is in `join()`, or in a coroutine that this called. -/
def Io.inJoin : Io → Prop
  | polling => False
  | joining | popping | popped _ => True
  | resumed _ caller | running _ caller | inline _ caller | returned _ caller => caller = .join

/-- A wake-up for the joiner is at work, on its way, or still to be sent by the worker that
pushed it. -/
def State.Woken (s : State n) (h : Coroutine) : Prop :=
  s.io.inJoin ∨ s.async = true ∨ ∃ w t, s.workers w = .pushed t ∧ s.awaits h = some t

def Awake (s : State n) : Prop := ∀ h ∈ s.joiners, s.Woken h

theorem Caller.inJoin_back {caller : Caller} (h : caller = .join) : caller.back.inJoin := by
  rw [h]
  trivial

/-- A joiner stays awake as long as nothing is taken away. -/
theorem State.Woken.mono {h : Coroutine} (hwoken : s.Woken h) (hio : s.io.inJoin → s'.io.inJoin)
    (hasync : s.async = true → s'.async = true)
    (hw : ∀ w t, s.workers w = .pushed t → s'.workers w = .pushed t)
    (ha : s'.awaits h = s.awaits h) : s'.Woken h := by
  rcases hwoken with hin | hin | ⟨w, t, hpushed, ht⟩
  · exact Or.inl (hio hin)
  · exact Or.inr (Or.inl (hasync hin))
  · exact Or.inr (Or.inr ⟨w, t, hw w t hpushed, ha.trans ht⟩)

/-- A worker's step leaves the other workers, and so what they have pushed. -/
theorem pushed_of_ne {w v : Fin n} {x : Worker} {t : Task} (hx : ∀ t, s.workers w ≠ .pushed t)
    (hv : s.workers v = .pushed t) : (s.setWorker w x).workers v = .pushed t := by
  have hne : v ≠ w := by
    rintro rfl
    exact hx t hv
  show Function.update s.workers w x v = _
  rw [Function.update_of_ne hne, hv]

/-- **No wake-up is missed.** -/
theorem Awake.step (hs : Placed s loc) (ha : Awake s) (h : Step s a m s') : Awake s' := by
  cases h with
  | read hio _ =>
    refine fun i hi => (ha i hi).mono (fun hin => ?_) id (fun _ _ => id) rfl
    rw [hio] at hin
    exact hin.elim
  | @queue h caller hio _ =>
    refine fun i hi => (ha i hi).mono (fun hin => ?_) id (fun _ _ => id) ?_
    · rw [hio] at hin
      exact Caller.inJoin_back hin
    · have hne : i ≠ h := by
        rintro rfl
        exact (hs.fresh hio).2.2 hi
      exact Function.update_of_ne hne _ _
  | @inline h caller hio _ =>
    refine fun i hi => (ha i hi).mono (fun hin => ?_) id (fun _ _ => id) ?_
    · rw [hio] at hin
      exact hin
    · have hne : i ≠ h := by
        rintro rfl
        exact (hs.fresh hio).2.2 hi
      exact Function.update_of_ne hne _ _
  | suspend hio =>
    refine fun i hi => (ha i hi).mono (fun hin => ?_) id (fun _ _ => id) rfl
    rw [hio] at hin
    exact Caller.inJoin_back hin
  | take hw _ =>
    exact fun i hi => (ha i hi).mono id id (fun _ _ => pushed_of_ne (by rw [hw]; nofun)) rfl
  | ret hw =>
    exact fun i hi => (ha i hi).mono id id (fun _ _ => pushed_of_ne (by rw [hw]; nofun)) rfl
  | leave hw =>
    exact fun i hi => (ha i hi).mono id id (fun _ _ => pushed_of_ne (by rw [hw]; nofun)) rfl
  | @push w t hw =>
    intro i hi
    rcases List.mem_append.1 hi with hi | hi
    · exact (ha i hi).mono id id (fun _ _ => pushed_of_ne (by rw [hw]; nofun)) rfl
    · -- the worker itself has still to send
      rw [List.mem_singleton.1 hi]
      have hawaits := hs.awaited (hs.active_returned hw)
      exact Or.inr (Or.inr ⟨w, t, Function.update_self .., hawaits⟩)
  | send hw =>
    -- the send is a wake-up for all
    exact fun i _ => Or.inr (Or.inl rfl)
  | wake hio _ =>
    -- it is taken, but `join()` begins
    exact fun i _ => Or.inl trivial
  | drained hio hj =>
    -- `join()` ends only when there are no joiners
    intro i hi
    rw [show _ = [] from hj] at hi
    cases hi
  | more hio _ => exact fun i _ => Or.inl trivial
  | pop hio hj => exact fun i _ => Or.inl trivial
  | resume hio _ => exact fun i _ => Or.inl rfl
  | @destroy h caller t hio ht =>
    refine fun i hi => (ha i hi).mono (fun hin => ?_) id (fun _ _ => id) ?_
    · rw [hio] at hin
      exact hin
    · have hne : i ≠ h := by
        rintro rfl
        exact hs.woken_notMem hio ht hi
      exact Function.update_of_ne hne _ _
  | retInline hio =>
    refine fun i hi => (ha i hi).mono (fun hin => ?_) id (fun _ _ => id) rfl
    rw [hio] at hin
    exact hin
  | transfer hio _ =>
    refine fun i hi => (ha i hi).mono (fun hin => ?_) id (fun _ _ => id) rfl
    rw [hio] at hin
    exact hin

/-! ## Runs -/

/-- What holds of every state that is reached. -/
def Inv (s : State n) : Prop := ∃ loc, Placed s loc ∧ Logged s loc ∧ Awake s

theorem inv_start : Inv ({} : State n) := by
  refine ⟨fun _ => .outside, ⟨⟨?_, ?_, ?_, ?_⟩, ?_, ?_, nofun, trivial⟩, ⟨?_, ?_, ?_⟩, ?_⟩
  · exact fun t => iff_of_true rfl (Nat.zero_le _)
  · exact fun h t => iff_of_false (by nofun) fun ht => not_active_outside ht.2
  · exact fun t ht => absurd ht not_active_outside
  · exact fun _ _ => rfl
  · -- nothing is anywhere
    intro p hp
    have hempty : ({} : State n).contents p = [] := by
      match p with
      | .running none | .running (some _) | .returned none | .returned (some _) => rfl
      | .outside | .queued | .joining | .resumed | .done => rfl
    rw [hempty]
    exact Lists.nil fun _ hout => hp.1 hout.symm
  · exact fun h hh => absurd hh List.not_mem_nil
  · refine fun x => Lists.nil fun _ => ?_
    cases x <;> simp [What.rank, Place.rank]
  · intro pre y post hlog
    simp at hlog
  · exact fun _ y hy => absurd hy List.not_mem_nil
  · exact fun h hh => absurd hh List.not_mem_nil

theorem Inv.step (hs : Inv s) (h : step s a = some s') : Inv s' := by
  obtain ⟨loc, hplaced, hlogged, hawake⟩ := hs
  obtain ⟨m, hm⟩ := step_inv hplaced h
  exact ⟨moved loc m, hplaced.step hm, hlogged.step hplaced hm, hawake.step hplaced hm⟩

theorem inv_reached {as : List (Action n)} (hrun : Run.runFrom step {} as = some s) : Inv s :=
  Run.inv_run (fun _ _ _ hs h => hs.step h) inv_start hrun

/-- **No thread gets stuck** outside the event loop and the wait of `loop()`. -/
theorem never_stuck {as : List (Action n)} (hrun : Run.runFrom step {} as = some s) :
    (∀ w, s.workers w ≠ .waiting →
      ∃ a ∈ [.ret w, .complete w, .send w, .leave w], (step s a).isSome = true) ∧
    (s.io ≠ .polling → ∃ a ∈ [.run, .test, .pop, .resume, .destroy, .retInline, .completeInline],
      (step s a).isSome = true) := by
  obtain ⟨loc, hs, -, -⟩ := inv_reached hrun
  exact ⟨fun w => worker_steps hs, io_steps hs⟩

/-! ## The stages of a function -/

/-- Where a function is that was given to `run`. -/
inductive Stage
  | queued
  | running
  | joining
  | resumed
  deriving DecidableEq, Repr

/-- The task whose function a worker executes, up to where it pushes. -/
def Worker.holds : Worker → Option Task
  | running t | returned t => some t
  | _ => none

def Io.holds : Io → Option Task
  | inline t _ | returned t _ => some t
  | _ => none

/-- The functions at each stage: in `_shifters`; with a worker or inline; their coroutine in
`_joiners` or taken from there; their coroutine resumed. -/
def State.stage (s : State n) : Stage → List Task
  | .queued => s.shifters
  | .running => (List.finRange n).filterMap (fun w => (s.workers w).holds) ++ s.io.holds.toList
  | .joining => (s.io.took.toList ++ s.joiners).filterMap s.awaits
  | .resumed => s.logged .resumed

/-- The coroutine has awaited `run` of this function. -/
def State.Awaited (s : State n) (t : Task) : Prop := t.turn < s.turns t.coro

def Place.stage : Place n → Option Stage
  | outside => none
  | queued => some .queued
  | running _ | returned _ => some .running
  | joining => some .joining
  | resumed | done => some .resumed

theorem Placed.holds_worker (hs : Placed s loc) {w : Fin n} {t : Task} :
    (s.workers w).holds = some t ↔ loc t = .running (some w) ∨ loc t = .returned (some w) := by
  rw [← (hs.contents (.running (some w)) ⟨nofun, nofun⟩).mem_iff,
    ← (hs.contents (.returned (some w)) ⟨nofun, nofun⟩).mem_iff]
  simp only [State.contents]
  cases s.workers w <;> simp [Worker.holds, Worker.runs, Worker.ended, eq_comm]

theorem Placed.holds_io (hs : Placed s loc) {t : Task} :
    s.io.holds = some t ↔ loc t = .running none ∨ loc t = .returned none := by
  rw [← (hs.contents (.running none) ⟨nofun, nofun⟩).mem_iff,
    ← (hs.contents (.returned none) ⟨nofun, nofun⟩).mem_iff]
  simp only [State.contents]
  cases s.io <;> simp [Io.holds, Io.runs, Io.ended, eq_comm]

/-- The functions that are running. -/
theorem Placed.lists_running (hs : Placed s loc) :
    Lists (s.stage .running) fun t => (loc t).stage = some .running := by
  have hworkers : Lists ((List.finRange n).filterMap fun w => (s.workers w).holds) fun t =>
      ∃ w, loc t = .running (some w) ∨ loc t = .returned (some w) := by
    refine ⟨(List.nodup_finRange n).filterMap fun w w' t hw hw' => ?_, fun t => ?_⟩
    · rcases hs.holds_worker.1 hw with h | h <;> rcases hs.holds_worker.1 hw' with h' | h' <;>
        rw [h] at h' <;> cases h' <;> rfl
    · rw [List.mem_filterMap]
      constructor
      · rintro ⟨w, -, hw⟩
        exact ⟨w, hs.holds_worker.1 hw⟩
      · rintro ⟨w, hw⟩
        exact ⟨w, List.mem_finRange w, hs.holds_worker.2 hw⟩
  have hio : Lists s.io.holds.toList fun t => loc t = .running none ∨ loc t = .returned none := by
    refine ⟨?_, fun t => ?_⟩
    · cases s.io.holds <;> simp
    · rw [Option.mem_toList]
      exact hs.holds_io
  refine (hworkers.append hio ?_).congr fun t => ?_
  · rintro t ⟨w, h | h⟩ (h' | h') <;> rw [h] at h' <;> cases h'
  · constructor
    · rintro (⟨w, h | h⟩ | h | h) <;> rw [h] <;> rfl
    · intro h
      match hp : loc t with
      | .running none => exact Or.inr (Or.inl rfl)
      | .returned none => exact Or.inr (Or.inr rfl)
      | .running (some w) => exact Or.inl ⟨w, Or.inl rfl⟩
      | .returned (some w) => exact Or.inl ⟨w, Or.inr rfl⟩
      | .outside | .queued | .joining | .resumed | .done =>
        rw [hp] at h
        cases h

/-- The state keeps each function at its stage. -/
theorem lists_stage (hs : Placed s loc) (hl : Logged s loc) (x : Stage) :
    Lists (s.stage x) fun t => (loc t).stage = some x := by
  cases x with
  | queued =>
    refine (hs.contents .queued ⟨nofun, nofun⟩).congr fun t => ?_
    cases loc t <;> simp [Place.stage]
  | running => exact hs.lists_running
  | joining =>
    refine (hs.contents .joining ⟨nofun, nofun⟩).congr fun t => ?_
    cases loc t <;> simp [Place.stage]
  | resumed =>
    refine (hl.lists .resumed).congr fun t => ?_
    cases loc t <;> simp [Place.stage, Place.rank, What.rank]

/-- What the scheduler promises for the functions given to it. -/
structure HandedOver (s : State n) : Prop where
  /-- a function that is awaited is at exactly one stage -/
  one : ∀ t, s.Awaited t → ∃! x, t ∈ s.stage x
  /-- and once -/
  once : ∀ x, (s.stage x).Nodup
  /-- there are no others -/
  awaited : ∀ x, ∀ t ∈ s.stage x, s.Awaited t
  /-- it is executed at most once, -/
  executed : (s.logged .executed).Nodup
  /-- its coroutine is resumed at most once, -/
  resumed : (s.logged .resumed).Nodup
  /-- after it returned, -/
  ordered : Ordered s.log
  /-- and from `join()` where there are workers -/
  joined : n ≠ 0 → ∀ y ∈ s.log, y.what = .resumed → y.site = .join
  /-- no joiner waits without a wake-up to come -/
  awake : ∀ h ∈ s.joiners, s.Woken h

/-- **The scheduler loses and duplicates nothing**, with any number of workers and
coroutines and any interleaving of their steps. -/
theorem handed_over {as : List (Action n)} (hrun : Run.runFrom step {} as = some s) :
    HandedOver s := by
  obtain ⟨loc, hs, hl, ha⟩ := inv_reached hrun
  have hstage := lists_stage hs hl
  have hawaited : ∀ t, s.Awaited t ↔ loc t ≠ .outside := by
    intro t
    rw [Ne, hs.book.outside, State.Awaited, not_le]
  refine ⟨fun t ht => ?_, fun x => (hstage x).nodup, fun x t ht => ?_, (hl.lists _).nodup,
    (hl.lists _).nodup, hl.ordered, hl.joined, ha⟩
  · have hsome : ∃ x, (loc t).stage = some x := by
      cases hp : loc t with
      | outside => exact absurd hp ((hawaited t).1 ht)
      | _ => exact ⟨_, rfl⟩
    obtain ⟨x, hx⟩ := hsome
    refine ⟨x, ((hstage x).mem_iff t).2 hx, fun y hy => ?_⟩
    have hy := ((hstage y).mem_iff t).1 hy
    rw [hx] at hy
    exact (Option.some.inj hy).symm
  · rw [hawaited]
    intro hout
    have hx := ((hstage x).mem_iff t).1 ht
    rw [hout] at hx
    cases hx

/-- Two workers execute the functions of two coroutines. The first coroutine goes on, the second is pushed. -/
def twoFunctions : List (Action 2) :=
  [.read 0, .run, .read 1, .run, .take 0, .take 1, .ret 0, .complete 0, .send 0, .leave 0, .wake, .test, .pop,
    .resume, .destroy, .suspend, .ret 1, .complete 1]

theorem handed_over_two : ∃ s, Run.runFrom step {} twoFunctions = some s ∧
    s.logged .executed = [⟨0, 0⟩, ⟨1, 0⟩] ∧ s.logged .resumed = [⟨0, 0⟩] ∧ HandedOver s := by
  have hruns : (Run.runFrom step {} twoFunctions).map (fun s => (s.logged .executed, s.logged .resumed)) =
      some ([⟨0, 0⟩, ⟨1, 0⟩], [⟨0, 0⟩]) := by decide
  obtain ⟨s, hs, hlogged⟩ := Option.map_eq_some_iff.1 hruns
  obtain ⟨hexecuted, hresumed⟩ := Prod.mk.inj hlogged
  exact ⟨s, hs, hexecuted, hresumed, handed_over hs⟩

end Grpcxx.Uv.Scheduler
