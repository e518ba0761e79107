import Grpcxx.Lib.Halting
import Grpcxx.Proof.Closing
import Mathlib.Data.Prod.Lex

/-!
# Destruction comes to an end

Once `~server` has begun, the workers run out of jobs, the walk closes what is open, and the loop has
only cancelled writes and closes left to do. So the destructors return, whatever the order in which
workers and libuv do this, unless a handle is closed that is not open: there the process ends.

* `Falling`: what a step of destruction does to what is left to do.
* `torn_down`: from `~server` on every run ends, and which of the two ends it comes to.
* `left_behind`: what becomes of the coroutines. One that waited for a write closes its handle again, and
  the frames of all others are left as the walk found them.
-/

namespace Grpcxx.Uv.Shutdown

open Run State

variable {n : ℕ} {active : Bool} {s s' t : State} {i : ℕ} {h : Handle}

/-! ## What is left to do -/

/-- How far destruction is. -/
def Stage.rank : Stage → ℕ
  | .serving => 4
  | .stopping => 3
  | .stopped => 2
  | .draining => 1
  | .done => 0

/-- A cancelled write costs its callback and the close that follows. -/
def Phase.weight : Phase → ℕ
  | .queued | .flushing => 2
  | .running => 1
  | .reading | .joining | .ended => 0

def Life.weight : Life → ℕ
  | .closing => 1
  | .uninit | .opened | .closed => 0

def Conn.weight (c : Conn) : ℕ := c.phase.weight + c.handle.weight

def State.work (s : State) : ℕ :=
  s.listener.weight + s.timer.weight + s.async.weight + (s.conns.map Conn.weight).sum

/-- The stage first, and what is to be done in it second. -/
def State.left (s : State) : ℕ ×ₗ ℕ := toLex (s.stage.rank, s.work)

theorem left_lt_of_rank (hr : s'.stage.rank < s.stage.rank) : s'.left < s.left :=
  Prod.Lex.toLex_lt_toLex.2 (.inl hr)

theorem left_lt_of_work (hs : s'.stage = s.stage) (hw : s'.work < s.work) : s'.left < s.left :=
  Prod.Lex.toLex_lt_toLex.2 (.inr ⟨by rw [hs], hw⟩)

theorem work_setPhase {p : Phase} (hi : s.phase i = p) (hp : p ≠ .ended) (p' : Phase) :
    (s.setPhase i p').work + p.weight = s.work + p'.weight := by
  have hsum := sum_map_modify Conn.weight (fun c => { c with phase := p' }) s.conns i
  unfold phase at hi
  cases hc : s.conns[i]? with
  | none =>
    rw [hc] at hi
    exact absurd hi.symm hp
  | some c =>
    rw [hc] at hi hsum
    have hphase : c.phase = p := hi
    simp only [Option.elim, Function.comp, Conn.weight, hphase] at hsum
    simp only [work, setPhase]
    omega

theorem work_setLife_le (l : Life) : (s.setLife l h).work ≤ s.work + l.weight := by
  cases h with
  | conn i =>
    have hsum := sum_map_modify Conn.weight (fun c => { c with handle := l }) s.conns i
    cases hc : s.conns[i]? with
    | none =>
      rw [hc] at hsum
      simp only [Option.elim] at hsum
      simp only [work, setLife]
      omega
    | some c =>
      rw [hc] at hsum
      simp only [Option.elim, Function.comp, Conn.weight] at hsum
      simp only [work, setLife]
      omega
  | _ => simp only [work, setLife]; omega

/-- A handle that is closed at last. -/
theorem work_closed (hh : s.life h = .closing) : (s.setLife .closed h).work < s.work := by
  have hone : Life.closing.weight = 1 := rfl
  have hzero : Life.closed.weight = 0 := rfl
  cases h with
  | conn i =>
    have hsum := sum_map_modify Conn.weight (fun c => { c with handle := Life.closed }) s.conns i
    have hlife : (s.conns[i]?).elim .uninit Conn.handle = .closing := hh
    cases hc : s.conns[i]? with
    | none =>
      rw [hc] at hlife
      cases hlife
    | some c =>
      rw [hc] at hlife hsum
      have hhandle : c.handle = .closing := hlife
      simp only [Option.elim, Function.comp, Conn.weight, hhandle] at hsum
      simp only [work, setLife]
      omega
  | listener =>
    have hl : s.listener = .closing := hh
    simp only [work, setLife, hl]
    omega
  | timer =>
    have hl : s.timer = .closing := hh
    simp only [work, setLife, hl]
    omega
  | async =>
    have hl : s.async = .closing := hh
    simp only [work, setLife, hl]
    omega

/-- A coroutine that waited for its write is gone, and its handle closes. -/
theorem work_leave (hi : s.phase i = .flushing) : (s.leave i).work < s.work := by
  have hphase : (s.setPhase i .ended).work + 2 = s.work + 0 :=
    work_setPhase hi (by simp) .ended
  have hlife : (s.leave i).work ≤ (s.setPhase i .ended).work + 1 :=
    work_setLife_le (s := s.setPhase i .ended) .closing
  omega

/-! ## Every step of destruction -/

/-- The steps there are. Another stop request can be made at any time, and does nothing. -/
def teardown (n : ℕ) (active : Bool) (s : State) (a : Action) : Option State :=
  if a = .requestStop then none else step n active s a

/-- Destruction has begun. -/
structure Falling (n : ℕ) (s : State) : Prop where
  valid : Valid n s
  begun : s.stage ≠ .serving
  /-- the loop is closed after all handles, which were open -/
  settled : s.stage = .done → Safe s ∧ ∀ h, s.life h ≠ .closing

/-- Where the loop runs, it is that of `~loop`. -/
theorem Falling.draining (hs : Falling n s) (hl : s.loopRuns = true) : s.stage = .draining ∧ Late s := by
  have hstage : s.stage = .draining := by simpa [loopRuns, hs.begun] using hl
  exact ⟨hstage, hs.valid.late (.inl hstage)⟩

theorem Falling.of_stage (hs : Falling n s) (hv : Valid n s') (hstage : s'.stage = s.stage)
    (hdone : s.stage ≠ .done) : Falling n s' where
  valid := hv
  begun := by
    rw [hstage]
    exact hs.begun
  settled := fun h => absurd (hstage.symm.trans h) hdone

/-- **A step of destruction** leaves less to do. -/
theorem Falling.step {a : Action} (hs : Falling n s) (h : Shutdown.step n active s a = some s') :
    Falling n s' ∧ (a ≠ .requestStop → s'.left < s.left) := by
  obtain ⟨hsafe, h⟩ := step_eq_some.1 h
  have hv := hs.valid.step h
  have hworking : s.workersRun = true → s.stage = .stopping := by
    intro hw
    simpa [workersRun, hs.begun] using hw
  cases a with
  | requestStop =>
    cases h
    refine ⟨⟨hv, hs.begun, fun hdone => ⟨hsafe, fun h => ?_⟩⟩, fun hne => absurd rfl hne⟩
    have hlife := (hs.settled hdone).2 h
    cases h <;> exact hlife
  | run b =>
    obtain ⟨⟨hserving, -⟩, -⟩ := guard_eq_some h
    exact absurd hserving hs.begun
  | tick =>
    obtain ⟨⟨hl, htimer⟩, -⟩ := guard_eq_some h
    exact absurd htimer ((hs.draining hl).2 .timer)
  | accept accepted start =>
    obtain ⟨⟨hl, hlistener⟩, -⟩ := guard_eq_some h
    exact absurd hlistener ((hs.draining hl).2 .listener)
  | bytes i pending start =>
    obtain ⟨⟨hl, hi, -⟩, -⟩ := guard_eq_some h
    exact absurd hi ((hs.draining hl).2 _)
  | empty i start =>
    obtain ⟨⟨hl, hi, -⟩, -⟩ := guard_eq_some h
    exact absurd hi ((hs.draining hl).2 _)
  | eof i =>
    obtain ⟨⟨hl, hi, -⟩, -⟩ := guard_eq_some h
    exact absurd hi ((hs.draining hl).2 _)
  | join i pending start =>
    obtain ⟨⟨hl, hasync, -⟩, -⟩ := guard_eq_some h
    exact absurd hasync ((hs.draining hl).2 .async)
  | destroyServer =>
    obtain ⟨hserving, -⟩ := guard_eq_some h
    exact absurd hserving hs.begun
  | take i =>
    obtain ⟨⟨hw, hi, -⟩, rfl⟩ := guard_eq_some h
    have hwork : (s.setPhase i .running).work + 2 = s.work + 1 :=
      work_setPhase hi (by simp) .running
    exact ⟨hs.of_stage hv rfl (by simp [hworking hw]), fun _ => left_lt_of_work rfl (by omega)⟩
  | complete i =>
    obtain ⟨⟨hw, hi⟩, rfl⟩ := guard_eq_some h
    have hwork : (s.setPhase i .joining).work + 1 = s.work + 0 :=
      work_setPhase hi (by simp) .joining
    exact ⟨hs.of_stage hv rfl (by simp [hworking hw]), fun _ => left_lt_of_work rfl (by omega)⟩
  | written i start =>
    obtain ⟨⟨hl, hi⟩, rfl⟩ := guard_eq_some h
    obtain ⟨hstage, hlate⟩ := hs.draining hl
    -- `uv_read_start` fails
    have hawait : s.await i start = s.leave i := if_neg fun hc => hlate _ hc.1
    rw [hawait] at hv ⊢
    exact ⟨hs.of_stage hv rfl (by simp [hstage]), fun _ => left_lt_of_work rfl (work_leave hi)⟩
  | closed h' =>
    obtain ⟨⟨hl, hclosing, -⟩, rfl⟩ := guard_eq_some h
    obtain ⟨hstage, -⟩ := hs.draining hl
    exact ⟨hs.of_stage hv (setLife_stage _) (by simp [hstage]),
      fun _ => left_lt_of_work (setLife_stage _) (work_closed hclosing)⟩
  | destroyScheduler =>
    obtain ⟨⟨hstage, -⟩, rfl⟩ := guard_eq_some h
    have hstopped : (s.destroyScheduler active).stage = .stopped := rfl
    refine ⟨⟨hv, by simp [hstopped], by simp [hstopped]⟩, fun _ => left_lt_of_rank ?_⟩
    rw [hstopped, hstage]
    decide
  | destroyLoop =>
    obtain ⟨hstage, rfl⟩ := guard_eq_some h
    have hdraining : s.destroyLoop.stage = .draining := rfl
    refine ⟨⟨hv, by simp [hdraining], by simp [hdraining]⟩, fun _ => left_lt_of_rank ?_⟩
    rw [hdraining, hstage]
    decide
  | closeLoop =>
    obtain ⟨⟨hstage, hall⟩, rfl⟩ := guard_eq_some h
    have hnone : ∀ h, s.life h ≠ .closing := by
      intro h hh
      have hmem : h ∈ s.handles := mem_handles (by simp [hh])
      have hgone := List.all_eq_true.1 hall h hmem
      simp [hh] at hgone
    refine ⟨⟨hv, by simp, fun _ => ⟨hsafe, fun h => ?_⟩⟩, fun _ => left_lt_of_rank ?_⟩
    · have hlife := hnone h
      cases h <;> exact hlife
    · rw [hstage]
      show Stage.done.rank < Stage.draining.rank
      decide

/-- **Before the loop is closed there is always a step**, if all handles were open that were closed. -/
theorem Falling.rests (hs : Falling n s) (hsafe : Safe s) (hr : Rests (teardown n active) s) :
    s.stage = .done ∧ ∀ h, s.life h = .closed ∨ s.life h = .uninit := by
  have hnone : ∀ a, a ≠ .requestStop → act n active s a = none := by
    intro a ha
    have hno := hr a
    unfold teardown Shutdown.step at hno
    rwa [if_neg ha, aborted_eq_false.2 hsafe, if_neg Bool.false_ne_true] at hno
  have hstuck : ∀ {p : Prop} [Decidable p] {t : State}, (if p then some t else none) = none → ¬ p := by
    intro p _ t h hp
    rw [if_pos hp] at h
    cases h
  have hdone : s.stage = .done := by
    cases hstage : s.stage with
    | serving => exact absurd hstage hs.begun
    | stopping =>
      exfalso
      have hworkers : s.workersRun = true := by simp [workersRun, hstage]
      refine hstuck (hnone .destroyScheduler (by simp)) ⟨hstage, List.all_eq_true.2 fun c hc => ?_⟩
      -- a job that runs could end
      obtain ⟨i, hi⟩ := List.mem_iff_getElem?.1 hc
      have hphase : s.phase i = c.phase := by simp [phase, hi]
      have hno := hstuck (hnone (.complete i) (by simp))
      rw [hphase] at hno
      simpa using fun h => hno ⟨hworkers, h⟩
    | stopped => exact absurd hstage (hstuck (hnone .destroyLoop (by simp)))
    | draining =>
      exfalso
      have hl : s.loopRuns = true := by simp [loopRuns, hstage]
      have hlate := (hs.draining hl).2
      have hclosing : ∀ h, s.life h ≠ .closing := by
        intro h hh
        have hno := hstuck (hnone (.closed h) (by simp))
        cases hw : s.writes h with
        | false => exact hno ⟨hl, hh, by simp [hw]⟩
        | true =>
          -- the write is cancelled first
          cases h with
          | conn i =>
            have hi : s.phase i = .flushing := by simpa [State.writes] using hw
            exact hstuck (hnone (.written i true) (by simp)) ⟨hl, hi⟩
          | _ => cases hw
      refine hstuck (hnone .closeLoop (by simp)) ⟨hstage, List.all_eq_true.2 fun h _ => ?_⟩
      simp [hlate h, hclosing h]
    | done => rfl
  refine ⟨hdone, fun h => ?_⟩
  have hopened := hs.valid.late (.inr hdone) h
  have hclosing := (hs.settled hdone).2 h
  cases hlife : s.life h with
  | uninit => exact .inr rfl
  | opened => exact absurd hlife hopened
  | closing => exact absurd hlife hclosing
  | closed => exact .inl rfl

theorem falling_reached {as : List Action} (hr : runFrom (step n active) (init n) as = some s)
    (hbegun : s.stage ≠ .serving) : Falling n s := by
  have hall : Valid n s ∧ (s.stage ≠ .serving → Falling n s) := by
    refine inv_run (I := fun s => Valid n s ∧ (s.stage ≠ .serving → Falling n s))
      (fun s a s' hI hstep => ?_) ⟨(early_init n).valid (by simp [init]) (by simp [init]), ?_⟩ hr
    · have hact := (step_eq_some.1 hstep).2
      have hv := hI.1.step hact
      refine ⟨hv, fun hbegun' => ?_⟩
      by_cases hserving : s.stage = .serving
      · -- destruction begins here, and is not yet over
        have he := hI.1.early (by simp [hserving]) (by simp [hserving])
        have ha : a ≠ .destroyLoop := by
          rintro rfl
          obtain ⟨hstopped, -⟩ := guard_eq_some hact
          rw [hserving] at hstopped
          cases hstopped
        obtain ⟨-, -, hstage⟩ := he.step (by simp [hserving]) ha hact
        refine ⟨hv, hbegun', fun hdone => ?_⟩
        rw [hdone, hserving] at hstage
        rcases hstage with h | h | h <;> cases h
      · exact ((hI.2 hserving).step hstep).1
    · exact fun h => absurd rfl h
  exact hall.2 hbegun

theorem teardown_eq_some {a : Action} :
    teardown n active s a = some s' ↔ a ≠ .requestStop ∧ Shutdown.step n active s a = some s' := by
  unfold teardown
  by_cases ha : a = .requestStop <;> simp [ha]

theorem falling_halts (hs : Falling n s) : Halts (teardown n active) s := by
  have hstep : ∀ s a s', Falling n s → teardown n active s a = some s' →
      Falling n s' ∧ s'.left < s.left := by
    intro s a s' hs h
    obtain ⟨ha, h⟩ := teardown_eq_some.1 h
    obtain ⟨hs', hleft⟩ := hs.step h
    exact ⟨hs', hleft ha⟩
  exact halts_of_measure (fun s a s' hs h => (hstep s a s' hs h).1)
    (fun s a s' hs h => (hstep s a s' hs h).2) hs

/-- A run of destruction is one of the server. -/
theorem teardown_run {as : List Action} (h : runFrom (teardown n active) s as = some s') :
    runFrom (Shutdown.step n active) s as = some s' := by
  induction as generalizing s with
  | nil => exact h
  | cons a as ih =>
    obtain ⟨t, ht, hrest⟩ := runFrom_cons_eq_some.1 h
    exact runFrom_cons_eq_some.2 ⟨t, (teardown_eq_some.1 ht).2, ih hrest⟩

/-- **Destruction comes to an end.** From any state of any run in which `~server` has begun, whatever
phase the connections were in, and in any order of what workers and libuv do: there is no endless
run. One that cannot go on has closed the loop, and each handle that was opened, if no flush was in
progress at the walk and `_async` was initialised or did not read as active. Otherwise it has closed
a handle that was not open, and the process has ended. -/
theorem torn_down {as : List Action} (hr : runFrom (step n active) (init n) as = some s)
    (hbegun : s.stage ≠ .serving) : Halts (teardown n active) s ∧
      ∀ as' t, runFrom (teardown n active) s as' = some t → Rests (teardown n active) t →
        (Along (step n active) (Spared n active) (init n) (as ++ as') →
          t.stage = .done ∧ ∀ h, t.life h = .closed ∨ t.life h = .uninit) ∧
        (¬ Along (step n active) (Spared n active) (init n) (as ++ as') → t.aborted = true) := by
  have hs := falling_reached hr hbegun
  refine ⟨falling_halts hs, fun as' t hrun hrests => ?_⟩
  have hrun' := teardown_run hrun
  have ht : Falling n t := inv_run (fun _ _ _ hs h => (hs.step h).1) hs hrun'
  have hwhole : runFrom (step n active) (init n) (as ++ as') = some t := by
    rw [runFrom_append, hr]
    exact hrun'
  constructor
  · intro halong
    exact ht.rests (safe_of_spared hwhole halong) hrests
  · intro hnot
    by_contra hgood
    have hsafe : Safe t := aborted_eq_false.1 (Bool.not_eq_true _ ▸ hgood)
    exact hnot (spared_of_done hwhole (ht.rests hsafe hrests).1 hsafe)

/-- Both are ends. -/
theorem rests_of_done (h : s.stage = .done) : Rests (teardown n active) s := by
  intro a
  refine Option.eq_none_iff_forall_ne_some.2 fun s' hstep => ?_
  obtain ⟨ha, hstep⟩ := teardown_eq_some.1 hstep
  have hact := (step_eq_some.1 hstep).2
  cases a with
  | requestStop => exact ha rfl
  | _ => simp [act, loopRuns, workersRun, h] at hact

theorem rests_of_aborted (h : s.aborted = true) : Rests (teardown n active) s := by
  intro a
  refine Option.eq_none_iff_forall_ne_some.2 fun s' hstep => ?_
  have hsafe := (step_eq_some.1 (teardown_eq_some.1 hstep).2).1
  rw [aborted_eq_false.2 hsafe] at h
  cases h

/-- One connection writes and one waits for its job when the server is destroyed. -/
def twoPhases : List Action :=
  [.accept true true, .bytes 0 false false, .take 0, .complete 0, .join 0 true true, .accept true true,
    .bytes 1 true true, .destroyServer]

/-- The write is cancelled. -/
def twoCancelled : List Action := [.take 1, .complete 1, .destroyScheduler, .destroyLoop, .written 0 true]

/-- The write ends before the server is destroyed. -/
def twoWritten : List Action :=
  [.accept true true, .bytes 0 false false, .take 0, .complete 0, .join 0 true true, .written 0 true,
    .accept true true, .bytes 1 true true, .destroyServer]

def twoClosed : List Action :=
  [.destroyScheduler, .destroyLoop, .closed (.conn 0), .closed (.conn 1), .closed .listener,
    .closed .async, .closeLoop]

/-- The first server is destroyed during the write, the second after it. -/
theorem torn_down_two :
    (∃ s t, runFrom (step 1 false) (init 1) twoPhases = some s ∧ Halts (teardown 1 false) s ∧
      runFrom (teardown 1 false) s twoCancelled = some t ∧ t.aborted = true) ∧
    ∃ s t, runFrom (step 1 false) (init 1) twoWritten = some s ∧
      runFrom (teardown 1 false) s twoClosed = some t ∧
      t.stage = .done ∧ ∀ h, t.life h = .closed ∨ t.life h = .uninit := by
  constructor
  · have hruns : ((runFrom (step 1 false) (init 1) twoPhases).bind fun s =>
        (runFrom (teardown 1 false) s twoCancelled).map fun t =>
          (decide (s.stage = .serving), decide (t.stage = .done), t.aborted)) =
        some (false, false, true) := by decide
    obtain ⟨s, hs, hruns⟩ := Option.bind_eq_some_iff.1 hruns
    obtain ⟨t, ht, hends⟩ := Option.map_eq_some_iff.1 hruns
    simp only [Prod.mk.injEq, decide_eq_false_iff_not] at hends
    obtain ⟨hbegun, hstage, haborted⟩ := hends
    obtain ⟨hhalts, hrest⟩ := torn_down hs hbegun
    obtain ⟨hdone, hends⟩ := hrest twoCancelled t ht (rests_of_aborted haborted)
    -- the walk finds the write in progress
    exact ⟨s, t, hs, hhalts, ht, hends fun halong => hstage (hdone halong).1⟩
  · have hruns : ((runFrom (step 1 false) (init 1) twoWritten).bind fun s =>
        (runFrom (teardown 1 false) s twoClosed).map fun t =>
          (decide (s.stage = .serving), decide (t.stage = .done), t.aborted)) =
        some (false, true, false) := by decide
    obtain ⟨s, hs, hruns⟩ := Option.bind_eq_some_iff.1 hruns
    obtain ⟨t, ht, hends⟩ := Option.map_eq_some_iff.1 hruns
    simp only [Prod.mk.injEq, decide_eq_false_iff_not, decide_eq_true_iff] at hends
    obtain ⟨hbegun, hstage, haborted⟩ := hends
    have hwhole : runFrom (step 1 false) (init 1) (twoWritten ++ twoClosed) = some t := by
      rw [runFrom_append, hs]
      exact teardown_run ht
    obtain ⟨-, hrest⟩ := torn_down hs hbegun
    obtain ⟨hdone, -⟩ := hrest twoClosed t ht (rests_of_done hstage)
    exact ⟨s, t, hs, ht, hdone (spared_of_done hwhole hstage (aborted_eq_false.1 haborted))⟩

/-! ## The coroutines -/

/-- After the walk, from a state in which the connections were in the phases of `t`. -/
structure Frozen (n : ℕ) (t s : State) : Prop where
  falling : Falling n s
  late : s.stage = .draining ∨ s.stage = .done
  kept : ∀ i, t.phase i ≠ .flushing → s.phase i = t.phase i
  /-- the write is still under way, or its end has ended the process -/
  written : ∀ i, t.phase i = .flushing →
    s.phase i = .flushing ∧ s.life (.conn i) = .closing ∨ s.phase i = .ended ∧ ¬ Safe s

theorem Frozen.step {a : Action} (hf : Frozen n t s) (h : Shutdown.step n active s a = some s') :
    Frozen n t s' := by
  obtain ⟨hsafe, hact⟩ := step_eq_some.1 h
  have hl := hf.falling.valid.late hf.late
  have hdrained := hl.step hf.late hact
  refine ⟨(hf.falling.step h).1, hdrained.stage hf.late, ?_, ?_⟩
  · intro i hi
    have hkept := hf.kept i hi
    cases hdrained with
    | requestStop => exact hkept
    | written j hj =>
      have hne : i ≠ j := by
        rintro rfl
        exact hi (hkept.symm.trans hj)
      unfold State.leave
      rw [phase_close, phase_setPhase_ne _ hne, hkept]
    | closed h hh => rw [phase_setLife, hkept]
    | done hh => exact hkept
  · intro i hi
    obtain ⟨hflushing, hclosing⟩ : s.phase i = .flushing ∧ s.life (.conn i) = .closing := by
      rcases hf.written i hi with hwritten | ⟨-, hbad⟩
      · exact hwritten
      · exact absurd hsafe hbad
    cases hdrained with
    | requestStop => exact .inl ⟨hflushing, hclosing⟩
    | written j hj =>
      unfold State.leave
      rw [phase_close]
      by_cases hij : i = j
      · -- the second close
        subst hij
        refine .inr ⟨phase_setPhase_ended, fun hsafe' => ?_⟩
        have hopen := hsafe' (.conn i, (s.setPhase i .ended).life (.conn i))
          (List.mem_append_right _ (List.mem_singleton_self _))
        rw [life_setPhase, hclosing] at hopen
        cases hopen
      · have hne : Handle.conn i ≠ .conn j := fun h => hij (Handle.conn.inj h)
        rw [phase_setPhase_ne _ hij, life_close_ne hne, life_setPhase]
        exact .inl ⟨hflushing, hclosing⟩
    | closed h' hh =>
      have hne : Handle.conn i ≠ h' := by
        rintro rfl
        simp [State.writes, hflushing] at hh
      rw [phase_setLife]
      exact .inl ⟨hflushing, by rw [life_setLife_ne _ hne, hclosing]⟩
    | done hh => exact .inl ⟨hflushing, hclosing⟩

theorem frozen_walk {as : List Action} (hr : runFrom (Shutdown.step n active) (init n) as = some t)
    (hstopped : t.stage = .stopped) (hwalk : Shutdown.step n active t .destroyLoop = some s) :
    Frozen n t s := by
  have ht := falling_reached hr (by simp [hstopped])
  have hfalling := (ht.step hwalk).1
  obtain ⟨-, rfl⟩ := guard_eq_some (step_eq_some.1 hwalk).2
  obtain ⟨hlife, hphase, -⟩ := destroyLoop_spec t
  have he := ht.valid.early (by simp [hstopped]) (by simp [hstopped])
  refine ⟨hfalling, .inl rfl, fun i _ => hphase i, fun i hi => .inl ⟨?_, ?_⟩⟩
  · rw [hphase, hi]
  · rw [hlife, if_pos (he.alive i (by simp [hi]))]

/-- **What the walk leaves behind.** In every run, after `uv_walk`: a coroutine that did not wait for a
write is never resumed, so its frame is not destroyed. One that did still waits, or was resumed by the
cancelled write and has ended the process. So while there is one the loop is never closed. -/
theorem left_behind {as as' : List Action}
    (hr : runFrom (Shutdown.step n active) (init n) as = some t) (hstopped : t.stage = .stopped)
    (hd : runFrom (Shutdown.step n active) t (.destroyLoop :: as') = some s) (i : ℕ) :
    (t.phase i ≠ .flushing → s.phase i = t.phase i) ∧
      (t.phase i = .flushing → s.stage ≠ .done ∧
        (s.phase i = .flushing ∨ s.phase i = .ended ∧ s.aborted = true)) := by
  obtain ⟨u, hwalk, hrest⟩ := runFrom_cons_eq_some.1 hd
  have hf : Frozen n t s := inv_run (fun _ _ _ hf h => hf.step h) (frozen_walk hr hstopped hwalk) hrest
  refine ⟨hf.kept i, fun hi => ?_⟩
  rcases hf.written i hi with ⟨hflushing, hclosing⟩ | ⟨hended, hbad⟩
  · exact ⟨fun hdone => (hf.falling.settled hdone).2 _ hclosing, .inl hflushing⟩
  · refine ⟨fun hdone => hbad (hf.falling.settled hdone).1, .inr ⟨hended, ?_⟩⟩
    by_contra hgood
    exact hbad (aborted_eq_false.1 (Bool.not_eq_true _ ▸ hgood))

/-- The coroutine that writes ends the process, and the frame of the other is still there. -/
theorem left_behind_two : ∃ t s, runFrom (Shutdown.step 1 false) (init 1)
      (twoPhases ++ [.destroyScheduler]) = some t ∧
    runFrom (Shutdown.step 1 false) t [.destroyLoop, .closed (.conn 1), .written 0 true] = some s ∧
    (s.stage ≠ .done ∧ (s.phase 0 = .flushing ∨ s.phase 0 = .ended ∧ s.aborted = true)) ∧
    s.phase 1 = t.phase 1 := by
  have hruns : ((runFrom (Shutdown.step 1 false) (init 1) (twoPhases ++ [.destroyScheduler])).bind fun t =>
      (runFrom (Shutdown.step 1 false) t [.destroyLoop, .closed (.conn 1), .written 0 true]).map fun _ =>
        (decide (t.stage = .stopped), t.phase 0, t.phase 1)) = some (true, .flushing, .queued) := by decide
  obtain ⟨t, ht, hruns⟩ := Option.bind_eq_some_iff.1 hruns
  obtain ⟨s, hs, hfound⟩ := Option.map_eq_some_iff.1 hruns
  simp only [Prod.mk.injEq, decide_eq_true_iff] at hfound
  obtain ⟨hstopped, hflushing, hqueued⟩ := hfound
  exact ⟨t, s, ht, hs, (left_behind ht hstopped hs 0).2 hflushing,
    (left_behind ht hstopped hs 1).1 (by simp [hqueued])⟩

end Grpcxx.Uv.Shutdown
