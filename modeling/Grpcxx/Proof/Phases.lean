import Grpcxx.Lib.Simulation
import Grpcxx.Proof.AtRest
import Grpcxx.Proof.Closing
import Mathlib.Data.Fintype.Card

/-!
# What destruction finds

The model of destruction knows of a connection only the phase of its coroutine. It stands for the
system while that serves: whatever the threads do, it can follow (`follows`), so it has run to the
phases that the system is in (`destruction_finds`).

* `Placed.phase`: what the state says of a task is what its place says.
* `Moves.phases`: a step of the system changes the phase of one connection at most, and how.
* `Follows.change`: the model of destruction can do the same.
-/

namespace Grpcxx.Uv

open Shutdown (Phase)

namespace Scheduler

variable {n : ℕ} {s s' : State n} {loc : Task → Place n} {t : Task}

/-- The phase of the coroutine that awaits a task. -/
def Place.phase : Place n → Phase
  | queued => .queued
  | running _ | returned _ => .running
  | outside | joining | resumed | done => .joining

/-- The same, from the state. -/
def State.phase (s : State n) (t : Task) : Phase :=
  if t ∈ s.shifters then .queued else if ∃ w, (s.workers w).holds = some t then .running else .joining

theorem Placed.phase (hs : Placed s loc) (hn : n ≠ 0) (ht : (loc t).active) : s.phase t = (loc t).phase := by
  have hqueued : t ∈ s.shifters ↔ loc t = .queued :=
    (hs.contents .queued ⟨nofun, nofun⟩).mem_iff t
  -- with workers the I/O thread has no function in its hands
  have hinline : ∀ v, loc t = .running v ∨ loc t = .returned v → ∃ w, v = some w := by
    intro v hv
    cases v with
    | some w => exact ⟨w, rfl⟩
    | none =>
      have hholds := hs.holds_io.2 hv
      have hio := hs.io
      unfold IoOk at hio
      cases h : s.io with
      | inline | returned =>
        rw [h] at hio
        exact absurd hio hn
      | _ =>
        rw [h] at hholds
        cases hholds
  unfold State.phase
  simp only [hqueued, hs.holds_worker]
  cases h : loc t with
  | outside => exact absurd h ht.1
  | done => exact absurd h ht.2
  | queued => rfl
  | running v =>
    obtain ⟨w, rfl⟩ := hinline v (Or.inl h)
    rw [if_neg (by simp), if_pos ⟨w, Or.inl rfl⟩]
    rfl
  | returned v =>
    obtain ⟨w, rfl⟩ := hinline v (Or.inr h)
    rw [if_neg (by simp), if_pos ⟨w, Or.inr rfl⟩]
    rfl
  | joining | resumed =>
    rw [if_neg (by simp), if_neg (by simp)]
    rfl

end Scheduler

namespace Shutdown

open State

variable {n : ℕ} {t : State} {h : ℕ}

theorem phase_setPhase_self (hh : h < t.conns.length) (p : Phase) : (t.setPhase h p).phase h = p := by
  simp only [setPhase, phase, List.getElem?_modify, if_pos, List.getElem?_eq_getElem hh]
  rfl

/-- The entries of a list that meet a condition, as positions. -/
theorem countP_eq_card {α : Type*} (p : α → Bool) (l : List α) :
    l.countP p = ((Finset.range l.length).filter fun i => (l[i]?).any p).card := by
  induction l using List.reverseRecOn with
  | nil => rfl
  | append_singleton l x ih =>
    have hsame : (Finset.range l.length).filter (fun i => ((l ++ [x])[i]?).any p) =
        (Finset.range l.length).filter fun i => (l[i]?).any p :=
      Finset.filter_congr fun i hi => by rw [List.getElem?_append_left (Finset.mem_range.1 hi)]
    rw [List.countP_append, List.length_append, List.length_singleton, Finset.range_add_one,
      Finset.filter_insert, hsame, List.getElem?_concat_length, ih, Option.any_some, List.countP_singleton]
    split
    · rw [Finset.card_insert_of_notMem (by simp)]
    · rfl

end Shutdown

namespace System

open Scheduler (Coroutine Task Place Placed moved)

variable {σ : Type} {n k : ℕ} {N : Nghttp2 σ} {b : ServerBase} {results : Coroutine → ℕ → WriteResult}
  {sessions : Coroutine → σ} {inputs : Coroutine → List Input} {s s' : State σ n} {loc : Task → Place n}

/-! ## Phases of the system -/

/-- The phase of a coroutine, given that of the task it awaits, if it does. Without workers it has done
nothing that can be seen from outside until it flushes. -/
def Point.phase (n : ℕ) (awaited : Phase) : Point → Phase
  | reading | viewing _ => .reading
  | working => if n = 0 then .reading else awaited
  | flushing => if n = 0 then .reading else .joining
  | writing _ => .flushing
  | ended => .ended

def State.phase (s : State σ n) (h : Coroutine) : Phase :=
  (s.lines h).point.phase n ((s.sched.awaits h).elim .joining s.sched.phase)

/-- The phase of what a coroutine awaits. -/
theorem phase_eq (hs : Placed s.sched loc) (h : Coroutine) :
    s.phase h = (s.lines h).point.phase n ((s.sched.awaits h).elim .joining fun t => (loc t).phase) := by
  unfold State.phase
  cases ha : s.sched.awaits h with
  | none => rfl
  | some t =>
    by_cases hn : n = 0
    · cases (s.lines h).point <;> simp only [Point.phase, hn, if_true]
    · rw [Option.elim_some, Option.elim_some, hs.phase hn ((hs.book.awaits h t).1 ha).2]

/-- A phase that stays. The task that is moved may be the coroutine's, if that shows nothing. -/
theorem phase_kept (hs : Placed s.sched loc) {m : Option (Task × Place n)}
    (hs' : Placed s'.sched (moved loc m)) {h : Coroutine} (hpoint : (s'.lines h).point = (s.lines h).point)
    (hawaits : s'.sched.awaits h = s.sched.awaits h)
    (hm : ∀ t p, m = some (t, p) → t.coro = h → p.phase = (loc t).phase) : s'.phase h = s.phase h := by
  rw [phase_eq hs', phase_eq hs, hpoint, hawaits]
  congr 1
  cases ha : s.sched.awaits h with
  | none => rfl
  | some u =>
    have hu : u.coro = h := ((hs.book.awaits h u).1 ha).1
    rw [Option.elim_some, Option.elim_some]
    cases m with
    | none => rfl
    | some tp =>
      obtain ⟨t, p⟩ := tp
      by_cases hut : u = t
      · subst hut
        show (Function.update loc u p u).phase = _
        rw [Function.update_self]
        exact hm u p rfl hu
      · show (Function.update loc t p u).phase = _
        rw [Function.update_of_ne hut]

/-- How a step of the system changes the phase of a connection. -/
inductive Change (s : State σ n) : Phase → Phase → Prop
  | eof : Change s .reading .ended
  | queue (hn : n ≠ 0) : Change s .reading .queued
  | take {w : Fin n} (hw : s.sched.workers w = .waiting) : Change s .queued .running
  | complete : Change s .running .joining
  | flushed (hn : n ≠ 0) : Change s .joining .reading
  | flush (hn : n ≠ 0) : Change s .joining .flushing
  | inline (hn : n = 0) : Change s .reading .flushing
  | written : Change s .flushing .reading

/-- The phase is the last one where the coroutine has ended. -/
theorem phase_ended {h : Coroutine} : s.phase h = .ended ↔ (s.lines h).point = .ended := by
  unfold State.phase
  cases (s.lines h).point with
  | reading | viewing _ | writing _ => exact iff_of_false (by simp [Point.phase]) (by simp)
  | ended => exact iff_of_true rfl rfl
  | flushing =>
    refine iff_of_false ?_ (by simp)
    rw [Point.phase]
    split <;> simp
  | working =>
    refine iff_of_false ?_ (by simp)
    rw [Point.phase]
    split
    · simp
    · cases s.sched.awaits h with
      | none => simp
      | some t =>
        rw [Option.elim_some, Scheduler.State.phase]
        split
        · simp
        · split <;> simp

/-- A coroutine that awaits a task is in `co_await run(fn)`. -/
theorem Inv.working (hs : Inv N b results sessions inputs s loc) {h : Coroutine} {t : Task}
    (ht : s.sched.awaits h = some t) : (s.lines h).point = .working := by
  refine (hs.lines h).working.2 ?_
  rw [State.fn, ht]
  rfl

/-- The other connections stay in their phases. -/
theorem phase_others (hs : Placed s.sched loc) {m : Option (Task × Place n)}
    (hs' : Placed s'.sched (moved loc m)) {h : Coroutine} (hlines : ∀ i, i ≠ h → s'.lines i = s.lines i)
    (hawaits : ∀ i, i ≠ h → s'.sched.awaits i = s.sched.awaits i) (hm : ∀ t p, m = some (t, p) → t.coro = h)
    (i : Coroutine) (hi : i ≠ h) : s'.phase i = s.phase i := by
  refine phase_kept hs hs' (congrArg Line.point (hlines i hi)) (hawaits i hi) fun t p htp ht => ?_
  exact absurd (ht.symm.trans (hm t p htp)) hi

/-- All of them do. -/
theorem phase_all (hs : Placed s.sched loc) {m : Option (Task × Place n)} (hs' : Placed s'.sched (moved loc m))
    (hlines : s'.lines = s.lines) (hawaits : s'.sched.awaits = s.sched.awaits)
    (hm : ∀ t p, m = some (t, p) → p.phase = (loc t).phase) (i : Coroutine) : s'.phase i = s.phase i :=
  phase_kept hs hs' (by rw [hlines]) (by rw [hawaits]) fun t p htp _ => hm t p htp

/-- The phase of a coroutine whose point was set. -/
theorem phase_of_point {h : Coroutine} {p : Point} (hp : (s.lines h).point = p) (hpoint : p ≠ .working)
    (q : Phase) : s.phase h = p.phase n q := by
  unfold State.phase
  rw [hp]
  cases p with
  | working => exact absurd rfl hpoint
  | _ => rfl

/-- The phase of a coroutine in `co_await run(fn)`. -/
theorem phase_of_place (hs : Placed s.sched loc) (hn : n ≠ 0) {h : Coroutine}
    (hpoint : (s.lines h).point = .working) {t : Task} (ht : s.sched.awaits h = some t) {p : Place n}
    (hp : loc t = p) : s.phase h = p.phase := by
  rw [phase_eq hs, hpoint, ht, Option.elim_some, hp, Point.phase, if_neg hn]

/-- A step of the scheduler in which no coroutine goes on. -/
theorem pass_phases (hs : Inv N b results sessions inputs s loc) {a : Scheduler.Action n}
    (ha : passes a = true) {sched : Scheduler.State n} (hstep : Scheduler.step s.sched a = some sched) :
    (∀ i, ({ s with sched } : State σ n).phase i = s.phase i) ∨
      ∃ h, ¬ Idle (s.lines h) ∧ Change s (s.phase h) (({ s with sched } : State σ n).phase h) ∧
        ∀ i, i ≠ h → ({ s with sched } : State σ n).phase i = s.phase i := by
  obtain ⟨m, hm, hplaced, -⟩ := hs.schedule hstep
  cases hm with
  | read | queue | inline | suspend | ret | destroy | retInline => cases ha
  | send | leave | wake | drained | more | pop =>
    exact Or.inl (phase_all hs.placed hplaced rfl rfl (by simp))
  | @take w t shifters hw hq =>
    have hn : n ≠ 0 := Nat.ne_of_gt (Nat.lt_of_le_of_lt (Nat.zero_le _) w.isLt)
    have hqueued : loc t = .queued := hs.placed.queued (by rw [hq]; exact List.mem_cons_self)
    have hawaits : s.sched.awaits t.coro = some t := by
      apply hs.placed.awaited
      rw [hqueued]
      exact ⟨nofun, nofun⟩
    have hworking := hs.working hawaits
    refine Or.inr ⟨t.coro, not_idle hworking (by simp), ?_, ?_⟩
    · rw [phase_of_place hs.placed hn hworking hawaits hqueued,
        phase_of_place (s := { s with sched := _ }) hplaced hn hworking hawaits (Function.update_self ..)]
      exact .take hw
    · refine phase_others hs.placed hplaced (fun _ _ => rfl) (fun _ _ => rfl) fun u p hup => ?_
      cases hup
      rfl
  | @push w t hw =>
    have hn : n ≠ 0 := Nat.ne_of_gt (Nat.lt_of_le_of_lt (Nat.zero_le _) w.isLt)
    have hawaits : s.sched.awaits t.coro = some t := hs.placed.awaited (hs.placed.active_returned hw)
    have hworking := hs.working hawaits
    refine Or.inr ⟨t.coro, not_idle hworking (by simp), ?_, ?_⟩
    · rw [phase_of_place hs.placed hn hworking hawaits (hs.placed.returned hw),
        phase_of_place (s := { s with sched := _ }) hplaced hn hworking hawaits (Function.update_self ..)]
      exact .complete
    · refine phase_others hs.placed hplaced (fun _ _ => rfl) (fun _ _ => rfl) fun u p hup => ?_
      cases hup
      rfl
  | @resume h t hio ht =>
    refine Or.inl (phase_all hs.placed hplaced rfl rfl fun u p hup => ?_)
    cases hup
    rw [hs.placed.popped hio ht]
    rfl
  | @transfer t caller hio hn =>
    -- without workers nothing of this can be seen
    refine Or.inl fun i => ?_
    unfold State.phase
    show Point.phase n _ (s.lines i).point = _
    cases (s.lines i).point <;> simp only [Point.phase, hn, if_true]

/-- The coroutine gives a function to the scheduler. -/
theorem run_phases (hs : Inv N b results sessions inputs s loc) {h : Coroutine} {x : UInt8} {bytes : Bytes}
    (hrun : s.running = some h) (hpoint : (s.lines h).point = .viewing (x :: bytes))
    {sched : Scheduler.State n} (hstep : Scheduler.step s.sched .run = some sched)
    (hs' : s' = ({ s with sched }.setLine h { s.lines h with point := .working }).setJob
      ⟨h, s.sched.turns h⟩ (.read (x :: bytes))) :
    (s'.phase h = s.phase h ∨ Change s (s.phase h) (s'.phase h)) ∧ ∀ i, i ≠ h → s'.phase i = s.phase i := by
  obtain ⟨caller, hcaller⟩ := running_eq_some.1 hrun
  obtain ⟨m, hm, hplaced, -⟩ := hs.schedule hstep
  obtain ⟨p, rfl, hp, hawaits⟩ : ∃ p : Place n, m = some (⟨h, s.sched.turns h⟩, p) ∧
      (n ≠ 0 → p = .queued) ∧
      sched.awaits = Function.update s.sched.awaits h (some ⟨h, s.sched.turns h⟩) := by
    cases hm with
    | queue hio _ =>
      cases hcaller.symm.trans hio
      exact ⟨.queued, rfl, fun _ => rfl, rfl⟩
    | inline hio hn =>
      cases hcaller.symm.trans hio
      exact ⟨.running none, rfl, fun hn' => absurd hn hn', rfl⟩
  have hplaced' : Placed s'.sched (moved loc (some (⟨h, s.sched.turns h⟩, p))) := by
    rw [hs']
    exact hplaced
  have hawaits' : s'.sched.awaits = Function.update s.sched.awaits h (some ⟨h, s.sched.turns h⟩) := by
    rw [hs']
    exact hawaits
  have hlines : s'.lines = Function.update s.lines h { s.lines h with point := .working } := by
    rw [hs']
    rfl
  have hworking : (s'.lines h).point = .working := by rw [hlines, Function.update_self]
  have hbefore : s.phase h = .reading := phase_of_point hpoint (by simp) .joining
  refine ⟨?_, phase_others hs.placed hplaced' (fun i hi => ?_) (fun i hi => ?_) (by simp)⟩
  · by_cases hn : n = 0
    · refine Or.inl ?_
      rw [hbefore, State.phase, hworking, Point.phase, if_pos hn]
    · refine Or.inr ?_
      rw [hbefore, phase_of_place hplaced' hn hworking (by rw [hawaits', Function.update_self])
        (Function.update_self ..), hp hn]
      exact .queue hn
  · rw [hlines, Function.update_of_ne hi]
  · rw [hawaits', Function.update_of_ne hi]

/-- The coroutine goes on after its function has returned. -/
theorem destroy_phases (hs : Inv N b results sessions inputs s loc) {h : Coroutine}
    (hres : s.resumed = some h) {sched : Scheduler.State n}
    (hstep : Scheduler.step s.sched .destroy = some sched)
    (hs' : s' = { s with sched }.setLine h { s.lines h with point := .flushing }) (i : Coroutine) :
    s'.phase i = s.phase i := by
  obtain ⟨caller, hio⟩ := resumed_eq_some.1 hres
  obtain ⟨m, hm, hplaced, -⟩ := hs.schedule hstep
  cases hm with
  | @destroy _ _ t hio' ht =>
    cases hio.symm.trans hio'
    have hlines : s'.lines = Function.update s.lines h { s.lines h with point := .flushing } := by
      rw [hs']
      rfl
    by_cases hi : i = h
    · have hflushing : (s'.lines i).point = .flushing := by rw [hi, hlines, Function.update_self]
      rw [phase_of_point hflushing (by simp) .joining, hi, phase_eq hs.placed, hs.working ht, ht,
        Option.elim_some, hs.placed.resumed hio ht]
      rfl
    · have hplaced' : Placed s'.sched (moved loc (some (t, .done))) := by
        rw [hs']
        exact hplaced
      refine phase_others hs.placed hplaced' (fun j hj => ?_) (fun j hj => ?_) (fun u p hup => ?_) i hi
      · rw [hlines, Function.update_of_ne hj]
      · rw [hs']
        exact Function.update_of_ne hj _ _
      · cases hup
        exact ((hs.placed.book.awaits h t).1 ht).1

/-- The point of one coroutine is set, and no task is moved. -/
theorem point_phases (hs : Inv N b results sessions inputs s loc) {sched : Scheduler.State n}
    (hplaced : Placed sched loc) (hawaits : sched.awaits = s.sched.awaits) {h : Coroutine} {l : Line σ}
    (hchange : ∀ q, l.point.phase n q = (s.lines h).point.phase n q ∨
      ¬ Idle (s.lines h) ∧ Change s ((s.lines h).point.phase n q) (l.point.phase n q))
    (hpoint : (s.lines h).point ≠ .working) (hpoint' : l.point ≠ .working) :
    (∀ i, ({ s with sched }.setLine h l).phase i = s.phase i) ∨ ∃ h', ¬ Idle (s.lines h') ∧
      Change s (s.phase h') (({ s with sched }.setLine h l).phase h') ∧
      ∀ i, i ≠ h' → ({ s with sched }.setLine h l).phase i = s.phase i := by
  have hothers : ∀ i, i ≠ h → ({ s with sched }.setLine h l).phase i = s.phase i :=
    phase_others (m := none) hs.placed hplaced (fun i hi => Function.update_of_ne hi _ _)
      (fun i _ => congrFun hawaits i) (by simp)
  have hbefore := phase_of_point rfl hpoint .joining
  have hafter : ({ s with sched }.setLine h l).phase h = l.point.phase n .joining :=
    phase_of_point (congrArg Line.point (Function.update_self ..)) hpoint' .joining
  rcases hchange .joining with hsame | ⟨hidle, hchange⟩
  · refine Or.inl fun i => ?_
    by_cases hi : i = h
    · rw [hi, hafter, hbefore, hsame]
    · exact hothers i hi
  · refine Or.inr ⟨h, hidle, ?_, hothers⟩
    rw [hafter, hbefore]
    exact hchange

/-- **What a step does to the phases**: one connection at most changes its phase. -/
theorem Moves.phases (hs : Inv N b results sessions inputs s loc) {a : Action n}
    (h : Moves N b results s a s') :
    (∀ i, s'.phase i = s.phase i) ∨
      ∃ h, ¬ Idle (s.lines h) ∧ Change s (s.phase h) (s'.phase h) ∧ ∀ i, i ≠ h → s'.phase i = s.phase i := by
  cases h with
  | @read h i rest sched hpoint hinputs hsched =>
    obtain ⟨m, hm, hplaced, -⟩ := hs.schedule hsched
    cases hm with
    | read hio hh =>
      refine point_phases hs hplaced rfl (fun q => ?_) (by rw [hpoint]; simp) (by cases i <;> simp [Line.take])
      have hidle : ¬ Idle (s.lines h) := fun hidle => by
        have hnil := hidle.2
        rw [hinputs] at hnil
        cases hnil
      rw [hpoint]
      cases i with
      | bytes bytes => exact Or.inl rfl
      | eos | error => exact Or.inr ⟨hidle, .eof⟩
  | @skip h hrun hpoint =>
    refine point_phases hs hs.placed rfl (fun q => Or.inl ?_) (by rw [hpoint]; simp) (by simp)
    rw [hpoint]
    rfl
  | suspend hrun hpoint hsched =>
    obtain ⟨m, hm, hplaced, -⟩ := hs.schedule hsched
    cases hm with
    | suspend hio => exact Or.inl (phase_all hs.placed hplaced rfl rfl (by simp))
  | @run h x bytes sched hrun hpoint hsched =>
    obtain ⟨hone, hothers⟩ := run_phases hs hrun hpoint hsched rfl
    rcases hone with hsame | hchange
    · refine Or.inl fun i => ?_
      by_cases hi : i = h
      · rw [hi]
        exact hsame
      · exact hothers i hi
    · exact Or.inr ⟨h, not_idle hpoint (by simp), hchange, hothers⟩
  | @work v t job w hv ht hwork | @throw v t e w hv ht hwork =>
    refine Or.inl (fun i => ?_)
    unfold State.phase
    by_cases hi : i = t.coro
    · subst hi
      show Point.phase n _ (Function.update s.lines t.coro _ t.coro).point = _
      rw [Function.update_self]
      rfl
    · show Point.phase n _ (Function.update s.lines t.coro _ i).point = _
      rw [Function.update_of_ne hi]
      rfl
  | @ret v t sched hv ht hsched =>
    obtain ⟨m, hm, hplaced, -⟩ := hs.schedule hsched
    cases v with
    | some w =>
      cases hm with
      | ret hw =>
        refine Or.inl (phase_all hs.placed hplaced rfl rfl fun u p hup => ?_)
        cases hup
        rw [hs.placed.running hw]
        rfl
    | none =>
      cases hm with
      | retInline hio =>
        refine Or.inl (phase_all hs.placed hplaced rfl rfl fun u p hup => ?_)
        cases hup
        rw [hs.placed.inline hio]
        rfl
  | destroy hres hsched => exact Or.inl (destroy_phases hs hres hsched rfl)
  | @flushed h l hrun hpoint hflush hback =>
    refine point_phases hs hs.placed rfl (fun q => ?_) (by rw [hpoint]; simp) (by rw [hback]; simp)
    rw [hpoint, hback]
    by_cases hn : n = 0
    · exact Or.inl (if_pos hn).symm
    · refine Or.inr ⟨not_idle hpoint (by simp), ?_⟩
      show Change s (if n = 0 then .reading else .joining) .reading
      rw [if_neg hn]
      exact .flushed hn
  | @flush h l r sched hrun hpoint hflush hwriting hsched =>
    obtain ⟨m, hm, hplaced, -⟩ := hs.schedule hsched
    cases hm with
    | suspend hio =>
      refine point_phases hs hplaced rfl (fun q => Or.inr ⟨not_idle hpoint (by simp), ?_⟩)
        (by rw [hpoint]; simp) (by rw [hwriting]; simp)
      rw [hpoint, hwriting]
      by_cases hn : n = 0
      · rw [Point.phase, if_pos hn]
        exact .inline hn
      · rw [Point.phase, if_neg hn]
        exact .flush hn
  | @written h r sched hpoint hsched =>
    obtain ⟨m, hm, hplaced, -⟩ := hs.schedule hsched
    cases hm with
    | read hio hh =>
      have hback : ((s.lines h).written r).point = .reading := by cases r <;> rfl
      refine point_phases hs hplaced rfl (fun q => Or.inr ⟨not_idle hpoint (by simp), ?_⟩)
        (by rw [hpoint]; simp) (by rw [hback]; simp)
      rw [hpoint, hback]
      exact .written
  | pass ha hsched => exact pass_phases hs ha hsched

/-! ## The model of destruction follows -/

open Shutdown (Early)

/-- While `k` connections are served, the model of destruction is at their phases. -/
structure Follows (k : ℕ) (s : State σ n) (t : Shutdown.State) : Prop where
  early : Early n t
  safe : Shutdown.Safe t
  serving : t.stage = .serving
  length : t.conns.length = k
  phases : ∀ h, h < k → t.phase h = s.phase h
  handles : ∀ h, h < k → (t.life (.conn h) = .opened ↔ t.phase h ≠ .ended)

variable {t t' : Shutdown.State} {h : Coroutine}

/-- A function that runs is with a worker. -/
theorem held_of_phase (hrunning : s.phase h = .running) :
    ∃ t w, s.sched.awaits h = some t ∧ (s.sched.workers w).holds = some t := by
  unfold State.phase at hrunning
  cases hpoint : (s.lines h).point with
  | working =>
    rw [hpoint, Point.phase] at hrunning
    split at hrunning
    · cases hrunning
    · cases ht : s.sched.awaits h with
      | none =>
        rw [ht] at hrunning
        cases hrunning
      | some t =>
        rw [ht, Option.elim_some, Scheduler.State.phase] at hrunning
        split at hrunning
        · cases hrunning
        · split at hrunning
          · rename_i hheld
            obtain ⟨w, hw⟩ := hheld
            exact ⟨t, w, rfl, hw⟩
          · cases hrunning
  | flushing =>
    rw [hpoint, Point.phase] at hrunning
    split at hrunning <;> cases hrunning
  | _ =>
    rw [hpoint] at hrunning
    cases hrunning

/-- Functions that run are with different workers. -/
theorem Follows.running_lt (ht : Follows k s t) (hs : Placed s.sched loc) {w : Fin n}
    (hw : s.sched.workers w = .waiting) : t.conns.countP (fun c => c.phase = .running) < n := by
  have hwith : ∀ i, ∃ v : Fin n, i < k → t.phase i = .running →
      ∃ u, s.sched.awaits i = some u ∧ (s.sched.workers v).holds = some u := by
    intro i
    by_cases hi : i < k ∧ t.phase i = .running
    · obtain ⟨u, v, hu, hv⟩ := held_of_phase ((ht.phases i hi.1).symm.trans hi.2)
      exact ⟨v, fun _ _ => ⟨u, hu, hv⟩⟩
    · exact ⟨w, fun hlt hrunning => absurd ⟨hlt, hrunning⟩ hi⟩
  choose f hf using hwith
  have hrunning : ∀ i, i ∈ ((Finset.range t.conns.length).filter fun i =>
      (t.conns[i]?).any fun c => c.phase = .running) → i < k ∧ t.phase i = .running := by
    intro i hi
    obtain ⟨hi, hphase⟩ := Finset.mem_filter.1 hi
    have hlt : i < t.conns.length := Finset.mem_range.1 hi
    rw [List.getElem?_eq_getElem hlt, Option.any_some, decide_eq_true_iff] at hphase
    refine ⟨ht.length ▸ hlt, ?_⟩
    unfold Shutdown.State.phase
    rw [List.getElem?_eq_getElem hlt]
    exact hphase
  rw [Shutdown.countP_eq_card]
  have hcard : ((Finset.range t.conns.length).filter fun i =>
      (t.conns[i]?).any fun c => c.phase = .running).card ≤ ((Finset.univ : Finset (Fin n)).erase w).card := by
    refine Finset.card_le_card_of_injOn f (fun i hi => ?_) fun i hi j hj hij => ?_
    · obtain ⟨hlt, hphase⟩ := hrunning i hi
      obtain ⟨u, -, hu⟩ := hf i hlt hphase
      refine Finset.mem_coe.2 (Finset.mem_erase.2 ⟨fun hfw => ?_, Finset.mem_univ _⟩)
      rw [hfw, hw] at hu
      cases hu
    · obtain ⟨hlt, hphase⟩ := hrunning i hi
      obtain ⟨u, hawaits, hu⟩ := hf i hlt hphase
      obtain ⟨hlt', hphase'⟩ := hrunning j hj
      obtain ⟨u', hawaits', hu'⟩ := hf j hlt' hphase'
      rw [← hij, hu] at hu'
      cases hu'
      exact ((hs.book.awaits i u).1 hawaits).1.symm.trans ((hs.book.awaits j u).1 hawaits').1
  rw [Finset.card_erase_of_mem (Finset.mem_univ w), Finset.card_univ, Fintype.card_fin] at hcard
  have hlt := w.isLt
  omega

/-- One coroutine has moved on, to a phase in which it is still there. -/
theorem Follows.setPhase (ht : Follows k s t) (hh : h < k) {p : Phase} (hp : p ≠ .ended)
    (halive : t.phase h ≠ .ended) (hphase : s'.phase h = p)
    (hothers : ∀ i, i ≠ h → s'.phase i = s.phase i) : Follows k s' (t.setPhase h p) where
  early := (Shutdown.Moved.setPhase p ((ht.handles h hh).2 halive)).early ht.early
  safe := (Shutdown.Moved.setPhase p ((ht.handles h hh).2 halive)).safe ht.safe
  serving := ht.serving
  length := by
    show (t.conns.modify h _).length = k
    rw [List.length_modify, ht.length]
  phases := by
    intro i hi
    by_cases hih : i = h
    · rw [hih, Shutdown.phase_setPhase_self (ht.length.symm ▸ hh), hphase]
    · rw [Shutdown.phase_setPhase_ne _ hih, hothers i hih, ht.phases i hi]
  handles := by
    intro i hi
    rw [Shutdown.life_setPhase, ht.handles i hi]
    by_cases hih : i = h
    · rw [hih, Shutdown.phase_setPhase_self (ht.length.symm ▸ hh)]
      exact iff_of_true halive hp
    · rw [Shutdown.phase_setPhase_ne _ hih]

/-- One coroutine has ended. -/
theorem Follows.leave (ht : Follows k s t) (hh : h < k) (halive : t.phase h ≠ .ended)
    (hphase : s'.phase h = .ended) (hothers : ∀ i, i ≠ h → s'.phase i = s.phase i) :
    Follows k s' (t.leave h) where
  early := (Shutdown.Moved.leave ((ht.handles h hh).2 halive)).early ht.early
  safe := (Shutdown.Moved.leave ((ht.handles h hh).2 halive)).safe ht.safe
  serving := (Shutdown.Moved.leave ((ht.handles h hh).2 halive)).stage.trans ht.serving
  length := by
    show ((t.conns.modify h _).modify h _).length = k
    rw [List.length_modify, List.length_modify, ht.length]
  phases := by
    intro i hi
    unfold Shutdown.State.leave
    rw [Shutdown.phase_close]
    by_cases hih : i = h
    · rw [hih, Shutdown.phase_setPhase_ended, hphase]
    · rw [Shutdown.phase_setPhase_ne _ hih, hothers i hih, ht.phases i hi]
  handles := by
    intro i hi
    unfold Shutdown.State.leave
    rw [Shutdown.phase_close]
    by_cases hih : i = h
    · subst hih
      have hopened : (t.setPhase i .ended).life (.conn i) = .opened := by
        rw [Shutdown.life_setPhase]
        exact (ht.handles i hi).2 halive
      rw [Shutdown.phase_setPhase_ended, Shutdown.life_close_self (by rw [hopened]; simp)]
      exact iff_of_false (by simp) (by simp)
    · have hne : Shutdown.Handle.conn i ≠ .conn h := fun heq => hih (Shutdown.Handle.conn.inj heq)
      rw [Shutdown.life_close_ne hne, Shutdown.life_setPhase, Shutdown.phase_setPhase_ne _ hih, ht.handles i hi]

/-- **The model of destruction can do the same.** -/
theorem Follows.change (active : Bool) (ht : Follows k s t) (hs : Placed s.sched loc) (hh : h < k)
    (hchange : Change s (s.phase h) (s'.phase h)) (hothers : ∀ i, i ≠ h → s'.phase i = s.phase i) :
    ∃ a t', Shutdown.step n active t a = some t' ∧ Follows k s' t' := by
  have hloop : t.loopRuns = true := by rw [Shutdown.State.loopRuns, ht.serving]; rfl
  have hworkers : t.workersRun = true := by rw [Shutdown.State.workersRun, ht.serving]; rfl
  have hasync : n ≠ 0 → t.async = .opened := fun hn => by
    rw [ht.early.async (by rw [ht.serving]; simp), Shutdown.init, if_neg hn]
  have hphase := ht.phases h hh
  have halive := (ht.handles h hh).2
  generalize hp : s.phase h = p at hchange hphase
  generalize hq : s'.phase h = q at hchange
  rw [hphase] at halive
  have hawait : p ≠ .ended → t.await h true = t.setPhase h .reading := fun hpe =>
    if_pos ⟨halive hpe, rfl⟩
  have hset : ∀ {q}, q ≠ .ended → p ≠ .ended → s'.phase h = q → Follows k s' (t.setPhase h q) :=
    fun hqe hpe hq => ht.setPhase hh hqe (by rw [hphase]; exact hpe) hq hothers
  -- no handle was closed that was not open, so the process is there
  have hstep : ∀ {a p} [Decidable p] {u : Shutdown.State},
      Shutdown.act n active t a = (if p then some u else none) → p → Shutdown.step n active t a = some u :=
    fun hact hp => Shutdown.step_eq_some.2 ⟨ht.safe, hact.trans (if_pos hp)⟩
  cases hchange with
  | eof =>
    exact ⟨.eof h, _, hstep rfl ⟨hloop, halive (by simp), hphase⟩,
      ht.leave hh (by rw [hphase]; simp) hq hothers⟩
  | queue hn =>
    refine ⟨.bytes h false true, _, hstep rfl ⟨hloop, halive (by simp), hphase⟩, ?_⟩
    rw [if_neg hn]
    exact hset (by simp) (by simp) hq
  | take hw =>
    exact ⟨.take h, _, hstep rfl ⟨hworkers, hphase, ht.running_lt hs hw⟩, hset (by simp) (by simp) hq⟩
  | complete => exact ⟨.complete h, _, hstep rfl ⟨hworkers, hphase⟩, hset (by simp) (by simp) hq⟩
  | flushed hn =>
    refine ⟨.join h false true, _, hstep rfl ⟨hloop, hasync hn, hphase⟩, ?_⟩
    show Follows k s' (t.await h true)
    rw [hawait (by simp)]
    exact hset (by simp) (by simp) hq
  | flush hn =>
    exact ⟨.join h true true, _, hstep rfl ⟨hloop, hasync hn, hphase⟩, hset (by simp) (by simp) hq⟩
  | inline hn =>
    refine ⟨.bytes h true true, _, hstep rfl ⟨hloop, halive (by simp), hphase⟩, ?_⟩
    rw [if_pos hn]
    exact hset (by simp) (by simp) hq
  | written =>
    refine ⟨.written h true, _, hstep rfl ⟨hloop, hphase⟩, ?_⟩
    rw [hawait (by simp)]
    exact hset (by simp) (by simp) hq

/-! ## All runs -/

/-- The system, as long as the connections from `k` on stay idle, and the model of destruction. -/
def Stands (N : Nghttp2 σ) (b : ServerBase) (results : Coroutine → ℕ → WriteResult)
    (sessions : Coroutine → σ) (inputs : Coroutine → List Input) (k : ℕ) (s : State σ n)
    (t : Shutdown.State) : Prop :=
  (∃ loc, Inv N b results sessions inputs s loc) ∧ Within k s ∧ Follows k s t

/-- **It follows every step of the system.** -/
theorem follows (active : Bool) : Run.Simulates (step N b results) (Shutdown.step n active)
    (Stands N b results sessions inputs k : State σ n → Shutdown.State → Prop) := by
  rintro s t a s' ⟨⟨loc, hs⟩, hk, ht⟩ h
  have hmoves := step_moves h
  have hk' : Within k s' := (hk.step hs hmoves).1
  rcases hmoves.phases hs with hsame | ⟨h', hidle, hchange, hothers⟩
  · exact ⟨[], t, rfl, hs.step h, hk', ht.early, ht.safe, ht.serving, ht.length,
      fun i hi => (ht.phases i hi).trans (hsame i).symm, ht.handles⟩
  · have hh : h' < k := by
      by_contra hge
      exact hidle (hk h' (Nat.le_of_not_lt hge))
    obtain ⟨a', t', hstep, ht'⟩ := ht.change active hs.placed hh hchange hothers
    refine ⟨[a'], t', ?_, hs.step h, hk', ht'⟩
    rw [Run.runFrom_cons, hstep]
    rfl

/-- The model of destruction after `k` clients have connected. -/
def accepted (n k : ℕ) : Shutdown.State := { Shutdown.init n with conns := List.replicate k {} }

theorem accepted_conn (hh : h < k) : (accepted n k).life (.conn h) = .opened ∧ (accepted n k).phase h = .reading := by
  have hget : (accepted n k).conns[h]? = some {} := List.getElem?_replicate_of_lt hh
  constructor
  · show ((accepted n k).conns[h]?).elim _ _ = _
    rw [hget]
    rfl
  · show ((accepted n k).conns[h]?).elim _ _ = _
    rw [hget]
    rfl

/-- Another one does. -/
theorem accept_step (n : ℕ) (active : Bool) (k : ℕ) :
    Shutdown.step n active (accepted n k) (.accept true true) = some (accepted n (k + 1)) := by
  have hconns : { accepted n k with conns := (accepted n k).conns ++ [({} : Shutdown.Conn)] } =
      accepted n (k + 1) := by
    unfold accepted
    rw [List.replicate_succ']
  have hlength : (accepted n k).conns.length = k := List.length_replicate
  have hmodify : ∀ m : ℕ, (List.replicate m ({} : Shutdown.Conn)).modify k (fun c => { c with phase := .reading }) =
      List.replicate m {} := by
    intro m
    refine List.ext_getElem (by simp) fun i _ _ => ?_
    rw [List.getElem_modify]
    simp
  have hset : (accepted n (k + 1)).setPhase k .reading = accepted n (k + 1) :=
    congrArg (fun conns => { Shutdown.init n with conns }) (hmodify (k + 1))
  refine Shutdown.step_eq_some.2 ⟨nofun, ?_⟩
  show some (({ accepted n k with conns := (accepted n k).conns ++ [({} : Shutdown.Conn)] } :
    Shutdown.State).await (accepted n k).conns.length true) = _
  rw [hconns, hlength, Shutdown.State.await, if_pos ⟨(accepted_conn (Nat.lt_succ_self k)).1, rfl⟩, hset]

theorem accepts_run (n : ℕ) (active : Bool) (k : ℕ) :
    Run.runFrom (Shutdown.step n active) (Shutdown.init n) (List.replicate k (.accept true true)) =
      some (accepted n k) := by
  induction k with
  | zero => rfl
  | succ k ih =>
    rw [List.replicate_succ', Run.runFrom_append, ih, Option.bind_some, Run.runFrom_cons, accept_step]
    rfl

theorem early_accepted (n k : ℕ) : Early n (accepted n k) where
  alive := by
    intro i hi
    by_cases hik : i < k
    · exact (accepted_conn hik).1
    · refine absurd ?_ hi
      show ((accepted n k).conns[i]?).elim _ _ = _
      rw [List.getElem?_eq_none (by simpa [accepted] using hik)]
      rfl
  timer := (Shutdown.early_init n).timer
  listener := (Shutdown.early_init n).listener
  async := (Shutdown.early_init n).async

theorem stands_start (hinputs : ∀ h, k ≤ h → inputs h = []) :
    Stands N b results sessions inputs k (start sessions inputs : State σ n) (accepted n k) := by
  have hphase : ∀ h, (start sessions inputs : State σ n).phase h = .reading := fun _ => rfl
  refine ⟨inv_start, fun h hh => ⟨rfl, hinputs h hh⟩, early_accepted n k, nofun, rfl, List.length_replicate,
    fun h hh => ?_, fun h hh => ?_⟩
  · rw [(accepted_conn hh).2, hphase]
  · rw [(accepted_conn hh).1, (accepted_conn hh).2]
    exact iff_of_true rfl (by simp)

/-- **What destruction finds.** Whenever `k` connections are served, in any interleaving, the model of
destruction can have got to where their coroutines are, with the handles of those open that have not
ended, and go on. -/
theorem destruction_finds (active : Bool) (hinputs : ∀ h, k ≤ h → inputs h = []) {as : List (Action n)}
    (hrun : Run.runFrom (step N b results) (start sessions inputs) as = some s) :
    ∃ bs t, Run.runFrom (Shutdown.step n active) (Shutdown.init n) bs = some t ∧ t.stage = .serving ∧
      t.aborted = false ∧ t.conns.length = k ∧ ∀ h, h < k → t.phase h = s.phase h ∧
        (t.life (.conn h) = .opened ↔ (s.lines h).point ≠ .ended) := by
  have hstart : Stands N b results sessions inputs k (start sessions inputs : State σ n) (accepted n k) :=
    stands_start hinputs
  obtain ⟨bs, t, hbs, -, -, ht⟩ := (follows active).run hstart hrun
  refine ⟨List.replicate k (.accept true true) ++ bs, t, ?_, ht.serving, Shutdown.aborted_eq_false.2 ht.safe,
    ht.length, fun h hh => ?_⟩
  · rw [Run.runFrom_append, accepts_run]
    exact hbs
  · refine ⟨ht.phases h hh, (ht.handles h hh).trans (not_congr ?_)⟩
    rw [ht.phases h hh, phase_ended]

/-- The responses to the one client are being written. -/
theorem destruction_finds_one : ∃ bs t, Run.runFrom (Shutdown.step 1 false) (Shutdown.init 1) bs = some t ∧
    t.aborted = false ∧ t.phase 0 = .flushing := by
  have hphase : ((Run.runFrom (step (Mini.nghttp2 bothMethods) twoMethods fun _ _ => .completed)
      (start (fun _ => {}) oneClient) oneFlush).map fun s : State Mini 1 => s.phase 0) = some .flushing := by
    decide +kernel
  obtain ⟨s, hs, hphase⟩ := Option.map_eq_some_iff.1 hphase
  have hinputs : ∀ h, 1 ≤ h → oneClient h = [] := by
    intro h hh
    cases h with
    | zero => exact absurd hh (by simp)
    | succ h => rfl
  obtain ⟨bs, t, hbs, -, hgood, -, ht⟩ := destruction_finds false hinputs hs
  exact ⟨bs, t, hbs, hgood, (ht 0 Nat.zero_lt_one).1.trans hphase⟩

end System

end Grpcxx.Uv
