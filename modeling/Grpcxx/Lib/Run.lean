import Mathlib.Data.List.Basic
import Mathlib.Data.Option.Basic

/-!
# Runs of a partial step function

A component is a step function `step : S → A → Option S` from a state and an
action, `none` where the action is not possible. `runFrom step s as` is the state
after the actions `as`, if every one of them is possible.

* `inv_run`: an invariant that every step keeps holds after every run, and so in every
  state reached.
* `inv_runAlong`: the same for the runs whose steps all meet a guard `G`, read in
  the state before the step.
* `along_or`: a run is guarded, or it has a first part that leads to a step against the guard.
* `run_appends`: what every step adds to a list, all steps of a run add.
* `foldl_unwind`: for a total step, what an observer sees of a run does not depend
  on the actions it takes no part in.
-/

namespace Grpcxx.Run

variable {S A V : Type*}

/-- The state after the actions `as` from `s`. -/
def runFrom (step : S → A → Option S) : S → List A → Option S
  | s, [] => some s
  | s, a :: as => (step s a).bind fun s' => runFrom step s' as

/-- Every step of the run from `s` meets the guard `G`. -/
def Along (step : S → A → Option S) (G : S → A → Prop) : S → List A → Prop
  | _, [] => True
  | s, a :: as => G s a ∧ ∀ s', step s a = some s' → Along step G s' as

variable {step : S → A → Option S} {G : S → A → Prop} {s s' : S}

/-- A step that has a guard. -/
theorem guard_eq_some {p : Prop} [Decidable p] (h : (if p then some s else none) = some s') : p ∧ s = s' := by
  rw [Option.ite_none_right_eq_some] at h
  exact ⟨h.1, Option.some.inj h.2⟩

@[simp] theorem runFrom_nil : runFrom step s [] = some s := rfl

theorem runFrom_cons {a : A} {as : List A} :
    runFrom step s (a :: as) = (step s a).bind fun s' => runFrom step s' as := rfl

theorem runFrom_cons_eq_some {a : A} {as : List A} :
    runFrom step s (a :: as) = some s' ↔ ∃ t, step s a = some t ∧ runFrom step t as = some s' := by
  rw [runFrom_cons, Option.bind_eq_some_iff]

theorem runFrom_append {as as' : List A} :
    runFrom step s (as ++ as') = (runFrom step s as).bind fun u => runFrom step u as' := by
  induction as generalizing s with
  | nil => rfl
  | cons a as ih =>
    rw [List.cons_append, runFrom_cons, runFrom_cons, Option.bind_assoc]
    exact congrArg _ (funext fun _ => ih)

theorem along_cons {a : A} {as : List A} (h : step s a = some s') :
    Along step G s (a :: as) ↔ G s a ∧ Along step G s' as := by
  constructor
  · rintro ⟨hG, hrest⟩
    exact ⟨hG, hrest s' h⟩
  · rintro ⟨hG, hrest⟩
    refine ⟨hG, fun t ht => ?_⟩
    rw [h] at ht
    cases ht
    exact hrest

/-- A run is guarded up to where it cannot go on. -/
theorem along_cons_none {a : A} {as : List A} (h : step s a = none) :
    Along step G s (a :: as) ↔ G s a := by
  constructor
  · exact fun hG => hG.1
  · intro hG
    refine ⟨hG, fun t ht => ?_⟩
    rw [h] at ht
    cases ht

/-- A guard that can be computed can be along a run. -/
instance decidableAlong [∀ s a, Decidable (G s a)] : ∀ s as, Decidable (Along step G s as)
  | _, [] => isTrue trivial
  | s, a :: as =>
    match h : step s a with
    | none => decidable_of_iff _ (along_cons_none h).symm
    | some t =>
      have := decidableAlong t as
      decidable_of_iff _ (along_cons h).symm

/-- **Invariants along guarded runs.** -/
theorem inv_runAlong {I : S → Prop} (hstep : ∀ s a s', I s → G s a → step s a = some s' → I s')
    {as : List A} (h0 : I s) (hG : Along step G s as) (hr : runFrom step s as = some s') : I s' := by
  induction as generalizing s with
  | nil => simp only [runFrom_nil, Option.some.injEq] at hr; subst hr; exact h0
  | cons a as ih =>
    obtain ⟨t, ht, hr⟩ := runFrom_cons_eq_some.1 hr
    exact ih (hstep s a t h0 hG.1 ht) (hG.2 t ht) hr

theorem along_true (as : List A) : Along step (fun _ _ => True) s as := by
  induction as generalizing s with
  | nil => trivial
  | cons a as ih => exact ⟨trivial, fun _ _ => ih⟩

/-- **Invariants along all runs.** -/
theorem inv_run {I : S → Prop} (hstep : ∀ s a s', I s → step s a = some s' → I s')
    {as : List A} (h0 : I s) (hr : runFrom step s as = some s') : I s' :=
  inv_runAlong (G := fun _ _ => True) (fun s a t hs _ => hstep s a t hs) h0 (along_true as) hr

/-- **A run is guarded**, or a step of it goes against the guard. -/
theorem along_or {as : List A} (hr : runFrom step s as = some s') :
    Along step G s as ∨ ∃ pre a post t t', as = pre ++ a :: post ∧ runFrom step s pre = some t ∧
      ¬ G t a ∧ step t a = some t' ∧ runFrom step t' post = some s' := by
  induction as generalizing s with
  | nil => exact .inl trivial
  | cons a as ih =>
    obtain ⟨t, ht, hr⟩ := runFrom_cons_eq_some.1 hr
    by_cases hG : G s a
    · rcases ih hr with hrest | ⟨pre, a', post, u, u', rfl, hpre, hnot, hstep, hpost⟩
      · exact .inl ((along_cons ht).2 ⟨hG, hrest⟩)
      · refine .inr ⟨a :: pre, a', post, u, u', rfl, ?_, hnot, hstep, hpost⟩
        rw [runFrom_cons, ht]
        exact hpre
    · exact .inr ⟨[], a, as, s, t, rfl, rfl, hG, ht, hr⟩

/-- **What steps add up to.** -/
theorem run_appends {f : S → List V} {g : A → List V}
    (hstep : ∀ s a s', step s a = some s' → f s' = f s ++ g a) {as : List A}
    (hr : runFrom step s as = some s') : f s' = f s ++ as.flatMap g := by
  induction as generalizing s with
  | nil => simp only [runFrom_nil, Option.some.injEq] at hr; subst hr; simp
  | cons a as ih =>
    obtain ⟨t, ht, hr⟩ := runFrom_cons_eq_some.1 hr
    rw [ih hr, hstep s a t ht, List.flatMap_cons, List.append_assoc]

/-! ## Observers of total runs -/

/-- **Unwinding.** Where actions outside `p` leave the view alone, and actions in `p` take
states of equal views to states of equal views, the view of a run is that of the run of its
actions in `p`. -/
theorem foldl_unwind {f : S → A → S} {view : S → V} {p : A → Bool} {I : S → Prop}
    (hI : ∀ s a, I s → I (f s a))
    (hout : ∀ s a, I s → p a = false → view (f s a) = view s)
    (hin : ∀ s t a, I s → I t → p a = true → view s = view t → view (f s a) = view (f t a))
    (as : List A) {s t : S} (hs : I s) (ht : I t) (h : view s = view t) :
    view (as.foldl f s) = view ((as.filter p).foldl f t) := by
  induction as generalizing s t with
  | nil => exact h
  | cons a as ih =>
    cases hp : p a with
    | true =>
      -- both runs take the action
      rw [List.filter_cons_of_pos hp]
      exact ih (hI s a hs) (hI t a ht) (hin s t a hs ht hp h)
    | false =>
      -- only the first does, unseen
      rw [List.filter_cons_of_neg (by simp [hp])]
      exact ih (hI s a hs) ht ((hout s a hs hp).trans h)

end Grpcxx.Run
