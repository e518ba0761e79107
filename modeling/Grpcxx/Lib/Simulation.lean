import Grpcxx.Lib.Run

/-!
# Simulations

A component stands for another under a relation of their states if it can follow every step of the
other with a run of its own, which may be empty (`Simulates`).

* `Simulates.run`: it can follow every run.
-/

namespace Grpcxx.Run

variable {S T A B : Type*} {step : S → A → Option S} {step' : T → B → Option T} {R : S → T → Prop}
  {s s' : S} {t t' : T}

/-- Every step from related states can be followed to related states. -/
def Simulates (step : S → A → Option S) (step' : T → B → Option T) (R : S → T → Prop) : Prop :=
  ∀ s t a s', R s t → step s a = some s' → ∃ bs t', runFrom step' t bs = some t' ∧ R s' t'

/-- **Runs can be followed** as steps can. -/
theorem Simulates.run (h : Simulates step step' R) (hst : R s t) {as : List A}
    (hrun : runFrom step s as = some s') : ∃ bs t', runFrom step' t bs = some t' ∧ R s' t' := by
  induction as generalizing s t with
  | nil =>
    cases hrun
    exact ⟨[], t, rfl, hst⟩
  | cons a as ih =>
    obtain ⟨u, hstep, hrest⟩ := runFrom_cons_eq_some.1 hrun
    obtain ⟨bs, v, hbs, huv⟩ := h s t a u hst hstep
    obtain ⟨bs', t', hbs', hst'⟩ := ih huv hrest
    refine ⟨bs ++ bs', t', ?_, hst'⟩
    rw [runFrom_append, hbs]
    exact hbs'

end Grpcxx.Run
