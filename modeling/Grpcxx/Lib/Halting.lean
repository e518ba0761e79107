import Grpcxx.Lib.Run
import Mathlib.Algebra.BigOperators.Group.Finset.Basic
import Mathlib.Algebra.Ring.Nat
import Mathlib.Order.WellFounded

/-!
# Runs that come to rest

From a state that `Halts`, no run goes on for ever, whatever actions are taken.

* `halts_of_measure`: states that meet an invariant halt where every step decreases a measure.
* `Halts.bounded`: every infinite list of actions stops being possible.
* `Halts.rests`: a run can be taken until no action is possible.
* `sum_change`, `sum_map_modify`, `family_lt`: what one member of a family changes of its measure.
-/

namespace Grpcxx.Run

variable {S A : Type*} {step : S → A → Option S} {s s' : S}

/-- No action is possible. -/
def Rests (step : S → A → Option S) (s : S) : Prop := ∀ a, step s a = none

/-- No run goes on for ever. -/
def Halts (step : S → A → Option S) (s : S) : Prop := Acc (fun s' s => ∃ a, step s a = some s') s

/-- **Halting by a measure.** -/
theorem halts_of_measure {M : Type*} [LT M] [WellFoundedLT M] {I : S → Prop} {μ : S → M}
    (hI : ∀ s a s', I s → step s a = some s' → I s')
    (hμ : ∀ s a s', I s → step s a = some s' → μ s' < μ s) (hs : I s) : Halts step s := by
  -- on the measure
  induction hm : μ s using WellFoundedLT.induction generalizing s with
  | ind m ih =>
    refine Acc.intro s fun s' ⟨a, ha⟩ => ?_
    have hlt : μ s' < m := by
      rw [← hm]
      exact hμ s a s' hs ha
    exact ih (μ s') hlt (hI s a s' hs ha) rfl

theorem Halts.next {a : A} (h : Halts step s) (ha : step s a = some s') : Halts step s' :=
  Acc.inv h ⟨a, ha⟩

theorem Halts.run {as : List A} (h : Halts step s) (hr : runFrom step s as = some s') : Halts step s' :=
  inv_run (I := Halts step) (fun _ _ _ hs ha => hs.next ha) h hr

/-- **Every run ends.** -/
theorem Halts.bounded (h : Halts step s) (f : ℕ → A) :
    ∃ m, runFrom step s ((List.range m).map f) = none := by
  induction h generalizing f with
  | intro s _ ih =>
    cases ha : step s (f 0) with
    | none =>
      refine ⟨1, ?_⟩
      show (step s (f 0)).bind _ = none
      rw [ha, Option.bind_none]
    | some t =>
      obtain ⟨m, hm⟩ := ih t ⟨f 0, ha⟩ fun i => f (i + 1)
      refine ⟨m + 1, ?_⟩
      rw [List.range_succ_eq_map, List.map_cons, List.map_map, runFrom_cons, ha, Option.bind_some]
      exact hm

/-- **Some run ends where no action is possible.** -/
theorem Halts.rests (h : Halts step s) : ∃ as s', runFrom step s as = some s' ∧ Rests step s' := by
  induction h with
  | intro s _ ih =>
    by_cases hs : Rests step s
    · exact ⟨[], s, rfl, hs⟩
    · obtain ⟨a, ha⟩ := not_forall.1 hs
      obtain ⟨t, ht⟩ := Option.ne_none_iff_exists'.1 ha
      obtain ⟨as, s', hrun, hrests⟩ := ih t ⟨a, ht⟩
      exact ⟨a :: as, s', runFrom_cons_eq_some.2 ⟨t, ht, hrun⟩, hrests⟩

/-- **What one member of a family changes of the total.** -/
theorem sum_change {ι : Type*} [DecidableEq ι] {t : Finset ι} {f g : ι → ℕ} {i : ι} (hi : i ∈ t)
    (hother : ∀ j, j ≠ i → g j = f j) : ∑ j ∈ t, g j + f i = ∑ j ∈ t, f j + g i := by
  have hrest : ∑ j ∈ t.erase i, g j = ∑ j ∈ t.erase i, f j :=
    Finset.sum_congr rfl fun j hj => hother j (Finset.ne_of_mem_erase hj)
  rw [← Finset.add_sum_erase t g hi, ← Finset.add_sum_erase t f hi, hrest]
  omega

/-- What one entry of a list changes of a sum over it. -/
theorem sum_map_modify {α : Type*} (f : α → ℕ) (g : α → α) (l : List α) (i : ℕ) :
    ((l.modify i g).map f).sum + (l[i]?).elim 0 f = (l.map f).sum + (l[i]?).elim 0 (f ∘ g) := by
  induction l generalizing i with
  | nil => cases i <;> rfl
  | cons x l ih =>
    cases i with
    | zero =>
      simp only [List.modify_zero_cons, List.map_cons, List.sum_cons, List.getElem?_cons_zero, Option.elim,
        Function.comp]
      omega
    | succ i =>
      have hrest := ih i
      simp only [List.modify_succ_cons, List.map_cons, List.sum_cons, List.getElem?_cons_succ]
      omega

/-- **A family goes down where one member does**, and the others stay. -/
theorem family_lt {ι M : Type*} [Preorder M] {f g : ι → M} {i : ι} (hi : g i < f i)
    (hother : ∀ j, j ≠ i → g j = f j) : g < f := by
  refine Pi.lt_def.2 ⟨fun j => ?_, i, hi⟩
  by_cases hj : j = i
  · rw [hj]
    exact hi.le
  · rw [hother j hj]

end Grpcxx.Run
