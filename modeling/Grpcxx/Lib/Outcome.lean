import Mathlib.Data.Nat.Notation

/-!
# What holds however a computation ends

A computation that may throw leaves a state behind in either case. `Outcome P E r` says
what holds of the result `r` and its state: `P` if it returned, `E` if it threw.
`Keeps I f` says that `f` keeps the invariant `I` however it ends.

* `outcome_bind`: the rule for sequencing.
* `Keeps.bind`: sequencing keeps what its parts keep.
-/

namespace Grpcxx

variable {ε S α β : Type}

/-- `P` of a result that was returned, `E` of the state where it threw. -/
def Outcome (P : α → S → Prop) (E : S → Prop) : EStateM.Result ε S α → Prop
  | .ok a s => P a s
  | .error _ s => E s

theorem Outcome.mono {P P' : α → S → Prop} {E E' : S → Prop} {r : EStateM.Result ε S α}
    (h : Outcome P E r) (hP : ∀ a s, P a s → P' a s) (hE : ∀ s, E s → E' s) : Outcome P' E' r := by
  cases r with
  | ok a s => exact hP a s h
  | error e s => exact hE s h

/-- **Sequencing.** -/
theorem outcome_bind {f : EStateM ε S α} {g : α → EStateM ε S β} {s : S} {M : α → S → Prop}
    {P : β → S → Prop} {E : S → Prop} (hf : Outcome M E (f s))
    (hg : ∀ a t, M a t → Outcome P E (g a t)) : Outcome P E ((f >>= g) s) := by
  show Outcome P E (EStateM.bind f g s)
  unfold EStateM.bind
  cases h : f s with
  | ok a t =>
    rw [h] at hf
    exact hg a t hf
  | error e t =>
    rw [h] at hf
    exact hf

/-- The computation keeps `I`, whether it returns or throws. -/
def Keeps (I : S → Prop) (f : EStateM ε S α) : Prop := ∀ s, I s → Outcome (fun _ => I) I (f s)

variable {I : S → Prop}

theorem Keeps.pure (a : α) : Keeps I (pure a : EStateM ε S α) := fun _ hs => hs

theorem Keeps.bind {f : EStateM ε S α} {g : α → EStateM ε S β} (hf : Keeps I f)
    (hg : ∀ a, Keeps I (g a)) : Keeps I (f >>= g) := fun s hs =>
  outcome_bind (hf s hs) fun a t ht => hg a t ht

/-- From any state: what held before holds after. -/
theorem Keeps.outcome {f : EStateM ε S α} (hf : Keeps I f) (s : S) :
    Outcome (fun _ t => I s → I t) (fun t => I s → I t) (f s) := by
  cases h : f s with
  | ok a t =>
    intro hs
    have hkept := hf s hs
    rw [h] at hkept
    exact hkept
  | error e t =>
    intro hs
    have hkept := hf s hs
    rw [h] at hkept
    exact hkept

end Grpcxx
