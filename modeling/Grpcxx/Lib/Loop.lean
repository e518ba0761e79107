import Mathlib.Data.Nat.Notation
import Mathlib.Tactic.Conv

/-!
# Draining loops

`drain next body` is the loop that asks `next` for a piece and gives it to `body`,
until a piece is empty: `for (x = next(); x.size() > 0; x = next()) body(x)`. Either
may throw. The loop carries fuel; `drain_rule` is the rule for reasoning about it,
for any measure that the non-empty pieces decrease and any invariant, and
`drain_unroll` says that with enough fuel the loop is its own unrolling.
-/

namespace Grpcxx.Loop

variable {ε S α : Type}

/-- `for (x = next(); x.size() > 0; x = next()) body(x)` -/
def drain (next : EStateM ε S (List α)) (body : List α → EStateM ε S Unit) : ℕ → EStateM ε S Unit
  | 0 => fun s => .ok () s
  | n + 1 => fun s =>
    match next s with
    | .error e s' => .error e s'
    | .ok x s' =>
      if x.isEmpty then .ok () s'
      else
        match body x s' with
        | .error e s'' => .error e s''
        | .ok () s'' => drain next body n s''

variable {next : EStateM ε S (List α)} {body : List α → EStateM ε S Unit}

/-- Every non-empty piece decreases the measure `μ`. -/
def Decreases (next : EStateM ε S (List α)) (body : List α → EStateM ε S Unit) (μ : S → ℕ) : Prop :=
  ∀ s x s' s'', next s = .ok x s' → x ≠ [] → body x s' = .ok () s'' → μ s'' < μ s

/-- **The rule of the draining loop.** -/
theorem drain_rule {μ : S → ℕ} (hμ : Decreases next body μ) {I : S → Prop}
    {Q : EStateM.Result ε S Unit → Prop}
    (herr : ∀ s e s', I s → next s = .error e s' → Q (.error e s'))
    (hdone : ∀ s s', I s → next s = .ok [] s' → Q (.ok () s'))
    (hbad : ∀ s x s' e s'', I s → next s = .ok x s' → x ≠ [] → body x s' = .error e s'' →
      Q (.error e s''))
    (hstep : ∀ s x s' s'', I s → next s = .ok x s' → x ≠ [] → body x s' = .ok () s'' → I s'')
    {n : ℕ} {s : S} (hn : μ s < n) (hI : I s) : Q (drain next body n s) := by
  -- on the fuel; what the measure says is left never exceeds it
  induction n generalizing s with
  | zero => omega
  | succ n ih =>
    unfold drain
    cases hx : next s with
    | error e s' => exact herr s e s' hI hx
    | ok x s' =>
      simp only
      cases x with
      | nil => exact hdone s s' hI hx
      | cons a x =>
        simp only [List.isEmpty_cons, Bool.false_eq_true, if_false]
        cases hb : body (a :: x) s' with
        | error e s'' => exact hbad s _ s' e s'' hI hx (by simp) hb
        | ok u s'' =>
          have hlt := hμ s _ s' s'' hx (by simp) hb
          exact ih (by omega) (hstep s _ s' s'' hI hx (by simp) hb)

/-- With enough fuel, more makes no difference. -/
theorem drain_fuel {μ : S → ℕ} (hμ : Decreases next body μ) {n m : ℕ} {s : S} (hn : μ s < n)
    (hm : μ s < m) : drain next body n s = drain next body m s := by
  induction n generalizing m s with
  | zero => omega
  | succ n ih =>
    obtain ⟨m, rfl⟩ : ∃ k, m = k + 1 := ⟨m - 1, by omega⟩
    unfold drain
    cases hx : next s with
    | error e s' => rfl
    | ok x s' =>
      simp only
      split
      · rfl
      · rename_i hne
        cases hb : body x s' with
        | error e s'' => rfl
        | ok u s'' =>
          have hlt := hμ s x s' s'' hx (by simpa using hne) hb
          exact ih (by omega) (by omega)

/-- **The loop is its own unrolling.** -/
theorem drain_unroll {μ : S → ℕ} (hμ : Decreases next body μ) (s : S) :
    drain next body (μ s + 1) s =
      match next s with
      | .error e s' => .error e s'
      | .ok x s' =>
        if x.isEmpty then .ok () s'
        else
          match body x s' with
          | .error e s'' => .error e s''
          | .ok () s'' => drain next body (μ s'' + 1) s'' := by
  conv_lhs => unfold drain
  cases hx : next s with
  | error e s' => rfl
  | ok x s' =>
    simp only
    split
    · rfl
    · rename_i hne
      cases hb : body x s' with
      | error e s'' => rfl
      | ok u s'' =>
        have hlt := hμ s x s' s'' hx (by simpa using hne) hb
        exact drain_fuel hμ (by omega) (by omega)

end Grpcxx.Loop
