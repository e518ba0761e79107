import Mathlib.Data.List.Basic
import Mathlib.Data.Option.Basic

/-!
# Transducers

A transducer takes its input one symbol at a time. With each symbol it changes its state and gives out
what it has recognised, unless the symbol cannot stand where it does. A front end is a chain of them: what
one gives out is the input of the next.

* `feed_append`: inputs follow each other.
* `Feeds.append`, `Feeds.flatMap`: so do what they lead to and what is given out.
-/

namespace Grpcxx.Transducer

variable {S A B T : Type*} {step : S → A → Option (S × List B)} {s t u : S} {as as' : List A} {bs bs' : List B}

/-- The state after the input, and what was given out. -/
def feed (step : S → A → Option (S × List B)) : S → List A → Option (S × List B)
  | s, [] => some (s, [])
  | s, a :: as => (step s a).bind fun r => (feed step r.1 as).map fun r' => (r'.1, r.2 ++ r'.2)

/-- The input leads from `s` to `t`, and `bs` is given out. -/
def Feeds (step : S → A → Option (S × List B)) (s : S) (as : List A) (t : S) (bs : List B) : Prop :=
  feed step s as = some (t, bs)

instance [DecidableEq S] [DecidableEq B] : Decidable (Feeds step s as t bs) :=
  inferInstanceAs (Decidable (_ = _))

theorem Feeds.nil : Feeds step s [] s [] := rfl

theorem Feeds.cons {a : A} (h : step s a = some (t, bs)) (h' : Feeds step t as u bs') :
    Feeds step s (a :: as) u (bs ++ bs') := by
  unfold Feeds at h' ⊢
  rw [feed, h, Option.bind_some, h', Option.map_some]

/-- A symbol with which nothing is given out. -/
theorem Feeds.skip {a : A} (h : step s a = some (t, [])) (h' : Feeds step t as u bs) :
    Feeds step s (a :: as) u bs := Feeds.cons h h'

theorem feed_append (step : S → A → Option (S × List B)) (s : S) (as as' : List A) :
    feed step s (as ++ as') =
      (feed step s as).bind fun r => (feed step r.1 as').map fun r' => (r'.1, r.2 ++ r'.2) := by
  induction as generalizing s with
  | nil =>
    rw [List.nil_append, feed, Option.bind_some]
    cases feed step s as' <;> rfl
  | cons a as ih =>
    rw [List.cons_append, feed, feed]
    cases step s a with
    | none => rfl
    | some r =>
      rw [Option.bind_some, Option.bind_some, ih]
      cases feed step r.1 as with
      | none => rfl
      | some r' =>
        rw [Option.bind_some, Option.map_some, Option.bind_some, Option.map_map]
        refine congrArg (Option.map · _) (funext fun r'' => ?_)
        rw [Function.comp_apply, List.append_assoc]

/-- **Inputs follow each other.** -/
theorem Feeds.append (h : Feeds step s as t bs) (h' : Feeds step t as' u bs') :
    Feeds step s (as ++ as') u (bs ++ bs') := by
  unfold Feeds at h h' ⊢
  rw [feed_append, h, Option.bind_some, h', Option.map_some]

/-- **A loop** whose rounds all come back to where they started. -/
theorem Feeds.flatMap {xs : List T} {f : T → List A} {g : T → List B}
    (h : ∀ x ∈ xs, Feeds step s (f x) s (g x)) : Feeds step s (xs.flatMap f) s (xs.flatMap g) := by
  induction xs with
  | nil => exact Feeds.nil
  | cons x xs ih =>
    rw [List.flatMap_cons, List.flatMap_cons]
    exact (h x List.mem_cons_self).append (ih fun y hy => h y (List.mem_cons_of_mem _ hy))

end Grpcxx.Transducer
