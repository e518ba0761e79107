import Mathlib.Data.List.Basic

/-!
# Queues

What is served leaves the front of a queue, and what comes joins its back. `Serves` says this of two
moments, each given as what has been served and what waits, with any number of services and arrivals
between them.

* `Serves.refl`, `Serves.trans`: it holds of all that happens one after the other.
* `Serves.no_overtaking`: who waits is served after those ahead of them, and before all others.
-/

namespace Grpcxx.Queue

variable {T : Type*} {served served' served'' waiting waiting' waiting'' : List T}

/-- Since then `begun` has been served, and `new` has come. -/
def Serves (served waiting served' waiting' : List T) : Prop :=
  ∃ begun new, served' = served ++ begun ∧ waiting ++ new = begun ++ waiting'

theorem Serves.refl (served waiting : List T) : Serves served waiting served waiting :=
  ⟨[], [], (List.append_nil _).symm, List.append_nil _⟩

theorem Serves.trans (h : Serves served waiting served' waiting')
    (h' : Serves served' waiting' served'' waiting'') : Serves served waiting served'' waiting'' := by
  obtain ⟨begun, new, rfl, hwaiting⟩ := h
  obtain ⟨begun', new', rfl, hwaiting'⟩ := h'
  refine ⟨begun ++ begun', new ++ new', List.append_assoc .., ?_⟩
  calc waiting ++ (new ++ new') = begun ++ waiting' ++ new' := by rw [← List.append_assoc, hwaiting]
    _ = begun ++ begun' ++ waiting'' := by rw [List.append_assoc, hwaiting', List.append_assoc]

/-- Someone comes. -/
theorem Serves.push (served waiting : List T) (t : T) : Serves served waiting served (waiting ++ [t]) :=
  ⟨[], [t], (List.append_nil _).symm, rfl⟩

/-- The first one is served. -/
theorem Serves.pop (served waiting : List T) (t : T) : Serves served (t :: waiting) (served ++ [t]) waiting :=
  ⟨[t], [], rfl, List.append_nil _⟩

/-- **Nobody is overtaken**: those ahead are served in their order, then this one. -/
theorem Serves.no_overtaking (h : Serves served waiting served' waiting') {pre post : List T} {t : T}
    (ht : waiting = pre ++ t :: post) :
    ∃ begun, served' = served ++ begun ∧ (begun <+: pre ∨ pre ++ [t] <+: begun) := by
  obtain ⟨begun, new, hserved, hwaiting⟩ := h
  refine ⟨begun, hserved, ?_⟩
  have hahead : pre ++ [t] <+: begun ++ waiting' := by
    rw [← hwaiting, ht]
    exact ⟨post ++ new, by simp⟩
  have hbegun : begun <+: begun ++ waiting' := List.prefix_append ..
  rcases List.prefix_or_prefix_of_prefix hbegun hahead with hle | hge
  · rcases List.prefix_concat_iff.1 hle with heq | hle
    · exact Or.inr (heq ▸ List.prefix_rfl)
    · exact Or.inl hle
  · exact Or.inr hge

end Grpcxx.Queue
