import Mathlib.Data.List.Basic
import Mathlib.Data.Nat.Notation

/-!
# Spans of a log

A log grows at its end. Some of its entries open a span, others close it, and a third kind
must not come inside one.

* `Open`: a span is open at the end of the log.
* `Fenced`: between an entry that opens a span and any later one that must not be inside,
  there is one that closes it.
* `Fenced.snoc`: a log stays fenced if nothing bad is added while a span is open.
-/

namespace Grpcxx.Spans

variable {E : Type*} {opens closes bad : E → Prop} {log : List E} {e : E}

/-- A span is open at the end of the log. -/
def Open (opens closes : E → Prop) (log : List E) : Prop :=
  ∃ pre o post, log = pre ++ o :: post ∧ opens o ∧ ∀ c ∈ post, ¬ closes c

/-- No span has a bad entry inside. -/
def Fenced (opens closes bad : E → Prop) (log : List E) : Prop :=
  ∀ pre o mid x post, log = pre ++ o :: mid ++ x :: post → opens o → bad x → ∃ c ∈ mid, closes c

theorem not_open_nil : ¬ Open opens closes [] := by
  rintro ⟨pre, o, post, h, -⟩
  simp at h

theorem open_snoc : Open opens closes (log ++ [e]) ↔ opens e ∨ ¬ closes e ∧ Open opens closes log := by
  constructor
  · rintro ⟨pre, o, post, h, ho, hpost⟩
    rcases List.eq_nil_or_concat post with rfl | ⟨post', last, rfl⟩
    · obtain ⟨-, heq⟩ := List.append_inj' h rfl
      cases heq
      exact .inl ho
    · rw [List.concat_eq_append, ← List.cons_append, ← List.append_assoc] at h
      obtain ⟨hlog, heq⟩ := List.append_inj' h rfl
      cases heq
      refine .inr ⟨hpost e (by simp), pre, o, post', hlog, ho, fun c hc => hpost c (by simp [hc])⟩
  · rintro (he | ⟨he, pre, o, post, rfl, ho, hpost⟩)
    · exact ⟨log, e, [], rfl, he, fun c hc => absurd hc List.not_mem_nil⟩
    · refine ⟨pre, o, post ++ [e], by simp, ho, fun c hc => ?_⟩
      rcases List.mem_append.1 hc with hc | hc
      · exact hpost c hc
      · rw [List.mem_singleton.1 hc]
        exact he

theorem fenced_nil : Fenced opens closes bad [] := by
  intro pre o mid x post h
  simp at h

/-- **A log stays fenced** if nothing bad is added while a span is open. -/
theorem Fenced.snoc (h : Fenced opens closes bad log) (he : bad e → ¬ Open opens closes log) :
    Fenced opens closes bad (log ++ [e]) := by
  intro pre o mid x post hlog ho hx
  rcases List.eq_nil_or_concat post with rfl | ⟨post', last, rfl⟩
  · -- the bad entry is the one added
    obtain ⟨hbefore, heq⟩ := List.append_inj' hlog rfl
    cases heq
    by_contra hnone
    exact he hx ⟨pre, o, mid, hbefore, ho, fun c hc hcl => hnone ⟨c, hc, hcl⟩⟩
  · rw [List.concat_eq_append, ← List.cons_append, ← List.append_assoc] at hlog
    exact h pre o mid x post' (List.append_inj' hlog rfl).1 ho hx

end Grpcxx.Spans
