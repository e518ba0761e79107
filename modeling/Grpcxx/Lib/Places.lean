import Mathlib.Data.List.Nodup
import Mathlib.Logic.Function.Basic

/-!
# Things that move between places

Things of type `T` are each at one place. A system keeps them in lists, one for each
place it can see into, and moves them from list to list. `Tracks A L loc` says that the
lists `L` of the places in `A` hold exactly the things that `loc` puts there, each once.

* `Tracks.move`: taking one thing from the front of its list and appending it to another
  keeps the lists in step with the places.
-/

namespace Grpcxx

variable {T P : Type*}

/-- `l` lists the things that satisfy `p`, each once. -/
structure Lists (l : List T) (p : T → Prop) : Prop where
  nodup : l.Nodup
  mem_iff : ∀ x, x ∈ l ↔ p x

namespace Lists

variable {l l' : List T} {p q : T → Prop}

theorem congr (h : Lists l p) (hpq : ∀ x, p x ↔ q x) : Lists l q :=
  ⟨h.nodup, fun x => (h.mem_iff x).trans (hpq x)⟩

theorem nil (h : ∀ x, ¬ p x) : Lists ([] : List T) p :=
  ⟨List.nodup_nil, fun x => ⟨fun hx => absurd hx List.not_mem_nil, fun hx => absurd hx (h x)⟩⟩

theorem snoc (h : Lists l p) {t : T} (ht : ¬ p t) : Lists (l ++ [t]) fun x => p x ∨ x = t := by
  have hnot : t ∉ l := fun hmem => ht ((h.mem_iff t).1 hmem)
  refine ⟨List.nodup_append.2 ⟨h.nodup, List.nodup_singleton t, ?_⟩, fun x => ?_⟩
  · intro x hx y hy hxy
    rw [hxy, List.mem_singleton.1 hy] at hx
    exact hnot hx
  · rw [List.mem_append, List.mem_singleton, h.mem_iff]

theorem tail {t : T} (h : Lists (t :: l) p) : Lists l fun x => p x ∧ x ≠ t := by
  obtain ⟨hnot, hnodup⟩ := List.nodup_cons.1 h.nodup
  refine ⟨hnodup, fun x => ?_⟩
  rw [← h.mem_iff, List.mem_cons]
  constructor
  · intro hx
    exact ⟨Or.inr hx, fun hxt => hnot (hxt ▸ hx)⟩
  · rintro ⟨rfl | hx, hne⟩
    · exact absurd rfl hne
    · exact hx

theorem append (h : Lists l p) (h' : Lists l' q) (hpq : ∀ x, p x → ¬ q x) :
    Lists (l ++ l') fun x => p x ∨ q x := by
  refine ⟨List.nodup_append.2 ⟨h.nodup, h'.nodup, ?_⟩, fun x => ?_⟩
  · intro x hx y hy hxy
    have hpx := (h.mem_iff x).1 hx
    rw [hxy] at hpx
    exact hpq y hpx ((h'.mem_iff y).1 hy)
  · rw [List.mem_append, h.mem_iff, h'.mem_iff]

end Lists

/-- The lists of the places in `A` hold what `loc` puts there. -/
def Tracks (A : P → Prop) (L : P → List T) (loc : T → P) : Prop :=
  ∀ a, A a → Lists (L a) fun t => loc t = a

namespace Tracks

variable {A : P → Prop} {L L' : P → List T} {loc : T → P}

theorem congr (h : Tracks A L loc) (hL : ∀ a, A a → L' a = L a) : Tracks A L' loc := by
  intro a ha
  rw [hL a ha]
  exact h a ha

/-- **Moving one thing.** -/
theorem move [DecidableEq T] (h : Tracks A L loc) {t : T} {a' : P} (hne : loc t ≠ a')
    (hout : A (loc t) → L (loc t) = t :: L' (loc t)) (hin : A a' → L' a' = L a' ++ [t])
    (hother : ∀ a, A a → a ≠ loc t → a ≠ a' → L' a = L a) :
    Tracks A L' (Function.update loc t a') := by
  intro a ha
  by_cases hfrom : a = loc t
  · -- the thing has left
    subst hfrom
    have hrest := h _ ha
    rw [hout ha] at hrest
    refine hrest.tail.congr fun x => ?_
    by_cases hx : x = t
    · simp [hx, hne.symm]
    · simp [hx]
  · by_cases hto : a = a'
    · -- the thing has come
      subst hto
      rw [hin ha]
      refine ((h _ ha).snoc hne).congr fun x => ?_
      by_cases hx : x = t
      · simp [hx]
      · simp [hx]
    · rw [hother a ha hfrom hto]
      refine (h a ha).congr fun x => ?_
      by_cases hx : x = t
      · simp [hx, Ne.symm hfrom, Ne.symm hto]
      · simp [hx]

end Tracks

end Grpcxx
