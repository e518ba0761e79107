import Mathlib.Data.List.Basic
import Mathlib.Data.Nat.Notation

/-!
# A list handed over in portions

A source is asked for a list, each time for so many items at most, until it says that a
portion was the last.

* `Part`: some portions were handed over, and none was said to be the last.
* `Whole`: the list was handed over, and the last portion, and no other, was said to be the last.
* `Course.append`: portions of the list, and then portions of what they left.
* `exists_whole`: a source that hands over something whenever it is asked hands over the
  whole list, in at most as many portions as there are items, or one if there are none.
-/

namespace Grpcxx.Portions

variable {α : Type*}

/-- How much was asked for, what was handed over, whether that was said to be the last, and
what was left. -/
structure Portion (α : Type*) where
  length : ℕ
  items : List α
  last : Bool
  left : List α

/-- A first part of `xs` was handed over, and `rest` is still to come. -/
structure Part (xs : List α) (ps : List (Portion α)) (rest : List α) : Prop where
  bounded : ∀ p ∈ ps, p.items.length ≤ p.length
  items : ps.flatMap Portion.items ++ rest = xs
  going : ∀ p ∈ ps, p.last = false ∧ p.left ≠ []
  count : ps.length + rest.length ≤ xs.length
  rest_ne : ps ≠ [] → rest ≠ []

/-- All of `xs` was handed over. -/
structure Whole (xs : List α) (ps : List (Portion α)) : Prop where
  bounded : ∀ p ∈ ps, p.items.length ≤ p.length
  items : ps.flatMap Portion.items = xs
  last : ∃ init p, ps = init ++ [p] ∧ p.last = true ∧ ∀ q ∈ init, q.last = false
  left : ∀ p ∈ ps, p.last = true ↔ p.left = []
  count : ps.length ≤ max 1 xs.length

/-- The portions come to the whole list and maybe go on, or `rest` is still to come. -/
def Course (xs : List α) (ps : List (Portion α)) (rest : List α) : Prop :=
  (∃ pre, pre <+: ps ∧ Whole xs pre) ∨ Part xs ps rest

variable {xs rest rest' : List α} {ps qs : List (Portion α)} {p : Portion α}

theorem Part.nil : Part xs [] xs where
  bounded := List.forall_mem_nil _
  items := rfl
  going := List.forall_mem_nil _
  count := Nat.le_of_eq (Nat.zero_add _)
  rest_ne := fun h => absurd rfl h

theorem Part.single (hbounded : p.items.length ≤ p.length) (hitems : p.items ++ p.left = xs)
    (hlast : p.last = false) (hne : p.items ≠ []) (hleft : p.left ≠ []) : Part xs [p] p.left where
  bounded := List.forall_mem_singleton.2 hbounded
  items := by
    rw [List.flatMap_singleton]
    exact hitems
  going := List.forall_mem_singleton.2 ⟨hlast, hleft⟩
  count := by
    have hpos : 0 < p.items.length := List.length_pos_iff.2 hne
    have hlength := congrArg List.length hitems
    rw [List.length_append] at hlength
    rw [List.length_singleton]
    omega
  rest_ne := fun _ => hleft

theorem Whole.single (hbounded : p.items.length ≤ p.length) (hitems : p.items = xs)
    (hlast : p.last = true) (hleft : p.left = []) : Whole xs [p] where
  bounded := List.forall_mem_singleton.2 hbounded
  items := by
    rw [List.flatMap_singleton]
    exact hitems
  last := ⟨[], p, rfl, hlast, List.forall_mem_nil _⟩
  left := List.forall_mem_singleton.2 (iff_of_true hlast hleft)
  count := Nat.le_max_left _ _

/-- **A list of which something is still to come** was handed over in fewer portions than it takes. -/
theorem Part.lt (h : Part xs ps rest) : ps.length < max 1 xs.length := by
  have hcount := h.count
  cases ps with
  | nil =>
    rw [List.length_nil]
    omega
  | cons p ps =>
    have hpos : 0 < rest.length := List.length_pos_iff.2 (h.rest_ne (List.cons_ne_nil p ps))
    omega

/-! ## Portions of what is left -/

theorem Part.append (h : Part xs ps rest) (h' : Part rest qs rest') : Part xs (ps ++ qs) rest' where
  bounded := List.forall_mem_append.2 ⟨h.bounded, h'.bounded⟩
  items := by rw [List.flatMap_append, List.append_assoc, h'.items, h.items]
  going := List.forall_mem_append.2 ⟨h.going, h'.going⟩
  count := by
    have hcount := h.count
    have hcount' := h'.count
    rw [List.length_append]
    omega
  rest_ne := by
    intro hne
    cases qs with
    | cons q qs => exact h'.rest_ne (List.cons_ne_nil q qs)
    | nil =>
      have hsame : rest' = rest := h'.items
      rw [hsame]
      apply h.rest_ne
      rwa [List.append_nil] at hne

theorem Part.whole (h : Part xs ps rest) (h' : Whole rest qs) : Whole xs (ps ++ qs) where
  bounded := List.forall_mem_append.2 ⟨h.bounded, h'.bounded⟩
  items := by rw [List.flatMap_append, h'.items, h.items]
  last := by
    obtain ⟨init, p, rfl, hlast, hinit⟩ := h'.last
    refine ⟨ps ++ init, p, (List.append_assoc _ _ _).symm, hlast, ?_⟩
    exact List.forall_mem_append.2 ⟨fun q hq => (h.going q hq).1, hinit⟩
  left := by
    refine List.forall_mem_append.2 ⟨fun q hq => ?_, h'.left⟩
    obtain ⟨hlast, hleft⟩ := h.going q hq
    exact iff_of_false (by rw [hlast]; exact Bool.false_ne_true) hleft
  count := by
    have hcount := h.count
    have hcount' := h'.count
    rw [List.length_append]
    cases ps with
    | nil =>
      have hsame : rest = xs := h.items
      rw [← hsame, List.length_nil, Nat.zero_add]
      exact hcount'
    | cons p ps =>
      -- what is left is at least one item, so at least one portion is left for it
      have hpos : 0 < rest.length := List.length_pos_iff.2 (h.rest_ne (List.cons_ne_nil p ps))
      omega

theorem Course.nil : Course xs [] xs := Or.inr Part.nil

/-- **Portions of the list**, and then portions of what they left. -/
theorem Course.append (h : Course xs ps rest) (h' : Course rest qs rest') : Course xs (ps ++ qs) rest' := by
  rcases h with ⟨pre, hpre, hwhole⟩ | hpart
  · exact Or.inl ⟨pre, hpre.trans (List.prefix_append ps qs), hwhole⟩
  · rcases h' with ⟨pre, hpre, hwhole⟩ | hpart'
    · exact Or.inl ⟨ps ++ pre, (List.prefix_append_right_inj ps).2 hpre, hpart.whole hwhole⟩
    · exact Or.inr (hpart.append hpart')

theorem Course.cons (h : Course xs [p] rest) (h' : Course rest ps rest') : Course xs (p :: ps) rest' :=
  h.append h'

/-! ## Sources -/

section Source

variable (next : List α → ℕ → Portion α)

/-- The portions of these lengths, one after the other. -/
def portions : List α → List ℕ → List (Portion α)
  | _, [] => []
  | xs, n :: ns => next xs n :: portions (next xs n).left ns

def remaining : List α → List ℕ → List α
  | xs, [] => xs
  | xs, n :: ns => remaining (next xs n).left ns

/-- Asked for something, the source hands over the list or a part of it. -/
def Source : Prop := ∀ xs n, 1 ≤ n → Course xs [next xs n] (next xs n).left

variable {next}

theorem length_portions (xs : List α) (ns : List ℕ) : (portions next xs ns).length = ns.length := by
  induction ns generalizing xs with
  | nil => rfl
  | cons n ns ih => rw [portions, List.length_cons, List.length_cons, ih]

theorem portions_take (k : ℕ) (xs : List α) (ns : List ℕ) :
    (portions next xs ns).take k = portions next xs (ns.take k) := by
  induction ns generalizing xs k with
  | nil => rw [portions, List.take_nil, List.take_nil, portions]
  | cons n ns ih =>
    cases k with
    | zero => rfl
    | succ k => rw [portions, List.take_succ_cons, List.take_succ_cons, portions, ih]

theorem course_portions (hnext : Source next) (xs : List α) {ns : List ℕ} (hns : ∀ n ∈ ns, 1 ≤ n) :
    Course xs (portions next xs ns) (remaining next xs ns) := by
  induction ns generalizing xs with
  | nil => exact Course.nil
  | cons n ns ih =>
    have hfirst := hnext xs n (hns n List.mem_cons_self)
    exact hfirst.cons (ih (next xs n).left fun m hm => hns m (List.mem_cons_of_mem n hm))

/-- **The whole list is handed over**, whatever the lengths asked for. -/
theorem exists_whole (hnext : Source next) (xs : List α) (lengths : ℕ → ℕ) (hpos : ∀ k, 1 ≤ lengths k) :
    ∃ n, Whole xs (portions next xs ((List.range n).map lengths)) := by
  have hns : ∀ m ∈ (List.range (max 1 xs.length)).map lengths, 1 ≤ m := by
    intro m hm
    obtain ⟨k, -, rfl⟩ := List.mem_map.1 hm
    exact hpos k
  rcases course_portions hnext xs hns with ⟨pre, hpre, hwhole⟩ | hpart
  · refine ⟨min pre.length (max 1 xs.length), ?_⟩
    rw [← List.take_range, List.map_take, ← portions_take, ← List.prefix_iff_eq_take.1 hpre]
    exact hwhole
  · -- so many portions cannot leave anything
    have hlt := hpart.lt
    rw [length_portions, List.length_map, List.length_range] at hlt
    exact absurd hlt (Nat.lt_irrefl _)

end Source

end Grpcxx.Portions
