import Mathlib.Data.List.Basic

/-!
# Cutting lists at a separator

A list with a separator `c` in it is cut at the first or the last `c`, and lists without
it are joined by a separator that starts with it.

* `cut_unique`: the first `c` cuts a list in one way.
* `findIdx?_cut`, `findIdx?_reverse_cut`: where a search from the front or from the back stops.
* `intercalate_injective`: joined lists tell their parts.
* `intercalate_append`, `intercalate_concat`: joining in two steps, and at the end.
* `intercalate_splitOn_eq`: splitting, and joining again with another separator.
-/

namespace Grpcxx.Split

variable {α : Type*} {a a' b b' : List α} {c : α}

/-- **The first separator.** -/
theorem cut_unique (ha : c ∉ a) (ha' : c ∉ a') (h : a ++ c :: b = a' ++ c :: b') :
    a = a' ∧ b = b' := by
  induction a generalizing a' with
  | nil =>
    cases a' with
    | nil => exact ⟨rfl, List.tail_eq_of_cons_eq h⟩
    | cons x a' =>
      have hx : c = x := List.head_eq_of_cons_eq h
      exact absurd (hx ▸ List.mem_cons_self) ha'
  | cons x a ih =>
    cases a' with
    | nil =>
      have hx : x = c := List.head_eq_of_cons_eq h
      exact absurd (hx ▸ List.mem_cons_self) ha
    | cons y a' =>
      obtain ⟨rfl, hrest⟩ := List.cons_eq_cons.1 h
      obtain ⟨rfl, hb⟩ := ih (fun hm => ha (List.mem_cons_of_mem _ hm))
        (fun hm => ha' (List.mem_cons_of_mem _ hm)) hrest
      exact ⟨rfl, hb⟩

/-! ## Searching -/

variable [DecidableEq α]

theorem findIdx?_cut (h : c ∉ a) (b : List α) : (a ++ c :: b).findIdx? (· == c) = some a.length := by
  induction a with
  | nil => simp [List.findIdx?_cons]
  | cons x a ih =>
    have hx : x ≠ c := fun hx => h (hx ▸ List.mem_cons_self)
    have hrest := ih fun hm => h (List.mem_cons_of_mem _ hm)
    rw [List.cons_append, List.findIdx?_cons, hrest]
    simp [hx]

theorem findIdx?_none (h : c ∉ a) : a.findIdx? (· == c) = none := by
  rw [List.findIdx?_eq_none_iff]
  intro x hx
  have hne : x ≠ c := fun heq => h (heq ▸ hx)
  simpa using hne

/-- A search from the back stops at the last separator. -/
theorem findIdx?_reverse_cut (a : List α) (h : c ∉ b) :
    (a ++ c :: b).reverse.findIdx? (· == c) = some b.length := by
  have hrev : (a ++ c :: b).reverse = b.reverse ++ c :: a.reverse := by simp
  rw [hrev, findIdx?_cut (by simpa using h), List.length_reverse]

/-! ## Joining -/

section Join

omit [DecidableEq α]

variable {sep : List α}

/-- Joining in two steps. -/
theorem intercalate_append {xs ys : List (List α)} (hxs : xs ≠ []) (hys : ys ≠ []) :
    sep.intercalate (xs ++ ys) = sep.intercalate xs ++ sep ++ sep.intercalate ys := by
  induction xs with
  | nil => exact absurd rfl hxs
  | cons x xs ih =>
    cases xs with
    | nil => rw [List.singleton_append, List.intercalate_cons_of_ne_nil hys, List.intercalate_singleton]
    | cons x' xs =>
      have hrest := ih (List.cons_ne_nil _ _)
      have hsum : x' :: xs ++ ys ≠ [] := List.cons_ne_nil _ _
      rw [List.cons_append, List.intercalate_cons_of_ne_nil hsum, hrest, List.intercalate_cons_cons]
      simp only [List.append_assoc]

theorem intercalate_concat {xs : List (List α)} (hxs : xs ≠ []) (x : List α) :
    sep.intercalate (xs ++ [x]) = sep.intercalate xs ++ sep ++ x := by
  rw [intercalate_append hxs (List.cons_ne_nil _ _), List.intercalate_singleton]

/-- What is joined comes from the parts and the separators. -/
theorem mem_intercalate {xs : List (List α)} (h : c ∈ sep.intercalate xs) :
    c ∈ sep ∨ ∃ x ∈ xs, c ∈ x := by
  induction xs with
  | nil => simp at h
  | cons x xs ih =>
    by_cases hxs : xs = []
    · subst hxs
      rw [List.intercalate_singleton] at h
      exact .inr ⟨x, List.mem_singleton_self x, h⟩
    · rw [List.intercalate_cons_of_ne_nil hxs, List.mem_append, List.mem_append] at h
      rcases h with (hx | hsep) | hrest
      · exact .inr ⟨x, List.mem_cons_self, hx⟩
      · exact .inl hsep
      · rcases ih hrest with hsep | ⟨y, hy, hc⟩
        · exact .inl hsep
        · exact .inr ⟨y, List.mem_cons_of_mem _ hy, hc⟩

/-- Every part is followed by the separator, except the last. -/
theorem flatMap_intercalate (xs : List (List α)) (x : List α) :
    xs.flatMap (· ++ sep) ++ x = sep.intercalate (xs ++ [x]) := by
  induction xs with
  | nil => rw [List.nil_append, List.intercalate_singleton]; rfl
  | cons y xs ih =>
    rw [List.flatMap_cons, List.append_assoc, ih, List.cons_append,
      List.intercalate_cons_of_ne_nil (by simp)]

/-- There are no more parts than elements, if no part is empty. -/
theorem length_le_intercalate {xs : List (List α)} (hxs : ∀ x ∈ xs, x ≠ []) :
    xs.length ≤ (sep.intercalate xs).length := by
  induction xs with
  | nil => exact Nat.zero_le _
  | cons x xs ih =>
    have hpos : 0 < x.length := List.length_pos_iff.2 (hxs x List.mem_cons_self)
    have hrest := ih fun y hy => hxs y (List.mem_cons_of_mem _ hy)
    by_cases hnil : xs = []
    · subst hnil
      rw [List.intercalate_singleton, List.length_singleton]
      omega
    · rw [List.intercalate_cons_of_ne_nil hnil, List.length_append, List.length_append,
        List.length_cons]
      omega

/-- **Joined lists tell their parts**, if no part holds the head of the separator. -/
theorem intercalate_injective {rest : List α} {xs ys : List (List α)} (hxs : ∀ x ∈ xs, c ∉ x)
    (hys : ∀ y ∈ ys, c ∉ y) (hne : xs ≠ []) (hne' : ys ≠ [])
    (h : (c :: rest).intercalate xs = (c :: rest).intercalate ys) : xs = ys := by
  induction xs generalizing ys with
  | nil => exact absurd rfl hne
  | cons x xs ih =>
    have hx := hxs x List.mem_cons_self
    cases ys with
    | nil => exact absurd rfl hne'
    | cons y ys =>
      have hy := hys y List.mem_cons_self
      by_cases hnil : xs = []
      · subst hnil
        by_cases hnil' : ys = []
        · subst hnil'
          rw [List.intercalate_singleton, List.intercalate_singleton] at h
          rw [h]
        · -- a part alone holds no separator
          rw [List.intercalate_singleton, List.intercalate_cons_of_ne_nil hnil'] at h
          exact absurd (h ▸ by simp) hx
      · by_cases hnil' : ys = []
        · subst hnil'
          rw [List.intercalate_singleton, List.intercalate_cons_of_ne_nil hnil] at h
          exact absurd (h ▸ by simp) hy
        · rw [List.intercalate_cons_of_ne_nil hnil, List.intercalate_cons_of_ne_nil hnil',
            List.append_assoc, List.append_assoc, List.cons_append, List.cons_append] at h
          obtain ⟨rfl, hrest⟩ := cut_unique hx hy h
          have htail := ih (fun z hz => hxs z (List.mem_cons_of_mem _ hz))
            (fun z hz => hys z (List.mem_cons_of_mem _ hz)) hnil hnil' (List.append_cancel_left hrest)
          rw [htail]

/-- Parts that are not empty are told also where there may be none. -/
theorem intercalate_injective_of_ne_nil {rest : List α} {xs ys : List (List α)}
    (hxs : ∀ x ∈ xs, x ≠ [] ∧ c ∉ x) (hys : ∀ y ∈ ys, y ≠ [] ∧ c ∉ y)
    (h : (c :: rest).intercalate xs = (c :: rest).intercalate ys) : xs = ys := by
  have hpos : ∀ zs : List (List α), (∀ z ∈ zs, z ≠ [] ∧ c ∉ z) → zs ≠ [] →
      (c :: rest).intercalate zs ≠ [] := by
    intro zs hzs hne
    cases zs with
    | nil => exact absurd rfl hne
    | cons z zs =>
      have hz := (hzs z List.mem_cons_self).1
      by_cases hnil : zs = []
      · subst hnil
        rwa [List.intercalate_singleton]
      · rw [List.intercalate_cons_of_ne_nil hnil]
        simp
  by_cases hx : xs = []
  · subst hx
    by_cases hy : ys = []
    · exact hy.symm
    · exact absurd h.symm (hpos ys hys hy)
  · by_cases hy : ys = []
    · subst hy
      exact absurd h (hpos xs hxs hx)
    · exact intercalate_injective (fun x hm => (hxs x hm).2) (fun y hm => (hys y hm).2) hx hy h

end Join

/-! ## Splitting -/

/-- **Joining the parts with another separator** puts it in the place of each `c`. -/
theorem intercalate_splitOn_eq (sep s : List α) :
    sep.intercalate (s.splitOn c) = s.flatMap fun x => if x = c then sep else [x] := by
  induction s with
  | nil => rfl
  | cons x s ih =>
    obtain ⟨y, ys, hs⟩ := List.exists_cons_of_ne_nil (List.splitOn_ne_nil c s)
    rw [List.splitOn_cons_eq_if_modifyHead, List.flatMap_cons, ← ih, hs]
    simp only [beq_iff_eq]
    split
    · rw [List.intercalate_cons_cons, List.nil_append]
    · rw [List.modifyHead_cons, List.intercalate_cons_cons_left, List.singleton_append]

end Grpcxx.Split
