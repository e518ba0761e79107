import Grpcxx.Proof.Namespaces

/-!
# The C++ names of message types

`mapper` compares and cuts characters, where a package is a prefix of a type's full name as a
list of identifiers. The two agree unless the text of the package is a prefix that ends
inside an identifier or at the end of the name.

* `dottedName_prefix`: what a textual prefix that ends at a dot is.
* `mapper_iff`: when the mapped name is the right one; there, types outside the package get
  different names.
-/

namespace Grpcxx

/-- The characters of identifiers. -/
def identifierChar (c : UInt8) : Bool :=
  (0x61 ≤ c && c ≤ 0x7a) || (0x41 ≤ c && c ≤ 0x5a) || (0x30 ≤ c && c ≤ 0x39) || c = 0x5f

/-- An identifier of a proto file. -/
structure Identifier where
  name : Bytes
  name_ne : name ≠ []
  chars : ∀ c ∈ name, identifierChar c = true
  deriving DecidableEq

/-- An identifier whose characters were looked at. -/
def Identifier.of (name : Bytes) (name_ne : name ≠ []) (chars : name.all identifierChar = true) :
    Identifier :=
  ⟨name, name_ne, List.all_eq_true.1 chars⟩

/-- A package, or the full name of a message. -/
abbrev FullName := List Identifier

namespace Identifier

theorem notMem {c : UInt8} (h : identifierChar c = false) (i : Identifier) : c ∉ i.name := by
  intro hc
  have hchar := i.chars c hc
  rw [h] at hchar
  cases hchar

theorem dot_notMem (i : Identifier) : dot ∉ i.name := notMem (by decide) i

theorem ext_name {i j : Identifier} (h : i.name = j.name) : i = j := by
  cases i
  cases j
  cases h
  rfl

theorem component (i : Identifier) : Component i.name := ⟨i.name_ne, i.dot_notMem⟩

end Identifier

namespace FullName

/-- The name with dots between its identifiers. -/
def text (n : FullName) : Bytes := [dot].intercalate (n.map (·.name))

/-- The name as C++ has it. -/
def cpp (n : FullName) : Bytes := (lit "::").intercalate (n.map (·.name))

theorem components (n : FullName) : ∀ c ∈ n.map (·.name), Component c := by
  intro c hc
  obtain ⟨i, -, rfl⟩ := List.mem_map.1 hc
  exact i.component

theorem map_name_injective {m n : FullName} (h : m.map (·.name) = n.map (·.name)) : m = n :=
  List.map_injective_iff.2 (fun _ _ => Identifier.ext_name) h

theorem cpp_injective {m n : FullName} (h : m.cpp = n.cpp) : m = n := by
  have hparts : ∀ n : FullName, ∀ c ∈ n.map (·.name), c ≠ [] ∧ ':'.toNat.toUInt8 ∉ c := by
    intro n c hc
    obtain ⟨i, -, rfl⟩ := List.mem_map.1 hc
    exact ⟨i.name_ne, i.notMem (by decide)⟩
  exact map_name_injective (Split.intercalate_injective_of_ne_nil (hparts m) (hparts n) h)

theorem text_ne_nil {n : FullName} (h : n ≠ []) : n.text ≠ [] :=
  intercalate_ne_nil n.components (by simpa using h)

theorem text_append {m n : FullName} (hm : m ≠ []) (hn : n ≠ []) :
    (m ++ n).text = m.text ++ dot :: n.text := by
  have hm' : m.map (·.name) ≠ [] := by simpa using hm
  have hn' : n.map (·.name) ≠ [] := by simpa using hn
  unfold text
  rw [List.map_append, Split.intercalate_append hm' hn', List.append_assoc, List.singleton_append]

/-- The dots of a full name are those between its identifiers. -/
theorem colons_text (n : FullName) : colons n.text = n.cpp := by
  by_cases hn : n = []
  · subst hn
    rfl
  · have hne : n.map (·.name) ≠ [] := by simpa using hn
    unfold colons text cpp
    rw [List.splitOn_intercalate dot (fun c hc => (n.components c hc).2) hne]

/-- **A textual prefix that ends at a dot** is a prefix of identifiers. -/
theorem dottedName_prefix {m n : FullName} {rest : Bytes} (hm : m ≠ [])
    (h : m.text ++ dot :: rest = n.text) : ∃ n', n = m ++ n' ∧ n' ≠ [] ∧ rest = n'.text := by
  induction m generalizing n with
  | nil => exact absurd rfl hm
  | cons i m ih =>
    cases n with
    | nil => simp [text] at h
    | cons j n =>
      by_cases hn : n = []
      · -- a name of one identifier has no dot
        subst hn
        have hj : (text [j]) = j.name := by simp [text]
        rw [hj] at h
        have hmem : dot ∈ text (i :: m) ++ dot :: rest := by simp
        rw [h] at hmem
        exact absurd hmem j.dot_notMem
      · have hright : text (j :: n) = j.name ++ dot :: text n := by
          have hcons := @text_append [j] n (by simp) hn
          simpa [text] using hcons
        by_cases hmnil : m = []
        · subst hmnil
          have hleft : text [i] = i.name := by simp [text]
          rw [hleft, hright] at h
          obtain ⟨hname, hrest⟩ := Split.cut_unique i.dot_notMem j.dot_notMem h
          exact ⟨n, by rw [Identifier.ext_name hname]; rfl, hn, hrest⟩
        · have hleft : text (i :: m) = i.name ++ dot :: text m := by
            have hcons := @text_append [i] m (by simp) hmnil
            simpa [text] using hcons
          rw [hleft, hright, List.append_assoc, List.cons_append] at h
          obtain ⟨hname, htail⟩ := Split.cut_unique i.dot_notMem j.dot_notMem h
          obtain ⟨n', hn', hne, hrest⟩ := ih hmnil htail
          refine ⟨n', ?_, hne, hrest⟩
          rw [Identifier.ext_name hname, hn']
          rfl

/-- The package is a proper prefix of the name. -/
def Inside (package name : FullName) : Prop := package <+: name ∧ package ≠ name

instance (package name : FullName) : Decidable (Inside package name) :=
  inferInstanceAs (Decidable (_ ∧ _))

/-- **The name that a type should get**: in C++, and without the package if it is in it. -/
def mapped (package name : FullName) : Bytes :=
  if Inside package name then cpp (name.drop package.length) else name.cpp

theorem inside_iff {package name : FullName} (hp : package ≠ []) :
    Inside package name ↔ package.text ++ [dot] <+: name.text := by
  constructor
  · rintro ⟨⟨rest, rfl⟩, hne⟩
    have hrest : rest ≠ [] := by
      rintro rfl
      exact hne (List.append_nil _).symm
    rw [text_append hp hrest]
    exact ⟨text rest, by simp⟩
  · rintro ⟨rest, h⟩
    rw [List.append_assoc, List.singleton_append] at h
    obtain ⟨n', rfl, hne, -⟩ := dottedName_prefix hp h
    refine ⟨List.prefix_append _ _, fun heq => hne ?_⟩
    exact List.self_eq_append_right.1 heq

/-- The package is empty, or its text is no prefix of the name, or a dot comes after it. -/
def Aligned (package name : FullName) : Prop :=
  package = [] ∨ ¬ package.text <+: name.text ∨ package.text ++ [dot] <+: name.text

instance (package name : FullName) : Decidable (Aligned package name) :=
  inferInstanceAs (Decidable (_ ∨ _))

theorem cut_iff (package name : FullName) :
    Cut package.text name.text ↔ package ≠ [] ∧ package.text <+: name.text := by
  unfold Cut
  constructor
  · rintro ⟨hne, hpre⟩
    refine ⟨fun hnil => hne ?_, hpre⟩
    rw [hnil]
    rfl
  · rintro ⟨hne, hpre⟩
    exact ⟨text_ne_nil hne, hpre⟩

theorem mapped_eq_cpp {package name : FullName} (h : ¬ Inside package name) :
    mapped package name = name.cpp := if_neg h

/-- Where the texts are aligned the mapped name is the right one. -/
theorem mapper_aligned {package name : FullName} (h : Aligned package name) :
    mapper package.text name.text = .ok (mapped package name) := by
  by_cases hp : package = []
  · subst hp
    have hnot : ¬ Cut (text []) name.text := fun hcut => hcut.1 rfl
    rw [mapper_not_cut hnot, colons_text]
    unfold mapped
    split <;> rfl
  · rcases h with h | h | h
    · exact absurd h hp
    · have hnot : ¬ Cut package.text name.text := fun hcut => h hcut.2
      have hout : ¬ Inside package name := by
        intro hin
        obtain ⟨rest, hrest⟩ := (inside_iff hp).1 hin
        exact h ⟨[dot] ++ rest, by rw [← hrest, List.append_assoc]⟩
      rw [mapper_not_cut hnot, colons_text, mapped_eq_cpp hout]
    · have hin := (inside_iff hp).2 h
      obtain ⟨⟨rest, rfl⟩, hne⟩ := hin
      have hrest : rest ≠ [] := by
        rintro rfl
        exact hne (List.append_nil _).symm
      have htext := text_append hp hrest
      have hcut : Cut package.text (package ++ rest).text :=
        (cut_iff _ _).2 ⟨hp, by rw [htext]; exact List.prefix_append _ _⟩
      have hlen : ¬ (package ++ rest).text.length < package.text.length + 1 := by
        rw [htext, List.length_append, List.length_cons]
        omega
      have hdrop : (package ++ rest).text.drop (package.text.length + 1) = text rest := by
        rw [htext]
        simp [List.drop_append]
      rw [mapper_cut hcut, if_neg hlen, hdrop, colons_text]
      unfold mapped
      rw [if_pos ⟨List.prefix_append _ _, hne⟩, List.drop_left]

/-- Where they are not, nothing comes back or too little. -/
theorem mapper_not_aligned {package name : FullName} (h : ¬ Aligned package name) :
    mapper package.text name.text ≠ .ok (mapped package name) := by
  simp only [Aligned, not_or, not_not] at h
  obtain ⟨hp, hpre, hdot⟩ := h
  have hout : ¬ Inside package name := fun hin => hdot ((inside_iff hp).1 hin)
  rw [mapper_cut ((cut_iff _ _).2 ⟨hp, hpre⟩), mapped_eq_cpp hout]
  obtain ⟨rest, hrest⟩ := hpre
  split
  · intro hok
    cases hok
  · rename_i hlen
    intro hok
    cases rest with
    | nil =>
      rw [← hrest, List.append_nil] at hlen
      omega
    | cons x rest =>
      -- one character of the name has gone that is no dot
      have hx : x ≠ dot := by
        rintro rfl
        exact hdot ⟨rest, by rw [← hrest, List.append_assoc]; rfl⟩
      have hdrop : name.text.drop (package.text.length + 1) = rest := by
        rw [← hrest]
        simp [List.drop_append]
      have hcolons : colons rest = colons name.text := by
        rw [colons_text, ← hdrop]
        exact Except.ok.inj hok
      unfold colons at hcolons
      rw [Split.intercalate_splitOn_eq, Split.intercalate_splitOn_eq, ← hrest, List.flatMap_append,
        List.flatMap_cons, if_neg hx] at hcolons
      have hlength := congrArg List.length hcolons
      simp only [List.length_append, List.length_singleton] at hlength
      omega

end FullName

open FullName

/-- **A type gets the right name** exactly if the package is empty, its text is no prefix of the
type's full name, or it is one that a dot follows. Among such types, those outside the package
get different names. -/
theorem mapper_iff (package name : FullName) :
    (mapper package.text name.text = .ok (mapped package name) ↔ Aligned package name) ∧
      ∀ name', Aligned package name → Aligned package name' →
        ¬ Inside package name → ¬ Inside package name' → name ≠ name' →
        mapper package.text name.text ≠ mapper package.text name'.text := by
  refine ⟨⟨fun h => ?_, mapper_aligned⟩, fun name' h h' hout hout' hne heq => hne ?_⟩
  · by_contra hnot
    exact mapper_not_aligned hnot h
  · rw [mapper_aligned h, mapper_aligned h', mapped_eq_cpp hout, mapped_eq_cpp hout'] at heq
    exact cpp_injective (Except.ok.inj heq)

/-- `foo.v1`, beside the types `foo.v1beta.X` and `eta.X` -/
def fooV1 : FullName :=
  [.of (lit "foo") (by decide) (by decide), .of (lit "v1") (by decide) (by decide)]

def fooV1betaX : FullName :=
  [.of (lit "foo") (by decide) (by decide), .of (lit "v1beta") (by decide) (by decide),
    .of (lit "X") (by decide) (by decide)]

def etaX : FullName := [.of (lit "eta") (by decide) (by decide), .of (lit "X") (by decide) (by decide)]

/-- A sibling package: its type gets the name of another one. -/
theorem mapper_fails :
    (¬ ∀ package name : FullName, mapper package.text name.text = .ok (mapped package name)) ∧
      ¬ ∀ package name name' : FullName, ¬ Inside package name → ¬ Inside package name' →
        name ≠ name' → mapper package.text name.text ≠ mapper package.text name'.text := by
  have hsame : mapper fooV1.text fooV1betaX.text = mapper fooV1.text etaX.text := by decide +kernel
  constructor
  · intro h
    have hright : mapper fooV1.text etaX.text = .ok (mapped fooV1 fooV1betaX) := by
      rw [← hsame]
      exact h fooV1 fooV1betaX
    exact absurd hright (by decide +kernel)
  · intro h
    exact h fooV1 fooV1betaX etaX (by decide) (by decide) (by decide) hsame

end Grpcxx
