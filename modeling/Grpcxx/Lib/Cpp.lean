import Mathlib.Data.UInt
import Grpcxx.Lib.Transducer

/-!
# Reading C++ declarations

As much of C++ as it takes to read a header of namespaces, aliases and structs. A first transducer makes
tokens of characters; it leaves out comments and directives and does not read a line that is continued. A
second one follows the braces and gives out each declaration with the namespaces it stands in. A brace that
opens no namespace opens a body, and what is inside is not declared. A keyword is no name of a namespace.
Macros are not expanded, and what is included is not read.

* `Scans`: the rules for words, strings and lines; a word ends with the character after it.
* `reads_declaration`, `reads_namespace`, `reads_close`: what is read outside of all bodies.
-/

namespace Grpcxx.Cpp

open Transducer

/-! ## Tokens -/

inductive Token
  /-- an identifier, a keyword or a number -/
  | word (name : List UInt8)
  /-- a string literal -/
  | text (chars : List UInt8)
  | mark (char : UInt8)
  deriving DecidableEq, Repr

/-- The characters of words. -/
def wordChar (c : UInt8) : Bool :=
  (0x61 ≤ c && c ≤ 0x7a) || (0x41 ≤ c && c ≤ 0x5a) || (0x30 ≤ c && c ≤ 0x39) || c = 0x5f

/-- The characters of an ASCII string. -/
def ascii (s : String) : List UInt8 := s.toList.map fun c => c.toNat.toUInt8

/-- The words that name nothing. -/
def keywords : List (List UInt8) :=
  ["alignas", "alignof", "and", "and_eq", "asm", "auto", "bitand", "bitor", "bool", "break", "case", "catch",
    "char", "char8_t", "char16_t", "char32_t", "class", "co_await", "co_return", "co_yield", "compl", "concept",
    "const", "const_cast", "consteval", "constexpr", "constinit", "continue", "decltype", "default", "delete",
    "do", "double", "dynamic_cast", "else", "enum", "explicit", "export", "extern", "false", "float", "for",
    "friend", "goto", "if", "inline", "int", "long", "mutable", "namespace", "new", "noexcept", "not", "not_eq",
    "nullptr", "operator", "or", "or_eq", "private", "protected", "public", "register", "reinterpret_cast",
    "requires", "return", "short", "signed", "sizeof", "static", "static_assert", "static_cast", "struct",
    "switch", "template", "this", "thread_local", "throw", "true", "try", "typedef", "typeid", "typename",
    "union", "unsigned", "using", "virtual", "void", "volatile", "wchar_t", "while", "xor", "xor_eq"].map ascii

/-- The word is an identifier: neither a keyword nor a number. -/
def isName (w : List UInt8) : Bool := !keywords.contains w && !w.head?.any fun c => 0x30 ≤ c && c ≤ 0x39

/-- The marks that are read, each a token of its own: `{ } ( ) < > ; : , & =` -/
def marks : List UInt8 := [0x7b, 0x7d, 0x28, 0x29, 0x3c, 0x3e, 0x3b, 0x3a, 0x2c, 0x26, 0x3d]

/-- What the last character belongs to. -/
inductive Mode
  | code
  | word (name : List UInt8)
  | text (chars : List UInt8)
  | slash
  /-- a comment or a directive, up to the end of its line -/
  | line
  deriving DecidableEq, Repr

/-- A character between tokens. -/
def begin (c : UInt8) : Option (Mode × List Token) :=
  if wordChar c then some (.word [c], [])
  else if c = 0x20 ∨ c = 0x09 ∨ c = 0x0a then some (.code, [])
  else if c = 0x22 then some (.text [], [])
  else if c = 0x2f then some (.slash, [])
  else if c = 0x23 then some (.line, [])
  else if c ∈ marks then some (.code, [.mark c])
  else none

def scan : Mode → UInt8 → Option (Mode × List Token)
  | .code, c => begin c
  | .word name, c =>
    if wordChar c then some (.word (name ++ [c]), [])
    else (begin c).map fun r => (r.1, .word name :: r.2)
  | .text chars, c =>
    if c = 0x22 then some (.code, [.text chars])
    -- neither escapes nor strings of several lines
    else if c = 0x5c ∨ c = 0x0a then none
    else some (.text (chars ++ [c]), [])
  | .slash, c => if c = 0x2f then some (.line, []) else none
  | .line, c =>
    if c = 0x0a then some (.code, [])
    else if c = 0x5c then none
    else some (.line, [])

/-- The tokens of a file, which ends between two of them. -/
def tokens (text : List UInt8) : Option (List Token) :=
  match feed scan .code text with
  | some (.code, ts) => some ts
  | _ => none

/-! ## Declarations -/

/-- A declaration up to its semicolon or its body, with the namespaces around it. -/
structure Declaration where
  scope : List (List UInt8)
  tokens : List Token
  deriving DecidableEq, Repr

/-- Where the reader is: in which namespaces, in how many bodies, and after which tokens of a declaration. -/
structure Place where
  scope : List (List UInt8) := []
  depth : ℕ := 0
  pending : List Token := []
  deriving DecidableEq, Repr

/-- `namespace` -/
def namespaceWord : List UInt8 := [0x6e, 0x61, 0x6d, 0x65, 0x73, 0x70, 0x61, 0x63, 0x65]

/-- The namespace that a brace opens after these tokens. -/
def namespaceName : List Token → Option (List UInt8)
  | [.word kw, .word name] => if kw = namespaceWord then some name else none
  | _ => none

namespace Place

def opens (p : Place) : Option (Place × List Declaration) :=
  if p.depth = 0 then
    match namespaceName p.pending with
    | some name => if isName name then some ({ scope := p.scope ++ [name] }, []) else none
    | none => some ({ scope := p.scope, depth := 1 }, [⟨p.scope, p.pending⟩])
  else some ({ scope := p.scope, depth := p.depth + 1 }, [])

def closes (p : Place) : Option (Place × List Declaration) :=
  match p.depth with
  | depth + 1 => some ({ scope := p.scope, depth }, [])
  | 0 => if p.pending = [] ∧ p.scope ≠ [] then some ({ scope := p.scope.dropLast }, []) else none

def finishes (p : Place) : Place × List Declaration :=
  ({ scope := p.scope, depth := p.depth },
    if p.depth = 0 ∧ p.pending ≠ [] then [⟨p.scope, p.pending⟩] else [])

end Place

/-- A token that belongs to the declaration it stands in. -/
def Token.plain : Token → Bool
  | .mark c => c ≠ 0x7b && c ≠ 0x7d && c ≠ 0x3b
  | _ => true

def read (p : Place) (t : Token) : Option (Place × List Declaration) :=
  if t.plain then some ({ p with pending := p.pending ++ [t] }, [])
  else if t = .mark 0x7b then p.opens
  else if t = .mark 0x7d then p.closes
  else some p.finishes

/-- The declarations of a file that closes what it opens. -/
def declarations (text : List UInt8) : Option (List Declaration) :=
  (tokens text).bind fun ts =>
    match feed read {} ts with
    | some (p, ds) => if p = {} then some ds else none
    | none => none

/-! ## Scanning -/

/-- The text leads the scanner from `m` to `m'` and gives these tokens. -/
abbrev Scans (m : Mode) (text : List UInt8) (m' : Mode) (ts : List Token) : Prop := Feeds scan m text m' ts

variable {m m' : Mode} {text w : List UInt8} {ts ts' : List Token} {c : UInt8}

theorem scans_more (h : ∀ c ∈ text, wordChar c = true) : Scans (.word w) text (.word (w ++ text)) [] := by
  induction text generalizing w with
  | nil =>
    rw [List.append_nil]
    exact Feeds.nil
  | cons c text ih =>
    have hc : scan (.word w) c = some (.word (w ++ [c]), []) := if_pos (h c List.mem_cons_self)
    have hrest := ih (w := w ++ [c]) fun d hd => h d (List.mem_cons_of_mem _ hd)
    rw [List.append_assoc] at hrest
    exact hrest.skip hc

/-- A word from its first character on. -/
theorem scans_word (hne : w ≠ []) (h : ∀ c ∈ w, wordChar c = true) : Scans .code w (.word w) [] := by
  cases w with
  | nil => exact absurd rfl hne
  | cons c w =>
    have hc : scan .code c = some (.word [c], []) := if_pos (h c List.mem_cons_self)
    exact (scans_more fun d hd => h d (List.mem_cons_of_mem _ hd)).skip hc

/-- A word ends where this text starts. -/
def breaks (text : List UInt8) : Bool := text.head?.any fun c => !wordChar c

/-- A word ends with the character after it. -/
theorem scans_end (hbreaks : breaks text = true) (h : Scans .code text m ts) :
    Scans (.word w) text m (.word w :: ts) := by
  cases text with
  | nil => cases hbreaks
  | cons c text =>
    have hc : wordChar c = false := by simpa [breaks] using hbreaks
    have hword : scan (.word w) c = (begin c).map fun r => (r.1, .word w :: r.2) := if_neg (by simp [hc])
    unfold Scans Feeds at h ⊢
    rw [feed] at h ⊢
    rw [hword]
    change (begin c).bind _ = _ at h
    cases hbegin : begin c with
    | none =>
      rw [hbegin] at h
      cases h
    | some r =>
      rw [hbegin, Option.bind_some] at h
      rw [Option.map_some, Option.bind_some]
      obtain ⟨r', hr', heq⟩ := Option.map_eq_some_iff.1 h
      cases heq
      rw [hr']
      rfl

/-- A whole word. -/
theorem scans_token (hne : w ≠ []) (h : ∀ c ∈ w, wordChar c = true) (hbreaks : breaks text = true)
    (hrest : Scans .code text m ts) : Scans .code (w ++ text) m (.word w :: ts) :=
  (scans_word hne h).append (scans_end hbreaks hrest)

/-- The characters that a string is read with. -/
def stringChar (c : UInt8) : Bool := c != 0x22 && c != 0x5c && c != 0x0a

theorem scans_text (h : ∀ c ∈ text, stringChar c = true) : Scans (.text w) text (.text (w ++ text)) [] := by
  induction text generalizing w with
  | nil =>
    rw [List.append_nil]
    exact Feeds.nil
  | cons c text ih =>
    obtain ⟨⟨hquote, hescape⟩, hnewline⟩ : (c ≠ 0x22 ∧ c ≠ 0x5c) ∧ c ≠ 0x0a := by
      simpa [stringChar] using h c List.mem_cons_self
    have hc : scan (.text w) c = some (.text (w ++ [c]), []) := by
      rw [scan, if_neg hquote, if_neg (by simp [hescape, hnewline])]
    have hrest := ih (w := w ++ [c]) fun d hd => h d (List.mem_cons_of_mem _ hd)
    rw [List.append_assoc] at hrest
    exact hrest.skip hc

/-- A string ends with its quote. -/
theorem scans_quote (h : Scans .code text m ts) : Scans (.text w) (0x22 :: text) m (.text w :: ts) := by
  have hquote : scan (.text w) 0x22 = some (.code, [.text w]) := rfl
  exact Feeds.cons hquote h

/-- The characters that a comment or a directive goes on with. -/
def lineChar (c : UInt8) : Bool := c != 0x5c && c != 0x0a

theorem scans_line (h : ∀ c ∈ text, lineChar c = true) : Scans .line text .line [] := by
  induction text with
  | nil => exact Feeds.nil
  | cons c text ih =>
    obtain ⟨hescape, hnewline⟩ : c ≠ 0x5c ∧ c ≠ 0x0a := by
      simpa [lineChar] using h c List.mem_cons_self
    have hc : scan .line c = some (.line, []) := by
      rw [scan, if_neg hnewline, if_neg hescape]
    exact (ih fun d hd => h d (List.mem_cons_of_mem _ hd)).skip hc

theorem tokens_eq (h : Scans .code text .code ts) : tokens text = some ts := by
  unfold tokens
  rw [show feed scan .code text = some (.code, ts) from h]

/-! ## Reading -/

abbrev Reads (p : Place) (ts : List Token) (p' : Place) (ds : List Declaration) : Prop := Feeds read p ts p' ds

variable {scope : List (List UInt8)}

theorem reads_plain {p : Place} (h : ts.all Token.plain = true) :
    Reads p ts { p with pending := p.pending ++ ts } [] := by
  induction ts generalizing p with
  | nil =>
    rw [List.append_nil]
    exact Feeds.nil
  | cons t ts ih =>
    rw [List.all_cons, Bool.and_eq_true] at h
    have ht : read p t = some ({ p with pending := p.pending ++ [t] }, []) := if_pos h.1
    have hrest := ih (p := { p with pending := p.pending ++ [t] }) h.2
    rw [List.append_assoc] at hrest
    exact hrest.skip ht

/-- **A declaration** outside of all bodies. -/
theorem reads_declaration (hne : ts ≠ []) (h : ts.all Token.plain = true) :
    Reads { scope } (ts ++ [.mark 0x3b]) { scope } [⟨scope, ts⟩] := by
  have hfinishes : read { scope, pending := ts } (.mark 0x3b) = some ({ scope }, [⟨scope, ts⟩]) := by
    have hend : Place.finishes { scope, pending := ts } = ({ scope }, [⟨scope, ts⟩]) := by
      unfold Place.finishes
      rw [if_pos ⟨rfl, hne⟩]
    exact congrArg some hend
  have hpending : Reads { scope } ts { scope, pending := ts } [] := reads_plain h
  exact hpending.append (Feeds.cons hfinishes Feeds.nil)

/-- **A namespace** that is opened. -/
theorem reads_namespace {name : List UInt8} (hname : isName name = true) :
    Reads { scope } [.word namespaceWord, .word name, .mark 0x7b] { scope := scope ++ [name] } [] := by
  have hpending : Reads { scope } [.word namespaceWord, .word name]
      { scope, pending := [.word namespaceWord, .word name] } [] := reads_plain rfl
  have hopens : read { scope, pending := [.word namespaceWord, .word name] } (.mark 0x7b) =
      some ({ scope := scope ++ [name] }, []) := if_pos hname
  exact hpending.append (Feeds.cons hopens Feeds.nil)

/-- **A namespace** that is closed. -/
theorem reads_close (name : List UInt8) : Reads { scope := scope ++ [name] } [.mark 0x7d] { scope } [] := by
  have hcloses : read { scope := scope ++ [name] } (.mark 0x7d) = some ({ scope }, []) := by
    show Place.closes { scope := scope ++ [name] } = _
    unfold Place.closes
    dsimp only
    rw [if_pos ⟨rfl, by simp⟩, List.dropLast_concat]
  exact Feeds.cons hcloses Feeds.nil

/-! ## Both -/

/-- The text leads from the namespaces `scope` to `scope'`, outside of all bodies, with these declarations. -/
def Declares (scope : List (List UInt8)) (text : List UInt8) (scope' : List (List UInt8))
    (ds : List Declaration) : Prop :=
  ∃ ts, Scans .code text .code ts ∧ Reads { scope } ts { scope := scope' } ds

variable {scope' scope'' : List (List UInt8)} {text' : List UInt8} {ds ds' : List Declaration}

theorem Declares.nil : Declares scope [] scope [] := ⟨[], Feeds.nil, Feeds.nil⟩

/-- **Texts follow each other.** -/
theorem Declares.append (h : Declares scope text scope' ds) (h' : Declares scope' text' scope'' ds') :
    Declares scope (text ++ text') scope'' (ds ++ ds') := by
  obtain ⟨ts, hscans, hreads⟩ := h
  obtain ⟨ts', hscans', hreads'⟩ := h'
  exact ⟨ts ++ ts', hscans.append hscans', hreads.append hreads'⟩

/-- A loop that stays in the same namespaces. -/
theorem Declares.flatMap {T : Type*} {xs : List T} {f : T → List UInt8} {g : T → List Declaration}
    (h : ∀ x ∈ xs, Declares scope (f x) scope (g x)) :
    Declares scope (xs.flatMap f) scope (xs.flatMap g) := by
  induction xs with
  | nil => exact Declares.nil
  | cons x xs ih =>
    rw [List.flatMap_cons, List.flatMap_cons]
    exact (h x List.mem_cons_self).append (ih fun y hy => h y (List.mem_cons_of_mem _ hy))

/-- What is nothing but comments, directives and blanks. -/
theorem Declares.skip (h : Scans .code text .code []) : Declares scope text scope [] := ⟨[], h, Feeds.nil⟩

/-- **The declarations of a file.** -/
theorem Declares.declarations (h : Declares [] text [] ds) : declarations text = some ds := by
  obtain ⟨ts, hscans, hreads⟩ := h
  have hread : feed read {} ts = some ({}, ds) := hreads
  unfold Cpp.declarations
  rw [tokens_eq hscans, Option.bind_some, hread]
  rfl

end Grpcxx.Cpp
