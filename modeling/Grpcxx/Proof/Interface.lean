import Grpcxx.Model.Interface
import Grpcxx.Proof.Naming

/-!
# The generated header means what the file says

`Generate` writes text. Whoever includes it gets the declarations that a compiler reads in that text, and
these make up the services of the file: each in the namespaces of its package and its own, under its full
name, with its methods and their types.

* `Proto.File`: what protoc promises of a file. `Proto.File.interface`: what it says.
* `declares_rpc`, `declares_service`: the text of a piece is read as the declaration it was written for.
* `rpcOf_tokens`, `serviceOf_tokens`: a declaration gives back what it was written for.
* `header_means`: all files.
-/

namespace Grpcxx

open Cpp Interface Transducer

/-! ## What a file says -/

/-- Inside the package the name that is left, and elsewhere the whole name. -/
def FullName.within (package name : FullName) : FullName :=
  if Inside package name then name.drop package.length else name

/-- The identifiers, as words. -/
def FullName.words (n : FullName) : List Bytes := n.map (·.name)

theorem FullName.words_ne_nil {n : FullName} (h : n ≠ []) : n.words ≠ [] := by simpa [words] using h

theorem FullName.text_singleton (i : Identifier) : FullName.text [i] = i.name := by simp [text]

namespace Proto

structure Method where
  name : Identifier
  input : FullName
  output : FullName
  input_ne : input ≠ []
  output_ne : output ≠ []

structure Service where
  name : Identifier
  methods : List Method
  nodup : (methods.map Method.name).Nodup

/-- A file that protoc gives to the plugin. Its name stays within a line. -/
structure File where
  name : Bytes
  package : FullName
  services : List Service
  nodup : (services.map Service.name).Nodup
  in_line : ∀ c ∈ name, lineChar c = true

def Method.descriptor (m : Method) : MethodDescriptor where
  name := m.name.name
  input_type := m.input.text
  output_type := m.output.text

def Service.descriptor (s : Service) : ServiceDescriptor where
  name := s.name.name
  methods := s.methods.map Method.descriptor

def File.descriptor (file : File) : FileDescriptor where
  name := file.name
  package := file.package.text
  services := file.services.map Service.descriptor

def Method.rpc (package : FullName) (m : Method) : Interface.Rpc where
  method := m.name.name
  input := (FullName.within package m.input).words
  output := (FullName.within package m.output).words

def Service.interface (package : FullName) (s : Service) : Interface.Service where
  scope := (package ++ [s.name]).words
  name := (package ++ [s.name]).text
  rpcs := s.methods.map (Method.rpc package)

/-- **What a file says**, in the terms in which a header is read. -/
def File.interface (file : File) : List Interface.Service := file.services.map (Service.interface file.package)

/-- The types of an rpc are written with names. -/
def Method.Named (package : FullName) (m : Method) : Prop :=
  ∀ w ∈ (m.rpc package).input ++ (m.rpc package).output, isName w = true

/-- The file's names are names in C++ too, and none of its namespaces is found in place of another. -/
structure File.Named (file : File) : Prop where
  package : ∀ i ∈ file.package, isName i.name = true
  services : ∀ s ∈ file.services, isName s.name.name = true
  methods : ∀ s ∈ file.services, ∀ m ∈ s.methods, m.Named file.package
  hides : ∀ s ∈ file.services, hides (file.package ++ [s.name]).words = false

end Proto

/-! ## Declarations and what they are written for -/

namespace Interface

def pathTokens : Path → List Token
  | [] => []
  | [w] => [.word w]
  | w :: w' :: ws => .word w :: .mark 0x3a :: .mark 0x3a :: pathTokens (w' :: ws)

/-- `grpcxx::template<"name"` -/
def instanceTokens (template : String) (name : Bytes) : List Token :=
  [word "grpcxx", mark ':', mark ':', word template, mark '<', .text name]

def usingTokens (name : Bytes) (ts : List Token) : List Token := word "using" :: .word name :: mark '=' :: ts

def Rpc.tokens (r : Rpc) : List Token :=
  instanceTokens "rpc" r.method ++
    mark ',' :: (pathTokens r.input ++ mark ',' :: (pathTokens r.output ++ [mark '>']))

def aliasTokens (names : List Bytes) : List Token := names.flatMap fun name => [mark ',', .word name]

/-- The alias of an rpc. -/
def Rpc.alias (r : Rpc) : Bytes := lit "rpc" ++ r.method

def Rpc.declaration (scope : List Bytes) (r : Rpc) : Declaration := ⟨scope, usingTokens r.alias r.tokens⟩

def Service.declaration (s : Service) : Declaration :=
  ⟨s.scope, usingTokens (lit "Service")
    (instanceTokens "service" s.name ++ (aliasTokens (s.rpcs.map Rpc.alias) ++ [mark '>']))⟩

theorem plain_path (ws : Path) : (pathTokens ws).all Token.plain = true := by
  induction ws with
  | nil => rfl
  | cons w ws ih =>
    cases ws with
    | nil => rfl
    | cons w' ws => exact ih

theorem plain_aliases (names : List Bytes) : (aliasTokens names).all Token.plain = true := by
  induction names with
  | nil => rfl
  | cons name names ih => exact ih

/-- A path ends where these tokens start. -/
def Ends (ts : List Token) : Prop := ∀ w, isName w = true → path (.word w :: ts) = some ([w], ts)

theorem path_tokens {ws : Path} (hne : ws ≠ []) (hnames : ∀ w ∈ ws, isName w = true) {ts : List Token}
    (h : Ends ts) : path (pathTokens ws ++ ts) = some (ws, ts) := by
  induction ws with
  | nil => exact absurd rfl hne
  | cons w ws ih =>
    cases ws with
    | nil => exact h w (hnames w List.mem_cons_self)
    | cons w' ws =>
      have hrest := ih (by simp) fun v hv => hnames v (List.mem_cons_of_mem _ hv)
      show (if isName w then (path (pathTokens (w' :: ws) ++ ts)).map _ else none) = _
      rw [if_pos (hnames w List.mem_cons_self), hrest]
      rfl

/-- An rpc with types that are written, with names. -/
structure Typed (r : Rpc) : Prop where
  input : r.input ≠ []
  output : r.output ≠ []
  names : ∀ w ∈ r.input ++ r.output, isName w = true

theorem types_tokens {r : Rpc} (h : Typed r) :
    types (mark ',' :: (pathTokens r.input ++ mark ',' :: (pathTokens r.output ++ [mark '>']))) =
      some (r.input, r.output) := by
  have hcomma : Ends (mark ',' :: (pathTokens r.output ++ [mark '>'])) := fun _ hw => if_pos hw
  have hclose : Ends [mark '>'] := fun _ hw => if_pos hw
  have hinput := path_tokens h.input (fun w hw => h.names w (List.mem_append_left _ hw)) hcomma
  have houtput := path_tokens h.output (fun w hw => h.names w (List.mem_append_right _ hw)) hclose
  unfold types
  have hsep : ∀ ts, [mark ','].isPrefixOf? (mark ',' :: ts) = some ts := fun _ => rfl
  simp only [hsep, hinput, houtput, Option.bind_eq_bind, Option.bind_some, if_true]

theorem instanceOf_tokens (template : String) (name : Bytes) (ts : List Token) :
    instanceOf template (instanceTokens template name ++ ts) = some (name, ts) := by
  simp [instanceOf, instanceTokens, List.isPrefixOf?]

/-- **An rpc** is read back. -/
theorem rpcOf_tokens {r : Rpc} (h : Typed r) : rpcOf r.tokens = some r := by
  unfold rpcOf Rpc.tokens
  rw [instanceOf_tokens, Option.bind_some, types_tokens h]
  rfl

theorem aliases_tokens (names : List Bytes) : aliases (aliasTokens names ++ [mark '>']) = some names := by
  induction names with
  | nil => rfl
  | cons name names ih =>
    show (if mark ',' = mark ',' then (aliases (aliasTokens names ++ [mark '>'])).map (name :: ·) else none) = _
    rw [if_pos rfl, ih]
    rfl

/-- **A service** is read back, up to its rpcs. -/
theorem serviceOf_tokens (name : Bytes) (names : List Bytes) :
    serviceOf (instanceTokens "service" name ++ (aliasTokens names ++ [mark '>'])) = some (name, names) := by
  unfold serviceOf
  rw [instanceOf_tokens, Option.bind_some, aliases_tokens]
  rfl

/-- The alias of an rpc is a name: no keyword starts like that. -/
theorem name_alias (r : Rpc) : isName r.alias = true := by
  have hkeywords : keywords.all (fun k => !(lit "rpc").isPrefixOf k) = true := by decide +kernel
  have hrpc : (lit "rpc").isPrefixOf r.alias = true := List.isPrefixOf_iff_prefix.2 (List.prefix_append _ _)
  have hnot : keywords.contains r.alias = false := by
    rw [List.contains_eq_mem, decide_eq_false_iff_not]
    intro hmem
    have hno := List.all_eq_true.1 hkeywords _ hmem
    rw [hrpc] at hno
    cases hno
  have hdigit : (r.alias.head?.any fun c => 0x30 ≤ c && c ≤ 0x39) = false := rfl
  unfold isName
  rw [hnot, hdigit]
  rfl

theorem alias_ne_service (r : Rpc) : r.alias ≠ lit "Service" := by
  intro heq
  have hhead := congrArg List.head? heq
  cases hhead

/-- A service is not taken for an rpc. -/
theorem rpcOf_service (name : Bytes) (ts : List Token) : rpcOf (instanceTokens "service" name ++ ts) = none := rfl

end Interface

/-! ## From text to declarations -/

theorem identifier_text {c : UInt8} (h : identifierChar c = true) : stringChar c = true := by
  simp only [stringChar, Bool.and_eq_true, bne_iff_ne]
  refine ⟨⟨?_, ?_⟩, ?_⟩ <;> rintro rfl <;> exact absurd h (by decide)

theorem string_line {c : UInt8} (h : stringChar c = true) : lineChar c = true := by
  simp only [stringChar, Bool.and_eq_true] at h
  rw [lineChar, h.1.2, h.2]
  rfl

/-- The words of a name. -/
def Words (ws : List Bytes) : Prop := ∀ w ∈ ws, w ≠ [] ∧ ∀ c ∈ w, wordChar c = true

theorem FullName.words_words (n : FullName) : Words n.words := by
  intro w hw
  obtain ⟨i, -, rfl⟩ := List.mem_map.1 hw
  exact ⟨i.name_ne, i.chars⟩

theorem scans_path {ws : List Bytes} (hne : ws ≠ []) (hws : Words ws) {text : Bytes} {m : Mode}
    {ts : List Token} (hbreaks : breaks text = true) (hrest : Scans .code text m ts) :
    Scans .code ((lit "::").intercalate ws ++ text) m (pathTokens ws ++ ts) := by
  induction ws with
  | nil => exact absurd rfl hne
  | cons w ws ih =>
    obtain ⟨hw, hchars⟩ := hws w List.mem_cons_self
    cases ws with
    | nil =>
      have hone : (lit "::").intercalate [w] = w := by simp
      rw [hone]
      exact scans_token hw hchars hbreaks hrest
    | cons w' ws =>
      have hmore := ih (by simp) fun v hv => hws v (List.mem_cons_of_mem _ hv)
      have hcons := @Split.intercalate_append _ (lit "::") [w] (w' :: ws) (by simp) (by simp)
      have hone : (lit "::").intercalate [w] = w := by simp
      rw [List.singleton_append, hone] at hcons
      have hcolons : Scans .code (lit "::") .code [.mark 0x3a, .mark 0x3a] := rfl
      rw [hcons, List.append_assoc, List.append_assoc]
      exact scans_token hw hchars rfl (hcolons.append hmore)

/-- The rpcs of a service, up to the end of its alias. -/
theorem scans_aliases {names : List Bytes} (hnames : Words names) :
    breaks (names.flatMap (fun name => lit ", " ++ name) ++ lit ">;\n\n") = true ∧
      Scans .code (names.flatMap (fun name => lit ", " ++ name) ++ lit ">;\n\n") .code
        (aliasTokens names ++ [mark '>', mark ';']) := by
  induction names with
  | nil => exact ⟨rfl, rfl⟩
  | cons name names ih =>
    obtain ⟨hne, hchars⟩ := hnames name List.mem_cons_self
    obtain ⟨hbreaks, hscans⟩ := ih fun n hn => hnames n (List.mem_cons_of_mem _ hn)
    have hsep : Scans .code (lit ", ") .code [mark ','] := rfl
    refine ⟨rfl, ?_⟩
    rw [List.flatMap_cons, List.append_assoc, List.append_assoc]
    exact hsep.append (scans_token hne hchars hbreaks hscans)

section Pieces

variable {plugin version : Bytes} {StripProto : Bytes → Bytes} {scope : List Bytes}

theorem declares_open {i : Identifier} (hi : isName i.name = true) :
    Declares scope (Piece.text plugin version StripProto (.namespaceOpen i.name)) (scope ++ [i.name]) [] := by
  refine ⟨[.word namespaceWord, .word i.name, .mark 0x7b], ?_, reads_namespace hi⟩
  have hhead : Scans .code (lit "namespace ") .code [.word namespaceWord] := rfl
  have hbrace : Scans .code (lit " \x7b\n") .code [.mark 0x7b] := rfl
  show Scans .code (lit "namespace " ++ i.name ++ lit " \x7b\n") _ _
  rw [List.append_assoc]
  exact hhead.append (scans_token i.name_ne i.chars rfl hbrace)

theorem declares_close (i : Identifier) :
    Declares (scope ++ [i.name]) (Piece.text plugin version StripProto (.namespaceClose i.name)) scope [] := by
  refine ⟨[.mark 0x7d], ?_, reads_close i.name⟩
  have hhead : Scans .code (lit "\x7d // namespace ") .line [.mark 0x7d] := rfl
  have hname : Scans .line i.name .line [] := scans_line fun c hc => string_line (identifier_text (i.chars c hc))
  have hend : Scans .line (lit "\n") .code [] := rfl
  exact (hhead.append hname).append hend

/-- An rpc, with names of types as C++ has them. -/
theorem declares_rpc (i : Identifier) {input output : FullName} (hin : input ≠ []) (hout : output ≠ []) :
    Declares scope (Piece.text plugin version StripProto (.rpc i.name input.cpp output.cpp)) scope
      [Rpc.declaration scope ⟨i.name, input.words, output.words⟩] := by
  have hplain : (usingTokens (lit "rpc" ++ i.name)
      (Rpc.tokens ⟨i.name, input.words, output.words⟩)).all Token.plain = true := by
    have hpaths := And.intro (plain_path input.words) (plain_path output.words)
    simp [usingTokens, Rpc.tokens, instanceTokens, hpaths, word, mark, Token.plain]
  refine ⟨_, ?_, reads_declaration (by simp [usingTokens]) hplain⟩
  -- up to the name in quotes
  have husing : Scans .code (lit "using rpc") (.word (lit "rpc")) [word "using"] := rfl
  have halias : Scans (.word (lit "rpc")) i.name (.word (lit "rpc" ++ i.name)) [] := scans_more i.chars
  have heq : Scans .code (lit " = grpcxx::rpc<\"") (.text [])
      [mark '=', word "grpcxx", mark ':', mark ':', word "rpc", mark '<'] := rfl
  have hname : Scans (.text []) i.name (.text i.name) [] :=
    scans_text fun c hc => identifier_text (i.chars c hc)
  have hhead := ((husing.append halias).append (scans_end rfl heq)).append hname
  -- from there to the end, backward
  have hend : Scans .code (lit ">;\n\n") .code [mark '>', .mark 0x3b] := rfl
  have hsep : Scans .code (lit ", ") .code [mark ','] := rfl
  have houts := hsep.append (scans_path (FullName.words_ne_nil hout) output.words_words rfl hend)
  have hins := hsep.append (scans_path (FullName.words_ne_nil hin) input.words_words rfl houts)
  have hquote : Scans (.text i.name) (lit "\", " ++ (input.cpp ++ (lit ", " ++ (output.cpp ++ lit ">;\n\n"))))
      .code (.text i.name :: _) := scans_quote hins
  have htext : Piece.text plugin version StripProto (.rpc i.name input.cpp output.cpp) =
      lit "using rpc" ++ i.name ++ lit " = grpcxx::rpc<\"" ++ i.name ++
        (lit "\", " ++ (input.cpp ++ (lit ", " ++ (output.cpp ++ lit ">;\n\n")))) := by
    simp only [Piece.text, List.append_assoc]
  rw [htext]
  simpa [usingTokens, Rpc.tokens, instanceTokens, Rpc.alias] using hhead.append hquote

theorem name_text (n : FullName) : ∀ c ∈ n.text, stringChar c = true := by
  induction n with
  | nil =>
    intro c hc
    cases hc
  | cons i n ih =>
    intro c hc
    by_cases hn : n = []
    · subst hn
      rw [FullName.text_singleton] at hc
      exact identifier_text (i.chars c hc)
    · have hcons := @FullName.text_append [i] n (by simp) hn
      rw [List.singleton_append, FullName.text_singleton] at hcons
      rw [hcons] at hc
      rcases List.mem_append.1 hc with hc | hc
      · exact identifier_text (i.chars c hc)
      · rcases List.mem_cons.1 hc with rfl | hc
        · rfl
        · exact ih c hc

/-- A service, with the names of its methods. -/
theorem declares_service (n : FullName) (methods : List Identifier) :
    Declares scope
      (Piece.text plugin version StripProto (.service n.text (methods.map fun i => lit "rpc" ++ i.name))) scope
      [⟨scope, usingTokens (lit "Service") (instanceTokens "service" n.text ++
        (aliasTokens (methods.map fun i => lit "rpc" ++ i.name) ++ [mark '>']))⟩] := by
  have hnames : Words (methods.map fun i => lit "rpc" ++ i.name) := by
    intro w hw
    obtain ⟨i, -, rfl⟩ := List.mem_map.1 hw
    have hrpc : ∀ c ∈ lit "rpc", wordChar c = true := List.all_eq_true.1 rfl
    refine ⟨by simp [lit], fun c hc => ?_⟩
    rcases List.mem_append.1 hc with hc | hc
    · exact hrpc c hc
    · exact i.chars c hc
  generalize methods.map (fun i => lit "rpc" ++ i.name) = names at hnames ⊢
  have hplain : (usingTokens (lit "Service") (instanceTokens "service" n.text ++
      (aliasTokens names ++ [mark '>']))).all Token.plain = true := by
    have haliases := plain_aliases names
    simp [usingTokens, instanceTokens, haliases, word, mark, Token.plain]
  refine ⟨_, ?_, reads_declaration (by simp [usingTokens]) hplain⟩
  have husing : Scans .code (lit "using Service = grpcxx::service<\"") (.text [])
      [word "using", word "Service", mark '=', word "grpcxx", mark ':', mark ':', word "service", mark '<'] := rfl
  have hname : Scans (.text []) n.text (.text n.text) [] := scans_text (name_text n)
  obtain ⟨-, haliases⟩ := scans_aliases hnames
  have hquote : Scans (.text n.text) (lit "\"" ++ (names.flatMap (fun name => lit ", " ++ name) ++ lit ">;\n\n"))
      .code (.text n.text :: _) := scans_quote haliases
  have htext : Piece.text plugin version StripProto (.service n.text names) =
      lit "using Service = grpcxx::service<\"" ++ n.text ++
        (lit "\"" ++ (names.flatMap (fun name => lit ", " ++ name) ++ lit ">;\n\n")) := by
    simp only [Piece.text, List.append_assoc]
  rw [htext]
  simpa [usingTokens, instanceTokens, word, mark] using (husing.append hname).append hquote

/-- The tokens of `ServiceImpl`. -/
def implTokens : List Token := (tokens (Piece.text [] [] id .serviceImpl)).getD []

set_option maxRecDepth 4000 in
theorem reads_impl : Reads { scope } implTokens { scope } [⟨scope, [word "struct", word "ServiceImpl"]⟩] := rfl

theorem declares_impl :
    Declares scope (Piece.text plugin version StripProto .serviceImpl) scope
      [⟨scope, [word "struct", word "ServiceImpl"]⟩] := by
  have hscans : Scans .code (Piece.text [] [] id .serviceImpl) .code implTokens := by decide +kernel
  exact ⟨implTokens, hscans, reads_impl⟩

theorem declares_newline : Declares scope (Piece.text plugin version StripProto .newline) scope [] := .skip rfl

/-- The lines before the declarations. -/
theorem declares_prologue {file : Bytes} (hfile : ∀ c ∈ file, lineChar c = true)
    (hstrip : StripProto file <+: file) (hplugin : ∀ c ∈ plugin, lineChar c = true)
    (hversion : ∀ c ∈ version, lineChar c = true) :
    Declares scope (Piece.text plugin version StripProto (.prologue file)) scope [] := by
  have hstart : Scans .code (lit "// Code generated by ") .line [] := rfl
  have hversions : Scans .line (lit ".\n// Versions:\n//   - ") .line [] := rfl
  have hcolon : Scans .line (lit ": v") .line [] := rfl
  have hsource : Scans .line (lit "\n// Source: ") .line [] := rfl
  have hincludes : Scans .line
      (lit "\n\n#pragma once\n\n#include <grpcxx/rpc.h>\n#include <grpcxx/service.h>\n\n#include \"") .line [] := by
    decide +kernel
  have hend : Scans .line (lit ".pb.h\"\n") .code [] := rfl
  have hstripped : ∀ c ∈ StripProto file, lineChar c = true := fun c hc => hfile c (hstrip.subset hc)
  exact .skip ((((((((((hstart.append (scans_line hplugin)).append hversions).append (scans_line hplugin)).append
    hcolon).append (scans_line hversion)).append hsource).append (scans_line hfile)).append hincludes).append
      (scans_line hstripped)).append hend)

end Pieces

/-! ## Services and files -/

namespace Proto

theorem within_ne_nil {package name : FullName} (h : name ≠ []) : FullName.within package name ≠ [] := by
  unfold FullName.within
  split
  · rename_i hinside
    obtain ⟨⟨rest, rfl⟩, hne⟩ := hinside
    rw [List.drop_left]
    rintro rfl
    exact hne (List.append_nil _).symm
  · exact h

theorem mapper_within {package name : FullName} (h : FullName.Aligned package name) :
    mapper package.text name.text = .ok (FullName.within package name).cpp := by
  rw [FullName.mapper_aligned h, FullName.mapped, FullName.within]
  split <;> rfl

/-- The types that an rpc is written with. -/
def Method.Aligned (package : FullName) (m : Method) : Prop :=
  FullName.Aligned package m.input ∧ FullName.Aligned package m.output

def Method.piece (package : FullName) (m : Method) : Piece :=
  .rpc m.name.name (FullName.within package m.input).cpp (FullName.within package m.output).cpp

def Service.pieces (package : FullName) (s : Service) : List Piece :=
  .namespaceOpen s.name.name :: s.methods.map (Method.piece package) ++
    [.service (package ++ [s.name]).text ((s.methods.map Method.name).map fun i => lit "rpc" ++ i.name),
      .serviceImpl, .namespaceClose s.name.name]

theorem rpcPiece_eq {package : FullName} {m : Method} (h : m.Aligned package) :
    rpcPiece package.text m.descriptor = .ok (m.piece package) := by
  unfold rpcPiece Method.descriptor
  rw [mapper_within h.1, mapper_within h.2]
  rfl

theorem mapM_ok {α β : Type} {f : α → Except Stop β} {g : α → β} {xs : List α}
    (h : ∀ x ∈ xs, f x = .ok (g x)) : xs.mapM f = .ok (xs.map g) := by
  rw [mapM_eq_ok_iff, List.forall₂_map_right_iff, List.forall₂_same]
  exact h

theorem serviceName_eq (package : FullName) (i : Identifier) :
    serviceName package.text i.name = (package ++ [i]).text := by
  unfold serviceName
  by_cases hp : package = []
  · subst hp
    rw [List.nil_append, FullName.text_singleton]
    rfl
  · have hne := FullName.text_ne_nil hp
    rw [FullName.text_append hp (by simp), FullName.text_singleton, if_neg (by simpa using hne), List.append_assoc]
    rfl

theorem servicePieces_eq {package : FullName} {s : Service} (h : ∀ m ∈ s.methods, m.Aligned package) :
    servicePieces package.text s.descriptor = .ok (s.pieces package) := by
  have hrpcs : (s.methods.map Method.descriptor).mapM (rpcPiece package.text) =
      .ok (s.methods.map (Method.piece package)) := by
    rw [List.mapM_map]
    exact mapM_ok fun m hm => rpcPiece_eq (h m hm)
  unfold servicePieces Service.pieces
  simp only [Service.descriptor]
  rw [hrpcs, serviceName_eq, List.map_map, List.map_map]
  rfl

/-- The declarations for a service. -/
def Service.declarations (package : FullName) (s : Service) : List Declaration :=
  s.methods.map (fun m => Rpc.declaration (package ++ [s.name]).words (m.rpc package)) ++
    [(s.interface package).declaration, ⟨(package ++ [s.name]).words, [word "struct", word "ServiceImpl"]⟩]

variable {plugin version : Bytes} {StripProto : Bytes → Bytes}

/-- **The text for a service.** -/
theorem declares_pieces (package : FullName) {s : Service} (hs : isName s.name.name = true) :
    Declares package.words ((s.pieces package).flatMap (Piece.text plugin version StripProto)) package.words
      (s.declarations package) := by
  have hscope : (package ++ [s.name]).words = package.words ++ [s.name.name] := List.map_append
  have hopen := @declares_open plugin version StripProto package.words s.name hs
  have hrpcs : Declares (package ++ [s.name]).words
      ((s.methods.map (Method.piece package)).flatMap (Piece.text plugin version StripProto))
      (package ++ [s.name]).words
      (s.methods.map fun m => Rpc.declaration (package ++ [s.name]).words (m.rpc package)) := by
    rw [List.flatMap_map, List.map_eq_flatMap]
    exact Declares.flatMap fun m _ =>
      declares_rpc m.name (within_ne_nil m.input_ne) (within_ne_nil m.output_ne)
  have hservice := @declares_service plugin version StripProto (package ++ [s.name]).words (package ++ [s.name])
    (s.methods.map Method.name)
  have himpl := @declares_impl plugin version StripProto (package ++ [s.name]).words
  have hclose := @declares_close plugin version StripProto package.words s.name
  rw [← hscope] at hopen hclose
  have hall := (((hopen.append hrpcs).append hservice).append himpl).append hclose
  have htext : (s.pieces package).flatMap (Piece.text plugin version StripProto) =
      Piece.text plugin version StripProto (.namespaceOpen s.name.name) ++
        (s.methods.map (Method.piece package)).flatMap (Piece.text plugin version StripProto) ++
        Piece.text plugin version StripProto
          (.service (package ++ [s.name]).text ((s.methods.map Method.name).map fun i => lit "rpc" ++ i.name)) ++
        Piece.text plugin version StripProto .serviceImpl ++
        Piece.text plugin version StripProto (.namespaceClose s.name.name) := by
    unfold Service.pieces
    simp only [List.cons_append, List.flatMap_cons, List.flatMap_append, List.flatMap_nil, List.append_nil,
      List.append_assoc]
  have hdeclaration : (s.interface package).declaration = ⟨(package ++ [s.name]).words, usingTokens (lit "Service")
      (instanceTokens "service" (package ++ [s.name]).text ++
        (aliasTokens ((s.methods.map Method.name).map fun i => lit "rpc" ++ i.name) ++ [mark '>']))⟩ := by
    unfold Interface.Service.declaration Service.interface
    rw [List.map_map, List.map_map]
    rfl
  rw [htext, Service.declarations, hdeclaration]
  simpa only [List.nil_append, List.append_nil, List.append_assoc, List.singleton_append] using hall

/-- The namespaces of a package are opened. -/
theorem declares_opens (scope : List Bytes) {package : FullName} (hnames : ∀ i ∈ package, isName i.name = true) :
    Declares scope ((package.words.map Piece.namespaceOpen).flatMap (Piece.text plugin version StripProto))
      (scope ++ package.words) [] := by
  induction package generalizing scope with
  | nil =>
    rw [show FullName.words [] = [] from rfl, List.append_nil]
    exact Declares.nil
  | cons i package ih =>
    have hrest := ih (scope ++ [i.name]) fun j hj => hnames j (List.mem_cons_of_mem _ hj)
    rw [List.append_assoc] at hrest
    exact (declares_open (hnames i List.mem_cons_self)).append hrest

/-- And closed. -/
theorem declares_closes (scope : List Bytes) (package : FullName) :
    Declares (scope ++ package.words)
      ((package.words.reverse.map Piece.namespaceClose).flatMap (Piece.text plugin version StripProto)) scope
      [] := by
  induction package generalizing scope with
  | nil =>
    rw [show FullName.words [] = [] from rfl, List.append_nil]
    exact Declares.nil
  | cons i package ih =>
    have hrest := ih (scope ++ [i.name])
    rw [List.append_assoc] at hrest
    have hwords : FullName.words (i :: package) = i.name :: FullName.words package := rfl
    have hlast : [i.name].map Piece.namespaceClose = [.namespaceClose i.name] := rfl
    rw [hwords, List.reverse_cons, List.map_append, List.flatMap_append, hlast, List.flatMap_singleton]
    exact hrest.append (declares_close i)

/-- What the plugin writes. -/
def File.pieces (file : File) : List Piece :=
  .prologue file.name ::
    (if file.package.words = [] then [] else .newline :: file.package.words.map .namespaceOpen) ++
      (file.services.map (Service.pieces file.package)).flatten ++ file.package.words.reverse.map .namespaceClose

/-- The types in the file's services. -/
def File.Aligned (file : File) : Prop := ∀ s ∈ file.services, ∀ m ∈ s.methods, m.Aligned file.package

theorem Generate_pieces {file : File} (h : file.Aligned) : Generate file.descriptor = .ok file.pieces := by
  have hservices : (file.services.map Service.descriptor).mapM (servicePieces file.package.text) =
      .ok (file.services.map (Service.pieces file.package)) := by
    rw [List.mapM_map]
    exact mapM_ok fun s hs => servicePieces_eq (h s hs)
  rw [Generate_eq file.descriptor file.package.components rfl]
  show (do
    let services ← (file.services.map Service.descriptor).mapM (servicePieces file.package.text)
    _) = _
  rw [hservices]
  rfl

/-- **The text of a file.** -/
theorem declares_file {file : File} (hnamed : file.Named) (hstrip : StripProto file.name <+: file.name)
    (hplugin : ∀ c ∈ plugin, lineChar c = true) (hversion : ∀ c ∈ version, lineChar c = true) :
    Declares [] (file.pieces.flatMap (Piece.text plugin version StripProto)) []
      (file.services.flatMap (Service.declarations file.package)) := by
  have hprologue := @declares_prologue plugin version StripProto [] file.name file.in_line hstrip
    hplugin hversion
  have hopens : Declares [] ((if file.package.words = [] then [] else
      .newline :: file.package.words.map Piece.namespaceOpen).flatMap (Piece.text plugin version StripProto))
      file.package.words [] := by
    split
    · rename_i hnil
      rw [hnil]
      exact Declares.nil
    · exact declares_newline.append (declares_opens [] hnamed.package)
  have hservices : Declares file.package.words
      ((file.services.map (Service.pieces file.package)).flatten.flatMap (Piece.text plugin version StripProto))
      file.package.words (file.services.flatMap (Service.declarations file.package)) := by
    rw [← List.flatMap_def, List.flatMap_assoc]
    exact Declares.flatMap fun s hs => declares_pieces file.package (hnamed.services s hs)
  have hcloses := @declares_closes plugin version StripProto [] file.package
  have hall := ((hprologue.append hopens).append hservices).append hcloses
  unfold File.pieces
  rw [List.flatMap_append, List.flatMap_append, List.flatMap_cons]
  simpa only [List.nil_append, List.append_nil, List.append_assoc] using hall

/-! ## What is declared -/

/-- No alias stands in these namespaces. -/
def Fresh (env : Scopes) (scope : List Bytes) : Prop := ∀ e ∈ env, e.1.1 ≠ scope

theorem lookup_fresh {env : Scopes} {scope : List Bytes} (h : Fresh env scope) (name : Bytes) :
    env.lookup (scope, name) = none := by
  rw [List.lookup_eq_none_iff]
  intro e he
  rw [bne_iff_ne]
  intro heq
  exact h e he (congrArg Prod.fst heq).symm

/-- The aliases of rpcs in their namespaces. -/
def entries (scope : List Bytes) (rpcs : List Interface.Rpc) : Scopes :=
  rpcs.map fun r => ((scope, r.alias), some r)

theorem usingAs_tokens (name : Bytes) (ts : List Token) : usingAs (usingTokens name ts) = some (name, ts) := rfl

/-- **An rpc is declared.** -/
theorem declare_rpc {env : Scopes} {scope : List Bytes} {r : Interface.Rpc} (htyped : Typed r)
    (hscope : hides scope = false) (hnew : env.lookup (scope, r.alias) = none) :
    declare env (r.declaration scope) = some (env ++ [((scope, r.alias), some r)], []) := by
  unfold declare Rpc.declaration
  simp only [hscope, usingAs_tokens, name_alias, rpcOf_tokens htyped, hnew, Option.isSome_none, Bool.not_true,
    Bool.or_self, Bool.false_eq_true, if_false]

/-- The loop over the methods. -/
theorem feeds_rpcs {scope : List Bytes} {rpcs : List Interface.Rpc} (htyped : ∀ r ∈ rpcs, Typed r)
    (hscope : hides scope = false) (hnodup : (rpcs.map Rpc.alias).Nodup) {env : Scopes}
    (hnew : ∀ r ∈ rpcs, env.lookup (scope, r.alias) = none) :
    Feeds declare env (rpcs.map (Rpc.declaration scope)) (env ++ entries scope rpcs) [] := by
  induction rpcs generalizing env with
  | nil =>
    rw [show entries scope [] = [] from rfl, List.append_nil]
    exact Feeds.nil
  | cons r rpcs ih =>
    rw [List.map_cons, List.nodup_cons] at hnodup
    have hone := declare_rpc (htyped r List.mem_cons_self) hscope (hnew r List.mem_cons_self)
    have hrest : Feeds declare (env ++ [((scope, r.alias), some r)]) (rpcs.map (Rpc.declaration scope))
        (env ++ [((scope, r.alias), some r)] ++ entries scope rpcs) [] := by
      refine ih (fun r' hr' => htyped r' (List.mem_cons_of_mem _ hr')) hnodup.2 fun r' hr' => ?_
      have hother : r'.alias ≠ r.alias := by
        intro heq
        exact hnodup.1 (heq ▸ List.mem_map_of_mem hr')
      rw [List.lookup_append, hnew r' (List.mem_cons_of_mem _ hr'), Option.none_or, List.lookup_eq_none_iff]
      intro e he
      rw [List.mem_singleton.1 he, bne_iff_ne]
      intro heq
      exact hother (Prod.mk.inj heq).2
    rw [List.append_assoc] at hrest
    exact hrest.skip hone

theorem lookup_entries {scope : List Bytes} {rpcs : List Interface.Rpc} (hnodup : (rpcs.map Rpc.alias).Nodup)
    {r : Interface.Rpc} (hr : r ∈ rpcs) : (entries scope rpcs).lookup (scope, r.alias) = some (some r) := by
  induction rpcs with
  | nil => cases hr
  | cons r' rpcs ih =>
    rw [List.map_cons, List.nodup_cons] at hnodup
    show (((scope, r'.alias), some r') :: entries scope rpcs).lookup (scope, r.alias) = _
    rcases List.mem_cons.1 hr with rfl | hr
    · exact List.lookup_cons_self
    · have hother : r.alias ≠ r'.alias := by
        intro heq
        exact hnodup.1 (heq ▸ List.mem_map_of_mem hr)
      have hkey : ((scope, r.alias) == (scope, r'.alias)) = false := by simpa using hother
      rw [List.lookup_cons, hkey]
      exact ih hnodup.2 hr

theorem mapM_some {α β : Type} {f : β → Option α} {g : α → β} {xs : List α}
    (h : ∀ x ∈ xs, f (g x) = some x) : (xs.map g).mapM f = some xs := by
  induction xs with
  | nil => rfl
  | cons x xs ih =>
    rw [List.map_cons, List.mapM_cons, h x List.mem_cons_self, ih fun y hy => h y (List.mem_cons_of_mem _ hy)]
    rfl

/-- **A service is declared**, with the rpcs that its aliases name. -/
theorem declare_service {env : Scopes} {s : Interface.Service} (hscope : hides s.scope = false)
    (hnew : env.lookup (s.scope, lit "Service") = none)
    (h : ∀ r ∈ s.rpcs, env.lookup (s.scope, r.alias) = some (some r)) :
    declare env s.declaration = some (env ++ [((s.scope, lit "Service"), none)], [s]) := by
  have hrpcs : (s.rpcs.map Rpc.alias).mapM (fun name => (env.lookup (s.scope, name)).join) = some s.rpcs :=
    mapM_some fun r hr => by rw [h r hr]; rfl
  have hname : isName (lit "Service") = true := by decide +kernel
  unfold declare Interface.Service.declaration
  simp only [hscope, usingAs_tokens, hname, hnew, rpcOf_service, serviceOf_tokens, Option.isSome_none,
    Bool.not_true, Bool.or_self, Bool.false_eq_true, if_false, Option.bind_eq_bind, Option.bind_some, hrpcs]
  rfl

/-- The methods' aliases are as different as their names. -/
theorem nodup_alias (package : FullName) (s : Service) :
    ((s.methods.map (Method.rpc package)).map Rpc.alias).Nodup := by
  have hnames : (s.methods.map Method.name).Nodup := s.nodup
  have halias : (s.methods.map (Method.rpc package)).map Rpc.alias =
      (s.methods.map Method.name).map fun i => lit "rpc" ++ i.name := by
    rw [List.map_map, List.map_map]
    rfl
  rw [halias]
  exact hnames.map fun i j hij => Identifier.ext_name (List.append_cancel_left hij)

/-- The aliases of a service. -/
def Service.entries (package : FullName) (s : Service) : Scopes :=
  Proto.entries (package ++ [s.name]).words (s.methods.map (Method.rpc package)) ++
    [(((package ++ [s.name]).words, lit "Service"), none)]

/-- **The declarations of a service** make up what the file says of it. -/
theorem feeds_service (package : FullName) {s : Service} (hmethods : ∀ m ∈ s.methods, m.Named package)
    (hscope : hides (package ++ [s.name]).words = false) {env : Scopes}
    (hfresh : Fresh env (package ++ [s.name]).words) :
    Feeds declare env (s.declarations package) (env ++ s.entries package) [s.interface package] := by
  have hnodup := nodup_alias package s
  have htyped : ∀ r ∈ s.methods.map (Method.rpc package), Typed r := by
    intro r hr
    obtain ⟨m, hm, rfl⟩ := List.mem_map.1 hr
    exact ⟨FullName.words_ne_nil (within_ne_nil m.input_ne), FullName.words_ne_nil (within_ne_nil m.output_ne),
      hmethods m hm⟩
  have hrpcs := feeds_rpcs htyped hscope hnodup fun r _ => lookup_fresh hfresh r.alias
  rw [List.map_map] at hrpcs
  have hown : (s.interface package).scope = (package ++ [s.name]).words := rfl
  have hlookup : ∀ r ∈ (s.interface package).rpcs,
      (env ++ Proto.entries (package ++ [s.name]).words (s.methods.map (Method.rpc package))).lookup
        ((s.interface package).scope, r.alias) = some (some r) := by
    intro r hr
    rw [hown, List.lookup_append, lookup_fresh hfresh, Option.none_or]
    exact lookup_entries hnodup hr
  have hnew : (env ++ Proto.entries (package ++ [s.name]).words (s.methods.map (Method.rpc package))).lookup
      ((s.interface package).scope, lit "Service") = none := by
    rw [hown, List.lookup_append, lookup_fresh hfresh, Option.none_or, List.lookup_eq_none_iff]
    intro e he
    obtain ⟨r, -, rfl⟩ := List.mem_map.1 he
    rw [bne_iff_ne]
    exact fun heq => alias_ne_service r (Prod.mk.inj heq).2.symm
  have hstruct : Feeds declare (env ++ s.entries package)
      [⟨(package ++ [s.name]).words, [word "struct", word "ServiceImpl"]⟩] (env ++ s.entries package) [] := by
    have hone : declare (env ++ s.entries package)
        ⟨(package ++ [s.name]).words, [word "struct", word "ServiceImpl"]⟩ =
          some (env ++ s.entries package, []) := by
      unfold declare
      rw [hscope]
      rfl
    exact Feeds.cons hone Feeds.nil
  unfold Service.entries at hstruct ⊢
  rw [← List.append_assoc] at hstruct ⊢
  exact hrpcs.append (Feeds.cons (declare_service hscope hnew hlookup) hstruct)

theorem scope_injective {package : FullName} {i j : Identifier}
    (h : (package ++ [i]).words = (package ++ [j]).words) : i = j := by
  have hnames : package ++ [i] = package ++ [j] := FullName.map_name_injective h
  exact List.singleton_injective (List.append_cancel_left hnames)

/-- The loop over the services. -/
theorem feeds_services (package : FullName) {services : List Service} (hnodup : (services.map Service.name).Nodup)
    (hmethods : ∀ s ∈ services, ∀ m ∈ s.methods, m.Named package)
    (hscopes : ∀ s ∈ services, hides (package ++ [s.name]).words = false) {env : Scopes}
    (hfresh : ∀ s ∈ services, Fresh env (package ++ [s.name]).words) :
    ∃ env', Feeds declare env (services.flatMap (Service.declarations package)) env'
      (services.map (Service.interface package)) := by
  induction services generalizing env with
  | nil => exact ⟨env, Feeds.nil⟩
  | cons s services ih =>
    rw [List.map_cons, List.nodup_cons] at hnodup
    have hone := feeds_service package (hmethods s List.mem_cons_self) (hscopes s List.mem_cons_self)
      (hfresh s List.mem_cons_self)
    have hothers : ∀ s' ∈ services, Fresh (env ++ s.entries package) (package ++ [s'.name]).words := by
      intro s' hs' e he
      rcases List.mem_append.1 he with he | he
      · exact hfresh s' (List.mem_cons_of_mem _ hs') e he
      · have hscope : e.1.1 = (package ++ [s.name]).words := by
          rcases List.mem_append.1 he with he | he
          · obtain ⟨r, -, rfl⟩ := List.mem_map.1 he
            rfl
          · rw [List.mem_singleton.1 he]
        intro heq
        have hname : s.name = s'.name := scope_injective (hscope.symm.trans heq)
        exact hnodup.1 (hname ▸ List.mem_map_of_mem hs')
    obtain ⟨env', hrest⟩ := ih hnodup.2 (fun s' hs' => hmethods s' (List.mem_cons_of_mem _ hs'))
      (fun s' hs' => hscopes s' (List.mem_cons_of_mem _ hs')) hothers
    exact ⟨env', hone.append hrest⟩

end Proto

/-- **The header means what the file says.** For every file of protoc whose names are names in C++ too, and
whose types' names `mapper` can tell from the package's: the plugin writes a header, and the services that
are declared in its text are those of the file, in order, with their namespaces, full names, methods and
types. Of `StripProto` no more is used than that it takes something off the end. -/
theorem header_means (file : Proto.File) (haligned : file.Aligned) (hnamed : file.Named)
    {plugin version : Bytes} {StripProto : Bytes → Bytes} (hstrip : ∀ name, StripProto name <+: name)
    (hplugin : ∀ c ∈ plugin, lineChar c = true) (hversion : ∀ c ∈ version, lineChar c = true) :
    ∃ output, Generate file.descriptor = .ok output ∧
      Interface.services (written plugin version StripProto file.descriptor output).2 = some file.interface := by
  refine ⟨file.pieces, Proto.Generate_pieces haligned, ?_⟩
  have hdeclarations := (Proto.declares_file hnamed (hstrip file.name) hplugin hversion).declarations
  have hnone : ∀ s ∈ file.services, Proto.Fresh [] (file.package ++ [s.name]).words := by
    intro s _ e he
    cases he
  obtain ⟨env, hfeeds⟩ := Proto.feeds_services file.package file.nodup hnamed.methods hnamed.hides hnone
  have hfeed : feed declare [] _ = some (env, file.interface) := hfeeds
  unfold Interface.services written
  rw [hdeclarations, Option.bind_some, hfeed]
  rfl

/-- The package `net.echo`, with a type of its own and one of the package `net.ec`. -/
def echoFile : Proto.File where
  name := lit "net/echo.proto"
  package := [.of (lit "net") (by decide) (by decide), .of (lit "echo") (by decide) (by decide)]
  services := [{
    name := .of (lit "Echo") (by decide) (by decide)
    methods := [{
      name := .of (lit "Say") (by decide) (by decide)
      input := [.of (lit "net") (by decide) (by decide), .of (lit "echo") (by decide) (by decide),
        .of (lit "In") (by decide) (by decide)]
      output := [.of (lit "net") (by decide) (by decide), .of (lit "ec") (by decide) (by decide),
        .of (lit "Out") (by decide) (by decide)]
      input_ne := by simp
      output_ne := by simp }]
    nodup := by simp }]
  nodup := by simp
  in_line := List.all_eq_true.1 rfl

/-- `.proto` is taken off a name that has it. -/
theorem header_means_echo : ∃ output, Generate echoFile.descriptor = .ok output ∧
    Interface.services (written (lit "protoc-gen-grpcxx") (lit "0.1.0")
      (fun name => if (lit ".proto").isSuffixOf name then name.take (name.length - 6) else name)
      echoFile.descriptor output).2 =
      some [⟨[lit "net", lit "echo", lit "Echo"], lit "net.echo.Echo",
        [⟨lit "Say", [lit "In"], [lit "net", lit "ec", lit "Out"]⟩]⟩] := by
  have haligned : echoFile.Aligned := by
    intro s hs m hm
    rw [List.mem_singleton.1 hs] at hm
    rw [List.mem_singleton.1 hm]
    exact ⟨by decide, by decide⟩
  have hnames : (echoFile.services.all fun s => isName s.name.name &&
      !Interface.hides (echoFile.package ++ [s.name]).words && s.methods.all fun m =>
        ((m.rpc echoFile.package).input ++ (m.rpc echoFile.package).output).all isName) = true := by
    decide +kernel
  have hnamed : echoFile.Named := by
    simp only [List.all_eq_true, Bool.and_eq_true, Bool.not_eq_true'] at hnames
    refine ⟨List.all_eq_true.1 (by decide +kernel), fun s hs => (hnames s hs).1.1,
      fun s hs m hm w hw => (hnames s hs).2 m hm w hw, fun s hs => (hnames s hs).1.2⟩
  have hstrip : ∀ name : Bytes, (if (lit ".proto").isSuffixOf name then name.take (name.length - 6) else name) <+:
      name := by
    intro name
    split
    · exact List.take_prefix _ _
    · exact List.prefix_rfl
  have hplugin : ∀ c ∈ lit "protoc-gen-grpcxx", Cpp.lineChar c = true := List.all_eq_true.1 rfl
  have hversion : ∀ c ∈ lit "0.1.0", Cpp.lineChar c = true := List.all_eq_true.1 rfl
  obtain ⟨output, houtput, hservices⟩ := header_means echoFile haligned hnamed hstrip hplugin hversion
  refine ⟨output, houtput, hservices.trans ?_⟩
  decide +kernel

end Grpcxx
