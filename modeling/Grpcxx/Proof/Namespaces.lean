import Mathlib.Data.List.Induction
import Grpcxx.Model.Generate

/-!
# The loops over a package

The namespaces of a package are opened by a loop that searches forward for dots and closed
by one that searches backward. The forward loop is also the one that maps type names.

* `parts_splitOn`: the forward loop splits any string at its dots.
* `closing_intercalate`: the backward loop takes the parts from the last to the first.
* `mapper_ok_iff`: when mapping a type name throws.
* `namespaces_nested`: what `Generate` opens and closes.
-/

namespace Grpcxx

variable {α β γ : Type}

/-! ## Sequences of calls -/

theorem Except.bind_eq_ok {x : Except Stop α} {f : α → Except Stop β} {b : β} :
    (x >>= f) = .ok b ↔ ∃ a, x = .ok a ∧ f a = .ok b := by
  cases x with
  | error e => simp [bind, Except.bind]
  | ok a => simp [bind, Except.bind]

/-- What a loop of calls returns. -/
theorem mapM_eq_ok_iff {f : α → Except Stop β} (xs : List α) (ys : List β) :
    xs.mapM f = .ok ys ↔ List.Forall₂ (fun x y => f x = .ok y) xs ys := by
  induction xs generalizing ys with
  | nil => cases ys <;> simp [pure, Except.pure]
  | cons x xs ih =>
    rw [List.mapM_cons]
    constructor
    · intro h
      obtain ⟨y, hy, h⟩ := Except.bind_eq_ok.1 h
      obtain ⟨ys', hys, h⟩ := Except.bind_eq_ok.1 h
      cases h
      exact List.Forall₂.cons hy ((ih ys').1 hys)
    · intro h
      cases h with
      | cons hy hys =>
        have hrest := (ih _).2 hys
        rw [hy, hrest]
        rfl

/-- It returns if each of the calls does. -/
theorem exists_mapM_iff {f : α → Except Stop β} (xs : List α) :
    (∃ ys, xs.mapM f = .ok ys) ↔ ∀ x ∈ xs, ∃ y, f x = .ok y := by
  simp only [mapM_eq_ok_iff]
  induction xs with
  | nil => simp
  | cons x xs ih =>
    rw [List.forall_mem_cons, ← ih]
    constructor
    · rintro ⟨ys, h⟩
      cases h with
      | cons hy hys => exact ⟨⟨_, hy⟩, _, hys⟩
    · rintro ⟨⟨y, hy⟩, ys, hys⟩
      exact ⟨y :: ys, List.Forall₂.cons hy hys⟩

/-! ## Forward -/

/-- **The forward loop splits at the dots**, whatever the string is. -/
theorem parts_splitOn (fuel : ℕ) (pre t : Bytes) (h : t.length < fuel) :
    ∃ r, parts (pre ++ t) fuel pre.length ((pre ++ t).find dot pre.length) = .ok r ∧
      r.1 ++ [r.2] = t.splitOn dot := by
  induction fuel generalizing pre t with
  | zero => omega
  | succ fuel ih =>
    by_cases hmem : dot ∈ t
    · -- one part, and then the loop goes on behind the dot
      obtain ⟨a, b, rfl, ha⟩ := List.eq_append_cons_of_mem hmem
      have hlen : b.length < fuel := by
        simp only [List.length_append, List.length_cons] at h
        omega
      have hfind := Bytes.find_cut pre ha b
      have hpart : (pre ++ (a ++ dot :: b)).substrChecked pre.length
          (some (a.length + pre.length - pre.length)) = .ok a := by
        have hin : ¬ (pre ++ (a ++ dot :: b)).length < pre.length := by
          simp only [List.length_append]
          omega
        have hcount : a.length + pre.length - pre.length = a.length := by omega
        unfold Bytes.substrChecked
        rw [if_neg hin, hcount]
        simp [Bytes.substr]
      obtain ⟨r, hr, hsplit⟩ := ih (pre ++ (a ++ [dot])) b hlen
      have hassoc : pre ++ (a ++ [dot]) ++ b = pre ++ (a ++ dot :: b) := by simp
      have hstart : (pre ++ (a ++ [dot])).length = a.length + pre.length + 1 := by
        simp only [List.length_append, List.length_singleton]
        omega
      rw [hassoc, hstart] at hr
      refine ⟨(a :: r.1, r.2), ?_, ?_⟩
      · rw [hfind]
        simp only [parts]
        rw [hpart]
        show (do let r ← parts _ fuel _ _; _) = _
        rw [hr]
        rfl
      · rw [List.splitOn_append_cons_self_of_not_mem ha, ← hsplit]
        rfl
    · have hfind := Bytes.find_none pre hmem
      have hlast : (pre ++ t).substrChecked pre.length none = .ok t := by
        have hin : ¬ (pre ++ t).length < pre.length := by
          rw [List.length_append]
          omega
        unfold Bytes.substrChecked
        rw [if_neg hin, List.drop_left]
      refine ⟨([], t), ?_, ?_⟩
      · rw [hfind]
        simp only [parts]
        rw [hlast]
        rfl
      · rw [List.splitOn_eq_singleton hmem]
        rfl

/-- The loop from the start of the string. -/
theorem parts_ok (s : Bytes) :
    ∃ r, parts s (s.length + 1) 0 (s.find dot 0) = .ok r ∧ r.1 ++ [r.2] = s.splitOn dot :=
  parts_splitOn (s.length + 1) [] s (Nat.lt_succ_self _)

theorem opened_ok (package : Bytes) : opened package = .ok (package.splitOn dot) := by
  obtain ⟨r, hr, hsplit⟩ := parts_ok package
  unfold opened
  rw [hr, ← hsplit]
  rfl

/-! ## Backward -/

/-- A part of a package. -/
def Component (c : Bytes) : Prop := c ≠ [] ∧ dot ∉ c

theorem intercalate_ne_nil {cs : List Bytes} (hcs : ∀ c ∈ cs, Component c) (hne : cs ≠ []) :
    [dot].intercalate cs ≠ [] := by
  intro hnil
  have h := Split.intercalate_injective_of_ne_nil hcs (by simp) (hnil.trans List.intercalate_nil.symm)
  exact hne h

/-- **The backward loop.** It has a string before it whose end is `last`: one past the end at
first, the last character from then on. -/
theorem closing_intercalate (cs : List Bytes) : ∀ (c : Bytes) (post : Bytes) (fuel last : ℕ),
    (∀ x ∈ cs ++ [c], Component x) → cs.length < fuel →
    (last + 1 = ([dot].intercalate (cs ++ [c])).length ∨
      last = ([dot].intercalate (cs ++ [c])).length ∧ post = []) →
    closing ([dot].intercalate (cs ++ [c]) ++ post) fuel (some last)
      (Bytes.rfind ([dot].intercalate (cs ++ [c]) ++ post) dot (some last)) = .ok ((cs ++ [c]).reverse) := by
  induction cs using List.reverseRecOn with
  | nil =>
    intro c post fuel last hcs hfuel hlast
    obtain ⟨fuel, rfl⟩ : ∃ n, fuel = n + 1 := ⟨fuel - 1, by simp only [List.length_nil] at hfuel; omega⟩
    have hc := hcs c (by simp)
    rw [List.nil_append, List.intercalate_singleton] at hlast ⊢
    have htake : (c ++ post).take (last + 1) = c := by
      rcases hlast with hlast | ⟨hlast, rfl⟩
      · rw [hlast, List.take_left]
      · rw [List.append_nil]
        exact List.take_of_length_le (by omega)
    have hrfind : Bytes.rfind (c ++ post) dot (some last) = none := by
      have hrev : dot ∉ c.reverse := by simpa using hc.2
      unfold Bytes.rfind
      simp only [htake]
      rw [Split.findIdx?_none hrev, Option.map_none]
    have hsub : (c ++ post).substrChecked 0 (some (after (some last))) = .ok c := by
      unfold Bytes.substrChecked Bytes.substr after
      rw [if_neg (by omega)]
      simp only [List.drop_zero]
      rw [htake]
    rw [hrfind]
    simp only [closing]
    rw [hsub]
    rfl
  | append_singleton cs c' ih =>
    intro c post fuel last hcs hfuel hlast
    obtain ⟨fuel, rfl⟩ : ∃ n, fuel = n + 1 :=
      ⟨fuel - 1, by simp only [List.length_append, List.length_singleton] at hfuel; omega⟩
    have hc := hcs c (by simp)
    have hbefore : ∀ x ∈ cs ++ [c'], Component x := fun x hx => hcs x (List.mem_append_left _ hx)
    have hne : cs ++ [c'] ≠ [] := by simp
    have hpos : 0 < ([dot].intercalate (cs ++ [c'])).length :=
      List.length_pos_iff.2 (intercalate_ne_nil hbefore hne)
    have hjoin : [dot].intercalate (cs ++ [c'] ++ [c]) =
        [dot].intercalate (cs ++ [c']) ++ dot :: c := by
      rw [Split.intercalate_concat hne, List.append_assoc, List.singleton_append]
    have hlen : ([dot].intercalate (cs ++ [c'] ++ [c])).length =
        ([dot].intercalate (cs ++ [c'])).length + c.length + 1 := by
      rw [hjoin, List.length_append, List.length_cons]
      omega
    rw [hlen] at hlast
    rw [hjoin]
    set s := [dot].intercalate (cs ++ [c']) with hs
    -- the search stops at the dot before the last part
    have htake : (s ++ dot :: c ++ post).take (last + 1) = s ++ dot :: c := by
      have hl : (s ++ dot :: c).length = s.length + c.length + 1 := by
        rw [List.length_append, List.length_cons]
        omega
      rcases hlast with hlast | ⟨hlast, rfl⟩
      · rw [hlast, ← hl, List.take_left]
      · rw [List.append_nil]
        exact List.take_of_length_le (by omega)
    have hrfind : Bytes.rfind (s ++ dot :: c ++ post) dot (some last) = some s.length := by
      unfold Bytes.rfind
      simp only [htake]
      rw [Split.findIdx?_reverse_cut s hc.2, Option.map_some, List.length_append, List.length_cons]
      congr 1
      omega
    have hsub : Bytes.substrChecked (s ++ dot :: c ++ post) (s.length + 1) (some (last - s.length)) =
        .ok c := by
      have hin : ¬ (s ++ dot :: c ++ post).length < s.length + 1 := by
        simp only [List.length_append, List.length_cons]
        omega
      have hdrop : (s ++ dot :: c ++ post).drop (s.length + 1) = c ++ post := by
        simp [List.drop_append]
      unfold Bytes.substrChecked Bytes.substr
      rw [if_neg hin]
      simp only [hdrop]
      rcases hlast with hlast | ⟨hlast, rfl⟩
      · have hcount : last - s.length = c.length := by omega
        rw [hcount, List.take_left]
      · rw [List.append_nil]
        rw [List.take_of_length_le (by omega)]
    obtain ⟨n, hn⟩ : ∃ n, s.length = n + 1 := ⟨s.length - 1, by omega⟩
    have hrest := ih c' (dot :: c ++ post) fuel n hbefore
      (by simp only [List.length_append, List.length_singleton] at hfuel; omega) (Or.inl hn.symm)
    rw [← hs, ← List.append_assoc] at hrest
    rw [hrfind]
    simp only [closing, Option.map_some]
    rw [hsub]
    show (do let rest ← closing _ fuel (before s.length) _; _) = _
    have hprev : before s.length = some n := by rw [hn]; rfl
    have hrev : (cs ++ [c'] ++ [c]).reverse = c :: (cs ++ [c']).reverse := by
      rw [List.reverse_append]
      rfl
    rw [hprev, hrest, hrev]
    rfl

/-- The loop from the end of the package. -/
theorem closed_ok {cs : List Bytes} (hcs : ∀ c ∈ cs, Component c) (hne : cs ≠ []) :
    closed ([dot].intercalate cs) = .ok cs.reverse := by
  obtain ⟨cs, c, rfl⟩ := (List.eq_nil_or_concat cs).resolve_left hne
  rw [List.concat_eq_append] at hcs ⊢
  have hlen : (cs ++ [c]).length ≤ ([dot].intercalate (cs ++ [c])).length :=
    Split.length_le_intercalate fun x hx => (hcs x hx).1
  rw [List.length_append, List.length_singleton] at hlen
  have hfuel : cs.length < ([dot].intercalate (cs ++ [c])).length + 1 := by omega
  have h := closing_intercalate cs c [] _ _ hcs hfuel (Or.inr ⟨rfl, rfl⟩)
  rw [List.append_nil] at h
  have hrfind : Bytes.rfind ([dot].intercalate (cs ++ [c])) dot none =
      Bytes.rfind ([dot].intercalate (cs ++ [c])) dot (some ([dot].intercalate (cs ++ [c])).length) := by
    unfold Bytes.rfind
    simp only
    rw [List.take_of_length_le (Nat.le_succ _)]
  unfold closed
  rw [hrfind]
  exact h

/-! ## Type names -/

/-- The dots of a type name give way to `::`. -/
def colons (name : Bytes) : Bytes := (lit "::").intercalate (name.splitOn dot)

/-- What the mapper cuts off: the text of the package, if the name starts with it, and one
character more. -/
def Cut (package name : Bytes) : Prop := package ≠ [] ∧ package <+: name

theorem mapper_not_cut {package name : Bytes} (h : ¬ Cut package name) :
    mapper package name = .ok (colons name) := by
  obtain ⟨r, hr, hsplit⟩ := parts_ok name
  have hkeep : (!package.isEmpty && name.startsWith package) = false := by
    by_contra hcut
    apply h
    simpa [Bytes.startsWith, Cut] using hcut
  unfold mapper stripped
  rw [hkeep]
  show (do let r ← parts name (name.length + 1) 0 (name.find dot 0); _) = _
  rw [hr]
  show Except.ok (r.1.flatMap (· ++ lit "::") ++ r.2) = _
  rw [Split.flatMap_intercalate, hsplit, colons]

theorem mapper_cut {package name : Bytes} (h : Cut package name) :
    mapper package name = if name.length < package.length + 1 then .error .out_of_range
      else .ok (colons (name.drop (package.length + 1))) := by
  have hcut : (!package.isEmpty && name.startsWith package) = true := by
    simpa [Bytes.startsWith, Cut] using h
  unfold mapper stripped Bytes.substrChecked
  rw [hcut]
  simp only [if_true]
  split
  · rfl
  · obtain ⟨r, hr, hsplit⟩ := parts_ok (name.drop (package.length + 1))
    show (do let r ← parts _ _ 0 (Bytes.find (name.drop (package.length + 1)) dot 0); _) = _
    rw [hr]
    show Except.ok (r.1.flatMap (· ++ lit "::") ++ r.2) = _
    rw [Split.flatMap_intercalate, hsplit, colons]

/-- Mapping throws exactly where the type has the name of the package. -/
theorem mapper_ok_iff (package name : Bytes) :
    (∃ mapped, mapper package name = .ok mapped) ↔ (package ≠ [] → name ≠ package) := by
  by_cases hcut : Cut package name
  · have hlen := hcut.2.length_le
    rw [mapper_cut hcut]
    constructor
    · rintro ⟨mapped, h⟩ - rfl
      rw [if_pos (Nat.lt_succ_self _)] at h
      cases h
    · intro h
      have hne : package.length ≠ name.length := fun heq => h hcut.1 (hcut.2.eq_of_length heq).symm
      exact ⟨_, if_neg (by omega)⟩
  · constructor
    · rintro - hne rfl
      exact hcut ⟨hne, List.prefix_rfl⟩
    · intro _
      exact ⟨_, mapper_not_cut hcut⟩

/-! ## The output -/

/-- The namespaces that the output opens and closes, in order. -/
def namespaces (output : List Piece) : List Piece :=
  output.filter fun
    | .namespaceOpen _ | .namespaceClose _ => true
    | _ => false

/-- No type has the name of the package. -/
def FileDescriptor.Distinct (file : FileDescriptor) : Prop :=
  file.package ≠ [] → ∀ s ∈ file.services, ∀ m ∈ s.methods,
    m.input_type ≠ file.package ∧ m.output_type ≠ file.package

theorem rpcPiece_ok_iff (package : Bytes) (method : MethodDescriptor) :
    (∃ piece, rpcPiece package method = .ok piece) ↔
      (package ≠ [] → method.input_type ≠ package ∧ method.output_type ≠ package) := by
  have hin := mapper_ok_iff package method.input_type
  have hout := mapper_ok_iff package method.output_type
  constructor
  · rintro ⟨piece, h⟩ hne
    obtain ⟨input, hinput, h⟩ := Except.bind_eq_ok.1 h
    obtain ⟨output, houtput, -⟩ := Except.bind_eq_ok.1 h
    exact ⟨hin.1 ⟨_, hinput⟩ hne, hout.1 ⟨_, houtput⟩ hne⟩
  · intro h
    obtain ⟨input, hinput⟩ := hin.2 fun hne => (h hne).1
    obtain ⟨output, houtput⟩ := hout.2 fun hne => (h hne).2
    refine ⟨.rpc method.name input output, ?_⟩
    unfold rpcPiece
    rw [hinput, houtput]
    rfl

/-- The pieces of a service. -/
theorem servicePieces_eq {package : Bytes} {service : ServiceDescriptor} {pieces : List Piece}
    (h : servicePieces package service = .ok pieces) :
    ∃ rpcs, service.methods.mapM (rpcPiece package) = .ok rpcs ∧
      pieces = .namespaceOpen service.name :: rpcs ++
        [.service (serviceName package service.name) (service.methods.map fun m => lit "rpc" ++ m.name),
          .serviceImpl, .namespaceClose service.name] := by
  obtain ⟨rpcs, hrpcs, h⟩ := Except.bind_eq_ok.1 h
  cases h
  exact ⟨rpcs, hrpcs, rfl⟩

theorem servicePieces_ok_iff (package : Bytes) (service : ServiceDescriptor) :
    (∃ pieces, servicePieces package service = .ok pieces) ↔
      ∀ m ∈ service.methods, package ≠ [] → m.input_type ≠ package ∧ m.output_type ≠ package := by
  have hrpcs := exists_mapM_iff (f := rpcPiece package) service.methods
  simp only [rpcPiece_ok_iff] at hrpcs
  rw [← hrpcs]
  constructor
  · rintro ⟨pieces, h⟩
    obtain ⟨rpcs, h, -⟩ := servicePieces_eq h
    exact ⟨rpcs, h⟩
  · rintro ⟨rpcs, h⟩
    refine ⟨.namespaceOpen service.name :: rpcs ++
      [.service (serviceName package service.name) (service.methods.map fun m => lit "rpc" ++ m.name),
        .serviceImpl, .namespaceClose service.name], ?_⟩
    unfold servicePieces
    rw [h]
    rfl

/-- The rpcs of a service open no namespace. -/
theorem rpcs_eq {package : Bytes} {methods : List MethodDescriptor} {rpcs : List Piece}
    (h : methods.mapM (rpcPiece package) = .ok rpcs) :
    List.Forall₂ (fun m p => ∃ input output, p = Piece.rpc m.name input output) methods rpcs := by
  refine List.Forall₂.imp ?_ ((mapM_eq_ok_iff methods rpcs).1 h)
  intro m p hp
  obtain ⟨input, -, hp⟩ := Except.bind_eq_ok.1 hp
  obtain ⟨output, -, hp⟩ := Except.bind_eq_ok.1 hp
  cases hp
  exact ⟨input, output, rfl⟩

theorem rpcs_rpc {package : Bytes} {methods : List MethodDescriptor} {rpcs : List Piece}
    (h : methods.mapM (rpcPiece package) = .ok rpcs) :
    ∀ p ∈ rpcs, ∃ name input output, p = Piece.rpc name input output := by
  have hall := rpcs_eq h
  clear h
  induction hall with
  | nil => intro p hp; cases hp
  | cons hm _ ih =>
    intro p hp
    rcases List.mem_cons.1 hp with rfl | hp
    · obtain ⟨input, output, rfl⟩ := hm
      exact ⟨_, _, _, rfl⟩
    · exact ih p hp

theorem namespaces_append (ps qs : List Piece) :
    namespaces (ps ++ qs) = namespaces ps ++ namespaces qs :=
  List.filter_append ..

theorem namespaces_opens (names : List Bytes) :
    namespaces (names.map .namespaceOpen) = names.map .namespaceOpen := by
  unfold namespaces
  rw [List.filter_eq_self]
  intro p hp
  obtain ⟨name, -, rfl⟩ := List.mem_map.1 hp
  rfl

theorem namespaces_closes (names : List Bytes) :
    namespaces (names.map .namespaceClose) = names.map .namespaceClose := by
  unfold namespaces
  rw [List.filter_eq_self]
  intro p hp
  obtain ⟨name, -, rfl⟩ := List.mem_map.1 hp
  rfl

theorem namespaces_service {package : Bytes} {service : ServiceDescriptor} {pieces : List Piece}
    (h : servicePieces package service = .ok pieces) :
    namespaces pieces = [.namespaceOpen service.name, .namespaceClose service.name] := by
  obtain ⟨rpcs, hrpcs, rfl⟩ := servicePieces_eq h
  have hnone : namespaces rpcs = [] := by
    unfold namespaces
    rw [List.filter_eq_nil_iff]
    intro p hp
    obtain ⟨input, output, name, rfl⟩ := rpcs_rpc hrpcs p hp
    simp
  rw [← List.singleton_append, List.append_assoc, namespaces_append, namespaces_append, hnone]
  rfl

theorem namespaces_services {package : Bytes} {services : List ServiceDescriptor}
    {pieces : List (List Piece)} (h : services.mapM (servicePieces package) = .ok pieces) :
    namespaces pieces.flatten =
      services.flatMap fun s => [.namespaceOpen s.name, .namespaceClose s.name] := by
  have hall := (mapM_eq_ok_iff services pieces).1 h
  clear h
  induction hall with
  | nil => rfl
  | cons hs _ ih =>
    rw [List.flatten_cons, namespaces_append, namespaces_service hs, ih]
    rfl

theorem package_loops {cs : List Bytes} (hcs : ∀ c ∈ cs, Component c) (hne : cs ≠ []) :
    opened ([dot].intercalate cs) = .ok cs ∧ closed ([dot].intercalate cs) = .ok cs.reverse := by
  have hsplit := List.splitOn_intercalate dot (fun c hc => (hcs c hc).2) hne
  exact ⟨by rw [opened_ok, hsplit], closed_ok hcs hne⟩

/-- What is opened and closed for the package, if there is one. -/
theorem package_pieces {cs : List Bytes} (hcs : ∀ c ∈ cs, Component c) :
    packageOpen ([dot].intercalate cs) =
        .ok (if cs = [] then [] else .newline :: cs.map .namespaceOpen) ∧
      packageClose ([dot].intercalate cs) = .ok (cs.reverse.map .namespaceClose) := by
  by_cases hne : cs = []
  · subst hne
    exact ⟨rfl, rfl⟩
  · have hnonempty : ([dot].intercalate cs).isEmpty = false := by
      simpa using intercalate_ne_nil hcs hne
    obtain ⟨hopened, hclosed⟩ := package_loops hcs hne
    unfold packageOpen packageClose
    rw [hnonempty, hopened, hclosed, if_neg hne]
    exact ⟨rfl, rfl⟩

theorem Generate_eq (file : FileDescriptor) {cs : List Bytes} (hcs : ∀ c ∈ cs, Component c)
    (hpackage : file.package = [dot].intercalate cs) :
    Generate file = do
      let services ← file.services.mapM (servicePieces file.package)
      return .prologue file.name ::
        (if cs = [] then [] else .newline :: cs.map .namespaceOpen) ++ services.flatten ++
          cs.reverse.map .namespaceClose := by
  obtain ⟨hopen, hclose⟩ := package_pieces hcs
  rw [← hpackage] at hopen hclose
  unfold Generate
  rw [hopen, hclose]
  rfl

/-- **Namespaces are properly nested.** For any package of dot-free parts and any services: both
loops over the package end without a position past its end, `Generate` returns unless a type
has the name of the package, and what it returns opens the parts of the package in order, opens and
closes a namespace for each service, and closes the parts in reverse order. -/
theorem namespaces_nested (file : FileDescriptor) (cs : List Bytes) (hcs : ∀ c ∈ cs, c ≠ [] ∧ dot ∉ c)
    (hpackage : file.package = [dot].intercalate cs) :
    (cs ≠ [] → opened file.package = .ok cs ∧ closed file.package = .ok cs.reverse) ∧
      ((∃ output, Generate file = .ok output) ↔ file.Distinct) ∧
      ∀ output, Generate file = .ok output →
        namespaces output = cs.map .namespaceOpen ++
          file.services.flatMap (fun s => [.namespaceOpen s.name, .namespaceClose s.name]) ++
          cs.reverse.map .namespaceClose := by
  have heq := Generate_eq file hcs hpackage
  refine ⟨fun hne => ?_, ?_, fun output h => ?_⟩
  · rw [hpackage]
    exact package_loops hcs hne
  · have hservices := exists_mapM_iff (f := servicePieces file.package) file.services
    simp only [servicePieces_ok_iff] at hservices
    have hdistinct : file.Distinct ↔ ∀ s ∈ file.services, ∀ m ∈ s.methods, file.package ≠ [] →
        m.input_type ≠ file.package ∧ m.output_type ≠ file.package :=
      ⟨fun h s hs m hm hne => h hne s hs m hm, fun h hne s hs m hm => h s hs m hm hne⟩
    rw [hdistinct, ← hservices, heq]
    constructor
    · rintro ⟨output, h⟩
      obtain ⟨pieces, hpieces, -⟩ := Except.bind_eq_ok.1 h
      exact ⟨pieces, hpieces⟩
    · rintro ⟨pieces, hpieces⟩
      rw [hpieces]
      exact ⟨_, rfl⟩
  · rw [heq] at h
    obtain ⟨pieces, hpieces, h⟩ := Except.bind_eq_ok.1 h
    cases h
    have hhead : namespaces (.prologue file.name ::
        (if cs = [] then [] else .newline :: cs.map .namespaceOpen)) = cs.map .namespaceOpen := by
      split
      · rename_i hnil
        rw [hnil]
        rfl
      · exact namespaces_opens cs
    rw [namespaces_append, namespaces_append, hhead, namespaces_services hpieces, namespaces_closes]

/-- A file with the package `a.bc` and one service. -/
def greeter : FileDescriptor where
  name := lit "a.proto"
  package := lit "a.bc"
  services := [⟨lit "S", [⟨lit "M", lit "a.bc.In", lit "x.Out"⟩]⟩]

theorem namespaces_nested_greeter : ∃ output, Generate greeter = .ok output ∧
    namespaces output = [.namespaceOpen (lit "a"), .namespaceOpen (lit "bc"), .namespaceOpen (lit "S"),
      .namespaceClose (lit "S"), .namespaceClose (lit "bc"), .namespaceClose (lit "a")] := by
  obtain ⟨-, hreturns, hall⟩ := namespaces_nested greeter [lit "a", lit "bc"] (by decide) (by decide)
  have hdistinct : greeter.Distinct := by
    intro _
    decide
  obtain ⟨output, houtput⟩ := hreturns.2 hdistinct
  exact ⟨output, houtput, hall output houtput⟩

end Grpcxx
