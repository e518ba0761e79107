import Grpcxx.Proof.Dispatch
import Grpcxx.Proof.Headers
import Grpcxx.Proof.Naming

/-!
# The paths of generated services

The generator formats the name of a service, `request::header` takes a path apart, and two
lookups find a handler by the two parts. For the services that `Generate` emits the three
agree on the gRPC path.

* `emitted_Generate`: the services and methods that the output declares.
* `rpc_registered`: the lookups among them.
* `generated_paths`: a valid request reaches the handler of its path, and no path but those of
  the file's methods reaches one.
-/

namespace Grpcxx

open StreamEvent FullName

/-! ## What is emitted -/

/-- A lookup among aliases, each for its own name. -/
theorem lookup_aliases {names : List Bytes} {name : Bytes} (h : name ∈ names) :
    (names.map fun n => (lit "rpc" ++ n, n)).lookup (lit "rpc" ++ name) = some name := by
  induction names with
  | nil => cases h
  | cons n names ih =>
    rw [List.map_cons, List.lookup_cons]
    by_cases hn : name = n
    · subst hn
      simp
    · have hne : (lit "rpc" ++ name == lit "rpc" ++ n) = false := by
        simpa using hn
      rw [hne]
      exact ih ((List.mem_cons.1 h).resolve_left hn)

theorem resolve_aliases {all names : List Bytes} (h : ∀ n ∈ names, n ∈ all) :
    (names.map fun n => lit "rpc" ++ n).filterMap
      (fun rpc => (all.map fun n => (lit "rpc" ++ n, n)).lookup rpc) = names := by
  induction names with
  | nil => rfl
  | cons n names ih =>
    have hn := lookup_aliases (h n List.mem_cons_self)
    have hrest := ih fun n' hn' => h n' (List.mem_cons_of_mem _ hn')
    rw [List.map_cons, List.filterMap_cons, hn, hrest]

/-- The rpcs of a service declare their aliases. -/
theorem emitted_rpcs {package : Bytes} {methods : List MethodDescriptor} {rpcs : List Piece}
    (h : methods.mapM (rpcPiece package) = .ok rpcs) (aliases : List (Bytes × Bytes)) (ps : List Piece) :
    emitted aliases (rpcs ++ ps) =
      emitted (aliases ++ (methods.map (·.name)).map fun n => (lit "rpc" ++ n, n)) ps := by
  have hall := rpcs_eq h
  clear h
  induction hall generalizing aliases with
  | nil => simp
  | cons hm _ ih =>
    obtain ⟨input, output, rfl⟩ := hm
    rw [List.cons_append, emitted, ih, List.append_assoc]
    rfl

/-- The service that is emitted for a service of the file. -/
def ServiceDescriptor.emit (package : Bytes) (s : ServiceDescriptor) : Emitted where
  name := serviceName package s.name
  methods := s.methods.map (·.name)

theorem emitted_service {package : Bytes} {s : ServiceDescriptor} {pieces : List Piece}
    (h : servicePieces package s = .ok pieces) (aliases : List (Bytes × Bytes)) (ps : List Piece) :
    ∃ aliases', emitted aliases (pieces ++ ps) = s.emit package :: emitted aliases' ps := by
  obtain ⟨rpcs, hrpcs, rfl⟩ := servicePieces_eq h
  have haliases := emitted_rpcs hrpcs [] ([.service (serviceName package s.name)
    (s.methods.map fun m => lit "rpc" ++ m.name), .serviceImpl, .namespaceClose s.name] ++ ps)
  -- every rpc of the service finds its alias
  have hfound := resolve_aliases (fun n (h : n ∈ s.methods.map (·.name)) => h)
  have hnames : s.methods.map (fun m => lit "rpc" ++ m.name) =
      (s.methods.map (·.name)).map fun n => lit "rpc" ++ n := by
    rw [List.map_map]
    rfl
  rw [← hnames] at hfound
  refine ⟨(s.methods.map (·.name)).map fun n => (lit "rpc" ++ n, n), ?_⟩
  rw [List.cons_append, List.cons_append, List.append_assoc, emitted, haliases]
  simp only [List.cons_append, List.nil_append, emitted]
  congr 1
  exact congrArg (Emitted.mk (serviceName package s.name)) hfound

theorem emitted_services {package : Bytes} {services : List ServiceDescriptor}
    {pieces : List (List Piece)} (h : services.mapM (servicePieces package) = .ok pieces)
    (aliases : List (Bytes × Bytes)) (ps : List Piece) :
    ∃ aliases', emitted aliases (pieces.flatten ++ ps) =
      services.map (ServiceDescriptor.emit package) ++ emitted aliases' ps := by
  have hall := (mapM_eq_ok_iff services pieces).1 h
  clear h
  induction hall generalizing aliases with
  | nil => exact ⟨aliases, rfl⟩
  | cons hs _ ih =>
    obtain ⟨between, hfirst⟩ := emitted_service hs aliases (List.flatten _ ++ ps)
    obtain ⟨aliases', hrest⟩ := ih between
    refine ⟨aliases', ?_⟩
    rw [List.flatten_cons, List.append_assoc, hfirst, hrest]
    rfl

theorem emitted_opens (aliases : List (Bytes × Bytes)) (names : List Bytes) :
    ∃ aliases', ∀ ps, emitted aliases (names.map .namespaceOpen ++ ps) = emitted aliases' ps := by
  induction names generalizing aliases with
  | nil => exact ⟨aliases, fun ps => rfl⟩
  | cons name names ih => exact ih []

theorem emitted_closes (aliases : List (Bytes × Bytes)) (names : List Bytes) :
    emitted aliases (names.map .namespaceClose) = [] := by
  induction names with
  | nil => rfl
  | cons name names ih => exact ih

/-- **What `Generate` emits** is each service of the file, with its methods. -/
theorem emitted_Generate {file : FileDescriptor} {package : FullName}
    (hpackage : file.package = package.text) {output : List Piece} (h : Generate file = .ok output) :
    emitted [] output = file.services.map (ServiceDescriptor.emit file.package) := by
  rw [Generate_eq file package.components hpackage] at h
  obtain ⟨pieces, hpieces, h⟩ := Except.bind_eq_ok.1 h
  cases h
  rw [List.cons_append, List.cons_append, emitted, List.append_assoc]
  obtain ⟨aliases, hhead⟩ : ∃ aliases, ∀ ps, emitted []
      ((if package.map (·.name) = [] then []
        else .newline :: (package.map (·.name)).map .namespaceOpen) ++ ps) = emitted aliases ps := by
    split
    · exact ⟨[], fun ps => rfl⟩
    · obtain ⟨aliases, hopens⟩ := emitted_opens [] (package.map (·.name))
      exact ⟨aliases, hopens⟩
  rw [hhead]
  obtain ⟨aliases', hservices⟩ := emitted_services hpieces aliases
    ((package.map (·.name)).reverse.map .namespaceClose)
  rw [hservices, emitted_closes, List.append_nil]

/-! ## The services of a file -/

/-- What the names of a file are. The method names of a service differ, and so do the services'. -/
structure FileDescriptor.Named (file : FileDescriptor) (package : FullName) : Prop where
  package_eq : file.package = package.text
  service_name : ∀ s ∈ file.services, ∃ i : Identifier, s.name = i.name
  services_nodup : (file.services.map (·.name)).Nodup
  method_name : ∀ s ∈ file.services, ∀ m ∈ s.methods, ∃ i : Identifier, m.name = i.name
  methods_nodup : ∀ s ∈ file.services, (s.methods.map (·.name)).Nodup

/-- **The full name of a service**: the parts of the package and its name, with dots between. -/
def ServiceDescriptor.fullName (package : FullName) (s : ServiceDescriptor) : Bytes :=
  [dot].intercalate (package.map (·.name) ++ [s.name])

/-- The rpc of that name, implemented by `impl`. -/
def Rpc.named (impl : Rpc) (method : Bytes) : Rpc := { impl with method }

/-- An emitted service as it is added, with an implementation for each of its rpcs. -/
def Emitted.registration (impl : Bytes → Bytes → Rpc) (e : Emitted) : Registration where
  name := e.name
  rpcs := e.methods.map fun method => (impl e.name method).named method

theorem serviceName_eq {package : FullName} (s : ServiceDescriptor) :
    serviceName package.text s.name = s.fullName package := by
  unfold serviceName ServiceDescriptor.fullName
  by_cases hp : package = []
  · subst hp
    simp [text]
  · have hne : package.map (·.name) ≠ [] := by simpa using hp
    have hfull : package.text.isEmpty = false := by simpa using text_ne_nil hp
    rw [Split.intercalate_concat hne, hfull]
    rfl

/-- Neither a full name nor a method name has a slash. -/
theorem fullName_slash {package : FullName} {s : ServiceDescriptor} {i : Identifier}
    (h : s.name = i.name) : slash ∉ s.fullName package := by
  have hparts : s.fullName package = (package ++ [i]).text := by
    unfold ServiceDescriptor.fullName text
    rw [List.map_append, h]
    rfl
  rw [hparts]
  intro hmem
  have hchar : ∀ c ∈ (package ++ [i]).text, c = dot ∨ identifierChar c = true := by
    generalize package ++ [i] = n
    intro c hc
    unfold text at hc
    rcases Split.mem_intercalate hc with hsep | ⟨x, hx, hcx⟩
    · exact .inl (List.mem_singleton.1 hsep)
    · obtain ⟨j, -, rfl⟩ := List.mem_map.1 hx
      exact .inr (j.chars c hcx)
  rcases hchar slash hmem with h | h
  · exact absurd h (by decide)
  · exact absurd h (by decide)

theorem fullName_injective {package : FullName} {s t : ServiceDescriptor}
    (h : s.fullName package = t.fullName package) : s.name = t.name := by
  rw [← serviceName_eq, ← serviceName_eq] at h
  exact List.append_cancel_left h

/-- A lookup by a key that no other element has. -/
theorem find?_of_nodup {α : Type*} {key : α → Bytes} {xs : List α} (h : (xs.map key).Nodup) {x : α}
    (hx : x ∈ xs) : (xs.find? fun y => key y = key x) = some x := by
  induction xs with
  | nil => cases hx
  | cons y xs ih =>
    rw [List.map_cons, List.nodup_cons] at h
    rcases List.mem_cons.1 hx with rfl | hx
    · rw [List.find?_cons_of_pos (by simp)]
    · have hne : key y ≠ key x := fun heq => h.1 (heq ▸ List.mem_map_of_mem hx)
      rw [List.find?_cons_of_neg (by simpa using hne)]
      exact ih h.2 hx

section Registered

variable {file : FileDescriptor} {package : FullName} {output : List Piece}
  {impl : Bytes → Bytes → Rpc} {regs : List Registration}

/-- What is added for a service of the file. -/
def ServiceDescriptor.added (package : FullName) (impl : Bytes → Bytes → Rpc) (s : ServiceDescriptor) :
    Registration where
  name := s.fullName package
  rpcs := s.methods.map fun m => (impl (s.fullName package) m.name).named m.name

theorem registrations_eq (hnamed : file.Named package) (hgen : Generate file = .ok output) :
    (emitted [] output).map (Emitted.registration impl) =
      file.services.map (ServiceDescriptor.added package impl) := by
  rw [emitted_Generate hnamed.package_eq hgen, List.map_map]
  refine List.map_congr_left fun s _ => ?_
  have hname := @serviceName_eq package s
  rw [← hnamed.package_eq] at hname
  simp only [Function.comp, Emitted.registration, ServiceDescriptor.emit, ServiceDescriptor.added,
    hname, List.map_map]
  rfl

/-- **The rpc of a method** is the one implemented for it, whatever the order of the services. -/
theorem rpc_registered (hnamed : file.Named package)
    (hregs : regs.Perm (file.services.map (ServiceDescriptor.added package impl)))
    {s : ServiceDescriptor} (hs : s ∈ file.services) {m : MethodDescriptor} (hm : m ∈ s.methods) :
    Registration.rpc regs (s.fullName package) m.name =
      some ((impl (s.fullName package) m.name).named m.name) := by
  have hnodup : file.services.Nodup := hnamed.services_nodup.of_map
  have hinj := List.inj_on_of_nodup_map hnamed.services_nodup
  have hnames : (regs.map (·.name)).Nodup := by
    have hperm := hregs.map (·.name)
    rw [List.map_map] at hperm
    refine hperm.nodup_iff.2 (hnodup.map_on ?_)
    intro s hs t ht h
    exact hinj hs ht (fullName_injective h)
  have hmem : s.added package impl ∈ regs := hregs.mem_iff.2 (List.mem_map_of_mem hs)
  have hfound := find?_of_nodup hnames hmem
  have hrpcs : ((s.added package impl).rpcs.map (·.method)).Nodup := by
    have hmethods : (s.added package impl).rpcs.map (·.method) = s.methods.map (·.name) := by
      simp only [ServiceDescriptor.added, List.map_map]
      rfl
    rw [hmethods]
    exact hnamed.methods_nodup s hs
  have hrpc := find?_of_nodup hrpcs (List.mem_map_of_mem hm)
  show (regs.find? fun r => r.name = (s.added package impl).name).bind _ = _
  rw [hfound, Option.bind_some]
  exact hrpc

/-- **No other rpcs** are registered. -/
theorem rpc_only (hregs : regs.Perm (file.services.map (ServiceDescriptor.added package impl)))
    {service method : Bytes} {rpc : Rpc} (h : Registration.rpc regs service method = some rpc) :
    ∃ s ∈ file.services, ∃ m ∈ s.methods, service = s.fullName package ∧ method = m.name := by
  unfold Registration.rpc at h
  obtain ⟨r, hr, hrpc⟩ := Option.bind_eq_some_iff.1 h
  have hname : r.name = service := by simpa using List.find?_some hr
  have hmethod : rpc.method = method := by simpa using List.find?_some hrpc
  obtain ⟨s, hs, rfl⟩ := List.mem_map.1 (hregs.mem_iff.1 (List.mem_of_find?_eq_some hr))
  obtain ⟨m, hm, rfl⟩ := List.mem_map.1 (List.mem_of_find?_eq_some hrpc)
  exact ⟨s, hs, m, hm, hname.symm, hmethod.symm⟩

/-- A valid request's path is taken apart into its service and its method. -/
theorem splits_of_valid {id : StreamId} {evs : List StreamEvent} {path : Bytes}
    (hpath : (Request.paths (headers evs)).getLast? = some path) (hv : (built id evs).valid = true) :
    Splits path (built id evs).service (built id evs).method := by
  have hinv : (built id evs).invalid = false := by
    simp only [Request.valid, Bool.and_eq_true, Bool.not_eq_true'] at hv
    exact hv.1.1
  obtain ⟨hheaded, heq⟩ := built_headed hinv
  have hsplits := @Request.ofHeaders_splits id (headers evs) hheaded
  rw [hpath] at hsplits
  rw [heq]
  exact hsplits

/-- **Generated services are reached under their gRPC paths, and nothing else is.** The services
that the output declares are added in any order, each rpc with any implementation. For whatever
headers and data make the request: if it is valid and its path is that of a method, then
that method's handler runs, once and alone, and answers. With any other path none runs. -/
theorem generated_paths (hnamed : file.Named package) (hgen : Generate file = .ok output)
    (hregs : regs.Perm ((emitted [] output).map (Emitted.registration impl)))
    (id : StreamId) (evs : List StreamEvent) {path : Bytes}
    (hpath : (Request.paths (headers evs)).getLast? = some path) :
    (∀ s ∈ file.services, ∀ m ∈ s.methods, path = methodPath (s.fullName package) m.name →
        (built id evs).valid = true →
        (ServerBase.added regs).process (built id evs) =
          ([⟨s.fullName package, m.name, (built id evs).data⟩],
            ServerBase.reply id (((impl (s.fullName package) m.name).named m.name).handler
              (.ofRequest (built id evs)) (built id evs).data))) ∧
      ((∀ s ∈ file.services, ∀ m ∈ s.methods, path ≠ methodPath (s.fullName package) m.name) →
        ((ServerBase.added regs).process (built id evs)).1 = []) := by
  rw [registrations_eq hnamed hgen] at hregs
  constructor
  · intro s hs m hm heq hv
    obtain ⟨i, hi⟩ := hnamed.service_name s hs
    obtain ⟨j, hj⟩ := hnamed.method_name s hs m hm
    have hsplits : Splits path (s.fullName package) m.name :=
      ⟨heq, fullName_slash hi, by rw [hj]; exact j.name_ne⟩
    obtain ⟨hservice, hmethod⟩ := hsplits.unique (splits_of_valid hpath hv)
    have hrpc := rpc_registered hnamed hregs hs hm
    rw [hservice, hmethod] at hrpc
    have hprocess := ServerBase.process_rpc hv hrpc
    rw [built_id, ← hservice, ← hmethod] at hprocess
    exact hprocess
  · intro hother
    cases hv : (built id evs).valid with
    | false => rw [ServerBase.process_invalid _ hv]
    | true =>
      have hsplits := splits_of_valid hpath hv
      cases hrpc : Registration.rpc regs (built id evs).service (built id evs).method with
      | none =>
        obtain ⟨resp, hprocess, -⟩ := ServerBase.process_unknown hv hrpc
        rw [hprocess]
      | some rpc =>
        obtain ⟨s, hs, m, hm, hservice, hmethod⟩ := rpc_only hregs hrpc
        have hpath' := hsplits.path_eq
        rw [hservice, hmethod] at hpath'
        exact absurd hpath' (hother s hs m hm)

end Registered

/-- The parts of a package. -/
def greeterPackage : FullName :=
  [.of (lit "a") (by decide) (by decide), .of (lit "bc") (by decide) (by decide)]

theorem greeter_named : greeter.Named greeterPackage where
  package_eq := by decide
  service_name := by
    intro s hs
    rw [List.mem_singleton.1 hs]
    exact ⟨.of (lit "S") (by decide) (by decide), rfl⟩
  services_nodup := by decide
  method_name := by
    intro s hs m hm
    rw [List.mem_singleton.1 hs] at hm
    rw [List.mem_singleton.1 hm]
    exact ⟨.of (lit "M") (by decide) (by decide), rfl⟩
  methods_nodup := by decide

/-- The method that takes and returns bytes. -/
def Rpc.echo : Rpc where
  method := []
  Req := Bytes
  Resp := Bytes
  ParseFromArray := some
  SerializeToString := some
  call _ req := .ok ({}, some req)

/-- The events of a request with this path, and of its message of one byte. -/
def calling (path : Bytes) : List StreamEvent :=
  [.header (lit ":method") (lit "POST"), .header (lit ":path") path, .data [0, 0, 0, 0, 1, 7]]

/-- A request for `/a.bc.S/M`, and one for `/S/M`, without the package. -/
theorem generated_paths_greeter : ∃ output, Generate greeter = .ok output ∧
    (ServerBase.added ((emitted [] output).map (Emitted.registration fun _ _ => .echo))).process
        (built 1 (calling (lit "/a.bc.S/M"))) =
      ([⟨lit "a.bc.S", lit "M", [7]⟩], .ok { id := 1, msg := .ofString [7], status := {} }) ∧
    ((ServerBase.added ((emitted [] output).map (Emitted.registration fun _ _ => .echo))).process
        (built 1 (calling (lit "/S/M")))).1 = [] := by
  match houtput : Generate greeter with
  | .error e =>
    have hret : (Generate greeter).toOption.isSome = true := by decide
    rw [houtput] at hret
    cases hret
  | .ok output =>
    refine ⟨output, rfl, ?_, ?_⟩
    · have hpath : (Request.paths (headers (calling (lit "/a.bc.S/M")))).getLast? =
          some (lit "/a.bc.S/M") := by decide
      obtain ⟨hcalled, -⟩ := generated_paths greeter_named houtput (List.Perm.refl _) 1 _ hpath
      exact hcalled _ (List.mem_singleton_self _) _ (List.mem_singleton_self _) (by decide) (by decide)
    · have hpath : (Request.paths (headers (calling (lit "/S/M")))).getLast? = some (lit "/S/M") := by
        decide
      obtain ⟨-, hother⟩ := generated_paths greeter_named houtput (List.Perm.refl _) 1 _ hpath
      apply hother
      intro s hs m hm
      rw [List.mem_singleton.1 hs] at hm ⊢
      rw [List.mem_singleton.1 hm]
      decide

end Grpcxx
