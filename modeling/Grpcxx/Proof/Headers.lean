import Grpcxx.Proof.Order

/-!
# What a request keeps of its headers

The headers of a request are taken in one by one. A mistake sets the `invalid` flag, and with it
the request stays as it is; `:path` leaves the service and the method, names without a meaning of
their own go to the metadata, the first of a name.

* `headerPath_splits`, `headerPath_malformed`: when a path is taken apart.
* `ofHeaders_valid`: the request that any headers make.
* `lookup_ofHeaders`: its metadata.
* `accepted_iff`: `operator bool` is the rule for gRPC requests exactly unless headers that are
  right as far as they go leave out `:method` or `content-type`, whose flags nothing reads.
* `context_meta`: what a handler sees of the metadata.
-/

namespace Grpcxx

/-- `/`, as a byte -/
def slash : UInt8 := '/'.toNat.toUInt8

/-- The path of a method. -/
def methodPath (service method : Bytes) : Bytes := lit "/" ++ service ++ lit "/" ++ method

/-- The path is taken apart into this service and this method; the service may be empty. -/
structure Splits (path service method : Bytes) : Prop where
  path_eq : path = methodPath service method
  slash_notMem : slash ∉ service
  method_ne : method ≠ []

theorem methodPath_eq (service method : Bytes) :
    methodPath service method = slash :: (service ++ slash :: method) := by
  simp [methodPath, lit, slash]

/-- A path is taken apart in one way. -/
theorem Splits.unique {path s m s' m' : Bytes} (h : Splits path s m) (h' : Splits path s' m') :
    s = s' ∧ m = m' := by
  have heq := h.path_eq.symm.trans h'.path_eq
  rw [methodPath_eq, methodPath_eq] at heq
  exact Split.cut_unique h.slash_notMem h'.slash_notMem (List.tail_eq_of_cons_eq heq)

namespace Request

/-! ## Flags -/

theorem invalid_setFlag_of_ne (r : Request) {f : Flag} (h : f ≠ .invalid) :
    (r.setFlag f).invalid = r.invalid := by
  have hbit : ∀ x y : UInt8, y &&& 0x01 = 0 → (x ||| y) &&& 0x01 = x &&& 0x01 := by
    intro x y hy
    rw [← UInt8.toBitVec_inj] at hy ⊢
    apply BitVec.eq_of_getLsbD_eq
    intro i hi
    have hi' := congrArg (fun v => v.getLsbD i) hy
    simp only [UInt8.toBitVec_and, UInt8.toBitVec_or, BitVec.getLsbD_and, BitVec.getLsbD_or] at hi' ⊢
    cases hone : (UInt8.toBitVec 1).getLsbD i with
    | false => simp
    | true =>
      rw [hone] at hi'
      simp at hi'
      simp [hi']
  have hnot : f.bits &&& 0x01 = 0 := by
    cases f with
    | invalid => exact absurd rfl h
    | _ => rfl
  show ((r.flags ||| f.bits) &&& 0x01 == 0x01) = (r.flags &&& 0x01 == 0x01)
  rw [hbit _ _ hnot]

/-! ## One header -/

/-- The header is no mistake. -/
def Fine (name value : Bytes) : Prop :=
  (name = lit ":method" → value = lit "POST") ∧
    (name = lit ":path" → ∃ s m, Splits value s m) ∧
    (name = lit "content-type" → value.startsWith (lit "application/grpc") = true)

theorem headerPath_splits (r : Request) {value s m : Bytes} (h : Splits value s m) :
    r.headerPath value = { r.setFlag .header_path with service := s, method := m } := by
  obtain ⟨rfl, hs, hm⟩ := h
  have hfind : Bytes.find (slash :: (s ++ slash :: m)) slash 1 = some (s.length + 1) :=
    Bytes.find_cut [slash] hs m
  have hmethod : (slash :: (s ++ slash :: m)).drop (s.length + 1 + 1) = m := by
    simp [List.drop_append]
  have hservice : Bytes.substr (slash :: (s ++ slash :: m)) 1 (s.length + 1 - 1) = s := by
    simp [Bytes.substr]
  unfold headerPath
  rw [methodPath_eq]
  rw [if_neg (by simp [slash])]
  rw [show ('/'.toNat.toUInt8 : UInt8) = slash from rfl, hfind]
  simp only [hmethod, hservice]
  rw [if_neg (by simpa using hm)]

theorem headerPath_malformed (r : Request) {value : Bytes} (h : ¬ ∃ s m, Splits value s m) :
    (r.headerPath value).invalid = true := by
  unfold headerPath
  dsimp only
  rw [show ('/'.toNat.toUInt8 : UInt8) = slash from rfl]
  split
  · exact invalid_setFlag _
  · rename_i hfront
    cases value with
    | nil => exact absurd (show ([] : Bytes).headD 0 ≠ slash by decide) hfront
    | cons x rest =>
      have hx : x = slash := by simpa using hfront
      subst hx
      by_cases hmem : slash ∈ rest
      · obtain ⟨s, m, rfl, hs⟩ := List.eq_append_cons_of_mem hmem
        have hfind : Bytes.find (slash :: (s ++ slash :: m)) slash 1 = some (s.length + 1) :=
          Bytes.find_cut [slash] hs m
        have hmethod : (slash :: (s ++ slash :: m)).drop (s.length + 1 + 1) = m := by
          simp [List.drop_append]
        rw [hfind]
        simp only [hmethod]
        -- only the method can be missing
        have hnil : m = [] := by
          by_contra hm
          exact h ⟨s, m, (methodPath_eq s m).symm, hs, hm⟩
        subst hnil
        exact invalid_setFlag _
      · have hfind : Bytes.find (slash :: rest) slash 1 = none := Bytes.find_none [slash] hmem
        rw [hfind]
        exact invalid_setFlag _

theorem headerPath_fine (r : Request) (hr : r.invalid = false) (value : Bytes) :
    (r.headerPath value).invalid = false ↔ ∃ s m, Splits value s m := by
  constructor
  · intro h
    by_contra hno
    rw [headerPath_malformed r hno] at h
    cases h
  · rintro ⟨s, m, hs⟩
    rw [headerPath_splits r hs]
    exact (invalid_setFlag_of_ne r (by decide)).trans hr

/-- **One header.** A valid request stays valid exactly if the header is no mistake. -/
theorem header_fine {r : Request} (hr : r.invalid = false) (name value : Bytes) :
    (r.header name value).invalid = false ↔ Fine name value := by
  have hchecked : ∀ f : Flag, f ≠ .invalid → ∀ b : Bool,
      (if b = true then (r.setFlag f).setFlag .invalid else r.setFlag f).invalid = b := by
    intro f hf b
    cases b with
    | true => exact invalid_setFlag _
    | false => exact (invalid_setFlag_of_ne r hf).trans hr
  unfold header Fine
  rw [if_neg (by simp [hr])]
  by_cases hmethod : name = lit ":method"
  · subst hmethod
    have hval := hchecked .header_method (by decide) (decide (value ≠ lit "POST"))
    simp only [decide_eq_true_eq] at hval
    rw [if_pos rfl, hval]
    have hpath : lit ":method" ≠ lit ":path" := by decide
    have htype : lit ":method" ≠ lit "content-type" := by decide
    simp [hpath, htype]
  · rw [if_neg hmethod]
    by_cases hpath : name = lit ":path"
    · subst hpath
      have htype : lit ":path" ≠ lit "content-type" := by decide
      rw [if_pos rfl, headerPath_fine r hr]
      simp [hmethod, htype]
    · rw [if_neg hpath]
      by_cases htype : name = lit "content-type"
      · subst htype
        have hval := hchecked .header_content_type (by decide) (!value.startsWith (lit "application/grpc"))
        rw [if_pos rfl, hval]
        simp [hmethod, hpath]
      · rw [if_neg htype]
        have hsame : (if (name.startsWith (lit ":") || name.startsWith (lit "grpc-")) = true then r
            else { r with metadata := r.metadata.emplace name value }).invalid = r.invalid := by
          split <;> rfl
        rw [hsame, hr]
        simp [hmethod, hpath, htype]

/-- The name of custom metadata. -/
def custom (name : Bytes) : Bool :=
  !name.startsWith (lit ":") && !name.startsWith (lit "grpc-") && name ≠ lit "content-type"

theorem headerPath_metadata (r : Request) (value : Bytes) :
    (r.headerPath value).metadata = r.metadata := by
  unfold headerPath
  dsimp only [setFlag]
  repeat' split
  all_goals rfl

theorem header_metadata {r : Request} (hr : r.invalid = false) (name value : Bytes) :
    (r.header name value).metadata =
      if custom name then r.metadata.emplace name value else r.metadata := by
  unfold header
  rw [if_neg (by simp [hr])]
  by_cases hmethod : name = lit ":method"
  · subst hmethod
    have hno : custom (lit ":method") = false := by decide
    rw [if_pos rfl, hno]
    split <;> rfl
  · rw [if_neg hmethod]
    by_cases hpath : name = lit ":path"
    · subst hpath
      have hno : custom (lit ":path") = false := by decide
      rw [if_pos rfl, hno, headerPath_metadata]
      rfl
    · rw [if_neg hpath]
      by_cases htype : name = lit "content-type"
      · subst htype
        have hno : custom (lit "content-type") = false := by decide
        rw [if_pos rfl, hno]
        split <;> rfl
      · rw [if_neg htype]
        unfold custom
        cases name.startsWith (lit ":") <;> cases name.startsWith (lit "grpc-") <;> simp [htype]

/-- Only `:path` sets the service and the method. -/
theorem header_names {r : Request} {name : Bytes} (h : name ≠ lit ":path") (value : Bytes) :
    (r.header name value).service = r.service ∧ (r.header name value).method = r.method := by
  unfold header
  rw [if_neg h]
  dsimp only [setFlag]
  repeat' split
  all_goals exact ⟨rfl, rfl⟩

/-! ## All headers -/

/-- The request after these calls of `header`. -/
def ofHeaders (id : StreamId) (hs : List (Bytes × Bytes)) : Request :=
  hs.foldl (fun r h => r.header h.1 h.2) { id }

/-- The values of `:path`. -/
def paths (hs : List (Bytes × Bytes)) : List Bytes :=
  (hs.filter fun h => h.1 = lit ":path").map (·.2)

theorem ofHeaders_snoc (id : StreamId) (hs : List (Bytes × Bytes)) (h : Bytes × Bytes) :
    ofHeaders id (hs ++ [h]) = (ofHeaders id hs).header h.1 h.2 := by
  simp [ofHeaders, List.foldl_append]

/-- Validity is not regained. -/
theorem ofHeaders_invalid_mono {id : StreamId} {hs : List (Bytes × Bytes)} {h : Bytes × Bytes}
    (hr : (ofHeaders id (hs ++ [h])).invalid = false) : (ofHeaders id hs).invalid = false := by
  by_contra hbad
  have hinv : (ofHeaders id hs).invalid = true := by simpa using hbad
  rw [ofHeaders_snoc, header_invalid _ _ hinv] at hr
  exact hbad hr

theorem ofHeaders_invalid (id : StreamId) (hs : List (Bytes × Bytes)) :
    (ofHeaders id hs).invalid = false ↔ ∀ h ∈ hs, Fine h.1 h.2 := by
  induction hs using List.reverseRecOn with
  | nil => simp [ofHeaders, invalid_fresh]
  | append_singleton hs h ih =>
    constructor
    · intro hr
      have hbefore := ofHeaders_invalid_mono hr
      rw [ofHeaders_snoc, header_fine hbefore] at hr
      intro x hx
      rcases List.mem_append.1 hx with hx | hx
      · exact ih.1 hbefore x hx
      · rw [List.mem_singleton.1 hx]
        exact hr
    · intro hfine
      have hbefore := ih.2 fun x hx => hfine x (List.mem_append_left _ hx)
      rw [ofHeaders_snoc, header_fine hbefore]
      exact hfine h (List.mem_append_right _ (List.mem_singleton_self h))

/-- **The service and the method** are those of the last path. -/
theorem ofHeaders_splits {id : StreamId} {hs : List (Bytes × Bytes)}
    (hr : (ofHeaders id hs).invalid = false) :
    match (paths hs).getLast? with
    | none => (ofHeaders id hs).service = [] ∧ (ofHeaders id hs).method = []
    | some value => Splits value (ofHeaders id hs).service (ofHeaders id hs).method := by
  induction hs using List.reverseRecOn with
  | nil => exact ⟨rfl, rfl⟩
  | append_singleton hs h ih =>
    obtain ⟨name, value⟩ := h
    have hbefore := ofHeaders_invalid_mono hr
    rw [ofHeaders_snoc] at hr ⊢
    by_cases hpath : name = lit ":path"
    · subst hpath
      have hlast : (paths (hs ++ [(lit ":path", value)])).getLast? = some value := by
        simp [paths, List.filter_append]
      obtain ⟨s, m, hs'⟩ := ((header_fine hbefore _ _).1 hr).2.1 rfl
      have hheader : (ofHeaders id hs).header (lit ":path") value =
          (ofHeaders id hs).headerPath value := by
        unfold header
        rw [if_neg (by simp [hbefore]), if_neg (by decide), if_pos rfl]
      rw [hlast]
      dsimp only
      rw [hheader, headerPath_splits _ hs']
      exact hs'
    · have hlast : paths (hs ++ [(name, value)]) = paths hs := by
        simp [paths, List.filter_append, hpath]
      obtain ⟨hservice, hmethod⟩ := header_names (r := ofHeaders id hs) hpath value
      rw [hlast, hservice, hmethod]
      exact ih hbefore

/-- **The request that headers make** is valid if none is a mistake and there is a path with
a service. -/
theorem ofHeaders_valid (id : StreamId) (hs : List (Bytes × Bytes)) :
    (ofHeaders id hs).valid = true ↔
      (∀ h ∈ hs, Fine h.1 h.2) ∧ ∃ value s m, (paths hs).getLast? = some value ∧ Splits value s m ∧
        s ≠ [] := by
  have hvalid : (ofHeaders id hs).valid = true ↔ (ofHeaders id hs).invalid = false ∧
      (ofHeaders id hs).service ≠ [] ∧ (ofHeaders id hs).method ≠ [] := by
    simp [valid, and_assoc]
  rw [hvalid]
  constructor
  · rintro ⟨hr, hs', hm⟩
    have hsplits := ofHeaders_splits hr
    cases hlast : (paths hs).getLast? with
    | none =>
      rw [hlast] at hsplits
      exact absurd hsplits.1 hs'
    | some value =>
      rw [hlast] at hsplits
      exact ⟨(ofHeaders_invalid id hs).1 hr, value, _, _, rfl, hsplits, hs'⟩
  · rintro ⟨hfine, value, s, m, hlast, hsplits, hne⟩
    have hr := (ofHeaders_invalid id hs).2 hfine
    have hsplits' := ofHeaders_splits hr
    rw [hlast] at hsplits'
    obtain ⟨hs', hm⟩ := hsplits.unique hsplits'
    exact ⟨hr, hs' ▸ hne, hsplits'.method_ne⟩

/-- The metadata is the custom headers, put in one after another. -/
theorem ofHeaders_metadata {id : StreamId} {hs : List (Bytes × Bytes)}
    (hr : (ofHeaders id hs).invalid = false) :
    (ofHeaders id hs).metadata =
      (hs.filter fun h => custom h.1).foldl (fun m h => m.emplace h.1 h.2) ∅ := by
  induction hs using List.reverseRecOn with
  | nil => rfl
  | append_singleton hs h ih =>
    have hbefore := ofHeaders_invalid_mono hr
    rw [ofHeaders_snoc, header_metadata hbefore, ih hbefore, List.filter_append, List.foldl_append]
    cases hc : custom h.1 with
    | true => simp [hc]
    | false => simp [hc]

/-- The value of a key: the first header of that name, if the name is custom. -/
def firstCustom (hs : List (Bytes × Bytes)) (key : Bytes) : Option Bytes :=
  if custom key then (hs.find? fun h => h.1 = key).map (·.2) else none

theorem lookup_ofHeaders {id : StreamId} {hs : List (Bytes × Bytes)}
    (hr : (ofHeaders id hs).invalid = false) (key : Bytes) :
    (ofHeaders id hs).metadata.lookup key = firstCustom hs key := by
  have hfold := Map.lookup_foldl_emplace key (fun h : Bytes × Bytes => h.1) (fun h => h.2)
    (hs.filter fun h => custom h.1) (∅ : Map Bytes Bytes)
  rw [ofHeaders_metadata hr, hfold, List.find?_filter]
  unfold firstCustom
  cases hc : custom key with
  | true =>
    have hsame : (fun h : Bytes × Bytes => custom h.1 && decide (h.1 = key)) =
        fun h => decide (h.1 = key) := by
      funext h
      by_cases hk : h.1 = key
      · simp [hk, hc]
      · simp [hk]
    simp [hsame]
  | false =>
    have hnone : (fun h : Bytes × Bytes => custom h.1 && decide (h.1 = key)) = fun _ => false := by
      funext h
      by_cases hk : h.1 = key
      · simp [hk, hc]
      · simp [hk]
    simp [hnone]

/-! ## The rule for requests -/

/-- The headers are right as far as they go: of `:method` and `content-type` none is wrong, and
there is a path to this method. -/
structure Tolerated (hs : List (Bytes × Bytes)) (service method : Bytes) : Prop where
  post : ∀ value, (lit ":method", value) ∈ hs → value = lit "POST"
  grpc : ∀ value, (lit "content-type", value) ∈ hs → value.startsWith (lit "application/grpc") = true
  path_mem : (lit ":path", methodPath service method) ∈ hs
  slash_notMem : slash ∉ service
  service_ne : service ≠ []
  method_ne : method ≠ []

/-- **The headers of a gRPC request.** -/
structure GrpcHeaders (hs : List (Bytes × Bytes)) (service method : Bytes) : Prop extends
    Tolerated hs service method where
  has_method : ∃ value, (lit ":method", value) ∈ hs
  has_type : ∃ value, (lit "content-type", value) ∈ hs

theorem mem_paths {hs : List (Bytes × Bytes)} {value : Bytes} :
    value ∈ paths hs ↔ (lit ":path", value) ∈ hs := by
  simp only [paths, List.mem_map, List.mem_filter, decide_eq_true_eq]
  constructor
  · rintro ⟨⟨name, v⟩, ⟨hmem, hname⟩, hv⟩
    cases hname
    cases hv
    exact hmem
  · intro h
    exact ⟨_, ⟨h, rfl⟩, rfl⟩

theorem Tolerated.splits {hs : List (Bytes × Bytes)} {s m : Bytes} (h : Tolerated hs s m) :
    Splits (methodPath s m) s m :=
  ⟨rfl, h.slash_notMem, h.method_ne⟩

theorem Tolerated.paths_eq {hs : List (Bytes × Bytes)} {s m : Bytes} (h : Tolerated hs s m)
    (hone : (paths hs).length ≤ 1) : paths hs = [methodPath s m] := by
  have hmem := mem_paths.2 h.path_mem
  match hps : paths hs with
  | [] => rw [hps] at hmem; cases hmem
  | [value] => rw [hps] at hmem; rw [List.mem_singleton.1 hmem]
  | v :: v' :: vs => rw [hps] at hone; simp at hone

/-- What the code accepts. -/
theorem valid_iff_tolerated (id : StreamId) {hs : List (Bytes × Bytes)} (hone : (paths hs).length ≤ 1) :
    (ofHeaders id hs).valid = true ↔ ∃ s m, Tolerated hs s m := by
  rw [ofHeaders_valid]
  constructor
  · rintro ⟨hfine, value, s, m, hlast, hsplits, hne⟩
    have hmem := mem_paths.1 (List.mem_of_getLast? hlast)
    rw [hsplits.path_eq] at hmem
    exact ⟨s, m, fun v hv => (hfine _ hv).1 rfl, fun v hv => (hfine _ hv).2.2 rfl, hmem,
      hsplits.slash_notMem, hne, hsplits.method_ne⟩
  · rintro ⟨s, m, h⟩
    have hpaths := h.paths_eq hone
    refine ⟨?_, methodPath s m, s, m, by rw [hpaths]; rfl, h.splits, h.service_ne⟩
    rintro ⟨name, value⟩ hmem
    refine ⟨?_, ?_, ?_⟩
    · rintro rfl
      exact h.post value hmem
    · rintro rfl
      have hval := mem_paths.2 hmem
      rw [hpaths] at hval
      rw [List.mem_singleton.1 hval]
      exact ⟨s, m, h.splits⟩
    · rintro rfl
      exact h.grpc value hmem

theorem names_of_tolerated {id : StreamId} {hs : List (Bytes × Bytes)} (hone : (paths hs).length ≤ 1)
    {s m : Bytes} (h : Tolerated hs s m) :
    (ofHeaders id hs).service = s ∧ (ofHeaders id hs).method = m := by
  have hvalid := (valid_iff_tolerated id hone).2 ⟨s, m, h⟩
  have hr : (ofHeaders id hs).invalid = false := by
    have hall : (ofHeaders id hs).invalid = false ∧ (ofHeaders id hs).service ≠ [] ∧
        (ofHeaders id hs).method ≠ [] := by
      simpa [valid, and_assoc] using hvalid
    exact hall.1
  have hsplits := ofHeaders_splits hr
  rw [h.paths_eq hone] at hsplits
  obtain ⟨hs', hm⟩ := h.splits.unique hsplits
  exact ⟨hs'.symm, hm.symm⟩

/-- **Acceptance is the rule for gRPC requests** exactly unless headers that are right as far as
they go leave out `:method` or `content-type`: the flags that record these two are not read. -/
theorem accepted_iff (id : StreamId) (hs : List (Bytes × Bytes)) (hone : (paths hs).length ≤ 1) :
    (((ofHeaders id hs).valid = true ↔ ∃ s m, GrpcHeaders hs s m) ∧
        ∀ s m, GrpcHeaders hs s m →
          (ofHeaders id hs).service = s ∧ (ofHeaders id hs).method = m) ↔
      ∀ s m, Tolerated hs s m →
        (∃ value, (lit ":method", value) ∈ hs) ∧ ∃ value, (lit "content-type", value) ∈ hs := by
  have hvalid := valid_iff_tolerated id hone
  constructor
  · rintro ⟨hiff, -⟩ s m h
    obtain ⟨s', m', hgrpc⟩ := hiff.1 (hvalid.2 ⟨s, m, h⟩)
    exact ⟨hgrpc.has_method, hgrpc.has_type⟩
  · intro hall
    refine ⟨hvalid.trans ⟨?_, ?_⟩, fun s m h => names_of_tolerated hone h.toTolerated⟩
    · rintro ⟨s, m, h⟩
      obtain ⟨hmethod, htype⟩ := hall s m h
      exact ⟨s, m, h, hmethod, htype⟩
    · rintro ⟨s, m, h⟩
      exact ⟨s, m, h.toTolerated⟩

/-- The headers of an ordinary call. -/
def ordinary : List (Bytes × Bytes) :=
  [(lit ":method", lit "POST"), (lit ":path", lit "/a/b"), (lit "content-type", lit "application/grpc")]

theorem accepted_iff_ordinary : (paths ordinary).length ≤ 1 ∧
    ((((ofHeaders 1 ordinary).valid = true ↔ ∃ s m, GrpcHeaders ordinary s m) ∧
        ∀ s m, GrpcHeaders ordinary s m →
          (ofHeaders 1 ordinary).service = s ∧ (ofHeaders 1 ordinary).method = m) ↔
      ∀ s m, Tolerated ordinary s m → (∃ value, (lit ":method", value) ∈ ordinary) ∧
        ∃ value, (lit "content-type", value) ∈ ordinary) :=
  ⟨by decide, accepted_iff 1 ordinary (by decide)⟩

/-- A path is enough to be accepted. -/
theorem accepted_fails : ¬ ∀ (id : StreamId) (hs : List (Bytes × Bytes)),
    (hs.filter fun h => h.1 = lit ":method").length ≤ 1 → (paths hs).length ≤ 1 →
    (∀ value ∈ paths hs, value ≠ []) →
    ((ofHeaders id hs).valid = true ↔ ∃ s m, GrpcHeaders hs s m) ∧
      ∀ s m, GrpcHeaders hs s m →
        (ofHeaders id hs).service = s ∧ (ofHeaders id hs).method = m := by
  intro h
  have hone := h 1 [(lit ":path", lit "/a/b")] (by decide) (by decide) (by decide)
  obtain ⟨s, m, hgrpc⟩ := hone.1.1 (by decide)
  obtain ⟨value, hmem⟩ := hgrpc.has_method
  have hname : lit ":method" = lit ":path" := congrArg Prod.fst (List.mem_singleton.1 hmem)
  exact absurd hname (by decide)

end Request

/-! ## The metadata -/

open StreamEvent

theorem Context.lookup_ofRequest (r : Request) (key : Bytes) :
    (Context.ofRequest r).metadata.lookup key = r.metadata.lookup key := by
  unfold Context.ofRequest
  have hfold := Map.lookup_foldl_emplace key (fun e : Sigma fun _ : Bytes => Bytes => e.1)
    (fun e => e.2) r.metadata.entries (∅ : Map Bytes Bytes)
  rw [hfold, Map.find?_entries]
  rfl

/-- A request that is not invalid is what its headers make, with its message. -/
theorem StreamEvent.built_headed {id : StreamId} {evs : List StreamEvent}
    (hr : (built id evs).invalid = false) : (headed id evs).invalid = false ∧
      built id evs = { headed id evs with msg := Message.assembled (chunks evs) } := by
  obtain ⟨hbad, hgood⟩ := built_eq id evs
  have hheaded : (headed id evs).invalid = false := by
    by_contra h
    rw [hbad (Or.inl (by simpa using h))] at hr
    cases hr
  have hin : ¬ Overrun (chunks evs) := by
    intro h
    rw [hbad (Or.inr h)] at hr
    cases hr
  exact ⟨hheaded, hgood hheaded hin⟩

/-- A valid request of a stream has the metadata of its headers. -/
theorem StreamEvent.lookup_built {id : StreamId} {evs : List StreamEvent}
    (hr : (built id evs).invalid = false) (key : Bytes) :
    (built id evs).metadata.lookup key = Request.firstCustom (headers evs) key := by
  obtain ⟨hheaded, heq⟩ := built_headed hr
  rw [heq]
  exact @Request.lookup_ofHeaders id _ hheaded key

/-- **What a handler sees of the metadata.** For any batches of session events and every valid
request that comes of them: a key has the value of the first header of that name that the stream
of the request sent, if the name is custom, and no other key has one. -/
theorem context_meta (batches : List (List Event)) {r : Request} (hr : r ∈ (handed batches).2)
    (hv : r.valid = true) :
    ∃ pre ev post, batches.flatten = pre ++ ev :: post ∧ ev.completes = true ∧ ev.stream_id = r.id ∧
      ∀ key, (Context.ofRequest r).meta key =
          (Request.firstCustom (headers (sent r.id pre)) key).getD [] ∧
        (key ∈ (Context.ofRequest r).metadata ↔
          Request.custom key = true ∧ ∃ value, (key, value) ∈ headers (sent r.id pre)) := by
  rw [(handed_eq batches).2] at hr
  obtain ⟨pre, ev, post, hall, hev, rfl⟩ := mem_ended ((batched_perm [] batches).mem_iff.1 hr)
  have hid := built_id ev.stream_id (sent ev.stream_id ([] ++ pre))
  have hinv : (built ev.stream_id (sent ev.stream_id ([] ++ pre))).invalid = false := by
    have hparts := hv
    simp only [Request.valid, Bool.and_eq_true, Bool.not_eq_true'] at hparts
    exact hparts.1.1
  refine ⟨pre, ev, post, hall, hev, hid.symm, fun key => ?_⟩
  rw [hid]
  rw [List.nil_append] at hinv ⊢
  have hlookup := (Context.lookup_ofRequest _ key).trans (lookup_built hinv key)
  refine ⟨by unfold Context.meta; rw [hlookup], ?_⟩
  rw [← AList.lookup_isSome, hlookup]
  unfold Request.firstCustom
  cases hc : Request.custom key with
  | false => simp
  | true => simp [List.find?_isSome]

/-- One stream's metadata, beside another's. -/
def tagged : List (List Event) :=
  [[(StreamEvent.header (lit ":path") (lit "/a/b")).event 1, (StreamEvent.header (lit "k") (lit "1")).event 1,
      (StreamEvent.header (lit "k") (lit "3")).event 3],
    [(StreamEvent.header (lit "k") (lit "2")).event 1, .end 1]]

theorem context_meta_tagged : ∃ r ∈ (handed tagged).2, r.valid = true ∧
    (Context.ofRequest r).meta (lit "k") = lit "1" ∧
    ∃ pre ev post, tagged.flatten = pre ++ ev :: post ∧ ev.completes = true ∧ ev.stream_id = r.id ∧
      ∀ key, (Context.ofRequest r).meta key =
          (Request.firstCustom (headers (sent r.id pre)) key).getD [] ∧
        (key ∈ (Context.ofRequest r).metadata ↔
          Request.custom key = true ∧ ∃ value, (key, value) ∈ headers (sent r.id pre)) := by
  have hone : (handed tagged).2.map (fun r => (r.valid, (Context.ofRequest r).meta (lit "k"))) =
      [(true, lit "1")] := by decide +kernel
  match hrs : (handed tagged).2 with
  | [] => rw [hrs] at hone; cases hone
  | r :: rs =>
    have hmem : r ∈ (handed tagged).2 := by rw [hrs]; exact List.mem_cons_self
    rw [hrs, List.map_cons, List.cons_eq_cons] at hone
    obtain ⟨hv, hk⟩ := Prod.mk.injEq _ _ _ _ ▸ hone.1
    exact ⟨r, List.mem_cons_self, hv, hk, context_meta tagged hmem hv⟩

end Grpcxx
