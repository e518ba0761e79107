import Grpcxx.Model.Server
import Grpcxx.Proof.Decode

/-!
# Which DATA a handler gets

A stream's header and DATA events build up one request, `server_base::process`
dispatches it. Whether a handler is called is decided by the headers, whether the
request became invalid on the way, and nothing else: `process` does not ask if a
message is there.

* `built_eq`: the request built from interleaved header and DATA events, in terms of
  the headers alone and the chunks alone.
* `invocations_built`: the handlers called for it.
* `complete_iff`: the bytes a handler is called with are the message that the stream's
  DATA spells exactly when the headers reach no handler, a surplus chunk invalidated the
  request, or the DATA is one whole message of a sign-safe length whose chunks leave the
  prefix its five bytes.
-/

namespace Grpcxx

open Message Word

/-- What arrives on one stream before its end. -/
inductive StreamEvent
  | header (name value : Bytes)
  | data (chunk : Bytes)

namespace StreamEvent

def on (r : Request) : StreamEvent → Request
  | .header name value => r.header name value
  | .data chunk => r.read chunk

/-- The DATA chunks, in order. -/
def chunks (evs : List StreamEvent) : List Bytes :=
  evs.filterMap fun
    | .header _ _ => none
    | .data chunk => some chunk

/-- The headers, in order. -/
def headers (evs : List StreamEvent) : List (Bytes × Bytes) :=
  evs.filterMap fun
    | .header name value => some (name, value)
    | .data _ => none

/-- The request when the stream ends. -/
def built (id : StreamId) (evs : List StreamEvent) : Request := evs.foldl on { id }

/-- The request that the headers alone would build. -/
def headed (id : StreamId) (evs : List StreamEvent) : Request :=
  (headers evs).foldl (fun r h => r.header h.1 h.2) { id }

end StreamEvent

namespace Request

theorem invalid_with_msg (r : Request) (m : Message) : ({ r with msg := m } : Request).invalid = r.invalid :=
  rfl

theorem header_invalid {r : Request} (name value : Bytes) (h : r.invalid = true) :
    r.header name value = r := by
  simp only [header, h, if_true]

theorem headerPath_with_msg (r : Request) (m : Message) (value : Bytes) :
    ({ r with msg := m } : Request).headerPath value = { r.headerPath value with msg := m } := by
  unfold headerPath
  dsimp only [setFlag]
  split
  · rfl
  · cases value.find '/'.toNat.toUInt8 1 with
    | none => rfl
    | some n => dsimp only; split <;> rfl

/-- Headers do not look at the message. -/
theorem header_with_msg (r : Request) (m : Message) (name value : Bytes) :
    ({ r with msg := m } : Request).header name value = { r.header name value with msg := m } := by
  unfold header
  rw [invalid_with_msg, headerPath_with_msg]
  dsimp only [setFlag]
  repeat' split
  all_goals rfl

end Request

namespace StreamEvent

theorem built_snoc (id : StreamId) (evs : List StreamEvent) (e : StreamEvent) :
    built id (evs ++ [e]) = on (built id evs) e := by
  simp [built, List.foldl_append]

theorem headed_header (id : StreamId) (evs : List StreamEvent) (name value : Bytes) :
    headed id (evs ++ [.header name value]) = (headed id evs).header name value := by
  simp [headed, headers, List.filterMap_append, List.foldl_append]

theorem headed_data (id : StreamId) (evs : List StreamEvent) (c : Bytes) :
    headed id (evs ++ [.data c]) = headed id evs := by
  simp [headed, headers, List.filterMap_append]

theorem chunks_header (evs : List StreamEvent) (name value : Bytes) :
    chunks (evs ++ [.header name value]) = chunks evs := by
  simp [chunks, List.filterMap_append]

theorem chunks_data (evs : List StreamEvent) (c : Bytes) :
    chunks (evs ++ [.data c]) = chunks evs ++ [c] := by
  simp [chunks, List.filterMap_append]

/-- **The request of a stream.** It is invalid if its headers are or a chunk came too
late, else it is what its headers make, with the message its chunks make. -/
theorem built_eq (id : StreamId) (evs : List StreamEvent) :
    ((headed id evs).invalid = true ∨ Overrun (chunks evs) → (built id evs).invalid = true) ∧
      ((headed id evs).invalid = false → ¬ Overrun (chunks evs) →
        built id evs = { headed id evs with msg := assembled (chunks evs) }) := by
  induction evs using List.reverseRecOn with
  | nil =>
    refine ⟨fun h => ?_, fun _ _ => rfl⟩
    rcases h with h | h
    · have hfresh := Request.invalid_fresh id
      exact absurd (h.symm.trans hfresh) Bool.false_ne_true.symm
    · exact absurd h not_overrun_nil
  | append_singleton evs e ih =>
    rw [built_snoc]
    by_cases hbad : (headed id evs).invalid = true ∨ Overrun (chunks evs)
    · -- already invalid: nothing changes any more
      have hinv := ih.1 hbad
      have hsame : on (built id evs) e = built id evs := by
        cases e with
        | header name value => exact Request.header_invalid name value hinv
        | data c => exact Request.read_invalid c hinv
      rw [hsame]
      refine ⟨fun _ => hinv, fun hh ho => ?_⟩
      exfalso
      cases e with
      | header name value =>
        rw [headed_header] at hh
        rw [chunks_header] at ho
        rcases hbad with hb | hb
        · rw [Request.header_invalid name value hb, hb] at hh
          exact Bool.false_ne_true hh.symm
        · exact ho hb
      | data c =>
        rw [headed_data] at hh
        rw [chunks_data, overrun_snoc] at ho
        rcases hbad with hb | hb
        · rw [hb] at hh; exact Bool.false_ne_true hh.symm
        · exact ho (Or.inl hb)
    · -- still good: the request is the headers' with the message of the chunks
      push Not at hbad
      have hgood : (headed id evs).invalid = false := by simpa using hbad.1
      rw [ih.2 hgood hbad.2]
      cases e with
      | header name value =>
        simp only [on, headed_header, chunks_header]
        rw [Request.header_with_msg (headed id evs) (assembled (chunks evs)),
          Request.invalid_with_msg]
        exact ⟨fun h => h.resolve_right hbad.2, fun _ _ => rfl⟩
      | data c =>
        simp only [on, headed_data, chunks_data, overrun_snoc]
        obtain ⟨hfull, hnot⟩ := Request.read_step
          (r := { headed id evs with msg := assembled (chunks evs) }) hgood rfl c
        refine ⟨fun h => hfull ?_, fun _ h => hnot fun hf => h (Or.inr hf)⟩
        rcases h with h | h
        · exact absurd h (by simp [hgood])
        · exact h.resolve_left hbad.2

end StreamEvent

/-! ## Dispatch -/

namespace ServerBase

/-- The request is accepted and names a service and a method of the server. -/
def Reaches (b : ServerBase) (req : Request) : Prop :=
  req.valid = true ∧
    ∃ s, b.services.lookup req.service = some s ∧ (s.handlers.lookup req.method).isSome = true

theorem reaches_with_msg (b : ServerBase) (req : Request) (m : Message) :
    b.Reaches { req with msg := m } ↔ b.Reaches req := Iff.rfl

theorem process_invocations_of_reaches {b : ServerBase} {req : Request} (h : b.Reaches req) :
    ∃ name, (b.process req).1 = [⟨name, req.method, req.data⟩] := by
  obtain ⟨hv, s, hs, hm⟩ := h
  obtain ⟨handler, hh⟩ := Option.isSome_iff_exists.1 hm
  have hcall : (s.call (.ofRequest req) req.method req.data).1 = [⟨s.name, req.method, req.data⟩] := by
    simp only [Service.call, hh]
  refine ⟨s.name, ?_⟩
  unfold process
  simp only [hv, Bool.not_true, Bool.false_eq_true, if_false, hs]
  split
  · exact hcall
  · split <;> exact hcall

theorem process_invocations_of_not {b : ServerBase} {req : Request} (h : ¬ b.Reaches req) :
    (b.process req).1 = [] := by
  unfold process
  by_cases hv : req.valid = true
  · simp only [hv, Bool.not_true, Bool.false_eq_true, if_false]
    cases hs : b.services.lookup req.service with
    | none => rfl
    | some s =>
      have hm : s.handlers.lookup req.method = none := by
        cases hh : s.handlers.lookup req.method with
        | none => rfl
        | some f => exact absurd ⟨hv, s, hs, by rw [hh]; rfl⟩ h
      simp only [Service.call, hm]
  · simp only [Bool.not_eq_true] at hv
    simp [hv]

end ServerBase

open StreamEvent

/-- **The handlers called for a stream**: at most one, with the payload of its chunks. -/
theorem invocations_built (b : ServerBase) (id : StreamId) (evs : List StreamEvent) :
    (b.Reaches (headed id evs) ∧ ¬ Overrun (chunks evs) →
      ∃ name method, (b.process (built id evs)).1 = [⟨name, method, (assembled (chunks evs)).view⟩]) ∧
    (¬ (b.Reaches (headed id evs) ∧ ¬ Overrun (chunks evs)) → (b.process (built id evs)).1 = []) := by
  have hvalid : ∀ r : Request, r.valid = true → r.invalid = false := by
    intro r h
    simp only [Request.valid, Bool.and_eq_true, Bool.not_eq_true'] at h
    exact h.1.1
  constructor
  · rintro ⟨hr, ho⟩
    have hreaches := (ServerBase.reaches_with_msg b (headed id evs) (assembled (chunks evs))).2 hr
    obtain ⟨name, hn⟩ := ServerBase.process_invocations_of_reaches hreaches
    rw [(built_eq id evs).2 (hvalid _ hr.1) ho]
    exact ⟨name, _, hn⟩
  · intro h
    apply ServerBase.process_invocations_of_not
    intro hr
    have hinv := hvalid _ hr.1
    by_cases hbad : (headed id evs).invalid = true ∨ Overrun (chunks evs)
    · rw [(built_eq id evs).1 hbad] at hinv
      exact Bool.false_ne_true hinv.symm
    · push Not at hbad
      have hgood : (headed id evs).invalid = false := by simpa using hbad.1
      rw [(built_eq id evs).2 hgood hbad.2] at hr
      exact h ⟨hr, hbad.2⟩

/-- **One whole message.** The chunks spell an encoded message of a sign-safe length, and
the prefix takes exactly its five bytes of them. -/
def Whole (cs : List Bytes) : Prop :=
  cut cs = 5 ∧ ∃ d : Bytes, d.length < 2 ^ 32 ∧ SignSafe d.length ∧ cs.flatten = (ofString d).bytes

/-- The payload of chunks that came in time is the message they spell exactly if they
are one whole message. -/
theorem flatten_eq_bytes_view_iff (cs : List Bytes) :
    cs.flatten = (ofString (assembled cs).view).bytes ↔ Whole cs := by
  have hle := cut_le_length cs
  constructor
  · intro h
    have hlen : cs.flatten.length = 5 + (assembled cs).view.length := by
      conv_lhs => rw [h]
      exact length_bytes_ofString _
    have hk : 5 ≤ cut cs := five_le_cut_iff.2 (by omega)
    rw [view_assembled] at h hlen
    by_cases hfull : 5 ≤ cut cs ∧ cs.flatten.length = (announced cs.flatten).toNat + cut cs
    · rw [if_pos hfull] at h hlen
      rw [List.length_drop] at hlen
      have hcut : cut cs = 5 := by omega
      have hd : (cs.flatten.drop (cut cs)).length = (announced cs.flatten).toNat := by
        rw [List.length_drop]; omega
      have h32 : (cs.flatten.drop (cut cs)).length < 2 ^ 32 := by
        rw [hd]; exact UInt32.toNat_lt _
      refine ⟨hcut, _, h32, ?_, h⟩
      rw [← announced_ofString h32, hd, ← take_bytes_ofString, ← h,
        announced_take (le_refl 5) (by omega)]
    · -- an empty payload would have to be announced as one
      rw [if_neg hfull] at h hlen
      rw [List.length_nil] at hlen
      have hann : (announced cs.flatten).toNat = 0 := by rw [h]; rfl
      exact absurd ⟨hk, by omega⟩ hfull
  · rintro ⟨hcut, d, h32, hsafe, h⟩
    have hann : (announced cs.flatten).toNat = d.length := by
      rw [← announced_take (le_refl 5) (by rw [h, length_bytes_ofString]; omega), h,
        take_bytes_ofString]
      exact (announced_ofString h32).2 hsafe
    have hlen : cs.flatten.length = 5 + d.length := by rw [h, length_bytes_ofString]
    have hview : (assembled cs).view = d := by
      rw [view_assembled, if_pos ⟨by omega, by omega⟩, hcut, h, drop_bytes_ofString]
    rw [hview, h]

/-- **What a handler gets.** Every handler call for a stream gets the message that the
stream's DATA spells, if and only if the headers reach no handler, a surplus chunk
invalidated the request, or the DATA is one whole message. -/
theorem complete_iff (b : ServerBase) (id : StreamId) (evs : List StreamEvent) :
    (∀ i ∈ (b.process (built id evs)).1, (chunks evs).flatten = (ofString i.data).bytes) ↔
      ¬ b.Reaches (headed id evs) ∨ Overrun (chunks evs) ∨ Whole (chunks evs) := by
  obtain ⟨hcalled, hquiet⟩ := invocations_built b id evs
  by_cases h : b.Reaches (headed id evs) ∧ ¬ Overrun (chunks evs)
  · obtain ⟨name, method, hp⟩ := hcalled h
    rw [hp]
    simp only [List.mem_singleton, forall_eq, not_true, h.1, h.2, false_or]
    exact flatten_eq_bytes_view_iff (chunks evs)
  · rw [hquiet h]
    simp only [List.not_mem_nil, false_implies, implies_true, true_iff]
    -- no handler is called, so one of the first two holds
    by_cases hr : b.Reaches (headed id evs)
    · have ho : Overrun (chunks evs) := by_contra fun ho => h ⟨hr, ho⟩
      exact Or.inr (Or.inl ho)
    · exact Or.inl hr

/-- A server with the one method `/a/b`, which returns nothing. -/
def oneMethod : ServerBase :=
  ({} : ServerBase).add
    { name := lit "a"
      handlers := (∅ : Map Bytes Handler).emplace (lit "b") fun _ _ => .ok ({}, []) }

/-- Headers without any DATA: the handler is called with an empty payload, which the empty
DATA does not spell. -/
theorem complete_fails :
    ¬ ∀ (b : ServerBase) (id : StreamId) (evs : List StreamEvent),
      ∀ i ∈ (b.process (built id evs)).1, (chunks evs).flatten = (ofString i.data).bytes := by
  intro h
  have hcall : (oneMethod.process (built 1 [.header (lit ":method") (lit "POST"),
      .header (lit ":path") (lit "/a/b"),
      .header (lit "content-type") (lit "application/grpc")])).1 = [⟨lit "a", lit "b", []⟩] := by
    decide
  have := h oneMethod 1 _ ⟨lit "a", lit "b", []⟩ (by rw [hcall]; exact List.mem_singleton_self _)
  exact absurd this (by decide)

end Grpcxx
