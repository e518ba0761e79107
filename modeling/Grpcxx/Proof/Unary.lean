import Grpcxx.Model.Client
import Grpcxx.Proof.Conversation
import Grpcxx.Proof.Dispatch
import Grpcxx.Proof.Fragments
import Grpcxx.Proof.Headers

/-!
# A unary call, from the request to the reply

A client sends the headers of a call and its message, in DATA frames cut as it likes, among whatever
else the connection carries. What it reads from the frames that come back is what the
implementation's method returned.

* `Client.message_take`, `Client.reply_framesOf`: what a client reads from a response that the window
  has cut short.
* `Asks.request`: the request that such headers and chunks make.
* `unary_call`: the call as a whole.
-/

namespace Grpcxx

open StreamEvent Message

variable {σ : Type} {N : Nghttp2 σ} {results : ℕ → WriteResult}

/-! ## What the client reads -/

namespace Client

/-- The four bytes of a length, as the number that they are. -/
theorem length_of_bytes (x : UInt32) :
    ((x >>> 24) &&& 0xff).toUInt8.toNat * 16777216 + ((x >>> 16) &&& 0xff).toUInt8.toNat * 65536 +
      ((x >>> 8) &&& 0xff).toUInt8.toNat * 256 + (x &&& 0xff).toUInt8.toNat = x.toNat := by
  have hbyte : ∀ n : ℕ, n &&& 255 = n % 256 := fun n => Nat.and_two_pow_sub_one_eq_mod n 8
  have hx : x.toNat < 4294967296 := x.toNat_lt
  simp [hbyte, Nat.shiftRight_eq_div_pow]
  omega

/-- A message that was written is read back. -/
theorem message_ofString {p : Bytes} (hp : p.length < 2 ^ 32) :
    message (ofString p).bytes = some (some p) := by
  have hlen : p.length.toUInt32.toNat = p.length := by simp; omega
  have hprefix := length_of_bytes p.length.toUInt32
  rw [hlen] at hprefix
  show (if (0x00 : UInt8) = 0 ∧ p.length = _ then some (some p) else none) = _
  rw [if_pos ⟨rfl, hprefix.symm⟩]

/-- Whatever is read as a message is as long as its prefix and its data. -/
theorem length_of_message {bytes p : Bytes} (h : message bytes = some (some p)) :
    bytes.length = 5 + p.length := by
  unfold message at h
  split at h
  · cases h
  · split at h
    · cases h
      simp only [List.length_cons]
      omega
    · cases h
  · cases h

/-- **A message that was cut short** is not read, and one that was not is. -/
theorem message_take {p : Bytes} (hp : p.length < 2 ^ 32) (k : ℕ) :
    message ((ofString p).bytes.take k) = some (some p) ↔ 5 + p.length ≤ k := by
  constructor
  · intro h
    have hlen := length_of_message h
    rw [List.length_take, length_bytes_ofString] at hlen
    omega
  · intro hk
    rw [List.take_of_length_le (by rw [length_bytes_ofString]; exact hk)]
    exact message_ofString hp

theorem code_str (status : Status) : code status.str = some status.code := by
  have hall : ∀ c : Status.Code, code (lit (toString c.toNat)) = some c := by
    intro c
    cases c <;> decide
  exact hall status.code

theorem body_append (id : StreamId) (payloads : List Bytes) (trailers : List Header) :
    body (payloads.map (.data id) ++ [.headers id trailers true]) =
      some (payloads.flatten, trailers) := by
  induction payloads with
  | nil => rfl
  | cons payload payloads ih =>
    show (body (payloads.map (.data id) ++ [.headers id trailers true])).map _ = _
    rw [ih]
    rfl

/-- The trailers carry the status, details only if there are any. -/
theorem field_trailers (status : Status) :
    field (Session.nv (responseTrailers status)) (lit "grpc-status") = some status.str ∧
      (field (Session.nv (responseTrailers status)) (lit "grpc-status-details-bin")).getD [] =
        status.details := by
  have hstr : status.str.isEmpty = false := by
    have hall : ∀ c : Status.Code, (lit (toString c.toNat)).isEmpty = false := by
      intro c
      cases c <;> decide
    exact hall status.code
  have hname : lit "grpc-status" ≠ lit "grpc-status-details-bin" := by decide
  unfold Session.nv responseTrailers field
  cases hdetails : status.details with
  | nil => simp [hstr, hname]
  | cons x details => simp [hstr, hname]

/-- **What a client reads from a response**, of whose body it got `payloads`. -/
theorem reply_framesOf (resp : Response) (payloads : List Bytes) :
    reply (Flow.framesOf resp payloads) = (message payloads.flatten).map fun message =>
      { code := resp.status.code, details := resp.status.details, message } := by
  obtain ⟨hcode, hdetails⟩ := field_trailers resp.status
  have hstatus : field (Session.nv responseHeaders) (lit ":status") = some (lit "200") := by decide
  have hframes : Flow.framesOf resp payloads = .headers resp.id (Session.nv responseHeaders) false ::
      (payloads.map (.data resp.id) ++
        [.headers resp.id (Session.nv (responseTrailers resp.status)) true]) := rfl
  rw [hframes, reply, if_pos hstatus, body_append]
  simp only [Option.bind_eq_bind, Option.bind_some, hcode, hdetails, code_str]
  cases message payloads.flatten <;> rfl

end Client
/-! ## What the server reads -/

/-- The chunks are the message `d` of a length whose bytes are read back, in such pieces that the
prefix takes its five bytes and nothing comes after the end. -/
structure Spells (cs : List Bytes) (d : Bytes) : Prop where
  flatten_eq : cs.flatten = (ofString d).bytes
  length_lt : d.length < 2 ^ 32
  signSafe : Word.SignSafe d.length
  cut_eq : cut cs = 5
  in_time : ¬ Overrun cs

theorem Spells.view {cs : List Bytes} {d : Bytes} (h : Spells cs d) : (assembled cs).view = d := by
  have hann : (announced cs.flatten).toNat = d.length := by
    rw [← announced_take (le_refl 5) (by rw [h.flatten_eq, length_bytes_ofString]; omega), h.flatten_eq,
      take_bytes_ofString]
    exact (announced_ofString h.length_lt).2 h.signSafe
  have hcut := h.cut_eq
  have hlen : cs.flatten.length = 5 + d.length := by rw [h.flatten_eq, length_bytes_ofString]
  rw [view_assembled, if_pos ⟨by omega, by omega⟩, hcut, h.flatten_eq, drop_bytes_ofString]

/-- A stream asks for a method: the headers of a gRPC request, with one path, and a message. -/
structure Asks (evs : List StreamEvent) (service method d : Bytes) : Prop where
  headers : Request.GrpcHeaders (headers evs) service method
  one_path : (Request.paths (StreamEvent.headers evs)).length ≤ 1
  message : Spells (chunks evs) d

/-- **The request of a call.** -/
theorem Asks.request {evs : List StreamEvent} {service method d : Bytes}
    (h : Asks evs service method d) (id : StreamId) :
    (built id evs).valid = true ∧ (built id evs).service = service ∧ (built id evs).method = method ∧
      (built id evs).data = d ∧
      ∀ key, (Context.ofRequest (built id evs)).metadata.lookup key =
        Request.firstCustom (StreamEvent.headers evs) key := by
  have hvalid : (headed id evs).valid = true :=
    (Request.valid_iff_tolerated id h.one_path).2 ⟨service, method, h.headers.toTolerated⟩
  obtain ⟨hservice, hmethod⟩ : (headed id evs).service = service ∧ (headed id evs).method = method :=
    Request.names_of_tolerated h.one_path h.headers.toTolerated
  have hgood : (headed id evs).invalid = false := by
    have hparts := hvalid
    simp only [Request.valid, Bool.and_eq_true, Bool.not_eq_true'] at hparts
    exact hparts.1.1
  have hbuilt := (built_eq id evs).2 hgood h.message.in_time
  have hinv : (built id evs).invalid = false := by
    rw [hbuilt]
    exact hgood
  refine ⟨?_, ?_, ?_, ?_, fun key => ?_⟩
  · rw [hbuilt]
    exact hvalid
  · rw [hbuilt]
    exact hservice
  · rw [hbuilt]
    exact hmethod
  · rw [hbuilt]
    exact h.message.view
  · rw [Context.lookup_ofRequest, lookup_built hinv]

/-! ## The call -/

/-- **A unary call.** In every run of either backend in which nothing fails, whatever else the connection
carries: a stream that asks for a method of an added service, and is ended once, has the method called
with what it sent; and the client reads from the frames that come back exactly the status and the
message that the method returned, if and only if the response fits the window when it is written. -/
theorem unary_call {F : Flow σ} (hF : F.Models N) (B : Backend) {m : σ} (hfresh : F.Fresh m)
    {regs : List Registration} {ins : List Input} {w : Serving (B.Conn σ)}
    (h : B.serve N (ServerBase.added regs) results ins { conn := B.fresh m } = .ok () w)
    (hun : Unfailed w.acts) {id : StreamId} {before : List Event}
    (hends : EndsOnce id before (delivered w.acts).flatten) {service method d : Bytes}
    (hasks : Asks (sent id before) service method d) {rpc : Rpc}
    (hrpc : Registration.rpc regs service method = some rpc) {arg : rpc.Req}
    (hparse : rpc.ParseFromArray d = some arg) {status : Status} {res : Option rpc.Resp} {data : Bytes}
    (hcall : ∀ ctx : Context, (∀ key, ctx.metadata.lookup key =
      Request.firstCustom (headers (sent id before)) key) → rpc.call ctx arg = .ok (status, res))
    (hdata : rpc.mapResponse res = .ok data) (hlt : data.length < 2 ^ 32) :
    ⟨service, method, d⟩ ∈ handled w.acts ∧
      ∃ s, WrittenIn N { session := m } (B.session w.conn) { id, msg := .ofString data, status } s ∧
        (Client.reply (F.sentOn id (B.session w.conn).session) =
            some { code := status.code, details := status.details, message := some data } ↔
          5 + data.length ≤ F.window s.session id) := by
  obtain ⟨hvalid, hservice, hmethod, hdata', hmeta⟩ := hasks.request id
  -- the request is answered by the method
  have hrpc' : Registration.rpc regs (built id (sent id before)).service
      (built id (sent id before)).method = some rpc := by
    rw [hservice, hmethod]
    exact hrpc
  have hhandler : rpc.handler (.ofRequest (built id (sent id before))) d = .ok (status, data) := by
    rw [Rpc.handler_returned hparse (hcall _ hmeta), hdata]
    rfl
  have hprocess := ServerBase.process_rpc hvalid hrpc'
  rw [hservice, hmethod, hdata', hhandler, built_id] at hprocess
  obtain ⟨resp, s, payloads, hresp, -, hwritten, hpayloads, hsent⟩ :=
    (answered_on_stream hF B hfresh h hun id).once before hends
  rw [hprocess] at hresp
  cases hresp
  constructor
  · have hmem : built id (sent id before) ∈ (handed (delivered w.acts)).2 := by
      have hone := handed_on (delivered w.acts) id
      rw [hends.ended] at hone
      have hown := hone.mem_iff.2 (List.mem_singleton_self _)
      exact (List.mem_filter.1 hown).1
    rw [(serve_handled B h hun).2]
    refine List.mem_flatMap.2 ⟨_, hmem, ?_⟩
    rw [hprocess]
    exact List.mem_singleton_self _
  · refine ⟨s, hwritten, ?_⟩
    rw [hsent, Client.reply_framesOf, hpayloads, ← Client.message_take hlt]
    show (Client.message ((ofString data).bytes.take _)).map _ = _ ↔ _
    cases Client.message ((ofString data).bytes.take (F.window s.session id)) with
    | none => simp
    | some message => simp

/-- A method that returns what it is given. -/
def echo : Rpc where
  method := lit "b"
  Req := Bytes
  Resp := Bytes
  ParseFromArray := some
  SerializeToString := some
  call _ req := .ok ({}, some req)

/-- The first read brings the headers of a call, and headers of another stream; the second its message,
in two chunks. -/
def twoReads : Bytes → Arrival
  | [0x00] =>
    { callbacks := [.header 1 (lit ":method") (lit "POST"), .header 3 (lit ":method") (lit "GET"),
        .header 1 (lit ":path") (lit "/a/b"), .header 1 (lit "content-type") (lit "application/grpc")] }
  | _ =>
    { callbacks := [.data_chunk_recv 1 [0x00, 0x00, 0x00, 0x00, 0x02, 0x68], .data_chunk_recv 1 [0x69],
        .frame_recv 1 0x01] }

/-- What they bring of the call before its end. -/
def hiCall : List Event :=
  [(StreamEvent.header (lit ":method") (lit "POST")).event 1,
    (StreamEvent.header (lit ":method") (lit "GET")).event 3,
    (StreamEvent.header (lit ":path") (lit "/a/b")).event 1,
    (StreamEvent.header (lit "content-type") (lit "application/grpc")).event 1,
    (StreamEvent.data [0x00, 0x00, 0x00, 0x00, 0x02, 0x68]).event 1,
    (StreamEvent.data [0x69]).event 1]

theorem asks_hiCall : Asks (sent 1 hiCall) (lit "a") (lit "b") (lit "hi") := by
  have hheaders : headers (sent 1 hiCall) = [(lit ":method", lit "POST"), (lit ":path", lit "/a/b"),
      (lit "content-type", lit "application/grpc")] := rfl
  have hchunks : chunks (sent 1 hiCall) = [[0x00, 0x00, 0x00, 0x00, 0x02, 0x68], [0x69]] := rfl
  have hgrpc : Request.GrpcHeaders [(lit ":method", lit "POST"), (lit ":path", lit "/a/b"),
      (lit "content-type", lit "application/grpc")] (lit "a") (lit "b") := by
    refine ⟨⟨fun value h => ?_, fun value h => ?_, by decide, by decide, by decide, by decide⟩,
      ⟨lit "POST", by decide⟩, ⟨lit "application/grpc", by decide⟩⟩
    · simpa [lit] using h
    · have hvalue : value = lit "application/grpc" := by simpa [lit] using h
      rw [hvalue]
      decide
  have hspells : Spells [[0x00, 0x00, 0x00, 0x00, 0x02, 0x68], [0x69]] (lit "hi") := by
    refine ⟨by decide, by decide, by decide, by decide, ?_⟩
    have hone := not_overrun_singleton [0x00, 0x00, 0x00, 0x00, 0x02, 0x68]
    have hfull : ¬ FullAfter [[0x00, 0x00, 0x00, 0x00, 0x02, 0x68]] := by
      rw [← full_assembled]
      decide
    show ¬ Overrun ([[0x00, 0x00, 0x00, 0x00, 0x02, 0x68]] ++ [[0x69]])
    rw [overrun_snoc]
    exact fun h => h.elim hone hfull
  refine ⟨?_, ?_, ?_⟩
  · rw [hheaders]
    exact hgrpc
  · rw [hheaders]
    decide
  · rw [hchunks]
    exact hspells

/-- The client gets back what it sent. -/
theorem unary_call_hi : ∃ w : Serving (Backend.uv.Conn Mini),
    Backend.uv.serve (Mini.nghttp2 twoReads) (ServerBase.added [⟨lit "a", [echo]⟩])
      (fun _ => .completed) [.bytes [0x00], .bytes [0x01]] { conn := Backend.uv.fresh {} } = .ok () w ∧
    ⟨lit "a", lit "b", lit "hi"⟩ ∈ handled w.acts ∧
      ∃ s, WrittenIn (Mini.nghttp2 twoReads) { session := {} } w.conn.session
          { id := 1, msg := .ofString (lit "hi"), status := {} } s ∧
        (Client.reply (Mini.flow.sentOn 1 w.conn.session.session) =
            some { code := .ok, details := [], message := some (lit "hi") } ↔
          5 + (lit "hi").length ≤ s.session.window 1) := by
  obtain ⟨w, hw⟩ := Option.isSome_iff_exists.1 (show (returned (Backend.uv.serve (Mini.nghttp2 twoReads)
    (ServerBase.added [⟨lit "a", [echo]⟩]) (fun _ => .completed) [.bytes [0x00], .bytes [0x01]]
    { conn := Backend.uv.fresh {} })).isSome = true by decide +kernel)
  have hall : (returned (Backend.uv.serve (Mini.nghttp2 twoReads) (ServerBase.added [⟨lit "a", [echo]⟩])
      (fun _ => .completed) [.bytes [0x00], .bytes [0x01]] { conn := Backend.uv.fresh {} })).map
        (fun w => (w.acts.all fun a => !a.failed, (delivered w.acts).flatten)) =
      some (true, hiCall ++ [.end 1]) := by decide +kernel
  rw [hw, Option.map_some, Option.some.injEq, Prod.mk.injEq] at hall
  have hun : Unfailed w.acts := by
    intro a ha
    simpa using List.all_eq_true.1 hall.1 a ha
  have hfresh : Mini.flow.Fresh {} := ⟨rfl, fun f hf => absurd hf List.not_mem_nil, fun _ => List.not_mem_nil⟩
  have hends : EndsOnce 1 hiCall (delivered w.acts).flatten := by
    rw [hall.2]
    exact ⟨.end 1, [], rfl, rfl, rfl, by decide⟩
  have hok := returned_eq_some hw
  exact ⟨w, hok, unary_call (Mini.models twoReads) .uv hfresh hok hun hends asks_hiCall
    (show Registration.rpc [⟨lit "a", [echo]⟩] (lit "a") (lit "b") = some echo from rfl)
    (show echo.ParseFromArray (lit "hi") = some (lit "hi") from rfl) (fun _ _ => rfl) rfl (by decide)⟩

end Grpcxx
