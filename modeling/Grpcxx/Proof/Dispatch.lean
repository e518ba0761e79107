import Grpcxx.Model.Server

/-!
# Which handler answers a request

Services are added in some order, each with its rpcs in some order; names may be repeated.
Both maps keep the first entry of a key, so the rpc of a request is the first one of that
method name in the first service of that name (`Registration.rpc`).

* `lookup_added`, `lookup_ofRpcs`: what the two maps hold.
* `process_unknown`, `process_rpc`: `process` in terms of that rpc.
* `dispatched_iff`: `process` answers as dispatch should exactly when the handler of the
  request throws nothing but a `std::exception`.
-/

namespace Grpcxx

/-- A service as it is added: its name and its rpcs. -/
structure Registration where
  name : Bytes
  rpcs : List Rpc

/-- The rpc for a service and a method: the first of that method name in the first service
of that name. -/
def Registration.rpc (regs : List Registration) (service method : Bytes) : Option Rpc :=
  (regs.find? fun r => r.name = service).bind fun r => r.rpcs.find? fun rpc => rpc.method = method

/-- The server after these calls of `add`. -/
def ServerBase.added (regs : List Registration) : ServerBase :=
  regs.foldl (fun b r => b.add (Service.ofRpcs r.name r.rpcs)) {}

/-- An rpc's answer to request data: `internal` when it cannot be read, the handler throws
or the result cannot be written, else the handler's status with what it returned. -/
def Rpc.Answers (rpc : Rpc) (ctx : Context) (data : Bytes) (resp : Response) : Prop :=
  match rpc.ParseFromArray data with
  | none => resp.status.code = .internal
  | some req =>
    match rpc.call ctx req with
    | .error _ => resp.status.code = .internal
    | .ok (status, none) => resp.status = status ∧ resp.msg = .ofString []
    | .ok (status, some res) =>
      match rpc.SerializeToString res with
      | none => resp.status.code = .internal
      | some data => resp.status = status ∧ resp.msg = .ofString data

/-- **Dispatch.** One response for the stream of the request, from the rpc of the request
and no other. -/
def Dispatched (regs : List Registration) (req : Request)
    (r : List Invocation × Except Fault Response) : Prop :=
  ∃ resp, r.2 = .ok resp ∧ resp.id = req.id ∧
    if !req.valid then r.1 = [] ∧ resp.status.code = .invalid_argument
    else
      match Registration.rpc regs req.service req.method with
      | none => r.1 = [] ∧ resp.status.code = .not_found
      | some rpc =>
        r.1 = [⟨req.service, req.method, req.data⟩] ∧ rpc.Answers (.ofRequest req) req.data resp

/-- If the request has a handler and it throws, then a `std::exception`. -/
def Caught (regs : List Registration) (req : Request) : Prop :=
  ∀ rpc arg e, req.valid = true → Registration.rpc regs req.service req.method = some rpc →
    rpc.ParseFromArray req.data = some arg → rpc.call (.ofRequest req) arg = .error e →
    e.isException = true

/-! ## The two maps -/

theorem ServerBase.services_foldl (regs : List Registration) : ∀ b : ServerBase,
    (regs.foldl (fun b r => b.add (Service.ofRpcs r.name r.rpcs)) b).services =
      regs.foldl (fun m r => m.emplace r.name (Service.ofRpcs r.name r.rpcs)) b.services := by
  induction regs with
  | nil => intro b; rfl
  | cons r regs ih => intro b; exact ih _

theorem ServerBase.lookup_added (regs : List Registration) (name : Bytes) :
    (ServerBase.added regs).services.lookup name =
      (regs.find? fun r => r.name = name).map fun r => Service.ofRpcs r.name r.rpcs := by
  unfold ServerBase.added
  rw [ServerBase.services_foldl]
  have h := Map.lookup_foldl_emplace name Registration.name
    (fun r => Service.ofRpcs r.name r.rpcs) regs (∅ : Map Bytes Service)
  simpa using h

theorem Service.lookup_ofRpcs (name : Bytes) (rpcs : List Rpc) (method : Bytes) :
    (Service.ofRpcs name rpcs).handlers.lookup method =
      (rpcs.find? fun rpc => rpc.method = method).map Rpc.handler := by
  have h := Map.lookup_foldl_emplace method Rpc.method Rpc.handler rpcs (∅ : Map Bytes Handler)
  unfold Service.ofRpcs
  simpa using h

/-! ## `process` -/

namespace ServerBase

variable {regs : List Registration} {req : Request}

theorem process_invalid (b : ServerBase) (h : req.valid = false) :
    b.process req = ([], .ok (.ofCode req.id .invalid_argument)) := by
  simp only [process, h, Bool.not_false, if_true]

/-- Without an rpc for it no handler is called, whether the service is unknown or it has no
such method. -/
theorem process_unknown (hv : req.valid = true)
    (h : Registration.rpc regs req.service req.method = none) :
    ∃ resp, (added regs).process req = ([], .ok resp) ∧ resp.id = req.id ∧
      resp.status.code = .not_found := by
  unfold Registration.rpc at h
  unfold process
  rw [hv, lookup_added]
  cases hr : regs.find? fun r => r.name = req.service with
  | none => exact ⟨_, rfl, rfl, rfl⟩
  | some r =>
    rw [hr] at h
    have hm := Service.lookup_ofRpcs r.name r.rpcs req.method
    rw [show (r.rpcs.find? fun rpc => rpc.method = req.method) = none from h] at hm
    simp only [Option.map_some, Service.call, hm, Option.map_none]
    exact ⟨_, rfl, rfl, rfl⟩

/-- What `process` makes of a handler's outcome. -/
def reply (id : StreamId) : Except Fault (Status × Bytes) → Except Fault Response
  | .ok (status, data) => .ok { id, msg := .ofString data, status }
  | .error e => if e.isException then .ok (.ofCode id .internal) else .error (.terminate .process)

/-- With an rpc its handler is called, with the data of the request. -/
theorem process_rpc {rpc : Rpc} (hv : req.valid = true)
    (h : Registration.rpc regs req.service req.method = some rpc) :
    (added regs).process req = ([⟨req.service, req.method, req.data⟩],
      reply req.id (rpc.handler (.ofRequest req) req.data)) := by
  unfold Registration.rpc at h
  obtain ⟨r, hr, hrpc⟩ := Option.bind_eq_some_iff.1 h
  have hname : r.name = req.service := by simpa using List.find?_some hr
  have hm := Service.lookup_ofRpcs r.name r.rpcs req.method
  rw [hrpc] at hm
  have hcall : (Service.ofRpcs r.name r.rpcs).call (.ofRequest req) req.method req.data =
      ([⟨req.service, req.method, req.data⟩], rpc.handler (.ofRequest req) req.data) := by
    simp only [Service.call, hm, Option.map_some]
    rw [← hname]; rfl
  unfold process
  rw [hv, lookup_added, hr]
  simp only [Option.map_some, hcall, Bool.not_true, Bool.false_eq_true, if_false]
  cases rpc.handler (.ofRequest req) req.data with
  | ok r => rfl
  | error e => cases he : e.isException <;> simp [reply, he]

end ServerBase

/-! ## The stages of a handler -/

namespace Rpc

variable {rpc : Rpc} {ctx : Context} {data : Bytes} {arg : rpc.Req}

theorem handler_unread (hp : rpc.ParseFromArray data = none) :
    rpc.handler ctx data = .error (.runtime_error "Failed to deserialize data") := by
  simp only [handler, mapRequest, hp]; rfl

/-- What the implementation throws is what the handler leaves by. -/
theorem handler_thrown {e : Fault} (hp : rpc.ParseFromArray data = some arg)
    (hc : rpc.call ctx arg = .error e) : rpc.handler ctx data = .error e := by
  have hread : rpc.handler ctx data = (do
      let result ← rpc.call ctx arg
      let bytes ← rpc.mapResponse result.2
      return (result.1, bytes)) := by
    simp only [handler, mapRequest, hp]; rfl
  rw [hread, hc]; rfl

theorem handler_returned {result : Status × Option rpc.Resp}
    (hp : rpc.ParseFromArray data = some arg) (hc : rpc.call ctx arg = .ok result) :
    rpc.handler ctx data = (rpc.mapResponse result.2).map fun bytes => (result.1, bytes) := by
  have hread : rpc.handler ctx data = (do
      let result ← rpc.call ctx arg
      let bytes ← rpc.mapResponse result.2
      return (result.1, bytes)) := by
    simp only [handler, mapRequest, hp]; rfl
  rw [hread, hc]
  show (do let bytes ← rpc.mapResponse result.2; return (result.1, bytes)) = _
  cases rpc.mapResponse result.2 <;> rfl

/-- A handler whose implementation throws nothing but exceptions answers. -/
theorem reply_answers (rpc : Rpc) (ctx : Context) (data : Bytes) (id : StreamId)
    (hcaught : ∀ arg e, rpc.ParseFromArray data = some arg → rpc.call ctx arg = .error e →
      e.isException = true) :
    ∃ resp, ServerBase.reply id (rpc.handler ctx data) = .ok resp ∧ resp.id = id ∧
      rpc.Answers ctx data resp := by
  unfold Answers
  cases hp : rpc.ParseFromArray data with
  | none => exact ⟨.ofCode id .internal, by rw [handler_unread hp]; rfl, rfl, rfl⟩
  | some arg =>
    cases hc : rpc.call ctx arg with
    | error e =>
      have he := hcaught arg e hp hc
      have hreply : ServerBase.reply id (.error e) = .ok (.ofCode id .internal) := by
        simp only [ServerBase.reply, he, if_true]
      exact ⟨.ofCode id .internal, by rw [handler_thrown hp hc, hreply], rfl, by simp only [hc]; rfl⟩
    | ok result =>
      obtain ⟨status, res⟩ := result
      rw [handler_returned hp hc]
      cases res with
      | none => exact ⟨{ id, msg := .ofString [], status }, rfl, rfl, by simp only [hc, and_self]⟩
      | some res =>
        cases hs : rpc.SerializeToString res with
        | none =>
          have hmap : rpc.mapResponse (some res) =
              .error (.runtime_error "Failed to serialize data") := by
            simp only [mapResponse, hs]
          exact ⟨.ofCode id .internal, by rw [hmap]; rfl, rfl, by simp only [hc, hs]; rfl⟩
        | some bytes =>
          have hmap : rpc.mapResponse (some res) = .ok bytes := by simp only [mapResponse, hs]
          exact ⟨{ id, msg := .ofString bytes, status }, by rw [hmap]; rfl, rfl,
            by simp only [hc, hs, and_self]⟩

end Rpc

/-- **Dispatch is total and exact** exactly as far as handlers throw nothing but
`std::exception`s: `process` is `noexcept`, and its catch clause takes no other value. -/
theorem dispatched_iff (regs : List Registration) (req : Request) :
    Dispatched regs req ((ServerBase.added regs).process req) ↔ Caught regs req := by
  constructor
  · rintro ⟨resp, hresp, -⟩ rpc arg e hv hrpc hp hc
    by_contra he
    have hprocess := ServerBase.process_rpc hv hrpc
    rw [Rpc.handler_thrown hp hc] at hprocess
    rw [hprocess] at hresp
    simp [ServerBase.reply, he] at hresp
  · intro hcaught
    cases hv : req.valid with
    | false =>
      have hprocess := ServerBase.process_invalid (ServerBase.added regs) hv
      refine ⟨_, by rw [hprocess], rfl, ?_⟩
      rw [hprocess, hv]
      exact ⟨rfl, rfl⟩
    | true =>
      cases hrpc : Registration.rpc regs req.service req.method with
      | none =>
        obtain ⟨resp, hprocess, hid, hcode⟩ := ServerBase.process_unknown hv hrpc
        refine ⟨resp, by rw [hprocess], hid, ?_⟩
        rw [hprocess, hv, hrpc]
        exact ⟨rfl, hcode⟩
      | some rpc =>
        have hprocess := ServerBase.process_rpc hv hrpc
        obtain ⟨resp, hresp, hid, hans⟩ := rpc.reply_answers (.ofRequest req) req.data req.id
          fun arg e hp hc => hcaught rpc arg e hv hrpc hp hc
        refine ⟨resp, by rw [hprocess]; exact hresp, hid, ?_⟩
        rw [hprocess, hv, hrpc]
        exact ⟨rfl, hans⟩

/-- A method `/a/b` whose handler throws an `int`. -/
def throwing : List Registration :=
  [{ name := lit "a"
     rpcs := [{ method := lit "b", Req := Unit, Resp := Unit, ParseFromArray := fun _ => some (),
                SerializeToString := fun _ => some [], call := fun _ _ => .error .unknown }] }]

/-- A handler that throws an `int` ends the process. -/
theorem dispatched_fails :
    ¬ ∀ (regs : List Registration) (req : Request),
      Dispatched regs req ((ServerBase.added regs).process req) := by
  intro h
  obtain ⟨resp, hresp, -⟩ := h throwing { id := 1, service := lit "a", method := lit "b" }
  have hend : ((ServerBase.added throwing).process
      { id := 1, service := lit "a", method := lit "b" }).2 = .error (.terminate .process) := rfl
  rw [hend] at hresp
  cases hresp

end Grpcxx
