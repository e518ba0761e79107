import Grpcxx.Model.Request

/-!
# `rpc`, `service` and `server_base`

From a request to its response: the service by name, the method by name, the bytes
through the rpc's two maps and the user's handler in between. A handler leaves by
returning or by throwing anything; `process` is `noexcept` and catches
`std::exception` only. Calls of handlers are recorded as `Invocation`s.
-/

namespace Grpcxx

/-- `rpc<M, T, U>` together with the implementation's `call` for it. `ParseFromArray` and `SerializeToString`
are the messages' own; they report a failure by their result, and are taken not to throw. -/
structure Rpc where
  method : Bytes
  Req : Type
  Resp : Type
  ParseFromArray : Bytes → Option Req
  SerializeToString : Resp → Option Bytes
  call : Context → Req → Except Fault (Status × Option Resp)

/-- `rpc::map` of request data -/
def Rpc.mapRequest (rpc : Rpc) (data : Bytes) : Except Fault rpc.Req :=
  match rpc.ParseFromArray data with
  | some req => .ok req
  | none => .error (.runtime_error "Failed to deserialize data")

/-- `rpc::map` of a response -/
def Rpc.mapResponse (rpc : Rpc) : Option rpc.Resp → Except Fault Bytes
  | none => .ok []
  | some res =>
    match rpc.SerializeToString res with
    | some data => .ok data
    | none => .error (.runtime_error "Failed to serialize data")

/-- `service::handler_t` -/
abbrev Handler := Context → Bytes → Except Fault (Status × Bytes)

/-- The handler the constructor of `service` makes of an rpc. -/
def Rpc.handler (rpc : Rpc) : Handler := fun ctx data => do
  let req ← rpc.mapRequest data
  let result ← rpc.call ctx req
  let bytes ← rpc.mapResponse result.2
  return (result.1, bytes)

structure Service where
  name : Bytes
  handlers : Map Bytes Handler

/-- `service<N, R...>(impl)` -/
def Service.ofRpcs (name : Bytes) (rpcs : List Rpc) : Service :=
  { name, handlers := rpcs.foldl (fun m rpc => m.emplace rpc.method rpc.handler) ∅ }

/-- A handler was called: for which service and method, with which bytes. -/
structure Invocation where
  service : Bytes
  method : Bytes
  data : Bytes
  deriving DecidableEq, Repr

/-- `service::call` -/
def Service.call (s : Service) (ctx : Context) (method data : Bytes) :
    List Invocation × Except Fault (Status × Bytes) :=
  match s.handlers.lookup method with
  | none => ([], .ok ({ code := .not_found }, []))
  | some handler => ([⟨s.name, method, data⟩], handler ctx data)

structure ServerBase where
  services : Map Bytes Service := ∅

namespace ServerBase

/-- `add(s)` -/
def add (b : ServerBase) (s : Service) : ServerBase := { services := b.services.emplace s.name s }

/-- `process(req)`, with the handlers it calls. -/
def process (b : ServerBase) (req : Request) : List Invocation × Except Fault Response :=
  if !req.valid then ([], .ok (.ofCode req.id .invalid_argument))
  else
    match b.services.lookup req.service with
    | none => ([], .ok (.ofCode req.id .not_found))
    | some service =>
      -- `data()` is empty also where the message is not complete
      let r := service.call (.ofRequest req) req.method req.data
      match r.2 with
      | .ok (status, data) => (r.1, .ok { id := req.id, msg := .ofString data, status })
      | .error e =>
        if e.isException then (r.1, .ok (.ofCode req.id .internal))
        else (r.1, .error (.terminate .process))

end ServerBase

end Grpcxx
