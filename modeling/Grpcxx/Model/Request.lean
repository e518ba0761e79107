import Grpcxx.Model.Message

/-!
# `grpcxx::detail::request`, `response`, `status` and `context`

A request is built up from the header and DATA events of its stream. Its first
mistake sets the `invalid` flag, after which no event changes it.
-/

namespace Grpcxx

/-- A stream id, an `int32_t`. -/
abbrev StreamId := ℤ

/-! ## Requests -/

/-- `request::flags_t` -/
inductive Request.Flag
  | invalid
  | header_method
  | header_path
  | header_content_type
  deriving DecidableEq, Repr

def Request.Flag.bits : Request.Flag → UInt8
  | .invalid => 0x01
  | .header_method => (0x01 : UInt8) <<< 1
  | .header_path => (0x01 : UInt8) <<< 2
  | .header_content_type => (0x01 : UInt8) <<< 3

structure Request where
  flags : UInt8 := 0x00
  id : StreamId
  metadata : Map Bytes Bytes := ∅
  msg : Message := {}
  method : Bytes := []
  service : Bytes := []
  deriving DecidableEq

namespace Request

/-- `flag(f)`, setting -/
def setFlag (r : Request) (f : Flag) : Request := { r with flags := r.flags ||| f.bits }

/-- `flag(f) const`, testing -/
def hasFlag (r : Request) (f : Flag) : Bool := r.flags &&& f.bits == f.bits

/-- `invalid()` -/
def invalid (r : Request) : Bool := r.hasFlag .invalid

/-- `operator bool` -/
def valid (r : Request) : Bool := !r.invalid && !r.service.isEmpty && !r.method.isEmpty

/-- `data()` -/
def data (r : Request) : Bytes := r.msg.view

/-- The `:path` case of `header`. `front()` of an empty value is its terminating null. -/
def headerPath (r : Request) (value : Bytes) : Request :=
  let r := r.setFlag .header_path
  if value.headD 0 ≠ '/'.toNat.toUInt8 then r.setFlag .invalid
  else
    match value.find '/'.toNat.toUInt8 1 with
    | none => r.setFlag .invalid
    | some n =>
      let r := { r with service := value.substr 1 (n - 1), method := value.drop (n + 1) }
      if r.method.isEmpty then r.setFlag .invalid else r

/-- `header(name, value)` -/
def header (r : Request) (name value : Bytes) : Request :=
  if r.invalid then r
  else if name = lit ":method" then
    let r := r.setFlag .header_method
    if value ≠ lit "POST" then r.setFlag .invalid else r
  else if name = lit ":path" then r.headerPath value
  else if name = lit "content-type" then
    let r := r.setFlag .header_content_type
    if !value.startsWith (lit "application/grpc") then r.setFlag .invalid else r
  else if name.startsWith (lit ":") || name.startsWith (lit "grpc-") then r
  else { r with metadata := r.metadata.emplace name value }

/-- `read(data)` -/
def read (r : Request) (data : Bytes) : Request :=
  if r.invalid then r
  else
    match r.msg.append data with
    | .ok msg => { r with msg := msg }
    | .error _ => r.setFlag .invalid

end Request

/-! ## Status and response -/

/-- `status::code_t` -/
inductive Status.Code
  | ok | cancelled | unknown | invalid_argument | deadline_exceeded | not_found | already_exists
  | permission_denied | resource_exhausted | failed_precondition | aborted | out_of_range
  | unimplemented | internal | unavailable | data_loss | unauthenticated
  deriving DecidableEq, Repr

def Status.Code.toNat : Status.Code → ℕ
  | .ok => 0
  | .cancelled => 1
  | .unknown => 2
  | .invalid_argument => 3
  | .deadline_exceeded => 4
  | .not_found => 5
  | .already_exists => 6
  | .permission_denied => 7
  | .resource_exhausted => 8
  | .failed_precondition => 9
  | .aborted => 10
  | .out_of_range => 11
  | .unimplemented => 12
  | .internal => 13
  | .unavailable => 14
  | .data_loss => 15
  | .unauthenticated => 16

structure Status where
  code : Status.Code := .ok
  details : Bytes := []
  deriving DecidableEq, Repr

/-- `str()`, also `operator std::string_view` -/
def Status.str (s : Status) : Bytes := lit (toString s.code.toNat)

structure Response where
  id : StreamId
  msg : Message := {}
  status : Status := {}
  deriving DecidableEq, Repr

/-- `response(id, code)` -/
def Response.ofCode (id : StreamId) (code : Status.Code) : Response := { id, status := { code } }

/-- `response::bytes()` -/
def Response.bytes (r : Response) : Bytes := r.msg.bytes

/-! ## Context -/

structure Context where
  metadata : Map Bytes Bytes := ∅

/-- `context(req)` -/
def Context.ofRequest (req : Request) : Context :=
  { metadata := req.metadata.entries.foldl (fun m e => m.emplace e.1 e.2) ∅ }

/-- `meta(key)`: a key that is not there has the empty value. -/
def Context.meta (ctx : Context) (key : Bytes) : Bytes := (ctx.metadata.lookup key).getD []

end Grpcxx
