import Grpcxx.Model.Conn
import Grpcxx.Model.Contract

/-!
# A gRPC client

What a response is for: a client that knows the protocol, and nothing of this server, reads it from
the frames of its stream. The length of a message is an unsigned big-endian number, a message that
is not exactly as long as its prefix says is an error, and so is a stream that does not end with
trailers.
-/

namespace Grpcxx

/-- How a call ended: its status, and the message that came back if there was one. -/
structure Reply where
  code : Status.Code
  details : Bytes
  message : Option Bytes
  deriving DecidableEq, Repr

namespace Client

/-- The value of a header field. -/
def field (hdrs : List Header) (name : Bytes) : Option Bytes :=
  (hdrs.find? fun h => h.name = name).map (·.value)

def codes : List Status.Code :=
  [.ok, .cancelled, .unknown, .invalid_argument, .deadline_exceeded, .not_found, .already_exists,
    .permission_denied, .resource_exhausted, .failed_precondition, .aborted, .out_of_range,
    .unimplemented, .internal, .unavailable, .data_loss, .unauthenticated]

/-- The status code that a decimal number stands for. -/
def code (value : Bytes) : Option Status.Code :=
  codes.find? fun c => lit (toString c.toNat) = value

/-- A body is empty or one uncompressed message. -/
def message : Bytes → Option (Option Bytes)
  | [] => some none
  | flag :: b₁ :: b₂ :: b₃ :: b₄ :: data =>
    if flag = 0 ∧ data.length =
        b₁.toNat * 16777216 + b₂.toNat * 65536 + b₃.toNat * 256 + b₄.toNat then some (some data)
    else none
  | _ => none

/-- After the headers: DATA, and then the trailers. -/
def body : List Frame → Option (Bytes × List Header)
  | [.headers _ trailers true] => some ([], trailers)
  | .data _ payload :: frames => (body frames).map fun r => (payload ++ r.1, r.2)
  | _ => none

/-- What comes of the frames of a stream. -/
def reply : List Frame → Option Reply
  | .headers _ hdrs false :: frames =>
    if field hdrs (lit ":status") = some (lit "200") then do
      let (bytes, trailers) ← body frames
      let code ← (field trailers (lit "grpc-status")).bind code
      let message ← message bytes
      return { code, details := (field trailers (lit "grpc-status-details-bin")).getD [], message }
    else none
  | _ => none

end Client

end Grpcxx
