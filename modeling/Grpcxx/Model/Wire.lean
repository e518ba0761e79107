import Grpcxx.Model.Reader
import Grpcxx.Model.Serve

/-!
# A connection of the uv server, from its socket on

`server::conn` with the reader that it awaits. `Uv.serve` is fed with how the reads end. Here libuv reads
into the reader's buffer whenever it may, and the function given to `scheduler::run` gives the session what
the view shows when it is executed. When that is, is left open.
-/

namespace Grpcxx.Uv

/-- What the coroutine's frame holds. -/
structure Wire (σ : Type) where
  reader : Reader.State := {}
  serving : Serving (Conn σ)

namespace Wire

variable {σ : Type} (N : Nghttp2 σ) (b : ServerBase) (results : ℕ → WriteResult)

/-- A call on the connection, unless it ends the process. -/
def does (f : Call (Serving (Conn σ)) Unit) (s : Wire σ) : Option (Wire σ) :=
  match f s.serving with
  | .ok () serving => some { s with serving }
  | .error _ _ => none

/-- A step of the loop with its reader. The function is executed when it reads the view, and the body of
the loop ends with the flush. -/
def step (s : Wire σ) (a : Reader.Action) : Option (Wire σ) :=
  (Reader.step s.reader a).bind fun reader =>
    match a, s.reader.point with
    | .parse, .working size => { s with reader }.does (task (job N b (s.reader.reader.view size)))
    | .finish, _ => { s with reader }.does (task (Serving.writing (Conn.flush results)))
    | _, _ => some { s with reader }

/-- A connection just accepted. -/
def start (session : σ) : Wire σ where
  serving := { conn := Backend.fresh .uv session }

end Wire

end Grpcxx.Uv
