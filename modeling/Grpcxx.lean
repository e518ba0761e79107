import Grpcxx.Lib.Run
import Grpcxx.Lib.Word
import Grpcxx.Lib.Loop
import Grpcxx.Lib.Outcome
import Grpcxx.Model.Serve
import Grpcxx.Model.Contract
import Grpcxx.Model.Reference
import Grpcxx.Proof.Reassembly
import Grpcxx.Proof.Decode
import Grpcxx.Proof.Fragments
import Grpcxx.Proof.Complete
import Grpcxx.Proof.Calls
import Grpcxx.Proof.Demux
import Grpcxx.Proof.Reset
import Grpcxx.Proof.Window
import Grpcxx.Proof.Bodies
import Grpcxx.Lib.Portions
import Grpcxx.Proof.Draining
import Grpcxx.Proof.Failure
import Grpcxx.Proof.Dispatch
import Grpcxx.Proof.Order
import Grpcxx.Proof.Headers
import Grpcxx.Model.Generate
import Grpcxx.Proof.Namespaces
import Grpcxx.Proof.Naming
import Grpcxx.Lib.Transducer
import Grpcxx.Lib.Cpp
import Grpcxx.Model.Interface
import Grpcxx.Proof.Interface
import Grpcxx.Lib.Places
import Grpcxx.Model.Scheduler
import Grpcxx.Proof.Stages
import Grpcxx.Proof.Handover
import Grpcxx.Proof.Frames
import Grpcxx.Proof.Paths
import Grpcxx.Lib.Spans
import Grpcxx.Model.Reader
import Grpcxx.Proof.Reading
import Grpcxx.Model.Shutdown
import Grpcxx.Proof.Closing
import Grpcxx.Model.System
import Grpcxx.Proof.Turns
import Grpcxx.Proof.Interleaving
import Grpcxx.Proof.Drive
import Grpcxx.Proof.Agree
import Grpcxx.Lib.Halting
import Grpcxx.Proof.AtRest
import Grpcxx.Model.Strands
import Grpcxx.Proof.Strands
import Grpcxx.Proof.Conversation
import Grpcxx.Model.Client
import Grpcxx.Proof.Unary
import Grpcxx.Proof.Teardown
import Grpcxx.Proof.Clients
import Grpcxx.Lib.Simulation
import Grpcxx.Proof.Phases
import Grpcxx.Lib.Queue
import Grpcxx.Proof.Fifo
import Grpcxx.Model.Wire
import Grpcxx.Proof.Wire
import Grpcxx.Proof.AtMostOnce
import Grpcxx.Proof.Output
