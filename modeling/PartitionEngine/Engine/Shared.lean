import PartitionEngine.Invocation.Table
import PartitionEngine.Operation.Dispatcher
import PartitionEngine.Ownership
import PartitionEngine.Reactor.Task

/-!
# What the reactors of an engine share

The settings, the registry, the handles of all reactors, the invocations and the
links, and how far the engine's life has come.
-/

namespace PartitionEngine

/-- The state of an engine, without what belongs to one reactor alone. -/
structure Shared (σ : Type) where
  config : Config
  registry : Registry σ
  ownership : Ownership := {}
  reactors : List ReactorHandle
  invocations : InvocationTable := {}
  links : Links
  started : Bool := false
  shuttingDown : Bool := false
  /-- The address of reactor 0, once the engine has been started. -/
  localAddress : Option Address := none
  /-- The reactors that have not ended. -/
  live : Nat := 0

namespace Shared

variable {σ : Type}

def reactor? (s : Shared σ) (index : Nat) : Option ReactorHandle := s.reactors[index]?

def isAlive (s : Shared σ) (index : Nat) : Bool :=
  ((s.reactor? index).map ReactorHandle.alive).getD false

/-- The reactor that serves a partition. -/
def reactorOf (s : Shared σ) (p : Partition) : Nat := reactorIndex p s.reactors.length

def modifyReactor (s : Shared σ) (index : Nat) (f : ReactorHandle → ReactorHandle) : Shared σ :=
  { s with reactors := s.reactors.modify index f }

def submit (s : Shared σ) (thread : ThreadId) (index : Nat) (task : Task) :
    Except Failure Unit × Shared σ :=
  match s.reactor? index with
  | none => (.error (.reactorUnavailable index), s)
  | some r =>
    let (result, r) := r.submit thread task
    (result, s.modifyReactor index fun _ => r)

/-- Makes sure that a link has a connection or gets one. -/
def acquire (s : Shared σ) (thread : ThreadId) (l : Link) : Except Failure Unit × Shared σ :=
  match s.reactor? l.index with
  | none => (.error (.reactorUnavailable l.index), s)
  | some r =>
    let (result, links, r) := s.links.acquire l r thread
    (result, { s with links }.modifyReactor l.index fun _ => r)

/-- The frames of a response, as bytes, and their number. -/
def encodeResponse (s : Shared σ) (opcode : UInt8) (correlationId : UInt64) (partition : Partition)
    (result : Except ErrorRecord Bytes) : Bytes × Nat :=
  let parts := (Frame.response opcode correlationId partition result).parts s.config.fragmentThreshold
  (parts.flatMap Frame.encode, parts.length)

def encodeRequest (s : Shared σ) (correlationId : UInt64) (r : Request) : Bytes :=
  (Frame.request r.opcode correlationId r.partition r.payload).encodeMessage
    s.config.fragmentThreshold

/-- The answer to a request that a dead reactor was to run. -/
def unavailable (index : Nat) : ErrorRecord :=
  ⟨.operationFailed, (Failure.reactorUnavailable index).message⟩

/-- Answers a forwarded request whose reactor ended before it ran. -/
def refuseForward (s : Shared σ) (thread : ThreadId) (index : Nat) (frame : Frame)
    (replyTo : ChannelKey) : Shared σ :=
  if isFireAndForget frame.opcode then s
  else
    let (bytes, _) := s.encodeResponse frame.opcode frame.correlationId frame.partition
      (.error (unavailable index))
    (s.submit thread replyTo.reactor (.reply replyTo bytes)).2

end Shared

end PartitionEngine
