import PartitionEngine.Channel.Basic
import PartitionEngine.Queue.Tasks

/-!
# Tasks

What other threads ask of a reactor, and the part of a reactor they can reach:
its task queue, whether it is alive, and its counters.
-/

namespace PartitionEngine

/-- One call into the engine. -/
structure Request where
  /-- The byte of the operation, registered or not. -/
  opcode : UInt8
  partition : Partition
  payload : Bytes
  deriving DecidableEq

/-- Work for a reactor. -/
inductive Task where
  /-- Run a request here.  Without a correlation id nobody waits for the answer. -/
  | execute (request : Request) (correlationId : Option UInt64)
  /-- See to it that a link has a channel. -/
  | connect (link : Link)
  /-- Send the frames of a request to a peer. -/
  | write (link : Link) (bytes : Bytes) (correlationId : Option UInt64)
  /-- Run a request that another reactor received. -/
  | forward (frame : Frame) (replyTo : ChannelKey)
  | reply (channel : ChannelKey) (bytes : Bytes)
  | stop

/-- What a reactor has done. -/
structure ReactorStats where
  accepted : Nat := 0
  connects : Nat := 0
  closed : Nat := 0
  messagesIn : Nat := 0
  framesOut : Nat := 0
  tasks : Nat := 0
  deriving DecidableEq

/-- The part of a reactor that other threads reach. -/
structure ReactorHandle where
  index : Nat
  queue : TaskQueue Task
  alive : Bool := true
  stats : ReactorStats := {}

namespace ReactorHandle

def new (index : Nat) (signal : Signal) (mode : Scheduling) : ReactorHandle :=
  { index, queue := { mode, signal } }

def submit (r : ReactorHandle) (thread : ThreadId) (task : Task) :
    Except Failure Unit × ReactorHandle :=
  if r.alive then (.ok (), { r with queue := r.queue.push thread task })
  else (.error (.reactorUnavailable r.index), r)

/-- Tells the reactor to wind down, and wakes it. -/
def stop (r : ReactorHandle) (thread : ThreadId) : ReactorHandle :=
  { r with queue := (r.queue.push thread .stop).forceWakeup.2 }

def markDead (r : ReactorHandle) : ReactorHandle := { r with alive := false }

def count (r : ReactorHandle) (f : ReactorStats → ReactorStats) : ReactorHandle :=
  { r with stats := f r.stats }

end ReactorHandle

/-- Makes sure that a link has a connection or gets one.  If it has none, the
reactor is asked to connect. -/
def Links.acquire (links : Links) (l : Link) (r : ReactorHandle) (thread : ThreadId) :
    Except Failure Unit × Links × ReactorHandle :=
  match links.state l with
  | .idle =>
    match r.submit thread (.connect l) with
    | (.ok (), r) => (.ok (), links.setState l .connecting, r)
    | (.error e, r) => (.error e, links, r)
  | _ => (.ok (), links, r)

end PartitionEngine
