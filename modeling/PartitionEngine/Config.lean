import PartitionEngine.Failure
import PartitionEngine.System.Host
import PartitionEngine.Text.Numeral
import PartitionEngine.Text.Span

/-!
# Configuration

The settings of an engine, their defaults, and the conditions on them.  An
engine reads its configuration once, when it is made.
-/

namespace PartitionEngine

/-- How a reactor waits for work. -/
inductive Scheduling where
  /-- Sleep until a completion comes.  Work from other threads wakes the reactor. -/
  | blocking
  /-- Never sleep.  Nobody has to wake the reactor. -/
  | spin
  deriving DecidableEq

namespace Scheduling

def text : Scheduling → String
  | blocking => "blocking"
  | spin => "spin"

/-- Reads a mode, in any case and with white space around it. -/
def parse (s : String) : Except Failure Scheduling :=
  let word := String.ofList (Text.lowerAscii (Text.trim s.toList))
  if word = "blocking" ∨ word = "block" then .ok blocking
  else if word = "spin" then .ok spin
  else .error (.config ("unknown scheduling mode '" ++ word ++ "'"))

end Scheduling

/-- Which completion driver a reactor runs on. -/
inductive DriverKind where
  /-- The kernel's completion ring if it can be set up, and polling otherwise. -/
  | auto
  /-- The kernel's completion ring. -/
  | ring
  /-- Completions made from readiness. -/
  | poll
  deriving DecidableEq

namespace DriverKind

def text : DriverKind → String
  | auto => "auto"
  | ring => "io_uring"
  | poll => "poll"

/-- Reads a kind, in any case and with white space around it. -/
def parse (s : String) : Except Failure DriverKind :=
  let word := String.ofList (Text.lowerAscii (Text.trim s.toList))
  if word = "auto" then .ok auto
  else if word = "io_uring" ∨ word = "iouring" ∨ word = "uring" then .ok ring
  else if word = "poll" then .ok poll
  else .error (.config ("unknown I/O driver '" ++ word ++ "'"))

end DriverKind

/-- The options set on every connection. -/
structure SocketOptions where
  noDelay : Bool := true
  keepAlive : Bool := true
  sendBuffer : Option Nat := none
  recvBuffer : Option Nat := none
  deriving DecidableEq

/-- The settings of an engine.  Sizes are in bytes and times in milliseconds, and each time
is a span.  `validate` sets no upper bound to either: room for more than `maxCapacity` bytes,
or a multiple of the backoff that is no span, makes the handler panic that asks for it. -/
structure Config where
  /-- The reactors, each with a listener of its own. -/
  reactorCount : Nat
  bindHost : Ip := .loopback
  portStart : UInt16 := 11000
  portEnd : UInt16 := 11200
  listenBacklog : Int32 := 1024
  socket : SocketOptions := {}
  /-- The room made in the read buffer before a receive, if it fits. -/
  readBufferSize : Nat := 64 * 1024
  /-- Queued writes are merged into one send up to this size, if room for it fits. -/
  writeCoalesceBytes : Nat := 64 * 1024
  ringEntries : UInt32 := 512
  /-- The completions handled in one turn of the loop. -/
  completionBatch : Nat := 256
  scheduling : Scheduling := .blocking
  driver : DriverKind := .auto
  /-- Longer payloads are cut into parts of this length. -/
  fragmentThreshold : Nat := 64 * 1024
  /-- The longest payload of a frame that is accepted. -/
  maxFramePayload : Nat := 16 * 1024 * 1024
  /-- The longest payload of a message that is accepted. -/
  maxMessageSize : Nat := 64 * 1024 * 1024
  connectTimeout : Nat := 5000
  /-- The attempts after the first one. -/
  connectRetries : UInt32 := 3
  /-- The pause before attempt `n + 1` is `n` times this. -/
  connectBackoff : Nat := 50
  /-- The instances of one operation kept for reuse. -/
  opPoolCapacity : Nat := 64
  pinThreads : Bool := false
  /-- The processor of reactor 0. -/
  cpuOffset : Nat := 0
  terminationTimeout : Nat := 5000

namespace Config

/-- The configuration with nothing set, on a host: one reactor for each processor. -/
def default (host : Host) : Config := { reactorCount := host.cpus }

/-- The pause after an attempt that has failed, if that is a span. -/
def pauseAfter? (c : Config) (attempt : UInt32) : Option Nat :=
  let pause := c.connectBackoff * attempt.toNat
  if pause < Text.spanLimit then some pause else none

/-- The first condition on the settings that does not hold. -/
def validate (c : Config) : Except Failure Unit :=
  if c.reactorCount = 0 then
    .error (.config "reactor_count must be > 0")
  else if 1024 < c.reactorCount then
    .error (.config "reactor_count must be <= 1024")
  else if c.portStart = 0 then
    .error (.config "port_start must be > 0")
  else if c.portEnd.toNat < c.portStart.toNat + c.reactorCount - 1 then
    .error (.config "port range must hold at least reactor_count ports")
  else if c.readBufferSize < 1024 then
    .error (.config "read_buffer_size must be >= 1KB")
  else if c.ringEntries = 0 ∨ c.completionBatch = 0 then
    .error (.config "ring_entries and completion_batch must be > 0")
  else if c.fragmentThreshold = 0 ∨ c.maxFramePayload < c.fragmentThreshold then
    .error (.config "fragment_threshold must be in 1..=max_frame_payload")
  else if c.maxMessageSize < c.maxFramePayload then
    .error (.config "max_message_size must be >= max_frame_payload")
  else if c.connectTimeout = 0 then
    .error (.config "connect_timeout must be > 0")
  else .ok ()

end Config

end PartitionEngine
