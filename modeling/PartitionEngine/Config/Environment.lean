import PartitionEngine.Config
import PartitionEngine.Net.Reader
import PartitionEngine.Text.Utf8

/-!
# Settings from the environment

A variable of the environment overrides a default.  A variable that is unset,
is not UTF-8 or does not parse leaves the default.  Switches are different: a
switch that is set to anything but a word for yes is off.
-/

namespace PartitionEngine

/-- The variables of an environment, as bytes. -/
abbrev Environment := List (String × Bytes)

namespace Environment

/-- The text of a variable that is set and is UTF-8. -/
def text? (env : Environment) (name : String) : Option String :=
  (env.find? fun e => e.1 = name).bind fun e => Text.decode? e.2

/-- A variable read by a rule, without the white space around it. -/
def get? {α : Type} (env : Environment) (name : String) (read : List Char → Option α) : Option α :=
  (env.text? name).bind fun s => read (Text.trim s.toList)

def get {α : Type} (env : Environment) (name : String) (read : List Char → Option α) (base : α) : α :=
  (env.get? name read).getD base

def isYes (s : String) : Bool :=
  let word := Text.lowerAscii (Text.trim s.toList)
  ["1", "true", "yes", "on"].any fun yes => word = yes.toList

/-- A switch.  Whatever is set and is no word for yes means off. -/
def switch (env : Environment) (name : String) (base : Bool) : Bool :=
  match env.text? name with
  | some s => isYes s
  | none => base

/-- A variable as it stands, or a default. -/
def string (env : Environment) (name : String) (base : String) : String :=
  (env.text? name).getD base

def millis (env : Environment) (name : String) (base : Nat) : Nat :=
  env.get name Text.parseWord? base

def size (env : Environment) (name : String) (base : Nat) : Nat :=
  ((env.text? name).bind fun s => Text.parseSize? s.toList).getD base

/-- A size that counts only if it is positive. -/
def positiveSize? (env : Environment) (name : String) : Option Nat :=
  some (env.size name 0) |>.filter (0 < ·)

end Environment

namespace Config

def word? {α : Type} (parse : String → Except Failure α) (cs : List Char) : Option α :=
  (parse (String.ofList cs)).toOption

/-- The configuration an environment asks for, on a host. -/
def ofEnvironment (host : Host) (env : Environment) : Config :=
  let base := Config.default host
  let reactors := env.get "TPC_REACTORS" Text.parseWord? 0
  { reactorCount := if reactors = 0 then base.reactorCount else reactors
    bindHost := (Ip.parse? (env.string "TPC_BIND_HOST" base.bindHost.text)).getD base.bindHost
    portStart := env.get "TPC_PORT_START" Text.parseUInt16? base.portStart
    portEnd := env.get "TPC_PORT_END" Text.parseUInt16? base.portEnd
    listenBacklog := env.get "TPC_LISTEN_BACKLOG" Text.parseInt32? base.listenBacklog
    socket := {
      noDelay := env.switch "TPC_TCP_NODELAY" base.socket.noDelay
      keepAlive := env.switch "TPC_KEEP_ALIVE" base.socket.keepAlive
      sendBuffer := env.positiveSize? "TPC_SO_SNDBUF"
      recvBuffer := env.positiveSize? "TPC_SO_RCVBUF" }
    readBufferSize := env.size "TPC_READ_BUFFER" base.readBufferSize
    writeCoalesceBytes := env.size "TPC_WRITE_COALESCE" base.writeCoalesceBytes
    ringEntries := env.get "TPC_RING_ENTRIES" Text.parseUInt32? base.ringEntries
    completionBatch := env.get "TPC_COMPLETION_BATCH" Text.parseWord? base.completionBatch
    scheduling := env.get "TPC_SCHEDULING" (word? Scheduling.parse) base.scheduling
    driver := env.get "TPC_IO_DRIVER" (word? DriverKind.parse) base.driver
    fragmentThreshold := env.size "TPC_FRAGMENT_THRESHOLD" base.fragmentThreshold
    maxFramePayload := env.size "TPC_MAX_FRAME" base.maxFramePayload
    maxMessageSize := env.size "TPC_MAX_MESSAGE" base.maxMessageSize
    connectTimeout := env.millis "TPC_CONNECT_TIMEOUT_MS" base.connectTimeout
    connectRetries := env.get "TPC_CONNECT_RETRIES" Text.parseUInt32? base.connectRetries
    connectBackoff := env.millis "TPC_CONNECT_BACKOFF_MS" base.connectBackoff
    opPoolCapacity := env.get "TPC_OP_POOL" Text.parseWord? base.opPoolCapacity
    pinThreads := env.switch "TPC_PIN_THREADS" base.pinThreads
    cpuOffset := env.get "TPC_CPU_OFFSET" Text.parseWord? base.cpuOffset
    terminationTimeout := env.millis "TPC_TERMINATION_TIMEOUT_MS" base.terminationTimeout }

end Config

end PartitionEngine
