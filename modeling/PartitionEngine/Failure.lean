import PartitionEngine.Net.Endpoint
import PartitionEngine.System.IoFailure
import PartitionEngine.Text.Quoted

/-!
# Failures

Why a call into the engine fails.  A failure is a value: one and the same is
often delivered to many invocations.  `Failure.message` is the text shown for
each.

An operation that fails on the member that runs it answers with an error
record, a code and a message, and the caller sees it as `Failure.remote`.
-/

namespace PartitionEngine

/-- A partition of the data. -/
abbrev Partition := Int32

/-- Why an operation failed on the member that ran it. -/
inductive ErrorCode where
  | unknownOpcode
  | operationFailed
  | operationPanicked
  | malformedRequest
  deriving DecidableEq

namespace ErrorCode

def byte : ErrorCode → UInt8
  | unknownOpcode => 1
  | operationFailed => 2
  | operationPanicked => 3
  | malformedRequest => 4

def ofByte? (b : UInt8) : Option ErrorCode :=
  [unknownOpcode, operationFailed, operationPanicked, malformedRequest].find? fun c => c.byte = b

def text : ErrorCode → String
  | unknownOpcode => "unknown opcode"
  | operationFailed => "operation failed"
  | operationPanicked => "operation panicked"
  | malformedRequest => "malformed request"

def name : ErrorCode → String
  | unknownOpcode => "UnknownOpcode"
  | operationFailed => "OperationFailed"
  | operationPanicked => "OperationPanicked"
  | malformedRequest => "MalformedRequest"

theorem ofByte?_byte (c : ErrorCode) : ofByte? c.byte = some c := by cases c <;> rfl

end ErrorCode

/-- What a member answers when an operation fails. -/
structure ErrorRecord where
  code : ErrorCode
  message : String
  deriving DecidableEq

/-- Why a call into the engine failed. -/
inductive Failure where
  | shuttingDown
  | notStarted
  /-- The reactor that serves the partition has ended. -/
  | reactorUnavailable (reactor : Nat)
  /-- Partitions are not negative. -/
  | invalidPartition (partition : Partition)
  /-- No member is known to own the partition. -/
  | noOwner (partition : Partition)
  | connect (endpoint : Endpoint) (reason : String)
  | transport (text : String)
  | bind (text : String)
  /-- A peer did not keep to the protocol, or a request does not fit it. -/
  | protocol (text : String)
  /-- The operation failed on the member that ran it. -/
  | remote (record : ErrorRecord)
  | driver (errno : Int)
  | config (text : String)
  deriving DecidableEq

namespace Failure

def kind : Failure → String
  | shuttingDown => "ShuttingDown"
  | notStarted => "NotStarted"
  | reactorUnavailable _ => "ReactorUnavailable"
  | invalidPartition _ => "InvalidPartition"
  | noOwner _ => "NoOwner"
  | connect .. => "Connect"
  | transport _ => "Transport"
  | bind _ => "Bind"
  | protocol _ => "Protocol"
  | remote _ => "Remote"
  | driver _ => "Driver"
  | config _ => "Config"

/-- The failure of a kind, with its number, its text and its endpoint where it has
them.  An unknown kind stands for a wrong setting. -/
def ofKind (kind : String) (n : Int) (text : String) (endpoint : Endpoint) : Failure :=
  match kind with
  | "ShuttingDown" => shuttingDown
  | "NotStarted" => notStarted
  | "ReactorUnavailable" => reactorUnavailable n.toNat
  | "InvalidPartition" => invalidPartition (Int32.ofInt n)
  | "NoOwner" => noOwner (Int32.ofInt n)
  | "Connect" => connect endpoint text
  | "Transport" => transport text
  | "Bind" => bind text
  | "Protocol" => protocol text
  | "Remote" => remote ⟨(ErrorCode.ofByte? (UInt8.ofNat n.toNat)).getD .operationFailed, text⟩
  | "Driver" => driver n
  | _ => config text

def message : Failure → String
  | shuttingDown => "Shutting down"
  | notStarted => "engine not started"
  | reactorUnavailable reactor => "reactor " ++ toString reactor ++ " unavailable"
  | invalidPartition p => "invalid partition id " ++ toString p.toInt
  | noOwner p => "no owner known for partition " ++ toString p.toInt
  | connect endpoint reason => "connect to " ++ endpoint.text ++ " failed: " ++ reason
  | transport text => "transport error: " ++ text
  | bind text => "bind failed: " ++ text
  | protocol text => "protocol error: " ++ text
  | remote record => "remote error (" ++ record.code.text ++ "): " ++ record.message
  | driver errno => "I/O driver failure: " ++ Errno.text errno
  | config text => "invalid configuration: " ++ text

/-- The failure of a transfer, from a negative result or an error number. -/
def ofErrno (context : String) (errno : Int) : Failure :=
  .transport (context ++ ": " ++ Errno.text errno.natAbs)

/-- The failure of a system call, with the error number if there is one. -/
def ofIo : IoFailure → Failure
  | .os errno => ofErrno "io" errno
  | .custom _ text => .transport text

/-- A description for people, with the kind and what the failure carries. -/
def describe (e : Failure) : String :=
  match e with
  | shuttingDown | notStarted => e.kind
  | reactorUnavailable n => e.kind ++ "(" ++ toString n ++ ")"
  | invalidPartition p | noOwner p => e.kind ++ "(" ++ toString p.toInt ++ ")"
  | connect endpoint reason =>
    e.kind ++ " \x7b addr: " ++ endpoint.text ++ ", reason: " ++ Text.quote reason ++ " \x7d"
  | transport text | bind text | protocol text | config text =>
    e.kind ++ "(" ++ Text.quote text ++ ")"
  | remote r =>
    e.kind ++ " \x7b code: " ++ r.code.name ++ ", message: " ++ Text.quote r.message ++ " \x7d"
  | driver errno => e.kind ++ "(" ++ toString errno ++ ")"

/-- Whether the failure comes from the local engine's own life and not from a peer. -/
def isLifecycle : Failure → Bool
  | shuttingDown | notStarted | reactorUnavailable _ => true
  | _ => false

end Failure

instance decidableEqExcept {ε α : Type} [DecidableEq ε] [DecidableEq α] : DecidableEq (Except ε α)
  | .ok a, .ok b => decidable_of_iff (a = b) ⟨congrArg Except.ok, Except.ok.inj⟩
  | .error e, .error f => decidable_of_iff (e = f) ⟨congrArg Except.error, Except.error.inj⟩
  | .ok _, .error _ => isFalse nofun
  | .error _, .ok _ => isFalse nofun

/-- The result of an invocation: the answer, or why there is none. -/
abbrev Outcome := Except Failure Bytes

end PartitionEngine
