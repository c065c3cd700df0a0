import PartitionEngine.System.Errno

/-!
# Failures of system calls

A failed call to the operating system has the error number it gave, and with it a
class and a text.  Some failures are found without asking the system.
-/

namespace PartitionEngine

/-- A failed call to the operating system. -/
inductive IoFailure where
  /-- A failure with the error number the system gave. -/
  | os (errno : Int)
  /-- A failure found without asking the system. -/
  | custom (kind : String) (text : String)
  deriving DecidableEq

namespace IoFailure

def kind : IoFailure → String
  | .custom kind _ => kind
  | .os errno =>
    match [(1, "PermissionDenied"), (2, "NotFound"), (4, "Interrupted"), (11, "WouldBlock"),
        (12, "OutOfMemory"), (13, "PermissionDenied"), (16, "ResourceBusy"), (17, "AlreadyExists"),
        (22, "InvalidInput"), (24, "TooManyOpenFiles"), (32, "BrokenPipe"), (38, "Unsupported"),
        (95, "Unsupported"), (98, "AddrInUse"), (99, "AddrNotAvailable"), (100, "NetworkDown"),
        (101, "NetworkUnreachable"), (103, "ConnectionAborted"), (104, "ConnectionReset"),
        (107, "NotConnected"), (110, "TimedOut"), (111, "ConnectionRefused"),
        (113, "HostUnreachable"), (115, "InProgress")].find? fun row => row.1 = errno with
    | some (_, name) => name
    | none => "Uncategorized"

/-- The system's own words for the error numbers it words differently. -/
def systemWords (errno : Int) : String :=
  match [(5, "Input/output error"), (9, "Bad file descriptor"),
      (11, "Resource temporarily unavailable"), (12, "Cannot allocate memory"),
      (95, "Operation not supported")].find? fun row => row.1 = errno with
  | some (_, words) => words
  | none =>
    match Errno.table.find? fun row => row.1 = errno with
    | some (_, _, words) => words
    | none => "Unknown error " ++ toString errno

def text : IoFailure → String
  | .os errno => systemWords errno ++ " (os error " ++ toString errno ++ ")"
  | .custom _ text => text

/-- Whether another port may do: the port is taken or not permitted. -/
def isRetryable : IoFailure → Bool
  | .os errno => errno ∈ [Errno.notPermitted, Errno.permissionDenied, Errno.addressInUse]
  | .custom .. => false

end IoFailure

end PartitionEngine
