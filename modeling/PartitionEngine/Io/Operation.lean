import PartitionEngine.Net.Endpoint

/-!
# Operations on descriptors

What can be asked of a completion driver, and what comes back.  An operation is
named by a token of the one who submits it.  It comes back once, with a count, a
descriptor or 0, or with the negative of an error number.
-/

namespace PartitionEngine

/-- An open file.  `none` names no open file. -/
abbrev Descriptor := Option Nat

/-- An operation. -/
inductive IoOp where
  | accept (descriptor : Descriptor)
  | connect (descriptor : Descriptor) (endpoint : Endpoint)
  /-- Receive at most `room` bytes. -/
  | recv (descriptor : Descriptor) (room : Nat)
  /-- Send bytes, or the front of them. -/
  | send (descriptor : Descriptor) (bytes : Bytes)
  | read (descriptor : Descriptor) (room : Nat)
  /-- Wait for a number of milliseconds. -/
  | timeout (after : Nat)

/-- The kinds of operations. -/
inductive IoKind where
  | accept
  | connect
  | recv
  | send
  | read
  | timeout
  deriving DecidableEq

namespace IoKind

def name : IoKind → String
  | accept => "accept"
  | connect => "connect"
  | recv => "recv"
  | send => "send"
  | read => "read"
  | timeout => "timeout"

def named? (name : String) : Option IoKind :=
  [accept, connect, recv, send, read, timeout].find? fun k => k.name = name

end IoKind

namespace IoOp

def kind : IoOp → IoKind
  | accept .. => .accept
  | connect .. => .connect
  | recv .. => .recv
  | send .. => .send
  | read .. => .read
  | timeout .. => .timeout

def descriptor : IoOp → Descriptor
  | accept d | connect d _ | recv d _ | send d _ | read d _ => d
  | timeout _ => none

end IoOp

/-- What an operation gives. -/
structure IoResult where
  /-- A count, a descriptor or 0, or the negative of an error number. -/
  result : Int
  received : Bytes := []
  /-- The other side of an accepted connection, if it can be told. -/
  remote : Option Endpoint := none

/-- An operation that came back. -/
structure IoCompletion (τ : Type) extends IoResult where
  token : τ

end PartitionEngine
