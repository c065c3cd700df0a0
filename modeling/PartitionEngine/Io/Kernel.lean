import PartitionEngine.Io.Operation

/-!
# What polling needs of a system

A driver that polls asks the system for three things: the time, an attempt at an
operation that never waits, and a wait until one of some descriptors is ready or
a time is over.
-/

namespace PartitionEngine

/-- What one attempt at an operation gives. -/
inductive Attempt where
  | done (result : IoResult)
  /-- It would have to wait. -/
  | blocked
  /-- A connection is being made.  The next attempt asks what came of it. -/
  | inProgress
  | interrupted

namespace Attempt

def success (n : Nat) : Attempt := .done { result := n }

def failure (errno : Int) : Attempt := .done { result := -errno }

def result? : Attempt → Option Int
  | done r => some r.result
  | _ => none

end Attempt

/-- What a descriptor is polled for. -/
structure Interest where
  descriptor : Descriptor
  /-- Whether it is to be ready for writing; else for reading. -/
  forWriting : Bool

namespace IoOp

def interest (op : IoOp) : Interest where
  descriptor := op.descriptor
  forWriting :=
    match op with
    | .send .. | .connect .. => true
    | .accept _ | .recv .. | .read .. | .timeout _ => false

end IoOp

/-- A system with states `κ`. -/
structure Kernel (κ : Type) where
  /-- Reads the clock, in nanoseconds. -/
  now : κ → Nat × κ
  /-- Attempts an operation.  The flag says that its connection is being made. -/
  attempt : IoOp → (connecting : Bool) → κ → Attempt × κ
  /-- Waits until a descriptor is ready, for a number of milliseconds or without
  limit.  Tells which are ready, or the error number. -/
  poll : List Interest → (limit : Option Nat) → κ → Except Int (List Bool) × κ

end PartitionEngine
