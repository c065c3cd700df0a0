import PartitionEngine.Failure
import PartitionEngine.System.Host

/-!
# Wakeup signals

What other threads use to end a reactor's sleep.  A signal makes the read that
the reactor keeps waiting on it complete.  It is a counter of the system, or a
pipe that gets a byte for each signal.  A signal that finds the counter or the
pipe full is not an error: a wakeup is pending then.
-/

namespace PartitionEngine

/-- What a signal is made of. -/
inductive SignalKind where
  /-- A counter, read as a whole in 8 bytes. -/
  | counter
  /-- A pipe, read byte by byte. -/
  | pipe
  deriving DecidableEq

namespace SignalKind

def capacity : SignalKind → Nat
  | counter => UInt64.size - 2
  | pipe => 65536

end SignalKind

/-- A wakeup signal. -/
structure Signal where
  kind : SignalKind := .counter
  /-- The signals since the last read. -/
  pending : Nat := 0
  /-- The error every attempt to signal ends in, if nobody can read any more. -/
  broken : Option Int := none
  attempts : Nat := 0

namespace Signal

/-- A new signal.  It takes a descriptor. -/
def create (host : Host) (kind : SignalKind) : Except Failure Signal :=
  if host.canOpen then .ok { kind } else .error (.driver Errno.tooManyFiles)

def raise (s : Signal) : Except Failure Unit × Signal :=
  let s := { s with attempts := s.attempts + 1 }
  match s.broken with
  | some errno => (.error (.driver errno), s)
  | none => (.ok (), if s.pending < s.kind.capacity then { s with pending := s.pending + 1 } else s)

def isPending (s : Signal) : Bool := 0 < s.pending

/-- The bytes a read until nothing is left gives. -/
def unread (s : Signal) : Nat :=
  match s.kind with
  | .counter => if s.isPending then 8 else 0
  | .pipe => s.pending

/-- Reads until nothing is left.  Gives the number of bytes. -/
def drain (s : Signal) : Nat × Signal := (s.unread, { s with pending := 0 })

/-- Brings the signal to where one more would have to wait. -/
def saturate (s : Signal) : Signal := { s with pending := s.kind.capacity }

def closeReader (s : Signal) : Signal := { s with pending := 0, broken := some Errno.brokenPipe }

end Signal

end PartitionEngine
