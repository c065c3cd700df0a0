import PartitionEngine.Config
import PartitionEngine.Queue.Fifo
import PartitionEngine.Queue.Signal

/-!
# Task queues

How threads hand work to a reactor.  Many threads push, one thread pops, in
order.

Before the reactor sleeps it arms the queue, and it disarms it after.  The first
push of another thread to an armed queue takes the flag down and signals, so a
sleeping reactor gets one signal, and a busy one none.  Arming is refused if
tasks are queued already.  A queue in spin mode never has to signal.
-/

namespace PartitionEngine

/-- The name of a thread. -/
abbrev ThreadId := Nat

/-- A queue of tasks for one reactor. -/
structure TaskQueue (α : Type) where
  /-- The tasks, the oldest first. -/
  tasks : Fifo α := {}
  /-- Whether the next push of another thread has to signal. -/
  armed : Bool := false
  mode : Scheduling
  /-- The thread that pops. -/
  owner : Option ThreadId := none
  signal : Signal := {}
  wakeups : Nat := 0

namespace TaskQueue

variable {α : Type}

def size (q : TaskQueue α) : Nat := q.tasks.size

def isEmpty (q : TaskQueue α) : Bool := q.tasks.isEmpty

/-- Makes a thread the one that pops, unless there is one. -/
def bindOwner (q : TaskQueue α) (thread : ThreadId) : TaskQueue α :=
  { q with owner := q.owner.or (some thread) }

def wake (q : TaskQueue α) : Except Failure Unit × TaskQueue α :=
  let (result, signal) := q.signal.raise
  (result, { q with signal, wakeups := q.wakeups + 1 })

/-- Signals whatever the flag says. -/
def forceWakeup (q : TaskQueue α) : Except Failure Unit × TaskQueue α := q.wake

/-- Takes the flag down.  Tells whether it was up. -/
def takeFlag (q : TaskQueue α) : Bool × TaskQueue α := (q.armed, { q with armed := false })

def push (q : TaskQueue α) (thread : ThreadId) (task : α) : TaskQueue α :=
  let q := { q with tasks := q.tasks.push task }
  if q.mode = .spin ∨ q.owner = some thread then q
  else match q.takeFlag with
    | (true, q) => q.wake.2
    | (false, q) => q

def pop (q : TaskQueue α) : Option α × TaskQueue α :=
  match q.tasks.pop? with
  | none => (none, q)
  | some (task, tasks) => (some task, { q with tasks })

/-- Announces a sleep.  `false` if tasks are queued: the flag is down then, and
the reactor must not sleep. -/
def arm (q : TaskQueue α) : Bool × TaskQueue α :=
  let q := { q with armed := true }
  if q.isEmpty then (true, q)
  else
    let (up, q) := q.takeFlag
    (!up, q)

def disarm (q : TaskQueue α) : TaskQueue α := { q with armed := false }

end TaskQueue

end PartitionEngine
