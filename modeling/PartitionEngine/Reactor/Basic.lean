import PartitionEngine.Engine.Shared
import PartitionEngine.Io.CompletionQueue

/-!
# Reactors

A reactor owns a completion driver, the channels of its connections, and the
dispatcher for the partitions it serves.  It works in turns.  A turn sees the
reactor, what the reactors share, and the host.
-/

namespace PartitionEngine

/-- What belongs to one reactor alone. -/
structure Reactor (σ : Type) where
  index : Nat
  driver : CompletionQueue := {}
  /-- The descriptor of the listener, if there is one. -/
  listener : Descriptor
  localAddress : Address
  dispatcher : Dispatcher σ
  channels : Slab Channel := {}
  /-- The channel to each endpoint. -/
  outbound : Assoc Endpoint SlotKey := .empty
  /-- Whether the read on the wakeup signal is under way. -/
  wakeArmed : Bool := false
  acceptArmed : Bool := false
  stopping : Bool := false
  /-- Whether winding down has taken too long. -/
  drainExpired : Bool := false
  /-- Whether the handler at work has panicked.  What it did until then stays. -/
  panicked : Bool := false

namespace Reactor

variable {σ : Type}

def thread (r : Reactor σ) : ThreadId := r.index + 1

/-- Whether no operation but timers is left to wait for. -/
def quiescent (r : Reactor σ) : Bool := r.channels.isEmpty && !r.acceptArmed && !r.wakeArmed

def isFinished (r : Reactor σ) : Bool := r.stopping && (r.quiescent || r.drainExpired)

end Reactor

/-- What a reactor sees while it works. -/
structure Turn (σ : Type) where
  host : Host
  shared : Shared σ
  reactor : Reactor σ

namespace Turn

variable {σ : Type}

def config (t : Turn σ) : Config := t.shared.config

def panicked (t : Turn σ) : Bool := t.reactor.panicked

def panic (t : Turn σ) : Turn σ := { t with reactor := { t.reactor with panicked := true } }

/-- The turn before a handler, which has not panicked. -/
def afresh (t : Turn σ) : Turn σ := { t with reactor := { t.reactor with panicked := false } }

/-- Goes on with a handler, unless it has panicked. -/
def andThen (t : Turn σ) (rest : Turn σ → Turn σ) : Turn σ := if t.panicked then t else rest t

def submit (t : Turn σ) (token : Token) (op : IoOp) : Except Failure Unit × Turn σ :=
  let (result, driver) := t.reactor.driver.submit token op
  (result, { t with reactor := { t.reactor with driver } })

/-- Asks for operations to be canceled, in order. -/
def cancelAll (t : Turn σ) (tokens : List Token) : Turn σ :=
  { t with reactor := { t.reactor with driver := tokens.foldl .cancel t.reactor.driver } }

def cancel (t : Turn σ) (token : Token) : Turn σ := t.cancelAll [token]

def channel? (t : Turn σ) (key : SlotKey) : Option Channel := t.reactor.channels.get? key

def modifyChannel (t : Turn σ) (key : SlotKey) (f : Channel → Channel) : Turn σ :=
  { t with reactor := { t.reactor with channels := t.reactor.channels.modify key f } }

def putChannel (t : Turn σ) (key : SlotKey) (c : Channel) : Turn σ := t.modifyChannel key fun _ => c

def addChannel (t : Turn σ) (c : Channel) : SlotKey × Turn σ :=
  let (key, channels) := t.reactor.channels.alloc c
  (key, { t with reactor := { t.reactor with channels } })

def handle? (t : Turn σ) : Option ReactorHandle := t.shared.reactor? t.reactor.index

def modifyHandle (t : Turn σ) (f : ReactorHandle → ReactorHandle) : Turn σ :=
  { t with shared := t.shared.modifyReactor t.reactor.index f }

def count (t : Turn σ) (f : ReactorStats → ReactorStats) : Turn σ := t.modifyHandle fun r => r.count f

def submitTask (t : Turn σ) (index : Nat) (task : Task) : Except Failure Unit × Turn σ :=
  let (result, shared) := t.shared.submit t.reactor.thread index task
  (result, { t with shared })

def modifyLinks (t : Turn σ) (f : Links → Links) : Turn σ :=
  { t with shared := { t.shared with links := f t.shared.links } }

def modifyInvocations (t : Turn σ) (f : InvocationTable → InvocationTable) : Turn σ :=
  { t with shared := { t.shared with invocations := f t.shared.invocations } }

def shutdown (t : Turn σ) (descriptor : Descriptor) : Turn σ :=
  { t with host := t.host.shutdown descriptor }

def closeSocket (t : Turn σ) (descriptor : Descriptor) : Turn σ :=
  { t with host := t.host.close descriptor }

end Turn

end PartitionEngine
