import PartitionEngine.Reactor.Loop
import PartitionEngine.System.ListenGroup

/-!
# Engines

An engine has one reactor for each listener.  A call goes to the reactor that
serves its partition: to be run there if this engine owns the partition, and to
be sent from there to the owner otherwise.  A call is rejected at once, or it
draws a correlation id and hands over exactly one task that carries it.

`Engine.start` opens the listeners and starts the reactors; if it fails it leaves
nothing behind.  `Engine.shutdown` fails what is pending and tells the reactors to
stop.
-/

namespace PartitionEngine

/-- A reactor and where it is in its loop. -/
structure Seat (σ : Type) where
  reactor : Reactor σ
  phase : Phase

/-- An engine with its reactors. -/
structure Engine (σ : Type) where
  shared : Shared σ
  seats : List (Seat σ) := []

/-- The thread of whoever calls the engine. -/
def callerThread : ThreadId := 0

namespace Engine

variable {σ : Type}

/-! ## Making and starting -/

def newHandles (host : Host) (mode : Scheduling) (indexes : List Nat) :
    Except Failure (List ReactorHandle) :=
  indexes.mapM fun i => (Signal.create host .counter).map fun signal => .new i signal mode

def new (host : Host) (config : Config) (registry : Registry σ) : Except Failure (Engine σ) := do
  config.validate
  registry.requireAll Opcode.all
  let reactors ← newHandles host config.scheduling (List.range config.reactorCount)
  return { shared := { config, registry, reactors, links := { reactorCount := config.reactorCount } } }

/-- The failure to open the listeners of a configuration. -/
def bindFailure (c : Config) (e : IoFailure) : Failure :=
  .bind (toString c.reactorCount ++ " ports in " ++ toString c.portStart.toNat ++ "..="
    ++ toString c.portEnd.toNat ++ " on " ++ c.bindHost.text ++ ": " ++ e.text)

/-- The reactors of an engine, each with a driver and a listener. -/
def makeReactors (s : Shared σ) (localAddress : Address)
    (parts : List (CompletionQueue × Nat)) : List (Reactor σ) :=
  parts.mapIdx fun index (driver, listener) =>
    { index, driver, listener := some listener, localAddress,
      dispatcher := .new s.registry s.config.opPoolCapacity }

/-- What is left of a turn after the reactor sleeps or has ended. -/
def settleTurn {σ : Type} : Phase × Turn σ → Phase × Turn σ
  | (.ended, t) => (.ended, t.finish)
  | (.asleep, t) => (.asleep, t)

/-- Runs each reactor until it sleeps for the first time. -/
def startReactors (host : Host) (s : Shared σ) :
    List (Reactor σ) → Host × Shared σ × List (Seat σ)
  | [] => (host, s, [])
  | reactor :: rest =>
    let (phase, t) := settleTurn (Turn.start { host, shared := s, reactor })
    let (host, s, seats) := startReactors t.host t.shared rest
    (host, s, { reactor := t.reactor, phase } :: seats)

/-- Starts the reactors on the listeners and drivers they get. -/
def launch (s : Shared σ) (host : Host) (group : ListenGroup) (drivers : List CompletionQueue) :
    Host × Engine σ :=
  let address := Address.ofIp s.config.bindHost (UInt16.ofNat group.base)
  let s := { s with started := true, localAddress := some address, live := drivers.length }
  let (host, shared, seats) :=
    startReactors host s (makeReactors s address (drivers.zip group.descriptors))
  (host, { shared, seats })

/-- Opens the listeners, and makes a driver for each.  If a driver cannot be made, the
listeners are closed. -/
def prepare (c : Config) (host : Host) (makeDriver : Nat → Except Failure CompletionQueue) :
    Except Failure (ListenGroup × List CompletionQueue) × Host :=
  match host.listenGroup c.bindHost c.portStart c.portEnd c.reactorCount with
  | (.error failure, host) => (.error (bindFailure c failure), host)
  | (.ok group, host) =>
    match (List.range c.reactorCount).mapM makeDriver with
    | .error failure => (.error failure, host.closeAll group.descriptors)
    | .ok drivers => (.ok (group, drivers), host)

/-- Opens the listeners, makes the drivers and starts the reactors.  The engine counts as
started while that is prepared, and no longer if it fails. -/
def start (e : Engine σ) (host : Host) (makeDriver : Nat → Except Failure CompletionQueue) :
    Except Failure Unit × Host × Engine σ :=
  if e.shared.shuttingDown then (.error .shuttingDown, host, e)
  else if e.shared.started then (.error (.config "engine already started"), host, e)
  else
    let s := { e.shared with started := true }
    match prepare s.config host makeDriver with
    | (.error failure, host) => (.error failure, host, { e with shared := { s with started := false } })
    | (.ok (group, drivers), host) => (.ok (), launch s host group drivers)

/-! ## Calls -/

/-- Why a call is rejected, if it is; else the local address, the owner and the
reactor. -/
def route (s : Shared σ) (r : Request) : Except Failure (Address × Address × Nat) :=
  if s.shuttingDown then .error .shuttingDown
  else match s.localAddress with
    | none => .error .notStarted
    | some localAddress =>
      if r.partition < 0 then .error (.invalidPartition r.partition)
      else match s.ownership.owner? r.partition with
        | none => .error (.noOwner r.partition)
        | some owner =>
          let index := s.reactorOf r.partition
          if !s.isAlive index then .error (.reactorUnavailable index)
          else if s.config.maxMessageSize < r.payload.length then
            .error (.protocol ("payload of " ++ toString r.payload.length
              ++ " bytes exceeds max message size " ++ toString s.config.maxMessageSize))
          else .ok (localAddress, owner, index)

/-- The id and the number of the future of a call. -/
abbrev Handed := UInt64 × FutureId

/-- Keeps the future of a call that is done. -/
def handOut (s : Shared σ) (f : InvocationFuture) : Handed × Shared σ :=
  let (future, invocations) := s.invocations.addFuture f
  ((f.correlationId, future), { s with invocations })

def reject (s : Shared σ) (e : Failure) : Handed × Shared σ := handOut s (.failed e)

/-- Hands over the task of a call that nobody waits for.  As for `call`, nothing has changed
since `route`. -/
def send (s : Shared σ) (peer : Address) (index : Nat) (task : UInt64 → Task) : Handed × Shared σ :=
  let (id, invocations) := s.invocations.nextId peer
  match { s with invocations }.submit callerThread index (task id) with
  | (.ok (), s) => handOut s (.ready id (.ok []))
  | (.error e, s) => reject s e

/-- Hands over the task of a call that somebody waits for.  Calls are made one at a time, and
no reactor ends while one is made.  So what `route` has found still holds when the
invocation is registered, and is not looked at again. -/
def call (s : Shared σ) (peer : Address) (partition : Partition) (index : Nat)
    (task : UInt64 → Task) : Handed × Shared σ :=
  let (id, future, invocations) := s.invocations.register peer partition index
  match { s with invocations }.submit callerThread index (task id) with
  | (.ok (), s) => ((id, future), s)
  | (.error e, s) =>
    ((id, future), { s with invocations := (s.invocations.fail peer id e).2 })

def invokeLocal (s : Shared σ) (peer : Address) (index : Nat) (r : Request) : Handed × Shared σ :=
  if isFireAndForget r.opcode then send s peer index fun _ => .execute r none
  else call s peer r.partition index fun id => .execute r (some id)

def invokeRemote (s : Shared σ) (peer : Address) (index : Nat) (r : Request) : Handed × Shared σ :=
  match s.links.link peer index with
  | (.error e, links) => reject { s with links } e
  | (.ok l, links) =>
    match { s with links }.acquire callerThread l with
    | (.error e, s) => reject s e
    | (.ok (), s) =>
      if isFireAndForget r.opcode then
        send s peer index fun id => .write l (s.encodeRequest id r) none
      else call s peer r.partition index fun id => .write l (s.encodeRequest id r) (some id)

/-- Makes a call.  Whatever comes of it arrives in its future. -/
def invoke (e : Engine σ) (r : Request) : Handed × Engine σ :=
  let { shared, seats } := e
  let (handed, shared) := match route shared r with
    | .error failure => reject shared failure
    | .ok (localAddress, owner, index) =>
      if owner = localAddress then invokeLocal shared owner index r
      else invokeRemote shared owner index r
  (handed, { shared, seats })

/-! ## The end -/

/-- Fails what is pending and tells the reactors to stop, unless that was done. -/
def shutdown (e : Engine σ) : Engine σ :=
  let s := e.shared
  if s.shuttingDown then e
  else { e with shared := { s with
    shuttingDown := true
    invocations := (s.invocations.failAll .shuttingDown).2
    reactors := s.reactors.map fun r => r.stop callerThread } }

def isTerminated (e : Engine σ) : Bool := e.shared.live = 0

def modifyShared (e : Engine σ) (f : Shared σ → Shared σ) : Engine σ :=
  { e with shared := f e.shared }

def modifyDriver (e : Engine σ) (index : Nat) (f : CompletionQueue → CompletionQueue) : Engine σ :=
  { e with seats := e.seats.modify index fun seat =>
      { seat with reactor := { seat.reactor with driver := f seat.reactor.driver } } }

def driver? (e : Engine σ) (index : Nat) : Option CompletionQueue :=
  (e.seats[index]?).map fun seat => seat.reactor.driver

/-! ## Taking turns -/

/-- Lets a reactor that sleeps go on until it sleeps again or ends. -/
def resume (e : Engine σ) (host : Host) (index : Nat) : Host × Engine σ :=
  match e.seats[index]? with
  | some { reactor, phase := .asleep } =>
    let (phase, t) := settleTurn (Turn.wake { host, shared := e.shared, reactor })
    (t.host, { shared := t.shared, seats := e.seats.set index { reactor := t.reactor, phase } })
  | _ => (host, e)

/-- Whether the read on a reactor's wakeup signal can complete. -/
def canWake (e : Engine σ) (index : Nat) : Bool :=
  match e.seats[index]?, e.shared.reactor? index with
  | some { reactor, phase := .asleep }, some r =>
    (reactor.driver.pending? (.plain .wakeup)).isSome && r.queue.signal.isPending
  | _, _ => false

/-- Completes the read on a reactor's wakeup signal, if it can complete. -/
def deliverWakeup (e : Engine σ) (index : Nat) : Engine σ :=
  if e.canWake index then
    (e.modifyDriver index fun q => q.complete { token := .plain .wakeup, result := 8 })
      |>.modifyShared fun s => s.modifyReactor index fun r =>
        { r with queue := { r.queue with signal := r.queue.signal.drain.2 } }
  else e

/-- Whether a sleeping reactor has a reason to go on. -/
def wantsTurn (e : Engine σ) (index : Nat) : Bool :=
  match e.seats[index]? with
  | some { reactor, phase := .asleep } =>
    reactor.driver.hasCompletions || reactor.driver.waitFault.isSome
      || (e.shared.config.scheduling = .spin && ((e.shared.reactor? index).map
          fun r => !r.queue.isEmpty).getD false)
  | _ => false

/-- Gives each reactor, in order, one turn if it wants one.  Tells whether any
did. -/
def round (e : Engine σ) (host : Host) : Bool × Host × Engine σ :=
  (List.range e.seats.length).foldl
    (fun (moved, host, e) index =>
      let e := e.deliverWakeup index
      if e.wantsTurn index then
        let (host, e) := e.resume host index
        (true, host, e)
      else (moved, host, e))
    (false, host, e)

/-- Gives rounds of turns until no reactor wants one.  The first argument bounds
the rounds. -/
def settle : (bound : Nat) → Engine σ → Host → Host × Engine σ
  | 0, e, host => (host, e)
  | bound + 1, e, host =>
    match e.round host with
    | (true, host, e) => settle bound e host
    | (false, host, e) => (host, e)

/-- The rounds given at most before the engine counts as settled. -/
def maxRounds : Nat := 1000000

/-- Lets the reactors go on until none has anything to do. -/
def pump (e : Engine σ) (host : Host) : Host × Engine σ := settle maxRounds e host

end Engine

end PartitionEngine
