import PartitionEngine.Engine.Basic

/-!
# Rehearsals

An engine whose drivers are in the hands of a script.  The script decides what
comes of each operation and when, so every order of events can be played.  After
a step of the script the reactors go on until none has anything to do.

What a step did is read off the logs of the drivers and off the futures.
-/

namespace PartitionEngine

/-- What the script lets come of an operation. -/
inductive Reply where
  /-- A count, 0, or the negative of an error number. -/
  | result (n : Int)
  | received (bytes : Bytes)
  | everything
  | connection
  /-- A socket is accepted whose other side cannot be told. -/
  | stranger

/-- What became of an attempt to complete an operation. -/
inductive Delivery where
  /-- The operation was under way. -/
  | delivered
  /-- It was not, and came back all the same. -/
  | forced
  /-- It was not, and nothing happened. -/
  | notPending

/-- What the host of a rehearsal has to have and does not. -/
inductive Missing where
  /-- A network over which a connection can be made. -/
  | network

/-- An engine in the hands of a script. -/
structure Rehearsal (σ : Type) where
  host : Host
  engine : Engine σ
  /-- The drivers the engine gets when it is started. -/
  drivers : List CompletionQueue
  /-- The invocations at the end of the last step. -/
  seen : InvocationTable := {}
  /-- The reactors that had ended at the end of the last step. -/
  seenEnded : List Nat := []

/-- What a step did. -/
structure Observation where
  /-- What each reactor asked of its driver, in order. -/
  events : List (Nat × List DriverEvent)
  ended : List Nat
  /-- The futures that were completed, with their results. -/
  done : List (FutureId × Outcome)
  outstanding : Nat

namespace Rehearsal

variable {σ : Type}

/-- The settings a rehearsal starts from: one reactor on a range of its own. -/
def baseConfig (host : Host) : Config :=
  { Config.default host with reactorCount := 1, portStart := 23000, portEnd := 23999 }

/-- A rehearsal of an engine that has not been started. -/
def new (host : Host) (config : Config) (registry : Registry σ) (autosend : Option Nat) :
    Except Failure (Rehearsal σ) :=
  (Engine.new host config registry).map fun engine =>
    { host, engine, drivers := List.replicate config.reactorCount { autosend } }

def modifyEngine (p : Rehearsal σ) (f : Engine σ → Engine σ) : Rehearsal σ :=
  { p with engine := f p.engine }

def limitDescriptors (p : Rehearsal σ) (limit : Option Nat) : Rehearsal σ :=
  { p with host := { p.host with descriptorLimit := limit } }

/-- Starts the engine while some ports are taken, given by their distance from the
first one.  The driver of one reactor may fail to be made. -/
def start (p : Rehearsal σ) (taken : List Nat) (fault : Option (Nat × Int)) :
    Except Failure Unit × Rehearsal σ :=
  let c := p.engine.shared.config
  let makeDriver := fun index =>
    match fault with
    | some (i, errno) =>
      if i = index then .error (.driver errno) else .ok (p.drivers.getD index {})
    | none => .ok (p.drivers.getD index {})
  let endpoint := fun offset => Endpoint.ofIp c.bindHost (UInt16.ofNat (c.portStart.toNat + offset))
  let host := { p.host with taken := taken.map fun offset => (endpoint offset, Errno.addressInUse) }
  let (result, host, engine) := p.engine.start host makeDriver
  (result, { p with engine, host := { host with taken := [] } })

/-- How far the engine's port is from the first one of its range. -/
def portOffset (p : Rehearsal σ) : Nat :=
  (p.engine.shared.localAddress.map fun a => a.port.toNat - p.engine.shared.config.portStart.toNat).getD 0

/-- Changes the driver of a reactor, or the one it will get. -/
def modifyDriver (p : Rehearsal σ) (index : Nat) (f : CompletionQueue → CompletionQueue) :
    Rehearsal σ :=
  { p with engine := p.engine.modifyDriver index f, drivers := p.drivers.modify index f }

def failWait (p : Rehearsal σ) (index after : Nat) (errno : Int) : Rehearsal σ :=
  p.modifyDriver index fun q => { q with waitFault := some (after, errno) }

def failSubmit (p : Rehearsal σ) (index : Nat) (kind : IoKind) (errno : Int) : Rehearsal σ :=
  p.modifyDriver index fun q =>
    { q with refusals := (kind, errno) :: q.refusals.filter fun r => r.1 ≠ kind }

def keepCanceled (p : Rehearsal σ) (index : Nat) (keep : Bool) : Rehearsal σ :=
  p.modifyDriver index fun q => { q with keepsCanceled := keep }

/-- The bytes an operation under way was to send. -/
def offered (q : CompletionQueue) (token : Token) : Nat :=
  match q.pending? token with
  | some { op := .send _ bytes, .. } => bytes.length
  | _ => 0

/-- What the reactor is told of a reply.  A live connection needs a network. -/
def completionOf (host : Host) (q : CompletionQueue) (token : Token) :
    Reply → Except Missing (IoCompletion Token × Host)
  | .result n => .ok ({ token, result := n }, host)
  | .received bytes => .ok ({ token, result := bytes.length, received := bytes }, host)
  | .everything => .ok ({ token, result := offered q token }, host)
  | .stranger =>
    let (socket, host) := host.add .socket
    .ok ({ token, result := socket }, host)
  | .connection =>
    match host.unreachable with
    | some _ => .error .network
    | none =>
      let remote := Endpoint.ofIp .loopback (UInt16.ofNat host.nextDescriptor)
      let (socket, host) := host.add .socket
      .ok ({ token, result := socket, remote := some remote }, host)

def complete (p : Rehearsal σ) (index : Nat) (token : Token) (reply : Reply) (force : Bool) :
    Except Missing (Delivery × Rehearsal σ) :=
  let q := (p.engine.driver? index).getD {}
  match completionOf p.host q token reply with
  | .error missing => .error missing
  | .ok (c, host) =>
    let p' := { p with host }
    if (q.pending? token).isSome then
      .ok (.delivered, p'.modifyEngine fun e => e.modifyDriver index fun q => q.complete c)
    else if force then
      .ok (.forced, p'.modifyEngine fun e => e.modifyDriver index fun q => q.finish c)
    else .ok (.notPending, p)

def invoke (p : Rehearsal σ) (r : Request) : Engine.Handed × Rehearsal σ :=
  let (handed, engine) := p.engine.invoke r
  (handed, { p with engine })

def modifyOwnership (p : Rehearsal σ) (f : Ownership → Ownership) : Rehearsal σ :=
  p.modifyEngine fun e => e.modifyShared fun s => { s with ownership := f s.ownership }

def shutdown (p : Rehearsal σ) : Rehearsal σ := p.modifyEngine .shutdown

/-- Lets the reactors go on until none has anything to do. -/
def pump (p : Rehearsal σ) : Rehearsal σ :=
  let (host, engine) := p.engine.pump p.host
  { p with host, engine }

/-- The operations of a reactor that are under way. -/
def pending (p : Rehearsal σ) (index : Nat) : List Submission :=
  ((p.engine.driver? index).map CompletionQueue.pending).getD []

def endedReactors (e : Engine σ) : List Nat :=
  (List.range e.seats.length).filter fun i =>
    match e.seats[i]? with
    | some seat => seat.phase = .ended
    | none => false

/-- Tells what happened since the last observation. -/
def observe (p : Rehearsal σ) : Observation × Rehearsal σ :=
  let invocations := p.engine.shared.invocations
  let ended := endedReactors p.engine
  let events := (p.engine.seats.mapIdx fun i seat => (i, seat.reactor.driver.log.reverse)).filter
    fun e => !e.2.isEmpty
  let observation := {
    events
    ended := ended.filter fun i => i ∉ p.seenEnded
    done := p.seen.doneSince invocations
    outstanding := invocations.outstanding }
  let seats := p.engine.seats.map fun seat =>
    { seat with reactor := { seat.reactor with driver := { seat.reactor.driver with log := [] } } }
  (observation, { p with
    engine := { p.engine with seats }, seen := invocations, seenEnded := ended })

end Rehearsal

end PartitionEngine
