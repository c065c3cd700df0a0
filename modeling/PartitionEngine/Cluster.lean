import PartitionEngine.Engine.Basic
import PartitionEngine.Io.PollDriver
import PartitionEngine.System.Transfer

/-!
# Clusters

Engines on one host, joined by its network.  What a reactor asks of its driver is
carried out by polling the files of the host, so the bytes that one engine sends
are those that another one receives.

Time stands still as long as something can be done without it.  When nothing can,
the clock goes to the next timer.
-/

namespace PartitionEngine

/-- What carries out the operations of one reactor. -/
structure Worker where
  driver : PollDriver Token := {}
  /-- The counter behind the reactor's wakeup signal. -/
  counter : Nat

/-- An engine of a cluster. -/
structure Member (σ : Type) where
  engine : Engine σ
  /-- The workers of its reactors, once it has been started. -/
  workers : List Worker := []

/-- Engines on one host. -/
structure Cluster (σ : Type) where
  host : Host
  members : List (Member σ) := []

namespace Worker

/-- Does what a reactor asks of its driver.  The wakeup signal is read from the
counter. -/
def obey (w : Worker) (host : Host) : DriverEvent → Worker × Host
  | .submitted { token, op } none =>
    let op := if token = .plain .wakeup then .read (some w.counter) 8 else op
    let (driver, host) := w.driver.submit Host.kernel token op host
    ({ w with driver }, host)
  | .submitted _ (some _) => (w, host)
  | .canceled token _ => ({ w with driver := w.driver.cancel token }, host)

/-- Does what a reactor asks for, after so many wakeup signals, as far as that is
possible without waiting.  Gives what came back. -/
def work (w : Worker) (host : Host) (events : List DriverEvent) (signals : Nat) :
    List (IoCompletion Token) × Worker × Host :=
  let (w, host) := events.foldl
    (fun ((w, host) : Worker × Host) event => w.obey host event) (w, host)
  let (_, driver, host) := w.driver.wait Host.kernel 1 0 (host.countUp (some w.counter) signals)
  let (done, driver) := driver.drain driver.ready.length
  (done, { w with driver }, host)

end Worker

namespace Member

variable {σ : Type}

def openWorkers (host : Host) : (count : Nat) → List Worker × Host
  | 0 => ([], host)
  | count + 1 =>
    let (counter, host) := host.add (.counter 0)
    let (workers, host) := openWorkers host count
    ({ counter } :: workers, host)

/-- Starts the engine.  Canceled operations come back from the workers. -/
def start (m : Member σ) (host : Host) : Except Failure (Host × Member σ) := do
  let (result, host, engine) := m.engine.start host fun _ => .ok { keepsCanceled := true }
  result
  let (workers, host) := openWorkers host engine.seats.length
  return (host, { engine, workers })

/-- Lets the worker of a reactor that sleeps do what it can, and the reactor go on
if anything came of it.  Tells whether the reactor went on. -/
def serve (m : Member σ) (host : Host) (index : Nat) : Bool × Host × Member σ :=
  match m.engine.seats[index]?, m.workers[index]?, m.engine.shared.reactor? index with
  | some { reactor, phase := .asleep }, some worker, some handle =>
    let (done, worker, host) :=
      worker.work host reactor.driver.log.reverse handle.queue.signal.pending
    let engine := m.engine.modifyDriver index (fun q => done.foldl .complete { q with log := [] })
      |>.modifyShared fun s => s.modifyReactor index fun r =>
        { r with queue := { r.queue with signal := r.queue.signal.drain.2 } }
    let workers := m.workers.set index worker
    if engine.wantsTurn index then
      let (host, engine) := engine.resume host index
      (true, host, { engine, workers })
    else (false, host, { engine, workers })
  | some { phase := .ended, .. }, some worker, _ =>
    (false, host, { m with workers := m.workers.set index { worker with driver := {} } })
  | _, _, _ => (false, host, m)

/-- Serves each reactor in order.  Tells whether any went on. -/
def serveAll (m : Member σ) (host : Host) : Bool × Host × Member σ :=
  (List.range m.engine.seats.length).foldl
    (fun ((moved, host, m) : Bool × Host × Member σ) index =>
      let (went, host, m) := m.serve host index
      (moved || went, host, m))
    (false, host, m)

end Member

namespace Cluster

variable {σ : Type}

/-! ## Members -/

def engine? (c : Cluster σ) (index : Nat) : Option (Engine σ) := (c.members[index]?).map Member.engine

/-- The address of an engine that has been started. -/
def address? (c : Cluster σ) (index : Nat) : Option Address :=
  (c.engine? index).bind fun e => e.shared.localAddress

def modifyEngine (c : Cluster σ) (index : Nat) (f : Engine σ → Engine σ) : Cluster σ :=
  { c with members := c.members.modify index fun m => { m with engine := f m.engine } }

def add (c : Cluster σ) (config : Config) (registry : Registry σ) : Except Failure (Cluster σ) := do
  let engine ← Engine.new c.host config registry
  return { c with members := c.members ++ [{ engine }] }

def start (c : Cluster σ) (index : Nat) : Except Failure (Cluster σ) :=
  match c.members[index]? with
  | none => .error .notStarted
  | some m => do
    let (host, m) ← m.start c.host
    return { host, members := c.members.set index m }

def launch (host : Host) (parts : List (Config × Registry σ)) : Except Failure (Cluster σ) := do
  let c ← parts.foldlM (fun c (config, registry) => c.add config registry) { host }
  (List.range parts.length).foldlM start c

/-! ## Running -/

/-- Serves the reactors of every member in order.  Tells whether any went on. -/
def serveMembers (host : Host) : List (Member σ) → Bool × Host × List (Member σ)
  | [] => (false, host, [])
  | m :: rest =>
    let (moved, host, m) := m.serveAll host
    let (later, host, rest) := serveMembers host rest
    (moved || later, host, m :: rest)

/-- Serves everyone until nothing can be done without time.  The first argument
bounds the rounds. -/
def settle : (bound : Nat) → Cluster σ → Cluster σ
  | 0, c => c
  | bound + 1, c =>
    match serveMembers c.host c.members with
    | (true, host, members) => settle bound { host, members }
    | (false, host, members) => { host, members }

/-- The rounds without time at most. -/
def maxRounds : Nat := 100000

/-- The clock reading the next timer is due at. -/
def nextDeadline? (c : Cluster σ) : Option Nat :=
  (c.members.flatMap fun m => m.workers.flatMap fun w => w.driver.timers.map Timer.deadline).min?

/-- Runs until the test holds or the clock would pass `limit`.  The first argument
bounds the times the clock moves. -/
def runUntil (settled : Cluster σ → Bool) (limit : Nat) : (bound : Nat) → Cluster σ → Cluster σ
  | 0, c => c
  | bound + 1, c =>
    let c := settle maxRounds c
    if settled c then c
    else match c.nextDeadline? with
      | none => c
      | some deadline =>
        if limit < deadline then c
        else runUntil settled limit bound
          { c with host := { c.host with clock := max c.host.clock deadline } }

/-- Runs until the test holds or so many milliseconds have passed.  Tells whether
it holds. -/
def await (c : Cluster σ) (settled : Cluster σ → Bool) (millis : Nat) : Bool × Cluster σ :=
  let c := c.runUntil settled (c.host.clock + millis * 1000000) maxRounds
  (settled c, c)

/-! ## Calls -/

/-- The result of a call to an engine, if it is there. -/
def result? (c : Cluster σ) (index : Nat) (future : FutureId) : Option Outcome :=
  ((c.engine? index).bind fun e => e.shared.invocations.result? future).map Prod.snd

def invoke (c : Cluster σ) (index : Nat) (r : Request) : Engine.Handed × Cluster σ :=
  match c.engine? index with
  | none => ((0, 0), c)
  | some e =>
    let (handed, e) := e.invoke r
    (handed, c.modifyEngine index fun _ => e)

def wait (c : Cluster σ) (index : Nat) (future : FutureId) (millis : Nat) :
    Option Outcome × Cluster σ :=
  let (_, c) := c.await (fun c => (c.result? index future).isSome) millis
  (c.result? index future, c)

/-- Shuts an engine down, and waits for its reactors to end.  Tells whether they
have. -/
def shutdown (c : Cluster σ) (index : Nat) (millis : Nat) : Bool × Cluster σ :=
  (c.modifyEngine index .shutdown).await
    (fun c => ((c.engine? index).map Engine.isTerminated).getD true) millis

end Cluster

end PartitionEngine
