import PartitionEngine.Reactor.Accepting
import PartitionEngine.Reactor.Tasks

/-!
# The loop

A reactor waits for its driver, handles a batch of completions, and runs every
task that is queued, over and over.  In blocking mode it sleeps if nothing is
left to do, after arming its queue so that the next task wakes it.  The loop ends
when the reactor has wound down or the driver fails.

`Turn.start` begins the loop and goes on until the reactor sleeps or ends, and
`Turn.wake` resumes one that sleeps.  Both go round with `Turn.proceed`.
-/

namespace PartitionEngine

/-- Where a reactor is in its loop. -/
inductive Phase where
  /-- It waits for its driver. -/
  | asleep
  /-- It has left the loop. -/
  | ended
  deriving DecidableEq

namespace Turn

variable {σ : Type}

/-- Handles a completion.  If its handler panics, that is the end of it, and the loop goes
on. -/
def onCompletion (t : Turn σ) (c : IoCompletion Token) : Turn σ :=
  let t := t.afresh
  let key := c.token.key
  match c.token.purpose? with
  | none => t
  | some .wakeup => t.onWakeup
  | some .accept => t.onAccept c.result c.remote
  | some .drainTimer => t.onDrainTimer c.result
  | some .recv => (t.onRecv key c.result c.received).andThen (·.releaseIfDone key)
  | some .send => (t.onSend key c.result).andThen (·.releaseIfDone key)
  | some .connect => (t.onConnect key c.token.attempt c.result).andThen (·.releaseIfDone key)
  | some .connectTimeout =>
    (t.onConnectTimeout key c.token.attempt c.result).andThen (·.releaseIfDone key)
  | some .retryTimer => (t.onRetryTimer key c.result).andThen (·.releaseIfDone key)

def processCompletions (t : Turn σ) : Turn σ :=
  let (batch, driver) := t.reactor.driver.drain t.config.completionBatch
  batch.foldl onCompletion { t with reactor := { t.reactor with driver } }

/-- Takes the oldest task off the queue of this reactor. -/
def popTask (t : Turn σ) : Option Task × Turn σ :=
  match t.handle? with
  | none => (none, t)
  | some r =>
    let (task, queue) := r.queue.pop
    (task, t.modifyHandle fun r => { r with queue })

/-- Runs the queued tasks.  The first argument bounds their number. -/
def runTasks : (bound : Nat) → Turn σ → Turn σ
  | 0, t => t
  | bound + 1, t =>
    match t.popTask with
    | (none, t) => t
    | (some task, t) =>
      runTasks bound ((t.count fun s => { s with tasks := s.tasks + 1 }).onTask task)

def queued (t : Turn σ) : Nat := (t.handle?.map fun r => r.queue.size).getD 0

/-- Arms the queue.  `false` if tasks are queued. -/
def arm (t : Turn σ) : Bool × Turn σ :=
  match t.handle? with
  | none => (true, t)
  | some r =>
    let (armed, queue) := r.queue.arm
    (armed, t.modifyHandle fun r => { r with queue })

def disarm (t : Turn σ) : Turn σ := t.modifyHandle fun r => { r with queue := r.queue.disarm }

def endWait (t : Turn σ) : Except Failure Unit × Turn σ :=
  let (result, driver) := t.reactor.driver.endWait
  (result, { t with reactor := { t.reactor with driver } })

/-- How a wait went. -/
inductive Wait where
  | awake
  | sleeping
  | failed

/-- Enters the driver.  In spin mode the reactor rests there until something is
ready; in blocking mode it looks whether there is anything to do, and sleeps if
not. -/
def enterWait (t : Turn σ) : Wait × Turn σ :=
  let idle := !t.reactor.driver.hasCompletions
  match t.config.scheduling with
  | .spin =>
    if idle then (.sleeping, t)
    else match t.endWait with
      | (.ok (), t) => (.awake, t)
      | (.error _, t) => (.failed, t)
  | .blocking =>
    match t.endWait with
    | (.error _, t) => (.failed, t)
    | (.ok (), t) =>
      if !idle ∨ t.queued ≠ 0 then (.awake, t)
      else if t.reactor.stopping ∧ t.reactor.quiescent then (.awake, t)
      else match t.arm with
        | (false, t) => (.awake, t)
        | (true, t) => (.sleeping, t)

def leaveWait (t : Turn σ) : Wait × Turn σ :=
  let (result, t) := t.endWait
  let t := match t.config.scheduling with
    | .spin => t
    | .blocking => t.disarm
  match result with
  | .ok () => (.awake, t)
  | .error _ => (.failed, t)

/-- What is done after each wait. -/
def work (t : Turn σ) : Turn σ :=
  let t := t.processCompletions
  runTasks t.queued t

/-- Goes on after a wait until the reactor sleeps or ends.  The first argument
bounds the rounds. -/
def proceed : (bound : Nat) → Wait → Turn σ → Phase × Turn σ
  | _, .sleeping, t => (.asleep, t)
  | _, .failed, t => (.ended, t)
  | 0, .awake, t => (.asleep, t)
  | bound + 1, .awake, t =>
    let t := t.work
    if t.reactor.isFinished then (.ended, t)
    else
      let (wait, t) := t.enterWait
      proceed bound wait t

/-- The rounds a reactor may go without a sleep. -/
def maxRounds : Nat := 1000000

def start (t : Turn σ) : Phase × Turn σ :=
  let t := t.modifyHandle fun r => { r with queue := r.queue.bindOwner t.reactor.thread }
  let (wait, t) := t.armWakeup.armAccept.enterWait
  proceed maxRounds wait t

def wake (t : Turn σ) : Phase × Turn σ :=
  let (wait, t) := t.leaveWait
  proceed maxRounds wait t

/-! ## The end -/

/-- Answers a task that is not run any more. -/
def refuse (t : Turn σ) : Task → Turn σ
  | .forward f replyTo =>
    { t with shared := t.shared.refuseForward t.reactor.thread t.reactor.index f replyTo }
  | _ => t

def refuseQueued (t : Turn σ) : Turn σ :=
  let left := (t.handle?.map fun r => r.queue.tasks.toList).getD []
  let t := t.modifyHandle fun r => { r with queue := { r.queue with tasks := {} } }
  left.foldl refuse t

def closeSocketOf (t : Turn σ) (key : SlotKey) : Turn σ :=
  match t.channel? key with
  | some c => t.closeSocket c.descriptor
  | none => t

/-- Lets go of sockets and tasks after the loop, and fails the invocations that
go through this reactor. -/
def finish (t : Turn σ) : Turn σ :=
  let r := t.reactor
  let t := t.closeSocket r.listener
  let t := r.channels.keys.foldl closeSocketOf t
  let t := { t with reactor := { t.reactor with channels := {}, listener := none } }
  let t := (t.modifyHandle ReactorHandle.markDead).refuseQueued
  let cause := if t.shared.shuttingDown then .shuttingDown else .reactorUnavailable r.index
  let t := t.modifyInvocations fun table => (table.failReactor r.index cause).2
  { t with shared := { t.shared with live := t.shared.live - 1 } }

end Turn

end PartitionEngine
