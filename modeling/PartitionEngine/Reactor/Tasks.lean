import PartitionEngine.Reactor.Connecting

/-!
# Running tasks

What a reactor does for the tasks in its queue.  The task to stop closes every
channel, cancels what is under way, and sets a deadline.  From then on tasks are
rejected, and the invocations they carry fail.
-/

namespace PartitionEngine

namespace Turn

variable {σ : Type}

/-- Runs a request and completes its invocation, if it has one.  An operation
without an answer completes with an empty one. -/
def runLocal (t : Turn σ) (r : Request) (correlationId : Option UInt64) : Turn σ :=
  let (result, dispatcher) := t.reactor.dispatcher.dispatch r.opcode r.partition
    (correlationId.getD 0) r.payload
  let t := { t with reactor := { t.reactor with dispatcher } }
  match correlationId with
  | none => t
  | some id =>
    let outcome : Outcome := match result with
      | some (.ok bytes) => .ok bytes
      | some (.error record) => .error (.remote record)
      | none => .ok []
    t.modifyInvocations fun table => (table.complete t.reactor.localAddress id outcome).2

/-- Runs a request for another reactor, and hands it the response. -/
def runForwarded (t : Turn σ) (f : Frame) (replyTo : ChannelKey) : Turn σ :=
  match t.execute f with
  | (none, t) => t
  | (some bytes, t) =>
    if replyTo.reactor = t.reactor.index then t.write replyTo.key bytes
    else (t.submitTask replyTo.reactor (.reply replyTo bytes)).2

/-- Winds the reactor down, unless it does so already. -/
def beginStop (t : Turn σ) : Turn σ :=
  if t.reactor.stopping then t
  else
    let t := { t with reactor := { t.reactor with stopping := true } }
    let t := t.reactor.channels.keys.foldl (fun t key => t.close key .shuttingDown) t
    let t := if t.reactor.acceptArmed then t.cancel (.plain .accept) else t
    let t := if t.reactor.wakeArmed then t.cancel (.plain .wakeup) else t
    match t.submit (.plain .drainTimer) (.timeout t.config.terminationTimeout) with
    | (.ok (), t) => t
    | (.error _, t) => { t with reactor := { t.reactor with drainExpired := true } }

/-- The deadline for winding down has come back. -/
def onDrainTimer (t : Turn σ) (result : Int) : Turn σ :=
  if result = 0 ∧ !t.reactor.quiescent then
    { t with reactor := { t.reactor with drainExpired := true } }
  else t

/-- Fails the invocation of a task that comes too late. -/
def reject (t : Turn σ) : Task → Turn σ
  | .execute _ (some id) => t.modifyInvocations fun table =>
      (table.fail t.reactor.localAddress id .shuttingDown).2
  | .write l _ (some id) => t.modifyInvocations fun table =>
      (table.fail l.peer id .shuttingDown).2
  | _ => t

/-- Runs a task.  Nothing comes after the part of it that may panic.  A first attempt to
connect cannot, since the pause after it is the backoff itself, and a write is the last
thing a task does. -/
def onTask (t : Turn σ) (task : Task) : Turn σ :=
  if t.reactor.stopping then t.reject task
  else match task with
    | .execute r correlationId => t.runLocal r correlationId
    | .connect l => (t.outboundChannel l).2
    | .write l bytes _ =>
      match t.outboundChannel l with
      | (some key, t) => t.write key bytes
      | (none, t) => t
    | .forward f replyTo => t.runForwarded f replyTo
    | .reply channel bytes => t.write channel.key bytes
    | .stop => t.beginStop

end Turn

end PartitionEngine
