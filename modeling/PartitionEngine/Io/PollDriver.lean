import PartitionEngine.Failure
import PartitionEngine.Io.Kernel

/-!
# Completions by polling

A completion driver for systems that only tell when a descriptor is ready.  An
operation is attempted at once.  If it would have to wait, it is armed: its
descriptor is polled, and the operation is attempted again when that is ready.
Timers bound the polls.

An operation is in one of three places: pending, among the timers, or ready.
-/

namespace PartitionEngine

/-- A list with its last entry moved to the front. -/
def lastToFront {α : Type} (l : List α) : List α := l.getLast?.toList ++ l.dropLast

/-- The list without one entry.  The last entry takes its place. -/
def swapRemove {α : Type} (l : List α) (index : Nat) : List α :=
  l.take index ++ lastToFront (l.drop (index + 1))

/-- An operation that has not come back. -/
structure PendingOp (τ : Type) where
  token : τ
  op : IoOp
  armed : Bool := false
  connecting : Bool := false

/-- A timer. -/
structure Timer (τ : Type) where
  /-- The clock reading it is due at. -/
  deadline : Nat
  token : τ

/-- A completion driver that polls. -/
structure PollDriver (τ : Type) where
  pending : List (PendingOp τ) := []
  timers : List (Timer τ) := []
  /-- What came back and was not taken, the oldest first. -/
  ready : List (IoCompletion τ) := []

namespace PollDriver

variable {τ κ : Type}

def name : String := "poll"

def inFlight (d : PollDriver τ) : Nat := d.pending.length + d.timers.length + d.ready.length

def hasCompletions (d : PollDriver τ) : Bool := !d.ready.isEmpty

/-- Takes at most `limit` completions, the oldest first. -/
def drain (d : PollDriver τ) (limit : Nat) : List (IoCompletion τ) × PollDriver τ :=
  (d.ready.take limit, { d with ready := d.ready.drop limit })

/-- Takes an operation.  The deadline of a timer is one the clock can show: with a longer
span the driver panics and keeps nothing. -/
def submit (k : Kernel κ) (d : PollDriver τ) (token : τ) (op : IoOp) (s : κ) : PollDriver τ × κ :=
  match op with
  | .timeout after =>
    let (now, s) := k.now s
    ({ d with timers := d.timers ++ [{ deadline := now + after * 1000000, token }] }, s)
  | op => ({ d with pending := d.pending ++ [{ token, op }] }, s)

/-- Makes the first pending operation with a token come back with an error, or
else the first such timer. -/
def cancel [DecidableEq τ] (d : PollDriver τ) (token : τ) : PollDriver τ :=
  let canceled : IoCompletion τ := { token, result := -Errno.canceled }
  match d.pending.findIdx? fun p => p.token = token with
  | some i => { d with pending := swapRemove d.pending i, ready := d.ready ++ [canceled] }
  | none =>
    match d.timers.findIdx? fun t => t.token = token with
    | some i => { d with timers := swapRemove d.timers i, ready := d.ready ++ [canceled] }
    | none => d

/-! ## Progress -/

/-- What becomes of a pending operation that is attempted. -/
def tryOp (k : Kernel κ) (p : PendingOp τ) (s : κ) : Except (IoCompletion τ) (PendingOp τ) × κ :=
  match k.attempt p.op p.connecting s with
  | (.done r, s) => (.error { r with token := p.token }, s)
  | (.blocked, s) => (.ok { p with armed := true }, s)
  | (.inProgress, s) => (.ok { p with armed := true, connecting := true }, s)
  | (.interrupted, s) => (.ok p, s)

theorem length_lastToFront {α : Type} (l : List α) : (lastToFront l).length = l.length := by
  cases l with
  | nil => rfl
  | cons a l =>
    rw [lastToFront, List.getLast?_eq_some_getLast (List.cons_ne_nil a l)]
    simp

/-- Attempts every operation that is not armed once, from the front on.  When one
comes back, the last one takes its place and is next.  Gives those that stay
pending, and what came back. -/
def progressOps (k : Kernel κ) : (stay todo : List (PendingOp τ)) → List (IoCompletion τ) → κ →
    List (PendingOp τ) × List (IoCompletion τ) × κ
  | stay, [], ready, s => (stay, ready, s)
  | stay, p :: todo, ready, s =>
    if p.armed then progressOps k (stay ++ [p]) todo ready s
    else match tryOp k p s with
      | (.ok p, s) => progressOps k (stay ++ [p]) todo ready s
      | (.error c, s) => progressOps k stay (lastToFront todo) (ready ++ [c]) s
termination_by _ todo => todo.length
decreasing_by all_goals simp [length_lastToFront]

/-- Attempts every operation that is not armed once. -/
def progress (k : Kernel κ) (d : PollDriver τ) (s : κ) : PollDriver τ × κ :=
  let (pending, ready, s) := progressOps k [] d.pending d.ready s
  ({ d with pending, ready }, s)

def fireTimers (d : PollDriver τ) (now : Nat) : PollDriver τ :=
  let (due, later) := d.timers.partition fun t => t.deadline ≤ now
  { d with timers := later, ready := d.ready ++ due.map fun t => { token := t.token, result := 0 } }

/-! ## Waiting -/

/-- The longest time a poll can wait, in milliseconds. -/
def maxTimeout : Nat := UInt32.size / 2 - 1

/-- The milliseconds until the next timer is due, rounded up.  `none` without
timers. -/
def nextTimeout (d : PollDriver τ) (now : Nat) : Option Nat :=
  (d.timers.map Timer.deadline).min?.map fun deadline =>
    min ((deadline - now + 999999) / 1000000) maxTimeout

def anyArmed (d : PollDriver τ) : Bool := d.pending.any PendingOp.armed

/-- Takes the mark off the armed operations whose descriptors are ready. -/
def disarm : List (PendingOp τ) → (ready : List Bool) → List (PendingOp τ)
  | [], _ => []
  | p :: ps, ready =>
    if p.armed then
      match ready with
      | r :: ready => { p with armed := !r } :: disarm ps ready
      | [] => p :: ps
    else p :: disarm ps ready

/-- Polls the descriptors of the armed operations.  An interruption is no
failure. -/
def pollOnce (k : Kernel κ) (d : PollDriver τ) (limit : Option Nat) (s : κ) :
    Except Failure Unit × PollDriver τ × κ :=
  let interests := (d.pending.filter PendingOp.armed).map fun p => p.op.interest
  match k.poll interests limit s with
  | (.ok ready, s) => (.ok (), { d with pending := disarm d.pending ready }, s)
  | (.error errno, s) =>
    (if errno = Errno.interrupted then .ok () else .error (.driver errno), d, s)

/-- Attempts what can be attempted, and fires the timers that are due. -/
def advance (k : Kernel κ) (d : PollDriver τ) (s : κ) : PollDriver τ × κ :=
  let (d, s) := d.progress k s
  let (now, s) := k.now s
  (d.fireTimers now, s)

/-- Whether a wait is over: enough is ready, and at least one poll was made if
nothing had to be. -/
def isEnough (d : PollDriver τ) (minimum : Nat) (polled : Bool) : Bool :=
  decide (minimum ≤ d.ready.length) && (decide (0 < minimum) || polled)

/-- How long a poll of a wait may take.  A wait for nothing does not sleep. -/
def pollLimit (k : Kernel κ) (d : PollDriver τ) (minimum : Nat) (s : κ) : Option Nat × κ :=
  if minimum = 0 then (some 0, s)
  else
    let (now, s) := k.now s
    (d.nextTimeout now, s)

/-- Waits until at least `minimum` operations are ready, or nothing is left that
could become so.  Gives the number that are ready.  The first argument bounds the
polls; `none` stands for a wait that goes on beyond it. -/
def waitPolls (k : Kernel κ) (minimum : Nat) : (bound : Nat) → (polled : Bool) → PollDriver τ → κ →
    Option (Except Failure Nat) × PollDriver τ × κ
  | bound, polled, d, s =>
    let (d, s) := d.advance k s
    if d.isEnough minimum polled then (some (.ok d.ready.length), d, s)
    else
      let (limit, s) := d.pollLimit k minimum s
      if limit.isNone && !d.anyArmed then (some (.ok d.ready.length), d, s)
      else match bound with
        | 0 => (none, d, s)
        | bound + 1 =>
          match d.pollOnce k limit s with
          | (.ok (), d, s) => waitPolls k minimum bound true d s
          | (.error e, d, s) => (some (.error e), d, s)

/-- Waits until at least `minimum` operations are ready, or nothing is left that
could become so. -/
def wait (k : Kernel κ) (bound : Nat) (d : PollDriver τ) (minimum : Nat) (s : κ) :
    Option (Except Failure Nat) × PollDriver τ × κ :=
  waitPolls k minimum bound false d s

end PollDriver

end PartitionEngine
