import PartitionEngine.Failure
import PartitionEngine.Io.Operation
import PartitionEngine.Io.Token

/-!
# Completion queues

A completion driver as the reactor that owns it sees it.  What is submitted is
pending until whoever carries out the operations completes it.  Then it is
ready, and the reactor takes it.  A pending operation can be canceled: it is
ready then, with an error.

A queue can be told to refuse submissions, to fail a wait, or to leave canceled
operations pending, and it keeps a log of what the reactor asked for.
-/

namespace PartitionEngine

/-- An operation with its name. -/
structure Submission where
  token : Token
  op : IoOp

/-- What a reactor asked of its driver. -/
inductive DriverEvent where
  /-- An operation was submitted, and refused if there is an error. -/
  | submitted (submission : Submission) (refusal : Option Int)
  /-- An operation was to be canceled. -/
  | canceled (token : Token) (found : Bool)

/-- A completion driver. -/
structure CompletionQueue where
  /-- The operations under way, in the order of their submission. -/
  pending : List Submission := []
  /-- What came back and was not taken. -/
  ready : List (IoCompletion Token) := []
  /-- For a kind of operation, the error the next submission ends in. -/
  refusals : List (IoKind × Int) := []
  /-- The waits that still succeed, and the error the next one after them ends in. -/
  waitFault : Option (Nat × Int) := none
  keepsCanceled : Bool := false
  /-- The bytes a send takes at once, if it does. -/
  autosend : Option Nat := none
  /-- What was asked for, the last first. -/
  log : List DriverEvent := []

namespace CompletionQueue

def hasCompletions (q : CompletionQueue) : Bool := !q.ready.isEmpty

def inFlight (q : CompletionQueue) : Nat := q.pending.length + q.ready.length

def note (q : CompletionQueue) (e : DriverEvent) : CompletionQueue := { q with log := e :: q.log }

def finish (q : CompletionQueue) (c : IoCompletion Token) : CompletionQueue :=
  { q with ready := q.ready ++ [c] }

/-- The error the next submission of a kind ends in. -/
def refusal? (q : CompletionQueue) (kind : IoKind) : Option Int :=
  (q.refusals.find? fun r => r.1 = kind).map Prod.snd

def submit (q : CompletionQueue) (token : Token) (op : IoOp) :
    Except Failure Unit × CompletionQueue :=
  let submission : Submission := { token, op }
  match q.refusal? op.kind with
  | some errno =>
    (.error (.driver errno),
      { q with refusals := q.refusals.eraseP fun r => r.1 = op.kind }.note
        (.submitted submission (some errno)))
  | none =>
    let q := q.note (.submitted submission none)
    match op, q.autosend with
    | .send _ bytes, some n => (.ok (), q.finish { token, result := min bytes.length n })
    | _, _ => (.ok (), { q with pending := q.pending ++ [submission] })

/-- The first operation under way that has a token. -/
def pending? (q : CompletionQueue) (token : Token) : Option Submission :=
  q.pending.find? fun s => s.token = token

/-- The queue without the first operation under way that has a token. -/
def forget (q : CompletionQueue) (token : Token) : CompletionQueue :=
  { q with pending := q.pending.eraseP fun s => s.token = token }

def complete (q : CompletionQueue) (c : IoCompletion Token) : CompletionQueue :=
  (q.forget c.token).finish c

def cancel (q : CompletionQueue) (token : Token) : CompletionQueue :=
  let found := (q.pending? token).isSome
  let q := q.note (.canceled token found)
  if found && !q.keepsCanceled then q.complete { token, result := -Errno.canceled } else q

def endWait (q : CompletionQueue) : Except Failure Unit × CompletionQueue :=
  match q.waitFault with
  | none => (.ok (), q)
  | some (0, errno) => (.error (.driver errno), { q with waitFault := none })
  | some (n + 1, errno) => (.ok (), { q with waitFault := some (n, errno) })

/-- Takes at most `limit` completions, the oldest first. -/
def drain (q : CompletionQueue) (limit : Nat) : List (IoCompletion Token) × CompletionQueue :=
  (q.ready.take limit, { q with ready := q.ready.drop limit })

end CompletionQueue

end PartitionEngine
