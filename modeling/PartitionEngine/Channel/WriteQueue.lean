import PartitionEngine.Bytes
import PartitionEngine.Queue.Fifo

/-!
# Write queues

Bytes that wait to be sent on one connection.  They are queued in chunks, and
one send at a time is on its way.  It covers the first chunk, or the front of
it.  Small chunks are first merged up to a limit.

A send may take less than it was offered.  What it took is dropped from the
first chunk, so nothing is sent twice and nothing is left out.
-/

namespace PartitionEngine

/-- The most bytes one send is offered. -/
def maxSend : Nat := 2147483647

/-- Bytes waiting to be sent. -/
structure WriteQueue where
  /-- The chunks, none of them empty.  The first one goes out first. -/
  chunks : Fifo Bytes := {}
  queued : Nat := 0
  inFlight : Bool := false

namespace WriteQueue

def bytes (q : WriteQueue) : Bytes := q.chunks.toList.flatten

def isEmpty (q : WriteQueue) : Bool := q.chunks.isEmpty

/-- Queues a chunk.  An empty one is left out. -/
def push (q : WriteQueue) (chunk : Bytes) : WriteQueue :=
  if chunk.isEmpty then q
  else { q with chunks := q.chunks.push chunk, queued := q.queued + chunk.length }

/-- Parts chunks into those that fit into `limit` bytes together, `size` bytes
being taken already, and the others.  The first chunk always fits. -/
def gather (limit : Nat) : (size : Nat) → List Bytes → List Bytes × List Bytes
  | _, [] => ([], [])
  | size, chunk :: rest =>
    if size ≠ 0 ∧ limit < size + chunk.length then ([], chunk :: rest)
    else
      let (taken, left) := gather limit (size + chunk.length) rest
      (chunk :: taken, left)

/-- Merges the first chunks up to `limit` bytes, if there are two and the first
one is shorter than that.  Room for `limit` bytes is made first, however few there are:
`none` is the panic of a buffer that cannot have it. -/
def coalesce (limit : Nat) : List Bytes → Option (List Bytes)
  | first :: second :: rest =>
    if first.length < limit then
      if maxCapacity < limit then none
      else
        let (taken, left) := gather limit 0 (first :: second :: rest)
        some (taken.flatten :: left)
    else some (first :: second :: rest)
  | chunks => some chunks

/-- Starts a send.  Gives the bytes it is offered, or nothing if a send is on
its way or no bytes wait.  `none` is a panic, which leaves the queue as it is. -/
def nextSend (q : WriteQueue) (limit : Nat) : Option (Option Bytes × WriteQueue) :=
  if q.inFlight then some (none, q)
  else (coalesce limit q.chunks.toList).map fun chunks =>
    let q := { q with chunks := .ofList chunks }
    match chunks with
    | [] => (none, q)
    | first :: _ => (some (first.take maxSend), { q with inFlight := true })

/-- Ends a send that took `n` bytes, or all of the first chunk if it is shorter. -/
def consume (q : WriteQueue) (n : Nat) : WriteQueue :=
  match q.chunks.pop? with
  | none => { q with inFlight := false }
  | some (first, rest) =>
    let left := first.drop n
    { chunks := if left.isEmpty then rest else rest.pushFront left
      queued := q.queued - min n first.length
      inFlight := false }

/-- Ends a send that failed.  The chunk stays. -/
def abortSend (q : WriteQueue) : WriteQueue := { q with inFlight := false }

def clear (q : WriteQueue) : WriteQueue := { q with chunks := {}, queued := 0 }

end WriteQueue

end PartitionEngine
