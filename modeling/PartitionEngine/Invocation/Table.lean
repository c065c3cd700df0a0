import PartitionEngine.Assoc
import PartitionEngine.Invocation.Completion

/-!
# Pending invocations

The invocations that wait for a result, for each peer by correlation id.  An
entry leaves the table before its future is completed, so an invocation gets one
result, from whoever takes the entry.

Correlation ids are drawn for each peer, upwards from 501.
-/

namespace PartitionEngine

/-- The number of a future. -/
abbrev FutureId := Nat

/-- An invocation that waits for its result. -/
structure Invocation where
  correlationId : UInt64
  partition : Partition
  reactor : Nat
  /-- Where the result goes. -/
  future : FutureId

/-- The correlation id before the first one. -/
def initialCorrelationId : UInt64 := 500

/-- The invocations of one peer. -/
structure PeerInvocations where
  counter : UInt64 := initialCorrelationId
  pending : Assoc UInt64 Invocation := .empty

/-- All invocations, and all futures handed out. -/
structure InvocationTable where
  peers : Assoc Address PeerInvocations := .empty
  futures : Array InvocationFuture := #[]

namespace InvocationTable

/-- The invocations of a peer, if there is a table for it. -/
def peer? (t : InvocationTable) (peer : Address) : Option PeerInvocations := t.peers.get? peer

def addPeer (t : InvocationTable) (peer : Address) : InvocationTable :=
  match t.peers.get? peer with
  | some _ => t
  | none => { t with peers := t.peers.insert peer {} }

def nextId (t : InvocationTable) (peer : Address) : UInt64 × InvocationTable :=
  let p := (t.peers.get? peer).getD {}
  let p := { p with counter := p.counter + 1 }
  (p.counter, { t with peers := t.peers.insert peer p })

/-- Keeps a future and gives its number. -/
def addFuture (t : InvocationTable) (f : InvocationFuture) : FutureId × InvocationTable :=
  (t.futures.size, { t with futures := t.futures.push f })

def future? (t : InvocationTable) (id : FutureId) : Option InvocationFuture := t.futures[id]?

def deliver (t : InvocationTable) (id : FutureId) (result : Outcome) : InvocationTable :=
  { t with futures := t.futures.modify id fun f =>
      { f with completion := (f.completion.complete result).2 } }

/-- Fails an invocation that is not in the table any more, if there is one. -/
def abandon (t : InvocationTable) : Option Invocation → InvocationTable
  | none => t
  | some i => t.deliver i.future (.error Completion.dropped)

/-- Draws a correlation id and makes an invocation that waits for its result.  Should
the ids of a peer have been used up, one that waits under the same id gives way. -/
def register (t : InvocationTable) (peer : Address) (partition : Partition) (reactor : Nat) :
    UInt64 × FutureId × InvocationTable :=
  let (correlationId, t) := t.nextId peer
  let (future, t) := t.addFuture { correlationId }
  let p := (t.peers.get? peer).getD {}
  let pending := p.pending.insert correlationId { correlationId, partition, reactor, future }
  (correlationId, future,
    { t.abandon (p.pending.get? correlationId) with
      peers := t.peers.insert peer { p with pending } })

/-- Completes the invocation with an id.  `false` if none is pending. -/
def complete (t : InvocationTable) (peer : Address) (correlationId : UInt64) (result : Outcome) :
    Bool × InvocationTable :=
  match t.peers.get? peer with
  | none => (false, t)
  | some p =>
    match p.pending.get? correlationId with
    | none => (false, t)
    | some i =>
      let rest := { p with pending := p.pending.erase correlationId }
      (true, { t with peers := t.peers.insert peer rest }.deliver i.future result)

/-- Fails the invocation with an id.  `false` if none is pending. -/
def fail (t : InvocationTable) (peer : Address) (correlationId : UInt64) (e : Failure) :
    Bool × InvocationTable :=
  t.complete peer correlationId (.error e)

/-- Fails the invocations of a peer that the test selects.  Gives their number. -/
def failWhere (t : InvocationTable) (peer : Address) (e : Failure) (select : Invocation → Bool) :
    Nat × InvocationTable :=
  match t.peers.get? peer with
  | none => (0, t)
  | some p =>
    let failed := p.pending.values.filter select
    let rest := { p with pending := p.pending.filter fun i => !select i }
    (failed.length,
      failed.foldl (fun t i => t.deliver i.future (.error e))
        { t with peers := t.peers.insert peer rest })

/-- Fails the invocations of every peer that the test selects.  Gives their
number. -/
def failAnywhere (t : InvocationTable) (e : Failure) (select : Invocation → Bool) :
    Nat × InvocationTable :=
  t.peers.keys.foldl
    (fun (n, t) peer =>
      let (m, t) := t.failWhere peer e select
      (n + m, t))
    (0, t)

def failAll (t : InvocationTable) (e : Failure) : Nat × InvocationTable :=
  t.failAnywhere e fun _ => true

/-- Fails the invocations of a peer that go through a reactor. -/
def failRouted (t : InvocationTable) (peer : Address) (reactor : Nat) (e : Failure) :
    Nat × InvocationTable :=
  t.failWhere peer e fun i => i.reactor = reactor

/-- Fails the invocations of any peer that go through a reactor. -/
def failReactor (t : InvocationTable) (reactor : Nat) (e : Failure) : Nat × InvocationTable :=
  t.failAnywhere e fun i => i.reactor = reactor

def peerOutstanding (t : InvocationTable) (peer : Address) : Nat :=
  ((t.peers.get? peer).map fun p => p.pending.size).getD 0

def outstanding (t : InvocationTable) : Nat :=
  (t.peers.values.map fun p => p.pending.size).foldl (· + ·) 0

/-- The number of a future that is done, with its result. -/
def result? (t : InvocationTable) (id : FutureId) : Option (FutureId × Outcome) :=
  ((t.future? id).bind fun f => f.completion.result).map (id, ·)

def done (t : InvocationTable) : List (FutureId × Outcome) :=
  (List.range t.futures.size).filterMap t.result?

/-- The futures that got their result between this table and a later one. -/
def doneSince (before after : InvocationTable) : List (FutureId × Outcome) :=
  after.done.filter fun row => (before.result? row.1).isNone

/-- Ends the table.  What waits fails. -/
def drop (t : InvocationTable) : InvocationTable := (t.failAll Completion.dropped).2

end InvocationTable

end PartitionEngine
