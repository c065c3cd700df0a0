import PartitionEngine.Failure

/-!
# Completions

The place where the result of one invocation arrives.  It is set once, and what
is set stays.  The caller reads it, waits for it or polls it.  A poll that comes
too early leaves a waker, in place of the one before, and the result wakes the
last one.  The completion keeps note of whom it woke.

Wakers are made by whoever runs the caller.  `Wakers` has what can be asked of
them.
-/

namespace PartitionEngine

/-- What a caller leaves to be woken by. -/
abbrev Waker := Nat

/-- A kind of wakers. -/
structure Wakers where
  /-- Whom a waker wakes. -/
  target : Waker → Nat
  copy : Waker → Waker
  /-- Whether a waker is known to wake whom another one wakes.  It may do so
  without being known to. -/
  willWake : Waker → Waker → Bool
  target_copy : ∀ w, target (copy w) = target w
  target_eq : ∀ v w, willWake v w = true → target v = target w

/-- Wakers that are known by whom they wake. -/
def Wakers.plain : Wakers where
  target := id
  copy := id
  willWake v w := v == w
  target_copy _ := rfl
  target_eq _ _ := eq_of_beq

/-- The place for one result. -/
structure Completion where
  result : Option Outcome := none
  /-- Who waits for it. -/
  waker : Option Waker := none
  woken : List Waker := []

namespace Completion

def ofResult (result : Outcome) : Completion := { result := some result }

def isDone (c : Completion) : Bool := c.result.isSome

/-- Sets the result and wakes who waits, unless there is a result.  Tells whether
it did. -/
def complete (c : Completion) (result : Outcome) : Bool × Completion :=
  if c.isDone then (false, c)
  else (true, { result := some result, waker := none, woken := c.waker.toList ++ c.woken })

/-- What an invocation fails with if nobody will complete it. -/
def dropped : Failure := .transport "invocation dropped"

/-- Ends the writing side.  A completion without a result fails. -/
def drop (c : Completion) : Completion := (c.complete (.error dropped)).2

/-- Completes, and ends the writing side. -/
def finish (c : Completion) (result : Outcome) : Bool × Completion :=
  let (first, c) := c.complete result
  (first, c.drop)

/-- Asks for the result.  If there is none, a copy of the waker is kept, unless the
one that is kept will do. -/
def poll (c : Completion) (kind : Wakers) (waker : Waker) : Option Outcome × Completion :=
  match c.result with
  | some result => (some result, c)
  | none =>
    if c.waker.any (kind.willWake · waker) then (none, c)
    else (none, { c with waker := some (kind.copy waker) })

/-- What a caller that waits sees when it looks, with its time over or not.  `none` if
it goes on waiting, `some none` if it gives up.  The time it is over at is one the clock
can show: with a longer span a caller panics before it looks. -/
def look (c : Completion) (timeOver : Bool) : Option (Option Outcome) :=
  match c.result with
  | some result => some (some result)
  | none => if timeOver then some none else none

end Completion

/-- What a caller holds of an invocation.  The correlation id is 0 if the
invocation was rejected. -/
structure InvocationFuture where
  correlationId : UInt64
  completion : Completion := {}

namespace InvocationFuture

def ready (correlationId : UInt64) (result : Outcome) : InvocationFuture :=
  { correlationId, completion := .ofResult result }

def failed (e : Failure) : InvocationFuture := ready 0 (.error e)

def describe (f : InvocationFuture) : String :=
  "InvocationFuture \x7b correlation_id: " ++ toString f.correlationId.toNat ++ ", done: "
    ++ (if f.completion.isDone then "true" else "false") ++ " \x7d"

end InvocationFuture

end PartitionEngine
