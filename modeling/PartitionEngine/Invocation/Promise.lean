import PartitionEngine.Invocation.Completion

/-!
# Promises

A future in the hands of a caller, together with the right to complete it.  That
right is used up by completing the future or by giving up on it.  A caller can
consume the future; a rejected one takes its place.
-/

namespace PartitionEngine

/-- A future and the right to complete it. -/
structure Promise where
  future : InvocationFuture
  /-- What is completed instead of the future, if the future was made with its
  result. -/
  elsewhere : Option Completion := none
  /-- Whether the right to complete is there. -/
  isOpen : Bool := true
  /-- The wakers the caller polls with. -/
  wakers : Wakers := .plain
  /-- Who was woken by the futures that were consumed. -/
  wokenBefore : List Waker := []

namespace Promise

/-- A promise that waits for its result. -/
def pending (correlationId : UInt64) : Promise := { future := { correlationId } }

/-- A future that was made with its result. -/
def settled (future : InvocationFuture) : Promise := { future, elsewhere := some {} }

def result? (p : Promise) : Option Outcome := p.future.completion.result

/-- Uses the right to complete up.  `none` if it is gone. -/
def write (p : Promise) (f : Completion → Bool × Completion) : Option Bool × Promise :=
  match p.isOpen, p.elsewhere with
  | false, _ => (none, p)
  | true, some c => (some (f c).1, { p with isOpen := false, elsewhere := some (f c).2 })
  | true, none =>
    let (first, completion) := f p.future.completion
    (some first, { p with isOpen := false, future := { p.future with completion } })

/-- Completes the future.  Tells whether the result was the first. -/
def complete (p : Promise) (result : Outcome) : Option Bool × Promise :=
  p.write fun c => c.finish result

def drop (p : Promise) : Promise := (p.write fun c => (true, c.drop)).2

/-- Asks for the result.  If there is none, the waker is kept. -/
def poll (p : Promise) (waker : Waker) : Option Outcome × Promise :=
  let (result, completion) := p.future.completion.poll p.wakers waker
  (result, { p with future := { p.future with completion } })

def woken (p : Promise) : List Waker := p.wokenBefore ++ p.future.completion.woken

/-- Takes the result and the future with it. -/
def consume (p : Promise) : Option Outcome × Promise :=
  (p.result?, { p with future := .failed .notStarted, wokenBefore := p.woken })

end Promise

end PartitionEngine
