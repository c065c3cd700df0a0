import PartitionEngine.Invocation.Promise
import Mathlib.Data.List.Basic

/-!
# One result and one wake

A caller may poll a future with many wakers, read it and wait for it, and the completing side
acts once, at any point between (`Promise.wakes_last`).  Before that every read comes too early
and nobody is woken.  Then whom the last poll named is woken, once.  After it every read gives
the one result, and nothing changes any more.

What carries this is what is kept of the polls so far: a waker that wakes whom the last of them
named, be it that one or an earlier one that will do (`Promise.Waits`).  A wait for the result
is a row of looks, and ends with the first that shows something.
-/

namespace PartitionEngine

/-- A completed completion does not change when its writing side ends. -/
theorem Completion.drop_complete (c : Completion) (result : Outcome) :
    (c.complete result).2.drop = (c.complete result).2 := by
  cases present : c.result <;> simp [drop, complete, isDone, present]

/-- A poll that comes too early sees to it that whom it names is to be woken.  A waker that is
kept is one that will do. -/
theorem Completion.poll_early {c : Completion} (early : c.result = none) (kind : Wakers)
    (waker : Waker) : ∃ kept, c.poll kind waker = (none, { c with waker := some kept })
      ∧ kind.target kept = kind.target waker := by
  rw [poll, early]
  dsimp only
  split
  · next will_do =>
    obtain ⟨kept, present, will⟩ := (Option.any_eq_true _ _).mp will_do
    exact ⟨kept, by rw [← present, ← early], kind.target_eq kept waker will⟩
  · exact ⟨kind.copy waker, by rw [← early], kind.target_copy waker⟩

namespace Promise

/-- What a caller does that leaves the future to it. -/
inductive Read where
  | poll (waker : Waker)
  | tryResult
  | isDone
  /-- A look during a wait, with its time over or not.  A wait for a time the clock cannot
  show ends in a panic and has no look. -/
  | look (timeOver : Bool)

/-- What the completing side does. -/
inductive Write where
  | complete (result : Outcome)
  | drop

inductive Call where
  | read (r : Read)
  | write (w : Write)

/-- What a call answers. -/
inductive Answer where
  /-- The result, if it is there. -/
  | result (result : Option Outcome)
  | done (isDone : Bool)
  /-- What a wait ends with, if it ends: the result, or none in time. -/
  | wait (ends : Option (Option Outcome))
  /-- Whether the result was the first, if there was still a right to complete. -/
  | written (first : Option Bool)
  | dropped

variable {p : Promise} {kind : Wakers} {last : Option Waker} {result : Outcome}

def call (p : Promise) : Call → Answer × Promise
  | .read (.poll waker) => (.result (p.poll waker).1, (p.poll waker).2)
  | .read .tryResult => (.result p.result?, p)
  | .read .isDone => (.done p.future.completion.isDone, p)
  | .read (.look timeOver) => (.wait (p.future.completion.look timeOver), p)
  | .write (.complete result) => (.written (p.complete result).1, (p.complete result).2)
  | .write .drop => (.dropped, p.drop)

def run (p : Promise) : List Call → List Answer × Promise
  | [] => ([], p)
  | c :: cs =>
    let (answer, p) := p.call c
    let (answers, p) := p.run cs
    (answer :: answers, p)

/-- What a read answers that comes too early. -/
def Read.early : Read → Answer
  | .poll _ | .tryResult => .result none
  | .isDone => .done false
  | .look timeOver => .wait (if timeOver then some none else none)

def Read.waker? : Read → Option Waker
  | .poll waker => some waker
  | .tryResult | .isDone | .look _ => none

/-- The waker of the last poll. -/
def lastWaker (reads : List Read) : Option Waker := (reads.filterMap Read.waker?).getLast?

def Write.outcome : Write → Outcome
  | .complete result => result
  | .drop => .error Completion.dropped

/-- What the completing side is answered. -/
def Write.answer : Write → Answer
  | .complete _ => .written (some true)
  | .drop => .dropped

/-- What a call answers when the result is there. -/
def Call.late (result : Outcome) : Call → Answer
  | .read (.poll _) | .read .tryResult => .result (some result)
  | .read .isDone => .done true
  | .read (.look _) => .wait (some (some result))
  | .write (.complete _) => .written none
  | .write .drop => .dropped

theorem lastWaker_cons (r : Read) (reads : List Read) :
    lastWaker (r :: reads) = (lastWaker reads).or r.waker? := by
  cases named : r.waker? with
  | none => rw [lastWaker, List.filterMap_cons_none named, Option.or_none, lastWaker]
  | some waker =>
    rw [lastWaker, List.filterMap_cons_some named, List.getLast?_cons, lastWaker]
    cases (reads.filterMap Read.waker?).getLast? <;> rfl

/-! ## Too early -/

/-- A promise waits, and whom the last waker would wake is to be woken. -/
structure Waits (p : Promise) (kind : Wakers) (last : Option Waker) : Prop where
  wakers : p.wakers = kind
  unused : p.isOpen = true
  here : p.elsewhere = none
  early : p.result? = none
  woken : p.woken = []
  waker : p.future.completion.waker.map kind.target = last.map kind.target

theorem waits_pending (kind : Wakers) (id : UInt64) :
    Waits { pending id with wakers := kind } kind none := ⟨rfl, rfl, rfl, rfl, rfl, rfl⟩

theorem Waits.poll (h : p.Waits kind last) (waker : Waker) :
    (p.poll waker).1 = none ∧ (p.poll waker).2.Waits kind (some waker) := by
  obtain ⟨kept, polled, same⟩ := Completion.poll_early h.early kind waker
  rw [Promise.poll, h.wakers, polled]
  exact ⟨rfl, rfl, h.unused, h.here, h.early, h.woken, congrArg some same⟩

theorem Waits.read (h : p.Waits kind last) (r : Read) :
    (p.call (.read r)).1 = r.early ∧ (p.call (.read r)).2.Waits kind (r.waker?.or last) := by
  have early : p.future.completion.result = none := h.early
  cases r with
  | poll waker =>
    obtain ⟨answer, waits⟩ := h.poll waker
    exact ⟨congrArg Answer.result answer, waits⟩
  | tryResult => exact ⟨congrArg Answer.result h.early, h⟩
  | isDone => exact ⟨by simp [call, Completion.isDone, early, Read.early], h⟩
  | look timeOver => exact ⟨by simp [call, Completion.look, early, Read.early], h⟩

theorem Waits.reads (h : p.Waits kind last) (reads : List Read) :
    (p.run (reads.map .read)).1 = reads.map Read.early
      ∧ (p.run (reads.map .read)).2.Waits kind ((lastWaker reads).or last) := by
  induction reads generalizing p last with
  | nil => exact ⟨rfl, h⟩
  | cons r reads ih =>
    obtain ⟨answer, waits⟩ := h.read r
    obtain ⟨answers, waits⟩ := ih waits
    refine ⟨congr (congrArg List.cons answer) answers, ?_⟩
    rw [lastWaker_cons, Option.or_assoc]
    exact waits

/-! ## The result -/

/-- A promise has its result, and the right to complete it is used up. -/
structure Settled (p : Promise) (result : Outcome) : Prop where
  used : p.isOpen = false
  result : p.result? = some result

/-- The completing side sets the result and wakes whom the last poll named. -/
theorem Waits.write (h : p.Waits kind last) (w : Write) :
    (p.call (.write w)).1 = w.answer ∧ (p.call (.write w)).2.Settled w.outcome
      ∧ (p.call (.write w)).2.woken.map kind.target = last.toList.map kind.target := by
  have early : p.future.completion.result = none := h.early
  have nobody := List.append_eq_nil_iff.mp h.woken
  have wakes : p.future.completion.waker.toList.map kind.target = last.toList.map kind.target := by
    rw [← Option.toList_map, h.waker, Option.toList_map]
  cases w with
  | complete result =>
    have finished : p.future.completion.finish result = p.future.completion.complete result :=
      Prod.ext rfl (Completion.drop_complete _ _)
    simp only [call, Promise.complete, Promise.write, h.unused, h.here, finished]
    simp only [Completion.complete, Completion.isDone, early]
    exact ⟨rfl, ⟨rfl, rfl⟩, by simpa [Promise.woken, nobody.1, nobody.2] using wakes⟩
  | drop =>
    simp only [call, Promise.drop, Promise.write, h.unused, h.here]
    simp only [Completion.drop, Completion.complete, Completion.isDone, early]
    exact ⟨rfl, ⟨rfl, rfl⟩, by simpa [Promise.woken, nobody.1, nobody.2] using wakes⟩

/-- Nothing changes a promise that has its result. -/
theorem Settled.call (h : p.Settled result) (c : Call) : p.call c = (c.late result, p) := by
  have there : p.future.completion.result = some result := h.result
  rcases c with (waker | _ | _ | timeOver) | (other | _)
  · simp [Promise.call, Promise.poll, Completion.poll, there, Call.late]
  · simp [Promise.call, h.result, Call.late]
  · simp [Promise.call, Completion.isDone, there, Call.late]
  · simp [Promise.call, Completion.look, there, Call.late]
  · simp [Promise.call, Promise.complete, Promise.write, h.used, Call.late]
  · simp [Promise.call, Promise.drop, Promise.write, h.used, Call.late]

theorem Settled.run (h : p.Settled result) (calls : List Call) :
    p.run calls = (calls.map (Call.late result), p) := by
  induction calls with
  | nil => rfl
  | cons c calls ih => simp only [Promise.run, h.call c, ih, List.map_cons]

/-- As long as the completing side did nothing, every read comes too early and nobody is woken.
What it does then wakes whom the last poll named, once, and nobody if there was no poll.  From
then on every read gives that one result, and the promise does not change, so nobody is woken
again.  That the writing side ends after it completed changes nothing. -/
theorem wakes_last (kind : Wakers) (id : UInt64) (before : List Read) :
    let start : Promise := { pending id with wakers := kind }
    let (answers, waiting) := start.run (before.map .read)
    answers = before.map Read.early ∧ waiting.woken = []
    ∧ (∀ (w : Write) (after : List Call),
        let (answer, settled) := waiting.call (.write w)
        answer = w.answer
          ∧ settled.woken.map kind.target = (lastWaker before).toList.map kind.target
          ∧ settled.run after = (after.map (Call.late w.outcome), settled))
    ∧ ∀ (c : Completion) (result : Outcome),
        (c.complete result).2.drop = (c.complete result).2 := by
  obtain ⟨answers, waits⟩ := (waits_pending kind id).reads before
  rw [Option.or_none] at waits
  refine ⟨answers, waits.woken, fun w after => ?_, Completion.drop_complete⟩
  obtain ⟨answer, settled, woken⟩ := waits.write w
  exact ⟨answer, woken, settled.run after⟩

end Promise

end PartitionEngine
