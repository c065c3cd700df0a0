import PartitionEngine.Reactor.Loop
import Mathlib.Logic.Relation

/-!
# What the loop does

Between two handlers a reactor is at a *moment*, with the completions it took off
its driver and has not handled.  `Move` is what the reactor does next, and the
loop does nothing else (`moves_wake`).

A move that runs the task of an invocation may hand the bytes of its request to a
channel.  The move tells which.
-/

namespace PartitionEngine

/-- The bytes of a request that were handed to a channel. -/
structure Handover where
  key : SlotKey
  peer : Address
  correlationId : UInt64
  bytes : Bytes

/-- The bytes that running a task hands to a channel for an invocation. -/
def Turn.handover? {σ : Type} (t : Turn σ) : Task → Option Handover
  | .write l bytes (some correlationId) =>
    if t.reactor.stopping then none
    else (t.outboundChannel l).1.map fun key => { key, peer := l.peer, correlationId, bytes }
  | _ => none

/-- A reactor between two handlers. -/
structure Moment (σ : Type) where
  turn : Turn σ
  /-- The completions that were taken off the driver and not handled. -/
  batch : List (IoCompletion Token) := []

namespace Moment

variable {σ : Type}

/-- What a reactor does at a moment, and what it hands over. -/
inductive Move : Moment σ → Option Handover → Moment σ → Prop where
  /-- The reactor returns from a wait. -/
  | wait (t : Turn σ) : Move ⟨t, []⟩ none ⟨t.endWait.2, []⟩
  /-- The reactor changes its handle, but no task of it. -/
  | mark (t : Turn σ) (f : ReactorHandle → ReactorHandle)
      (keep : ∀ r, t.handle? = some r → (f r).queue.tasks = r.queue.tasks) :
      Move ⟨t, []⟩ none ⟨t.modifyHandle f, []⟩
  /-- The reactor takes a batch. -/
  | take (t : Turn σ) (limit : Nat) :
      Move ⟨t, []⟩ none
        ⟨{ t with reactor := { t.reactor with driver := (t.reactor.driver.drain limit).2 } },
          (t.reactor.driver.drain limit).1⟩
  /-- The reactor handles a completion. -/
  | handle (t : Turn σ) (c : IoCompletion Token) (rest : List (IoCompletion Token)) :
      Move ⟨t, c :: rest⟩ none ⟨t.onCompletion c, rest⟩
  /-- The reactor runs the oldest task. -/
  | run (t : Turn σ) (task : Task) (t' : Turn σ) (popped : t.popTask = (some task, t')) :
      Move ⟨t, []⟩ ((t'.count fun s => { s with tasks := s.tasks + 1 }).handover? task)
        ⟨(t'.count fun s => { s with tasks := s.tasks + 1 }).onTask task, []⟩

/-- What a reactor does from one moment to a later one. -/
def Moves : Moment σ → Moment σ → Prop :=
  Relation.ReflTransGen fun m m' => ∃ handed, Move m handed m'

namespace Moves

variable {m m' m'' : Moment σ} {t t' : Turn σ} {handed : Option Handover}

theorem refl (m : Moment σ) : Moves m m := Relation.ReflTransGen.refl

theorem trans (h : Moves m m') (h' : Moves m' m'') : Moves m m'' :=
  Relation.ReflTransGen.trans h h'

theorem of_move (h : Move m handed m') : Moves m m' := Relation.ReflTransGen.single ⟨handed, h⟩

theorem head (h : Move m handed m') (h' : Moves m' m'') : Moves m m'' := (of_move h).trans h'

end Moves

theorem moves_batch (batch : List (IoCompletion Token)) (t : Turn σ) :
    Moves ⟨t, batch⟩ ⟨batch.foldl Turn.onCompletion t, []⟩ := by
  induction batch generalizing t with
  | nil => exact .refl _
  | cons c rest ih => exact .head (.handle t c rest) (ih _)

theorem moves_processCompletions (t : Turn σ) : Moves ⟨t, []⟩ ⟨t.processCompletions, []⟩ :=
  .head (.take t t.config.completionBatch) (moves_batch _ _)

/-- Whoever pops a task changes queues, and nothing else. -/
theorem eq_of_popTask {t t' : Turn σ} {task : Option Task} (popped : t.popTask = (task, t')) :
    t' = { t with shared := { t.shared with reactors := t'.shared.reactors } } := by
  simp only [Turn.popTask] at popped
  split at popped
  all_goals
    cases popped
    rfl

/-- A queue that has nothing to pop stays as it is. -/
theorem moves_of_popTask_none {t t' : Turn σ} (popped : t.popTask = (none, t')) :
    Moves ⟨t, []⟩ ⟨t', []⟩ := by
  simp only [Turn.popTask] at popped
  split at popped
  · cases popped
    exact .refl _
  · rename_i h found
    cases popped' : h.queue.pop with
    | mk task queue =>
      rw [popped'] at popped
      cases popped
      refine .of_move (.mark t _ ?_)
      intro r here
      cases found.symm.trans here
      simp only [TaskQueue.pop] at popped'
      split at popped'
      · cases popped'
        rfl
      · cases popped'

theorem moves_runTasks (bound : Nat) (t : Turn σ) :
    Moves ⟨t, []⟩ ⟨Turn.runTasks bound t, []⟩ := by
  induction bound generalizing t with
  | zero => exact .refl _
  | succ bound ih =>
    simp only [Turn.runTasks]
    split
    · rename_i t' popped
      exact moves_of_popTask_none popped
    · rename_i task t' popped
      exact .head (.run t task t' popped) (ih _)

theorem moves_work (t : Turn σ) : Moves ⟨t, []⟩ ⟨t.work, []⟩ :=
  (moves_processCompletions t).trans (moves_runTasks _ _)

theorem moves_arm (t : Turn σ) : Moves ⟨t, []⟩ ⟨t.arm.2, []⟩ := by
  simp only [Turn.arm]
  split
  · exact .refl _
  · rename_i h found
    refine .of_move (.mark t _ ?_)
    intro r here
    cases found.symm.trans here
    simp only [TaskQueue.arm]
    split
    · rfl
    · rfl

theorem moves_enterWait (t : Turn σ) : Moves ⟨t, []⟩ ⟨t.enterWait.2, []⟩ := by
  have waited : Moves ⟨t, []⟩ ⟨t.endWait.2, []⟩ := .of_move (.wait t)
  simp only [Turn.enterWait]
  split
  · split
    · exact .refl _
    · split
      all_goals
        rename_i result
        rw [result] at waited
        exact waited
  · split
    · rename_i result
      rw [result] at waited
      exact waited
    · rename_i t' result
      rw [result] at waited
      split
      · exact waited
      · split
        · exact waited
        · have armed := moves_arm t'
          split
          all_goals
            rename_i result
            rw [result] at armed
            exact waited.trans armed

/-- What the loop does from a wait on. -/
theorem moves_proceed (bound : Nat) (wait : Turn.Wait) (t : Turn σ) :
    Moves ⟨t, []⟩ ⟨(Turn.proceed bound wait t).2, []⟩ := by
  induction bound generalizing wait t with
  | zero => cases wait <;> exact .refl _
  | succ bound ih =>
    cases wait with
    | sleeping => exact .refl _
    | failed => exact .refl _
    | awake =>
      simp only [Turn.proceed]
      split
      · exact moves_work t
      · exact ((moves_work t).trans (moves_enterWait _)).trans (ih _ _)

/-- What a reactor does that is woken. -/
theorem moves_wake (t : Turn σ) : Moves ⟨t, []⟩ ⟨t.wake.2, []⟩ := by
  have waited : Moves ⟨t, []⟩ ⟨t.endWait.2, []⟩ := .of_move (.wait t)
  have left : Moves ⟨t, []⟩ ⟨t.leaveWait.2, []⟩ := by
    simp only [Turn.leaveWait]
    cases t.endWait.2.config.scheduling with
    | spin =>
      simp only
      split
      · exact waited
      · exact waited
    | blocking =>
      have disarmed : Moves ⟨t, []⟩ ⟨t.endWait.2.disarm, []⟩ :=
        waited.trans (.of_move (.mark _ _ fun _ _ => rfl))
      simp only
      split
      · exact disarmed
      · exact disarmed
  exact left.trans (moves_proceed _ _ _)

end Moment

end PartitionEngine
