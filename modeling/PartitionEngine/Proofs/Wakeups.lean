import PartitionEngine.Queue.Tasks
import Mathlib.Data.List.Basic

/-!
# No wakeup is lost

A task queue in use keeps a record of what was done to it and what came of it
(`TaskQueue.Use`).  Its laws are about the record alone (`TaskQueue.Keeps`).  Tasks leave in the
order in which they came.  A queue that was armed, and neither armed again nor disarmed since, is
one whose owner may sleep.  The first push of another thread to such a queue signals, and no other
push does, so an owner that sleeps while another thread has pushed has a signal waiting.

The content is what the flag stands for: it is up as long as the queue was armed and nothing
has happened since that takes it down (`TaskQueue.Awaited`).
-/

namespace PartitionEngine

/-- Each entry of a record obeys a law, given the entries before it. -/
def EachAfter {α : Type} (law : List α → α → Prop) (record : List α) : Prop :=
  ∀ before e after, record = before ++ e :: after → law before e

theorem EachAfter.nil {α : Type} {law : List α → α → Prop} : EachAfter law [] := by
  intro before e after split
  cases (List.append_eq_nil_iff.mp split.symm).2

theorem EachAfter.concat {α : Type} {law : List α → α → Prop} {record : List α} {e : α}
    (each : EachAfter law record) (last : law record e) : EachAfter law (record ++ [e]) := by
  intro before e' after split
  rcases List.eq_nil_or_concat' after with rfl | ⟨after, last', rfl⟩
  · obtain ⟨rfl, same⟩ := List.append_inj' split rfl
    cases same
    exact last
  · rw [← List.cons_append, ← List.append_assoc] at split
    obtain ⟨rfl, -⟩ := List.append_inj' split rfl
    exact each before e' after rfl

namespace TaskQueue

variable {α : Type} {owner : Option ThreadId} {mode : Scheduling}

/-- What threads do with a queue. -/
inductive Act (α : Type) where
  | push (thread : ThreadId) (task : α)
  | pop
  | arm
  | disarm
  | force

/-- What was done, and what came of it. -/
inductive Event (α : Type) where
  /-- With the number of signals it raised. -/
  | push (thread : ThreadId) (task : α) (signals : Nat)
  | pop (task : Option α)
  | arm (granted : Bool)
  | disarm
  | force (result : Except Failure Unit)

namespace Event

def pushed? : Event α → Option α
  | push _ task _ => some task
  | _ => none

def popped? : Event α → Option α
  | pop task => task
  | _ => none

def signals : Event α → Nat
  | push _ _ n => n
  | force _ => 1
  | _ => 0

/-- A push of a thread that does not own the queue. -/
def IsForeign (owner : Option ThreadId) : Event α → Prop
  | push thread .. => owner ≠ some thread
  | _ => False

instance (owner : Option ThreadId) : DecidablePred (IsForeign (α := α) owner)
  | push thread .. => inferInstanceAs (Decidable (owner ≠ some thread))
  | pop _ | arm _ | disarm | force _ => isFalse nofun

/-- It ends a sleep that was announced. -/
def Ends : Event α → Prop
  | arm _ | disarm => True
  | _ => False

/-- A sleep that is granted. -/
def grants : Event α → Nat
  | arm true => 1
  | _ => 0

def forces : Event α → Nat
  | force _ => 1
  | _ => 0

end Event

/-- A queue in use, with the record of its use. -/
structure Use (α : Type) where
  queue : TaskQueue α
  record : List (Event α) := []

namespace Use

def act (u : Use α) : Act α → Use α
  | .push thread task =>
    let queue := u.queue.push thread task
    let signals := queue.signal.attempts - u.queue.signal.attempts
    { queue, record := u.record ++ [.push thread task signals] }
  | .pop => { queue := u.queue.pop.2, record := u.record ++ [.pop u.queue.pop.1] }
  | .arm => { queue := u.queue.arm.2, record := u.record ++ [.arm u.queue.arm.1] }
  | .disarm => { queue := u.queue.disarm, record := u.record ++ [.disarm] }
  | .force =>
    { queue := u.queue.forceWakeup.2, record := u.record ++ [.force u.queue.forceWakeup.1] }

def run (u : Use α) (acts : List (Act α)) : Use α := acts.foldl act u

end Use

/-! ## The record -/

def pushed (record : List (Event α)) : List α := record.filterMap Event.pushed?

def popped (record : List (Event α)) : List α := record.filterMap Event.popped?

/-- The tasks that were pushed and not popped. -/
def left (record : List (Event α)) : List α := (pushed record).drop (popped record).length

/-- A sleep was granted, and nothing that ends it was done since. -/
def MaySleep (record since : List (Event α)) : Prop :=
  ∃ before, record = before ++ .arm true :: since ∧ ∀ e ∈ since, ¬ e.Ends

/-- The owner may sleep, and no other thread has pushed since. -/
def Awaited (owner : Option ThreadId) (record : List (Event α)) : Prop :=
  ∃ since, MaySleep record since ∧ ∀ e ∈ since, ¬ e.IsForeign owner

def total (count : Event α → Nat) : List (Event α) → Nat
  | [] => 0
  | e :: record => count e + total count record

/-- A queue is awaited until something is done that takes the flag down. -/
theorem awaited_concat (record : List (Event α)) (e : Event α) : Awaited owner (record ++ [e])
    ↔ e = .arm true ∨ Awaited owner record ∧ ¬ e.Ends ∧ ¬ e.IsForeign owner := by
  constructor
  · rintro ⟨since, ⟨before, split, open_since⟩, quiet⟩
    rcases List.eq_nil_or_concat' since with rfl | ⟨since, last, rfl⟩
    · obtain ⟨-, same⟩ := List.append_inj' split rfl
      cases same
      exact .inl rfl
    · rw [← List.cons_append, ← List.append_assoc] at split
      obtain ⟨rfl, same⟩ := List.append_inj' split rfl
      cases same
      rw [List.forall_mem_append] at open_since quiet
      exact .inr ⟨⟨since, ⟨before, rfl, open_since.1⟩, quiet.1⟩,
        open_since.2 _ (List.mem_singleton_self _), quiet.2 _ (List.mem_singleton_self _)⟩
  · rintro (rfl | ⟨⟨since, ⟨before, rfl, open_since⟩, quiet⟩, goes_on, own⟩)
    · exact ⟨[], ⟨record, rfl, nofun⟩, nofun⟩
    · refine ⟨since ++ [e], ⟨before, by rw [List.append_assoc]; rfl, ?_⟩, ?_⟩
      · exact List.forall_mem_append.mpr ⟨open_since, by simpa using goes_on⟩
      · exact List.forall_mem_append.mpr ⟨quiet, by simpa using own⟩

/-! ## The laws -/

/-- What an event is, after those before it. -/
def Lawful (mode : Scheduling) (owner : Option ThreadId) (before : List (Event α)) :
    Event α → Prop
  | .push thread _ signals =>
    (mode = .blocking ∧ owner ≠ some thread ∧ Awaited owner before → signals = 1)
      ∧ (¬ (mode = .blocking ∧ owner ≠ some thread ∧ Awaited owner before) → signals = 0)
  | .pop task => task = (left before).head?
  | .arm granted => granted = true ↔ left before = []
  | .disarm | .force _ => True

/-- What holds of a queue that started with a signal, at any time. -/
structure Keeps (mode : Scheduling) (owner : Option ThreadId) (signal : Signal) (u : Use α) :
    Prop where
  fifo : pushed u.record = popped u.record ++ u.queue.tasks.toList
  lawful : EachAfter (Lawful mode owner) u.record
  /-- The flag is up as long as the queue is awaited. -/
  flag : mode = .blocking → (u.queue.armed = true ↔ Awaited owner u.record)
  /-- An owner that may sleep has a signal waiting if another thread has pushed since. -/
  waking : mode = .blocking → ∀ since, MaySleep u.record since →
    (∀ e ∈ since, ¬ e.IsForeign owner)
      ∨ (∃ e ∈ since, e.IsForeign owner ∧ e.signals = 1)
        ∧ (u.queue.signal.broken = none → u.queue.signal.isPending = true)
  raised : u.queue.signal.attempts = signal.attempts + u.queue.wakeups
  wakeups : u.queue.wakeups = total Event.signals u.record
  few : u.queue.wakeups ≤ total Event.grants u.record + total Event.forces u.record

/-! ## What the calls do -/

theorem attempts_raise (s : Signal) : s.raise.2.attempts = s.attempts + 1 := by
  rw [Signal.raise]
  cases s.broken with
  | some errno => rfl
  | none => dsimp only; split <;> rfl

theorem broken_raise (s : Signal) : s.raise.2.broken = s.broken := by
  rw [Signal.raise]
  cases s.broken with
  | some errno => rfl
  | none => dsimp only; split <;> rfl

/-- A signal that can be read is pending after it was raised, for a full one is. -/
theorem isPending_raise {s : Signal} (whole : s.broken = none) : s.raise.2.isPending = true := by
  have room : 0 < s.kind.capacity := by cases s.kind <;> decide
  rw [Signal.raise, whole]
  simp only [Signal.isPending, decide_eq_true_eq]
  split
  · exact Nat.succ_pos _
  · next full => exact Nat.lt_of_lt_of_le room (Nat.not_lt.mp full)

/-- A push signals that is of another thread and finds the flag up. -/
def Loud (q : TaskQueue α) (thread : ThreadId) : Prop :=
  q.mode = .blocking ∧ q.owner ≠ some thread ∧ q.armed = true

theorem push_loud {q : TaskQueue α} {thread : ThreadId} (loud : q.Loud thread) (task : α) :
    q.push thread task = { q with
      tasks := q.tasks.push task, armed := false, signal := q.signal.raise.2
      wakeups := q.wakeups + 1 } := by
  obtain ⟨blocking, foreign, up⟩ := loud
  simp [push, takeFlag, blocking, foreign, up, wake]

theorem push_quiet {q : TaskQueue α} {thread : ThreadId} (quiet : ¬ q.Loud thread) (task : α) :
    q.push thread task = { q with tasks := q.tasks.push task } := by
  simp only [push, takeFlag]
  split
  · rfl
  · next foreign =>
    rw [not_or] at foreign
    have blocking : q.mode = .blocking := by
      cases mode : q.mode with
      | blocking => rfl
      | spin => exact absurd mode foreign.1
    have down : q.armed = false := by
      cases up : q.armed with
      | false => rfl
      | true => exact absurd ⟨blocking, foreign.2, up⟩ quiet
    simp only [down]

theorem arm_eq (q : TaskQueue α) :
    q.arm = (q.tasks.toList.isEmpty, { q with armed := q.tasks.toList.isEmpty }) := by
  have empty : q.isEmpty = q.tasks.toList.isEmpty := q.tasks.isEmpty_eq
  rw [← empty]
  simp only [arm, takeFlag]
  cases none : q.isEmpty with
  | true => exact if_pos none
  | false =>
    have some : ({ q with armed := true } : TaskQueue α).isEmpty = false := none
    simp [some]

theorem pop_eq (q : TaskQueue α) : q.pop.1 = q.tasks.toList.head?
    ∧ q.pop.2.tasks.toList = q.tasks.toList.tail ∧ q.pop.2 = { q with tasks := q.pop.2.tasks } := by
  have taken := q.tasks.map_toList_pop?
  rw [pop]
  cases popped : q.tasks.pop? with
  | none =>
    have none := (Fifo.pop?_eq_none_iff _).mp popped
    simp [none]
  | some entry =>
    obtain ⟨task, tasks⟩ := entry
    have all := Fifo.toList_of_pop? popped
    simp [all]

/-! ## Keeping the laws -/

/-- What each call keeps.  Beside the laws, it counts the flag as a wakeup to come. -/
structure Sound (mode : Scheduling) (owner : Option ThreadId) (signal : Signal) (u : Use α) :
    Prop where
  same_mode : u.queue.mode = mode
  same_owner : u.queue.owner = owner
  fifo : pushed u.record = popped u.record ++ u.queue.tasks.toList
  lawful : EachAfter (Lawful mode owner) u.record
  flag : mode = .blocking → (u.queue.armed = true ↔ Awaited owner u.record)
  raised : u.queue.signal.attempts = signal.attempts + u.queue.wakeups
  pending : u.queue.wakeups ≠ 0 → u.queue.signal.broken = none → u.queue.signal.isPending = true
  wakeups : u.queue.wakeups = total Event.signals u.record
  few : u.queue.wakeups + u.queue.armed.toNat
    ≤ total Event.grants u.record + total Event.forces u.record

variable {signal : Signal} {u : Use α}

theorem total_concat (count : Event α → Nat) (record : List (Event α)) (e : Event α) :
    total count (record ++ [e]) = total count record + count e := by
  induction record with
  | nil => exact Nat.add_comm ..
  | cons first record ih => rw [List.cons_append, total, ih, total, Nat.add_assoc]

theorem le_total_of_mem {record : List (Event α)} {e : Event α} (mem : e ∈ record)
    (count : Event α → Nat) : count e ≤ total count record := by
  induction mem with
  | head record => exact Nat.le_add_right ..
  | tail first _ ih => exact Nat.le_trans ih (Nat.le_add_left ..)

theorem pushed_concat (record : List (Event α)) (e : Event α) :
    pushed (record ++ [e]) = pushed record ++ e.pushed?.toList := by
  cases named : e.pushed? <;> simp [pushed, named]

theorem popped_concat (record : List (Event α)) (e : Event α) :
    popped (record ++ [e]) = popped record ++ e.popped?.toList := by
  cases named : e.popped? <;> simp [popped, named]

namespace Sound

theorem start (mode : Scheduling) (owner : Option ThreadId) (signal : Signal) :
    Sound mode owner signal (α := α) { queue := { mode, owner, signal } } where
  same_mode := rfl
  same_owner := rfl
  fifo := rfl
  lawful := .nil
  flag _ := by
    refine ⟨nofun, ?_⟩
    rintro ⟨since, ⟨before, split, -⟩, -⟩
    cases (List.append_eq_nil_iff.mp split.symm).2
  raised := rfl
  pending := nofun
  wakeups := rfl
  few := Nat.le_refl _

theorem left_eq (h : Sound mode owner signal u) : left u.record = u.queue.tasks.toList := by
  rw [left, h.fifo, List.drop_left]

/-- The flag says whom a push finds asleep. -/
theorem loud_iff (h : Sound mode owner signal u) (thread : ThreadId) : u.queue.Loud thread
    ↔ mode = .blocking ∧ owner ≠ some thread ∧ Awaited owner u.record := by
  rw [Loud, h.same_mode, h.same_owner]
  exact and_congr_right fun blocking => and_congr_right fun _ => h.flag blocking

section Calls

variable {q : TaskQueue α} {e : Event α}

theorem fifo_concat (h : Sound mode owner signal u)
    (moved : u.queue.tasks.toList ++ e.pushed?.toList = e.popped?.toList ++ q.tasks.toList) :
    pushed (u.record ++ [e]) = popped (u.record ++ [e]) ++ q.tasks.toList := by
  rw [pushed_concat, popped_concat, h.fifo, List.append_assoc, moved, List.append_assoc]

/-- A call that does not signal. -/
theorem silent (h : Sound mode owner signal u)
    (same : q = { u.queue with tasks := q.tasks, armed := q.armed }) (none : e.signals = 0)
    (moved : u.queue.tasks.toList ++ e.pushed?.toList = e.popped?.toList ++ q.tasks.toList)
    (lawful : Lawful mode owner u.record e)
    (flag : mode = .blocking → (q.armed = true ↔ Awaited owner (u.record ++ [e])))
    (few : q.armed.toNat ≤ u.queue.armed.toNat + e.grants) :
    Sound mode owner signal { queue := q, record := u.record ++ [e] } := by
  constructor
  case same_mode => rw [same]; exact h.same_mode
  case same_owner => rw [same]; exact h.same_owner
  case fifo => exact h.fifo_concat moved
  case lawful => exact h.lawful.concat lawful
  case flag => exact flag
  case raised => rw [same]; exact h.raised
  case pending => rw [same]; exact h.pending
  case wakeups => rw [total_concat, none, same]; exact h.wakeups
  case few =>
    have before := h.few
    have wakeups : q.wakeups = u.queue.wakeups := by rw [same]
    simp only [total_concat, wakeups]
    omega

/-- A call that signals.  It takes the flag down, or is counted on its own. -/
theorem signals (h : Sound mode owner signal u)
    (same : q = { u.queue with
      tasks := q.tasks, armed := q.armed, signal := u.queue.signal.raise.2
      wakeups := u.queue.wakeups + 1 })
    (one : e.signals = 1)
    (moved : u.queue.tasks.toList ++ e.pushed?.toList = e.popped?.toList ++ q.tasks.toList)
    (lawful : Lawful mode owner u.record e)
    (flag : mode = .blocking → (q.armed = true ↔ Awaited owner (u.record ++ [e])))
    (few : q.armed.toNat + 1 ≤ u.queue.armed.toNat + e.forces) :
    Sound mode owner signal { queue := q, record := u.record ++ [e] } := by
  have raised : q.signal = u.queue.signal.raise.2 := by rw [same]
  have wakeups : q.wakeups = u.queue.wakeups + 1 := by rw [same]
  constructor
  case same_mode => rw [same]; exact h.same_mode
  case same_owner => rw [same]; exact h.same_owner
  case fifo => exact h.fifo_concat moved
  case lawful => exact h.lawful.concat lawful
  case flag => exact flag
  case raised => rw [raised, wakeups, attempts_raise, h.raised, Nat.add_assoc]
  case pending =>
    intro _ whole
    simp only [raised, broken_raise] at whole ⊢
    exact isPending_raise whole
  case wakeups => rw [total_concat, one, wakeups, h.wakeups]
  case few =>
    have before := h.few
    simp only [total_concat, wakeups]
    omega

end Calls

theorem push (h : Sound mode owner signal u) (thread : ThreadId) (task : α) :
    Sound mode owner signal (u.act (.push thread task)) := by
  by_cases loud : u.queue.Loud thread
  · obtain ⟨-, foreign, -⟩ := (h.loud_iff thread).mp loud
    have one : (u.queue.push thread task).signal.attempts - u.queue.signal.attempts = 1 := by
      rw [push_loud loud, attempts_raise, Nat.add_sub_cancel_left]
    have lowered : (u.queue.push thread task).armed = false := by rw [push_loud loud]
    simp only [Use.act, one]
    refine h.signals (by rw [push_loud loud]) rfl ?_ ?_ ?_ ?_
    · simp [push_loud loud, Event.pushed?, Event.popped?]
    · exact ⟨fun _ => rfl, fun quiet => absurd ((h.loud_iff thread).mp loud) quiet⟩
    · intro _
      rw [lowered, awaited_concat]
      refine ⟨nofun, ?_⟩
      rintro (same | ⟨-, -, own⟩)
      · cases same
      · exact absurd foreign own
    · rw [lowered, loud.2.2]
      exact Nat.le_refl _
  · have none : (u.queue.push thread task).signal.attempts - u.queue.signal.attempts = 0 := by
      rw [push_quiet loud, Nat.sub_self]
    have flag : (u.queue.push thread task).armed = u.queue.armed := by rw [push_quiet loud]
    simp only [Use.act, none]
    refine h.silent (by rw [push_quiet loud]) rfl ?_ ?_ ?_ ?_
    · simp [push_quiet loud, Event.pushed?, Event.popped?]
    · exact ⟨fun asleep => absurd ((h.loud_iff thread).mpr asleep) loud, fun _ => rfl⟩
    · intro blocking
      rw [flag, awaited_concat, h.flag blocking]
      constructor
      · intro awaited
        refine .inr ⟨awaited, nofun, fun foreign => loud ?_⟩
        exact (h.loud_iff thread).mpr ⟨blocking, foreign, awaited⟩
      · rintro (same | ⟨awaited, -⟩)
        · cases same
        · exact awaited
    · rw [flag]
      exact Nat.le_add_right _ _

theorem pop (h : Sound mode owner signal u) : Sound mode owner signal (u.act .pop) := by
  obtain ⟨task, rest, same⟩ := pop_eq u.queue
  have flag : u.queue.pop.2.armed = u.queue.armed := by rw [same]
  refine h.silent (by rw [same]) rfl ?_ ?_ ?_ ?_
  · rw [rest]
    change _ ++ [] = u.queue.pop.1.toList ++ _
    rw [task]
    cases u.queue.tasks.toList <;> simp
  · change u.queue.pop.1 = (left u.record).head?
    rw [h.left_eq, task]
  · intro blocking
    rw [flag, awaited_concat, h.flag blocking]
    simp [Event.Ends, Event.IsForeign]
  · rw [flag]
    exact Nat.le_add_right _ _

theorem arm (h : Sound mode owner signal u) : Sound mode owner signal (u.act .arm) := by
  have empty : u.queue.tasks.toList.isEmpty = true ↔ left u.record = [] := by
    rw [h.left_eq, List.isEmpty_iff]
  simp only [Use.act, arm_eq]
  refine h.silent rfl rfl ?_ empty ?_ ?_
  · simp [Event.pushed?, Event.popped?]
  · intro _
    rw [awaited_concat]
    simp [Event.Ends]
  · cases u.queue.tasks.toList.isEmpty
    · exact Nat.zero_le _
    · exact Nat.le_add_left _ _

theorem disarm (h : Sound mode owner signal u) : Sound mode owner signal (u.act .disarm) := by
  refine h.silent rfl rfl (by simp [Event.pushed?, Event.popped?, TaskQueue.disarm]) trivial ?_
    (Nat.zero_le _)
  intro _
  rw [awaited_concat]
  simp [Event.Ends, TaskQueue.disarm]

theorem force (h : Sound mode owner signal u) : Sound mode owner signal (u.act .force) := by
  refine h.signals rfl rfl (by simp [Event.pushed?, Event.popped?, forceWakeup, wake]) trivial ?_
    (Nat.le_refl _)
  intro blocking
  rw [awaited_concat, show u.queue.forceWakeup.2.armed = u.queue.armed from rfl, h.flag blocking]
  simp [Event.Ends, Event.IsForeign]

theorem act (h : Sound mode owner signal u) (a : Act α) : Sound mode owner signal (u.act a) := by
  cases a with
  | push thread task => exact h.push thread task
  | pop => exact h.pop
  | arm => exact h.arm
  | disarm => exact h.disarm
  | force => exact h.force

theorem run (h : Sound mode owner signal u) (acts : List (Act α)) :
    Sound mode owner signal (u.run acts) := by
  induction acts generalizing u with
  | nil => exact h
  | cons a acts ih => exact ih (h.act a)

/-- The first push of another thread in a sleep signals. -/
theorem mem_signals (h : Sound mode owner signal u) (blocking : mode = .blocking)
    {since : List (Event α)} (asleep : MaySleep u.record since) {e : Event α} (mem : e ∈ since)
    (foreign : e.IsForeign owner) : ∃ e ∈ since, e.IsForeign owner ∧ e.signals = 1 := by
  obtain ⟨before, split, open_since⟩ := asleep
  cases found : since.find? fun e => decide (e.IsForeign owner) with
  | none => exact absurd (decide_eq_true foreign) (List.find?_eq_none.mp found e mem)
  | some first =>
    obtain ⟨other, quiet, rest, rfl, own⟩ := List.find?_eq_some_iff_append.mp found
    simp only [decide_eq_true_eq, Bool.not_eq_true', decide_eq_false_iff_not] at other own
    refine ⟨first, List.mem_append_right _ (List.mem_cons_self ..), other, ?_⟩
    have awaited : Awaited owner (before ++ .arm true :: quiet) :=
      ⟨quiet, ⟨before, rfl, fun e mem => open_since e (List.mem_append_left _ mem)⟩, own⟩
    have lawful := h.lawful (before ++ .arm true :: quiet) first rest (by simp [split])
    cases first with
    | push thread task signals => exact lawful.1 ⟨blocking, other, awaited⟩
    | pop | arm | disarm | force => exact other.elim

theorem keeps (h : Sound mode owner signal u) : Keeps mode owner signal u where
  fifo := h.fifo
  lawful := h.lawful
  flag := h.flag
  waking blocking since asleep := by
    by_cases foreign : ∃ e ∈ since, e.IsForeign owner
    · obtain ⟨e, mem, other⟩ := foreign
      obtain ⟨first, mem, other, one⟩ := h.mem_signals blocking asleep mem other
      obtain ⟨before, split, -⟩ := asleep
      have recorded : first ∈ u.record := by
        rw [split]
        exact List.mem_append_right _ (List.mem_cons_of_mem _ mem)
      have woken : 1 ≤ u.queue.wakeups := by
        rw [h.wakeups, ← one]
        exact le_total_of_mem recorded _
      exact .inr ⟨⟨first, mem, other, one⟩, h.pending (Nat.ne_of_gt woken)⟩
    · exact .inl fun e mem other => foreign ⟨e, mem, other⟩
  raised := h.raised
  wakeups := h.wakeups
  few := Nat.le_trans (Nat.le_add_right _ _) h.few

end Sound

/-- Whatever threads do with a queue, it keeps its laws. -/
theorem wakes_once (mode : Scheduling) (owner : Option ThreadId) (signal : Signal)
    (acts : List (Act α)) :
    Keeps mode owner signal (Use.run { queue := { mode, owner, signal } } acts) :=
  ((Sound.start mode owner signal).run acts).keeps

end TaskQueue

end PartitionEngine
