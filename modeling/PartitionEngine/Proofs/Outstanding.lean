import PartitionEngine.Io.CompletionQueue
import Mathlib.Data.List.Basic

/-!
# Operations that have not been handled

A reactor takes completions off its driver in batches and handles them one by
one.  An operation that was accepted is thus at one of three places: pending,
ready, or in the batch.  `outstanding` counts the operations of a channel and a
purpose over all three.  A submission that is accepted adds one, and nothing but
the handling of a completion takes one away.

A timer comes back with 0 unless it was canceled.  Whether it was can be read off
the log of the driver (`Uncanceled`).
-/

namespace PartitionEngine

theorem Purpose.byte_inj {p q : Purpose} : p.byte = q.byte ↔ p = q := by
  cases p <;> cases q <;> decide

namespace Token

/-- Whether an operation is one of a channel, for a purpose. -/
def isOf (t : Token) (p : Purpose) (key : SlotKey) : Bool := t.kind = p.byte && t.key = key

@[simp] theorem key_ofChannel (p : Purpose) (key : SlotKey) (attempt : UInt8) :
    (ofChannel p key attempt).key = key := rfl

@[simp] theorem kind_ofChannel (p : Purpose) (key : SlotKey) (attempt : UInt8) :
    (ofChannel p key attempt).kind = p.byte := rfl

@[simp] theorem isOf_ofChannel (p q : Purpose) (key k : SlotKey) (attempt : UInt8) :
    (ofChannel p key attempt).isOf q k = (decide (p = q) && decide (key = k)) := by
  simp only [isOf, kind_ofChannel, key_ofChannel, Purpose.byte_inj]
  rfl

/-- An operation of the reactor itself belongs to no channel. -/
theorem isOf_plain {p q : Purpose} (own : p.isChannel = false) (other : q.isChannel = true)
    (key : SlotKey) : (plain p).isOf q key = false := by
  have apart : p ≠ q := by
    rintro rfl
    rw [own] at other
    cases other
  simp [isOf, plain, Purpose.byte_inj, apart]

/-- An operation has one purpose. -/
theorem isOf_of_isOf {t : Token} {p q : Purpose} {key : SlotKey} (h : t.isOf p key = true) :
    t.isOf q key = decide (p = q) := by
  simp only [isOf, Bool.and_eq_true, decide_eq_true_eq] at h
  simp [isOf, h, Purpose.byte_inj]

/-- An operation belongs to one channel. -/
theorem isOf_of_ne {t : Token} {p : Purpose} {key : SlotKey} (h : t.key ≠ key) :
    t.isOf p key = false := by
  simp [isOf, h]

/-- Whether an operation is a timer. -/
def isTimer (t : Token) : Bool :=
  [Purpose.drainTimer, .connectTimeout, .retryTimer].any fun p => t.kind = p.byte

end Token

/-- Whether an event is the accepted submission of an operation with a token. -/
def DriverEvent.isStart (token : Token) : DriverEvent → Bool
  | .submitted s none => s.token = token
  | _ => false

namespace CompletionQueue

/-! ## Counting -/

/-- The operations that were accepted and not handled, those of a batch first. -/
def unhandled (q : CompletionQueue) (batch : List (IoCompletion Token)) : List Token :=
  (batch ++ q.ready).map (·.token) ++ q.pending.map (·.token)

/-- The number of operations of a channel for a purpose that were not handled. -/
def outstanding (q : CompletionQueue) (batch : List (IoCompletion Token)) (p : Purpose)
    (key : SlotKey) : Nat :=
  (q.unhandled batch).countP (·.isOf p key)

/-- The number of pauses of a channel that came back with an error and were not
handled. -/
def brokenPauses (q : CompletionQueue) (batch : List (IoCompletion Token)) (key : SlotKey) : Nat :=
  (batch ++ q.ready).countP fun c => c.token.isOf .retryTimer key && c.result ≠ 0

variable {q : CompletionQueue} {batch : List (IoCompletion Token)}

theorem unhandled_cons (c : IoCompletion Token) :
    q.unhandled (c :: batch) = c.token :: q.unhandled batch := rfl

theorem outstanding_cons (c : IoCompletion Token) (p : Purpose) (key : SlotKey) :
    q.outstanding (c :: batch) p key
      = q.outstanding batch p key + if c.token.isOf p key then 1 else 0 := by
  rw [outstanding, unhandled_cons, List.countP_cons]
  rfl

theorem brokenPauses_cons_le (q : CompletionQueue) (batch : List (IoCompletion Token))
    (c : IoCompletion Token) (key : SlotKey) :
    q.brokenPauses batch key ≤ q.brokenPauses (c :: batch) key := by
  simp only [brokenPauses, List.cons_append, List.countP_cons]
  omega

theorem brokenPauses_cons_pos {c : IoCompletion Token} {key : SlotKey}
    (own : c.token.isOf .retryTimer key = true) (broken : c.result ≠ 0) :
    0 < q.brokenPauses (c :: batch) key := by
  simp [brokenPauses, own, broken]

/-- Taking a batch moves operations and loses none. -/
theorem unhandled_drain (limit : Nat) :
    (q.drain limit).2.unhandled (q.drain limit).1 = q.unhandled [] := by
  simp [unhandled, drain]

theorem outstanding_drain (limit : Nat) (p : Purpose) (key : SlotKey) :
    (q.drain limit).2.outstanding (q.drain limit).1 p key = q.outstanding [] p key :=
  congrArg (List.countP _) (unhandled_drain limit)

theorem brokenPauses_drain (limit : Nat) (key : SlotKey) :
    (q.drain limit).2.brokenPauses (q.drain limit).1 key = q.brokenPauses [] key := by
  simp [brokenPauses, drain]

/-! ## Submitting -/

theorem unhandled_submit_of_error {token : Token} {op : IoOp} {e : Failure}
    (refused : (q.submit token op).1 = .error e) :
    (q.submit token op).2.unhandled batch = q.unhandled batch := by
  simp only [submit] at refused ⊢
  split
  · rfl
  · rename_i accepted
    rw [accepted] at refused
    simp only at refused
    split at refused <;> cases refused

theorem outstanding_submit_of_error {token : Token} {op : IoOp} {e : Failure}
    (refused : (q.submit token op).1 = .error e) (p : Purpose) (key : SlotKey) :
    (q.submit token op).2.outstanding batch p key = q.outstanding batch p key :=
  congrArg (List.countP _) (unhandled_submit_of_error refused)

/-- What is accepted is on its way, and maybe back already. -/
theorem perm_submit_of_ok {token : Token} {op : IoOp} {u : Unit}
    (accepted : (q.submit token op).1 = .ok u) :
    ((q.submit token op).2.unhandled batch).Perm (token :: q.unhandled batch) := by
  unfold submit at accepted ⊢
  split
  · rename_i refusal
    rw [refusal] at accepted
    cases accepted
  · simp only
    split
    · simp only [unhandled, finish, note, ← List.append_assoc, List.map_append, List.map_cons,
        List.map_nil]
      simp only [List.append_assoc, List.singleton_append]
      exact (List.perm_middle.append_left _).trans List.perm_middle
    · simp only [unhandled, note, List.map_append, List.map_cons, List.map_nil,
        ← List.append_assoc]
      exact List.perm_append_singleton _ _

theorem outstanding_submit_of_ok {token : Token} {op : IoOp} {u : Unit}
    (accepted : (q.submit token op).1 = .ok u) (p : Purpose) (key : SlotKey) :
    (q.submit token op).2.outstanding batch p key
      = q.outstanding batch p key + if token.isOf p key then 1 else 0 := by
  rw [outstanding, (perm_submit_of_ok accepted).countP_eq, List.countP_cons]
  rfl

/-- Only a send may come back at once, so no pause does. -/
theorem brokenPauses_submit {token : Token} {op : IoOp} {key : SlotKey}
    (h : op.kind = .send → token.isOf .retryTimer key = false) :
    (q.submit token op).2.brokenPauses batch key = q.brokenPauses batch key := by
  unfold submit
  split
  · rfl
  · simp only
    split
    · simp [brokenPauses, finish, note, List.countP_append, h rfl]
    · rfl

/-! ## Completing and canceling -/

/-- Forgetting an operation under way takes it out of those that are pending. -/
theorem pending_forget {token : Token} (found : (q.pending? token).isSome = true) :
    ∃ s earlier later, s.token = token ∧ q.pending = earlier ++ s :: later
      ∧ (q.forget token).pending = earlier ++ later := by
  obtain ⟨s, first⟩ := Option.isSome_iff_exists.mp found
  obtain ⟨s, earlier, later, -, same, before, after⟩ :=
    List.exists_of_eraseP (List.mem_of_find?_eq_some first) (List.find?_some first)
  exact ⟨s, earlier, later, by simpa using same, before, after⟩

/-- Completing an operation moves it. -/
theorem perm_complete {c : IoCompletion Token} (found : (q.pending? c.token).isSome = true) :
    ((q.complete c).unhandled batch).Perm (q.unhandled batch) := by
  obtain ⟨s, earlier, later, same, before, after⟩ := pending_forget found
  have moved : (q.complete c).unhandled batch
      = (batch ++ q.ready).map (·.token)
        ++ (c.token :: (earlier.map (·.token) ++ later.map (·.token))) := by
    rw [unhandled, complete, finish, after]
    simp [forget]
  have stood : q.unhandled batch
      = (batch ++ q.ready).map (·.token)
        ++ (earlier.map (·.token) ++ c.token :: later.map (·.token)) := by
    simp [unhandled, before, same]
  rw [moved, stood]
  exact List.perm_middle.symm.append_left _

theorem outstanding_complete {c : IoCompletion Token} (found : (q.pending? c.token).isSome = true)
    (p : Purpose) (key : SlotKey) :
    (q.complete c).outstanding batch p key = q.outstanding batch p key :=
  (perm_complete found).countP_eq _

/-- Canceling makes an operation come back, and loses none. -/
theorem perm_cancel (token : Token) :
    ((q.cancel token).unhandled batch).Perm (q.unhandled batch) := by
  simp only [cancel]
  split
  · rename_i drops
    simp only [Bool.and_eq_true] at drops
    exact perm_complete (q := q.note (.canceled token _)) (c := { token, result := _ }) drops.1
  · exact .refl _

theorem outstanding_cancel (token : Token) (p : Purpose) (key : SlotKey) :
    (q.cancel token).outstanding batch p key = q.outstanding batch p key :=
  (perm_cancel token).countP_eq _

theorem log_cancel (q : CompletionQueue) (token : Token) :
    ∃ found, (q.cancel token).log = .canceled token found :: q.log := by
  refine ⟨(q.pending? token).isSome, ?_⟩
  simp only [cancel]
  split <;> rfl

/-- Cancelling notes what is canceled, and nothing else. -/
theorem log_cancelAll (tokens : List Token) (q : CompletionQueue) :
    ∃ events, (tokens.foldl cancel q).log = events ++ q.log
      ∧ ∀ event ∈ events, ∃ token found, event = .canceled token found := by
  induction tokens generalizing q with
  | nil => exact ⟨[], rfl, nofun⟩
  | cons token rest ih =>
    obtain ⟨found, log⟩ := q.log_cancel token
    obtain ⟨events, later, canceled⟩ := ih (q.cancel token)
    refine ⟨events ++ [.canceled token found], by rw [List.foldl_cons, later, log]; simp, ?_⟩
    intro event mem
    rcases List.mem_append.mp mem with mem | mem
    · exact canceled event mem
    · exact ⟨token, found, List.mem_singleton.mp mem⟩

theorem perm_cancelAll (tokens : List Token) (q : CompletionQueue) :
    ((tokens.foldl cancel q).unhandled batch).Perm (q.unhandled batch) := by
  induction tokens generalizing q with
  | nil => exact .refl _
  | cons token rest ih => exact (ih _).trans (perm_cancel token)

theorem brokenPauses_complete {c : IoCompletion Token} {key : SlotKey}
    (h : c.token.isOf .retryTimer key = true → c.result = 0) :
    (q.complete c).brokenPauses batch key = q.brokenPauses batch key := by
  by_cases own : c.token.isOf .retryTimer key = true
  · simp [brokenPauses, complete, finish, forget, List.countP_append, h own]
  · simp [brokenPauses, complete, finish, forget, List.countP_append, own]

theorem brokenPauses_cancel {token : Token} {key : SlotKey}
    (h : token.isOf .retryTimer key = false) :
    (q.cancel token).brokenPauses batch key = q.brokenPauses batch key := by
  simp only [cancel]
  split
  · exact brokenPauses_complete (q := q.note _) fun own => absurd own (by simp [h])
  · rfl

/-- A wait concerns no operation. -/
theorem snd_endWait (q : CompletionQueue) :
    q.endWait.2 = { q with waitFault := q.endWait.2.waitFault } := by
  simp only [endWait]
  split
  all_goals rfl

/-! ## Canceled operations -/

/-- No operation under way with a token has been canceled: as many were accepted
since the last one was. -/
def Uncanceled (q : CompletionQueue) (token : Token) : Prop :=
  ∀ recent older, q.log = recent ++ .canceled token true :: older →
    q.pending.countP (fun s => s.token = token) ≤ recent.countP (DriverEvent.isStart token)

/-- What is logged after a cancellation counts; what is logged on top of it too. -/
theorem uncanceled_of_log {q' : CompletionQueue} {token : Token} {e : DriverEvent}
    (h : q.Uncanceled token) (logged : q'.log = e :: q.log) (other : e ≠ .canceled token true)
    (count : q'.pending.countP (fun s => s.token = token)
      ≤ q.pending.countP (fun s => s.token = token) + if e.isStart token then 1 else 0) :
    q'.Uncanceled token := by
  intro recent older split
  rw [logged] at split
  cases recent with
  | nil => exact absurd (List.cons.inj split).1 other
  | cons first recent =>
    obtain ⟨rfl, rest⟩ := List.cons.inj split
    rw [List.countP_cons]
    exact Nat.le_trans count (Nat.add_le_add_right (h recent older rest) _)

theorem Uncanceled.of_pending {q' : CompletionQueue} {token : Token} (h : q.Uncanceled token)
    (log : q'.log = q.log) (fewer : q'.pending.Sublist q.pending) : q'.Uncanceled token := by
  intro recent older split
  exact Nat.le_trans fewer.countP_le (h recent older (log ▸ split))

theorem Uncanceled.submit {token : Token} (h : q.Uncanceled token) (other : Token) (op : IoOp) :
    (q.submit other op).2.Uncanceled token := by
  unfold CompletionQueue.submit
  split
  · exact uncanceled_of_log h rfl (by simp) (Nat.le_add_right _ _)
  · simp only
    split
    · exact uncanceled_of_log h rfl (by simp) (Nat.le_add_right _ _)
    · refine uncanceled_of_log h rfl (by simp) ?_
      simp [note, DriverEvent.isStart, List.countP_append]

theorem Uncanceled.complete {token : Token} (h : q.Uncanceled token) (c : IoCompletion Token) :
    (q.complete c).Uncanceled token :=
  h.of_pending rfl List.eraseP_sublist

theorem Uncanceled.cancel {token other : Token} (h : q.Uncanceled token) (apart : other ≠ token) :
    (q.cancel other).Uncanceled token := by
  have noted : (q.note (.canceled other (q.pending? other).isSome)).Uncanceled token :=
    uncanceled_of_log h rfl (by simp [apart]) (Nat.le_add_right _ _)
  simp only [CompletionQueue.cancel]
  split
  · exact noted.complete _
  · exact noted

/-- An operation that is not under way has not been canceled. -/
theorem uncanceled_of_absent {token : Token}
    (absent : q.pending.countP (fun s => s.token = token) = 0) : q.Uncanceled token := by
  intro recent older _
  rw [absent]
  exact Nat.zero_le _

/-! ## The operations of other channels -/

/-- The operations of a channel stand as they stood. -/
structure Untouched (key : SlotKey) (q q' : CompletionQueue) : Prop where
  outstanding : ∀ batch p, p.isChannel = true →
    q'.outstanding batch p key = q.outstanding batch p key
  brokenPauses : ∀ batch, q'.brokenPauses batch key = q.brokenPauses batch key
  uncanceled : ∀ attempt, q.Uncanceled (.ofChannel .retryTimer key attempt) →
    q'.Uncanceled (.ofChannel .retryTimer key attempt)

namespace Untouched

variable {key : SlotKey}

theorem refl (q : CompletionQueue) : Untouched key q q :=
  ⟨fun _ _ _ => rfl, fun _ => rfl, fun _ h => h⟩

theorem trans {q q' q'' : CompletionQueue} (h : Untouched key q q') (h' : Untouched key q' q'') :
    Untouched key q q'' where
  outstanding batch p own := (h'.outstanding batch p own).trans (h.outstanding batch p own)
  brokenPauses batch := (h'.brokenPauses batch).trans (h.brokenPauses batch)
  uncanceled attempt sound := h'.uncanceled attempt (h.uncanceled attempt sound)

theorem submit (q : CompletionQueue) {token : Token}
    (foreign : ∀ p, p.isChannel = true → token.isOf p key = false) (op : IoOp) :
    Untouched key q (q.submit token op).2 where
  outstanding batch p own := by
    cases result : (q.submit token op).1 with
    | error e => exact outstanding_submit_of_error result p key
    | ok u => simp [outstanding_submit_of_ok result, foreign p own]
  brokenPauses batch := brokenPauses_submit fun _ => foreign _ rfl
  uncanceled _ sound := sound.submit token op

theorem cancel (q : CompletionQueue) {token : Token}
    (foreign : ∀ p, p.isChannel = true → token.isOf p key = false) :
    Untouched key q (q.cancel token) where
  outstanding _ p _ := outstanding_cancel token p key
  brokenPauses _ := brokenPauses_cancel (foreign _ rfl)
  uncanceled attempt sound := by
    refine sound.cancel ?_
    rintro rfl
    have own := foreign .retryTimer rfl
    simp at own

theorem cancelAll (q : CompletionQueue) {tokens : List Token}
    (foreign : ∀ token ∈ tokens, ∀ p, p.isChannel = true → token.isOf p key = false) :
    Untouched key q (tokens.foldl .cancel q) := by
  induction tokens generalizing q with
  | nil => exact refl q
  | cons token rest ih =>
    exact (cancel q (foreign token List.mem_cons_self)).trans
      (ih _ fun t mem => foreign t (List.mem_cons_of_mem _ mem))

end Untouched

/-! ## The operations of one channel -/

/-- A submission that is refused changes nothing. -/
theorem untouched_of_error {key : SlotKey} {token : Token} {op : IoOp} {e : Failure}
    (refused : (q.submit token op).1 = .error e)
    (sends : op.kind = .send → token.isOf .retryTimer key = false) :
    Untouched key q (q.submit token op).2 where
  outstanding _ p _ := outstanding_submit_of_error refused p key
  brokenPauses _ := brokenPauses_submit sends
  uncanceled _ sound := sound.submit token op

/-- Canceling anything but a pause changes nothing. -/
theorem untouched_cancel {key : SlotKey} {token : Token} (other : token.isOf .retryTimer key = false) :
    Untouched key q (q.cancel token) where
  outstanding _ p _ := outstanding_cancel token p key
  brokenPauses _ := brokenPauses_cancel other
  uncanceled attempt sound := by
    refine sound.cancel ?_
    rintro rfl
    simp at other

/-- One more operation of a channel is under way. -/
structure Posted (p : Purpose) (key : SlotKey) (q q' : CompletionQueue) : Prop where
  outstanding : ∀ batch p', q'.outstanding batch p' key
    = q.outstanding batch p' key + if p = p' then 1 else 0
  brokenPauses : ∀ batch, q'.brokenPauses batch key = q.brokenPauses batch key
  uncanceled : ∀ attempt, q.Uncanceled (.ofChannel .retryTimer key attempt) →
    q'.Uncanceled (.ofChannel .retryTimer key attempt)

theorem posted_of_ok {p : Purpose} {key : SlotKey} {attempt : UInt8} {op : IoOp} {u : Unit}
    (accepted : (q.submit (.ofChannel p key attempt) op).1 = .ok u)
    (sends : op.kind = .send → p ≠ .retryTimer) :
    Posted p key q (q.submit (.ofChannel p key attempt) op).2 where
  outstanding batch p' := by simp [outstanding_submit_of_ok accepted]
  brokenPauses batch := brokenPauses_submit fun send => by simp [sends send]
  uncanceled _ sound := sound.submit _ op

end CompletionQueue

end PartitionEngine
