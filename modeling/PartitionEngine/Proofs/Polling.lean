import PartitionEngine.Io.PollDriver
import Mathlib.Data.List.Perm.Basic

/-!
# No operation is lost

An operation that was submitted to a polling driver is pending, among the timers, or ready,
until it is drained.  Whatever the driver does on its own moves operations between these
places, and puts what comes back at the end of what is ready (`PollDriver.Moves`).  Whether
the attempts succeed, fail, or have to wait does not matter, nor what the clock shows.

`PollUse` keeps account of a driver in use.  What was submitted is what was drained and what
the driver has, each token as often (`PollUse.conserved`).
-/

namespace PartitionEngine

variable {α τ κ : Type}

/-! ## Removing by swapping -/

theorem perm_lastToFront (l : List α) : (lastToFront l).Perm l := by
  rcases List.eq_nil_or_concat' l with rfl | ⟨front, a, rfl⟩
  · exact .refl _
  · rw [lastToFront, List.getLast?_concat, List.dropLast_concat]
    exact (List.perm_append_singleton a front).symm

/-- Exactly one entry is removed. -/
theorem perm_swapRemove {l : List α} {i : Nat} {a : α} (found : l[i]? = some a) :
    l.Perm (a :: swapRemove l i) := by
  obtain ⟨inside, rfl⟩ := List.getElem?_eq_some_iff.mp found
  have parts : l = l.take i ++ l[i] :: l.drop (i + 1) := by
    rw [← List.drop_eq_getElem_cons inside, List.take_append_drop]
  calc l.Perm (l.take i ++ l[i] :: l.drop (i + 1)) := .of_eq parts
    _ |>.Perm (l[i] :: (l.take i ++ l.drop (i + 1))) := List.perm_middle
    _ |>.Perm (l[i] :: swapRemove l i) :=
      ((perm_lastToFront _).symm.append_left _).cons _

namespace PollDriver

variable {k : Kernel κ} {d d' d'' : PollDriver τ}

/-- The tokens of the operations that a driver has. -/
def tokens (d : PollDriver τ) : List τ :=
  d.ready.map IoCompletion.token ++ (d.pending.map PendingOp.token ++ d.timers.map Timer.token)

theorem inFlight_eq (d : PollDriver τ) : d.inFlight = d.tokens.length := by
  simp only [inFlight, tokens, List.length_append, List.length_map]
  omega

/-- Operations move within a driver.  What is ready stays so, and others come after it. -/
structure Moves (d d' : PollDriver τ) : Prop where
  tokens : d'.tokens.Perm d.tokens
  ready : d.ready <+: d'.ready

theorem Moves.refl (d : PollDriver τ) : d.Moves d := ⟨.refl _, List.prefix_refl _⟩

theorem Moves.trans (h : d.Moves d') (h' : d'.Moves d'') : d.Moves d'' :=
  ⟨h'.tokens.trans h.tokens, h.ready.trans h'.ready⟩

/-! ## Attempts -/

theorem token_of_tryOp_ok {p p' : PendingOp τ} {s s' : κ} (h : tryOp k p s = (.ok p', s')) :
    p'.token = p.token := by
  rw [tryOp] at h
  rcases attempted : k.attempt p.op p.connecting s with ⟨attempt, later⟩
  rw [attempted] at h
  cases attempt <;> cases h <;> rfl

theorem token_of_tryOp_error {p : PendingOp τ} {c : IoCompletion τ} {s s' : κ}
    (h : tryOp k p s = (.error c, s')) : c.token = p.token := by
  rw [tryOp] at h
  rcases attempted : k.attempt p.op p.connecting s with ⟨attempt, later⟩
  rw [attempted] at h
  cases attempt <;> cases h
  rfl

/-- The operations are those that stay, those that are still to be attempted, and those that
came back. -/
theorem perm_progressOps (k : Kernel κ) (stay todo : List (PendingOp τ))
    (ready : List (IoCompletion τ)) (s : κ) :
    ((progressOps k stay todo ready s).2.1.map IoCompletion.token
        ++ (progressOps k stay todo ready s).1.map PendingOp.token).Perm
      (ready.map IoCompletion.token ++ (stay ++ todo).map PendingOp.token) := by
  fun_induction progressOps k stay todo ready s with
  | case1 stay ready s => simp
  | case2 stay p todo ready s armed ih => simpa using ih
  | case3 stay p todo ready s unarmed p' s' tried ih =>
    simpa [token_of_tryOp_ok tried] using ih
  | case4 stay p todo ready s unarmed c s' tried ih =>
    have swapped : ((stay ++ lastToFront todo).map PendingOp.token).Perm
        ((stay ++ todo).map PendingOp.token) :=
      ((perm_lastToFront todo).append_left stay).map _
    refine ih.trans ?_
    rw [List.map_append, List.append_assoc]
    refine List.Perm.append_left _ ?_
    show (c.token :: _).Perm _
    rw [token_of_tryOp_error tried]
    exact (swapped.cons p.token).trans (List.perm_middle.map PendingOp.token).symm

theorem prefix_progressOps (k : Kernel κ) (stay todo : List (PendingOp τ))
    (ready : List (IoCompletion τ)) (s : κ) : ready <+: (progressOps k stay todo ready s).2.1 := by
  fun_induction progressOps k stay todo ready s with
  | case1 => exact List.prefix_refl _
  | case2 stay p todo ready s armed ih => exact ih
  | case3 stay p todo ready s unarmed p' s' tried ih => exact ih
  | case4 stay p todo ready s unarmed c s' tried ih => exact (List.prefix_append ready [c]).trans ih

theorem moves_progress (k : Kernel κ) (d : PollDriver τ) (s : κ) :
    d.Moves (d.progress k s).1 where
  tokens := by
    have moved := (perm_progressOps k [] d.pending d.ready s).append_right
      (d.timers.map Timer.token)
    simpa [tokens, progress] using moved
  ready := prefix_progressOps k [] d.pending d.ready s

/-- The timers that are due come back, and the others stay. -/
theorem moves_fireTimers (d : PollDriver τ) (now : Nat) : d.Moves (d.fireTimers now) where
  tokens := by
    let due (t : Timer τ) : Bool := decide (t.deadline ≤ now)
    have fired : (d.fireTimers now).tokens = (d.ready.map IoCompletion.token
        ++ (d.timers.filter due).map Timer.token) ++ (d.pending.map PendingOp.token
        ++ (d.timers.filter fun t => !due t).map Timer.token) := by
      simp [fireTimers, tokens, List.partition_eq_filter_filter, due, Function.comp_def]
    have split : ((d.timers.filter due).map Timer.token
        ++ (d.timers.filter fun t => !due t).map Timer.token).Perm (d.timers.map Timer.token) := by
      rw [← List.map_append]
      exact (List.filter_append_perm due d.timers).map _
    rw [fired, List.append_assoc]
    refine List.Perm.append_left _ ?_
    exact (List.perm_append_comm_assoc _ _ _).trans (split.append_left _)
  ready := List.prefix_append _ _

/-! ## Waiting -/

/-- A poll only takes marks off. -/
theorem map_token_disarm (ops : List (PendingOp τ)) (ready : List Bool) :
    (disarm ops ready).map PendingOp.token = ops.map PendingOp.token := by
  fun_induction disarm ops ready with
  | case1 => rfl
  | case2 p ps armed r ready ih => rw [List.map_cons, List.map_cons, ih]
  | case3 => rfl
  | case4 p ps ready unarmed ih => rw [List.map_cons, List.map_cons, ih]

theorem moves_pollOnce (k : Kernel κ) (d : PollDriver τ) (limit : Option Nat) (s : κ) :
    d.Moves (d.pollOnce k limit s).2.1 := by
  rw [pollOnce]
  split
  · next ready _ _ =>
    refine ⟨.of_eq ?_, List.prefix_refl _⟩
    rw [tokens, map_token_disarm, tokens]
  · exact .refl d

theorem moves_advance (k : Kernel κ) (d : PollDriver τ) (s : κ) : d.Moves (d.advance k s).1 :=
  (moves_progress k d s).trans (moves_fireTimers _ _)

/-- A wait moves operations for as long as it goes on.  The induction is on its rounds. -/
theorem moves_waitPolls (k : Kernel κ) (minimum bound : Nat) (polled : Bool) (d : PollDriver τ)
    (s : κ) : d.Moves (waitPolls k minimum bound polled d s).2.1 := by
  have advanced {d d' : PollDriver τ} {s s' : κ} (step : d.advance k s = (d', s')) : d.Moves d' := by
    simpa [step] using moves_advance k d s
  have checked {d d' : PollDriver τ} {limit : Option Nat} {s s' : κ} {r : Except Failure Unit}
      (step : d.pollOnce k limit s = (r, d', s')) : d.Moves d' := by
    simpa [step] using moves_pollOnce k d limit s
  fun_induction waitPolls k minimum bound polled d s with
  | case1 bound polled d s d₁ s₁ step enough => exact advanced step
  | case2 bound polled d s d₁ s₁ step short limit s₂ limited idle => exact advanced step
  | case3 polled d s d₁ s₁ step short limit s₂ limited busy => exact advanced step
  | case4 polled d s d₁ s₁ step short limit s₂ limited busy bound d₂ s₃ poll ih =>
    exact ((advanced step).trans (checked poll)).trans ih
  | case5 polled d s d₁ s₁ step short limit s₂ limited busy bound e d₂ s₃ poll =>
    exact (advanced step).trans (checked poll)

theorem moves_wait (k : Kernel κ) (bound : Nat) (d : PollDriver τ) (minimum : Nat) (s : κ) :
    d.Moves (d.wait k bound minimum s).2.1 :=
  moves_waitPolls k minimum bound false d s

/-! ## Submitting and draining -/

theorem perm_tokens_submit (k : Kernel κ) (d : PollDriver τ) (token : τ) (op : IoOp) (s : κ) :
    (d.submit k token op s).1.tokens.Perm (d.tokens ++ [token]) := by
  have operation (p : PendingOp τ) :
      ({ d with pending := d.pending ++ [p] } : PollDriver τ).tokens.Perm
        (d.tokens ++ [p.token]) := by
    simp only [tokens, List.map_append, List.append_assoc]
    exact (List.perm_append_comm.append_left _).append_left _
  have timer (t : Timer τ) :
      ({ d with timers := d.timers ++ [t] } : PollDriver τ).tokens = d.tokens ++ [t.token] := by
    simp only [tokens, List.map_append, List.append_assoc]
    rfl
  cases op with
  | timeout after => exact .of_eq (timer _)
  | _ => exact operation _

theorem ready_submit (k : Kernel κ) (d : PollDriver τ) (token : τ) (op : IoOp) (s : κ) :
    (d.submit k token op s).1.ready = d.ready := by
  cases op <;> rfl

/-- A drain takes from the front. -/
theorem drain_append (d : PollDriver τ) (limit : Nat) :
    (d.drain limit).1 ++ (d.drain limit).2.ready = d.ready :=
  List.take_append_drop limit d.ready

theorem tokens_drain (d : PollDriver τ) (limit : Nat) :
    (d.drain limit).1.map IoCompletion.token ++ (d.drain limit).2.tokens = d.tokens := by
  rw [tokens, ← List.append_assoc, ← List.map_append, drain_append]
  rfl

/-! ## Canceling -/

/-- The tokens of the operations that did not come back. -/
def waiting (d : PollDriver τ) : List τ := d.pending.map PendingOp.token ++ d.timers.map Timer.token

/-- The completion of a canceled operation. -/
def canceled (token : τ) : IoCompletion τ := { token, result := -Errno.canceled }

/-- One operation with the token comes back canceled, last of all that is ready.  The other
operations stay as they are. -/
inductive Cancels (d : PollDriver τ) (token : τ) : PollDriver τ → Prop where
  | operation {p : PendingOp τ} {others : List (PendingOp τ)} :
      p.token = token → d.pending.Perm (p :: others) →
      d.Cancels token { d with pending := others, ready := d.ready ++ [canceled token] }
  | timer {t : Timer τ} {others : List (Timer τ)} :
      t.token = token → d.timers.Perm (t :: others) →
      d.Cancels token { d with timers := others, ready := d.ready ++ [canceled token] }

theorem Cancels.moves {token : τ} (h : d.Cancels token d') : d.Moves d' := by
  cases h with
  | @operation p others named split =>
    refine ⟨?_, List.prefix_append _ _⟩
    have moved : (d.pending.map PendingOp.token).Perm (token :: others.map PendingOp.token) :=
      named ▸ split.map PendingOp.token
    simp only [tokens, List.map_append, List.append_assoc]
    exact (moved.symm.append_right _).append_left _
  | @timer t others named split =>
    refine ⟨?_, List.prefix_append _ _⟩
    have moved : (d.timers.map Timer.token).Perm (token :: others.map Timer.token) :=
      named ▸ split.map Timer.token
    simp only [tokens, List.map_append, List.append_assoc]
    exact (List.perm_middle.symm.trans (moved.symm.append_left _)).append_left _

variable [DecidableEq τ]

theorem cancel_of_not_mem {token : τ} (h : token ∉ d.waiting) : d.cancel token = d := by
  rw [waiting, List.mem_append, not_or, List.mem_map, List.mem_map] at h
  have no_operation : d.pending.findIdx? (fun p => decide (p.token = token)) = none := by
    rw [List.findIdx?_eq_none_iff]
    exact fun p stored => decide_eq_false fun named => h.1 ⟨p, stored, named⟩
  have no_timer : d.timers.findIdx? (fun t => decide (t.token = token)) = none := by
    rw [List.findIdx?_eq_none_iff]
    exact fun t stored => decide_eq_false fun named => h.2 ⟨t, stored, named⟩
  rw [cancel, no_operation]
  dsimp only
  rw [no_timer]

theorem cancels_of_mem {token : τ} (h : token ∈ d.waiting) : d.Cancels token (d.cancel token) := by
  fun_cases cancel d token with
  | case1 _ i found =>
    obtain ⟨inside, named, -⟩ := List.findIdx?_eq_some_iff_getElem.mp found
    exact .operation (of_decide_eq_true named)
      (perm_swapRemove (List.getElem?_eq_getElem inside))
  | case2 _ _ i found =>
    obtain ⟨inside, named, -⟩ := List.findIdx?_eq_some_iff_getElem.mp found
    exact .timer (of_decide_eq_true named) (perm_swapRemove (List.getElem?_eq_getElem inside))
  | case3 no_operation no_timer =>
    rw [List.findIdx?_eq_none_iff] at no_operation no_timer
    rw [waiting, List.mem_append, List.mem_map, List.mem_map] at h
    obtain ⟨p, stored, named⟩ | ⟨t, stored, named⟩ := h
    · exact absurd named (of_decide_eq_false (no_operation p stored))
    · exact absurd named (of_decide_eq_false (no_timer t stored))

theorem moves_cancel (d : PollDriver τ) (token : τ) : d.Moves (d.cancel token) := by
  by_cases h : token ∈ d.waiting
  · exact (cancels_of_mem h).moves
  · rw [cancel_of_not_mem h]
    exact .refl d

end PollDriver

/-! ## A driver in use -/

/-- A call on a polling driver. -/
inductive PollCall (τ : Type) where
  | submit (token : τ) (op : IoOp)
  | cancel (token : τ)
  /-- Some rounds of a wait, or all of them. -/
  | wait (bound minimum : Nat)
  | drain (limit : Nat)

/-- A polling driver, the system it runs on, and what went into it and came out. -/
structure PollUse (τ κ : Type) where
  driver : PollDriver τ := {}
  system : κ
  submitted : List τ := []
  drained : List (IoCompletion τ) := []

namespace PollUse

/-- What was submitted is what was drained and what the driver has. -/
def Balanced (u : PollUse τ κ) : Prop :=
  u.submitted.Perm (u.drained.map IoCompletion.token ++ u.driver.tokens)

/-- Nothing is in a driver that was not used. -/
theorem balanced_new (s : κ) : ({ system := s } : PollUse τ κ).Balanced := .refl []

/-- What came back, in the order in which it did. -/
def arrived (u : PollUse τ κ) : List (IoCompletion τ) := u.drained ++ u.driver.ready

variable [DecidableEq τ] {k : Kernel κ} {u : PollUse τ κ}

def call (k : Kernel κ) (u : PollUse τ κ) : PollCall τ → PollUse τ κ
  | .submit token op =>
    let (driver, system) := u.driver.submit k token op u.system
    { u with driver, system, submitted := u.submitted ++ [token] }
  | .cancel token => { u with driver := u.driver.cancel token }
  | .wait bound minimum =>
    let (_, driver, system) := u.driver.wait k bound minimum u.system
    { u with driver, system }
  | .drain limit =>
    let (taken, driver) := u.driver.drain limit
    { u with driver, drained := u.drained ++ taken }

def run (k : Kernel κ) (u : PollUse τ κ) (calls : List (PollCall τ)) : PollUse τ κ :=
  calls.foldl (call k) u

theorem balanced_call (h : u.Balanced) (c : PollCall τ) : (u.call k c).Balanced := by
  have moved {driver : PollDriver τ} (moves : u.driver.Moves driver) :
      u.submitted.Perm (u.drained.map IoCompletion.token ++ driver.tokens) :=
    h.trans (moves.tokens.symm.append_left _)
  cases c with
  | submit token op =>
    have submitted := PollDriver.perm_tokens_submit k u.driver token op u.system
    refine (h.append_right [token]).trans ?_
    rw [List.append_assoc]
    exact submitted.symm.append_left _
  | cancel token => exact moved (u.driver.moves_cancel token)
  | wait bound minimum => exact moved (PollDriver.moves_wait k bound u.driver minimum u.system)
  | drain limit =>
    show u.submitted.Perm ((u.drained ++ (u.driver.drain limit).1).map IoCompletion.token
      ++ (u.driver.drain limit).2.tokens)
    rw [List.map_append, List.append_assoc, u.driver.tokens_drain]
    exact h

theorem balanced_run (h : u.Balanced) (calls : List (PollCall τ)) : (u.run k calls).Balanced := by
  induction calls generalizing u with
  | nil => exact h
  | cons c calls ih => exact ih (balanced_call h c)

theorem arrived_call (u : PollUse τ κ) (c : PollCall τ) : u.arrived <+: (u.call k c).arrived := by
  have moved {driver : PollDriver τ} (moves : u.driver.Moves driver) :
      u.arrived <+: u.drained ++ driver.ready :=
    (List.prefix_append_right_inj _).mpr moves.ready
  cases c with
  | submit token op =>
    have same : (u.call k (.submit token op)).arrived = u.arrived :=
      congrArg (u.drained ++ ·) (PollDriver.ready_submit k u.driver token op u.system)
    exact same ▸ List.prefix_refl _
  | cancel token => exact moved (u.driver.moves_cancel token)
  | wait bound minimum => exact moved (PollDriver.moves_wait k bound u.driver minimum u.system)
  | drain limit =>
    have same : (u.call k (.drain limit)).arrived = u.arrived := by
      show (u.drained ++ (u.driver.drain limit).1) ++ (u.driver.drain limit).2.ready
        = u.drained ++ u.driver.ready
      rw [List.append_assoc, u.driver.drain_append]
    exact same ▸ List.prefix_refl _

theorem arrived_run (u : PollUse τ κ) (calls : List (PollCall τ)) :
    u.arrived <+: (u.run k calls).arrived := by
  induction calls generalizing u with
  | nil => exact List.prefix_refl _
  | cons c calls ih => exact (arrived_call u c).trans (ih _)

/-- What holds of a driver in use at any time. -/
structure Conserves (k : Kernel κ) (u : PollUse τ κ) : Prop where
  tokens : u.submitted.Perm (u.drained.map IoCompletion.token
    ++ (u.driver.ready.map IoCompletion.token
    ++ (u.driver.pending.map PendingOp.token ++ u.driver.timers.map Timer.token)))
  inFlight : u.drained.length + u.driver.inFlight = u.submitted.length
  /-- There is nothing to cancel. -/
  absent : ∀ token ∉ u.driver.waiting, u.driver.cancel token = u.driver
  cancels : ∀ token ∈ u.driver.waiting, u.driver.Cancels token (u.driver.cancel token)
  limit : ∀ limit, (u.driver.drain limit).1.length = min limit u.driver.ready.length
  oldest : ∀ limit, (u.driver.drain limit).1 ++ (u.driver.drain limit).2.ready = u.driver.ready
  /-- What comes back later comes after it. -/
  order : ∀ calls, u.arrived <+: (u.run k calls).arrived

/-- A driver loses no operation, whatever is asked of it and whatever the system answers. -/
theorem conserved (k : Kernel κ) (s : κ) (calls : List (PollCall τ)) :
    (({ system := s } : PollUse τ κ).run k calls).Conserves k := by
  have balanced : (({ system := s } : PollUse τ κ).run k calls).Balanced :=
    balanced_run (balanced_new s) calls
  refine
    { tokens := balanced
      inFlight := ?_
      absent := fun _ => PollDriver.cancel_of_not_mem
      cancels := fun _ => PollDriver.cancels_of_mem
      limit := fun _ => List.length_take
      oldest := PollDriver.drain_append _
      order := arrived_run _ }
  rw [PollDriver.inFlight_eq, balanced.length_eq, List.length_append, List.length_map]

end PollUse

end PartitionEngine
