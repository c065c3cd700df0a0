import PartitionEngine.Proofs.Polling
import Mathlib.Order.Bounds.Defs

/-!
# A wait sleeps until the next timer is due

A wait of a polling driver reads the clock and polls, round after round.  A system can keep a
record of both (`Kernel.watched`), and what a wait does with timers is said by that record
(`PollDriver.keeps_time`).  A timer comes back when timers are fired at a reading that reaches its
deadline, and not before.  A poll takes the least number of milliseconds that reaches the nearest
deadline, so a sleep that is not cut short ends when a timer is due.  A wait ends with fewer
operations than it waits for only if nothing is left that could become ready.

Nothing is asked of the clock: it may go back.
-/

namespace PartitionEngine

/-- What a driver sees of time. -/
inductive Sight where
  | clock (reading : Nat)
  | poll (limit : Option Nat)

variable {τ κ : Type}

/-- The system with a record of what was seen of time. -/
def Kernel.watched (k : Kernel κ) : Kernel (κ × List Sight) where
  now u := ((k.now u.1).1, (k.now u.1).2, u.2 ++ [.clock (k.now u.1).1])
  attempt op connecting u :=
    ((k.attempt op connecting u.1).1, (k.attempt op connecting u.1).2, u.2)
  poll interests limit u :=
    ((k.poll interests limit u.1).1, (k.poll interests limit u.1).2, u.2 ++ [.poll limit])

/-- The readings that timers are fired at.  The limit of a poll is taken at a second one. -/
def firings : List Sight → List Nat
  | [] => []
  | .poll _ :: seen => firings seen
  | .clock fired :: .clock _ :: seen => fired :: firings seen
  | .clock fired :: seen => fired :: firings seen

/-- The limits of the polls. -/
def limits (seen : List Sight) : List (Option Nat) :=
  seen.filterMap fun
    | .poll limit => some limit
    | .clock _ => none

/-- The completion of a timer that is due. -/
def Timer.expired (t : Timer τ) : IoCompletion τ := { token := t.token, result := 0 }

/-- Whether a reading reaches the deadline. -/
def Timer.isDue (t : Timer τ) (readings : List Nat) : Bool :=
  readings.any fun reading => t.deadline ≤ reading

theorem Timer.isDue_append (t : Timer τ) (readings later : List Nat) :
    t.isDue (readings ++ later) = (t.isDue readings || t.isDue later) := List.any_append

namespace PollDriver

variable {k : Kernel κ} {d d' d'' : PollDriver τ} {timers : List (Timer τ)}
  {minimum : Nat} {looks seen : List Sight} {limit : Option Nat}

/-! ## Timers that are due -/

def due (timers : List (Timer τ)) (readings : List Nat) : List (Timer τ) :=
  timers.filter fun t => t.isDue readings

def notDue (timers : List (Timer τ)) (readings : List Nat) : List (Timer τ) :=
  timers.filter fun t => !t.isDue readings

theorem notDue_append (timers : List (Timer τ)) (readings later : List Nat) :
    notDue timers (readings ++ later) = notDue (notDue timers readings) later := by
  simp [notDue, Timer.isDue_append, List.filter_filter, Bool.and_comm]

/-- A timer that is due is so at first, or later. -/
theorem perm_due_append (timers : List (Timer τ)) (readings later : List Nat) :
    (due timers readings ++ due (notDue timers readings) later).Perm
      (due timers (readings ++ later)) := by
  have split := List.filter_append_perm (fun t => t.isDue readings)
    (due timers (readings ++ later))
  have first : ((due timers (readings ++ later)).filter fun t => t.isDue readings)
      = due timers readings := by
    simp only [due, Timer.isDue_append, List.filter_filter]
    exact List.filter_congr fun t _ => by cases t.isDue readings <;> rfl
  have second : ((due timers (readings ++ later)).filter fun t => !t.isDue readings)
      = due (notDue timers readings) later := by
    simp [due, notDue, Timer.isDue_append, List.filter_filter, Bool.and_or_distrib_left,
      Bool.and_comm]
  rwa [first, second] at split

/-- The timers come back that are due at some readings, and operations that are pending may
do so too. -/
structure Fires (d : PollDriver τ) (readings : List Nat) (d' : PollDriver τ) : Prop where
  timers : d'.timers = notDue d.timers readings
  ready : ∃ operations : List (IoCompletion τ),
    (operations.map IoCompletion.token ++ d'.pending.map PendingOp.token).Perm
        (d.pending.map PendingOp.token)
      ∧ d'.ready.Perm (d.ready ++ (operations ++ (due d.timers readings).map Timer.expired))

theorem Fires.trans {readings later : List Nat} (h : d.Fires readings d')
    (h' : d'.Fires later d'') : d.Fires (readings ++ later) d'' := by
  obtain ⟨early, kept, ready⟩ := h.ready
  obtain ⟨late, kept', ready'⟩ := h'.ready
  rw [h.timers] at ready'
  refine ⟨by rw [h'.timers, h.timers, notDue_append], early ++ late, ?_, ?_⟩
  · rw [List.map_append, List.append_assoc]
    exact (kept'.append_left _).trans kept
  · have fired := (perm_due_append d.timers readings later).map Timer.expired
    rw [List.map_append] at fired
    calc d''.ready
      _ |>.Perm (d'.ready ++ (late ++ (due (notDue d.timers readings) later).map Timer.expired)) :=
        ready'
      _ |>.Perm ((d.ready ++ (early ++ (due d.timers readings).map Timer.expired))
          ++ (late ++ (due (notDue d.timers readings) later).map Timer.expired)) :=
        ready.append_right _
      _ |>.Perm (d.ready ++ ((early ++ late) ++ ((due d.timers readings).map Timer.expired
          ++ (due (notDue d.timers readings) later).map Timer.expired))) := by
        simp only [List.append_assoc]
        exact ((List.perm_append_comm_assoc _ _ _).append_left _).append_left _
      _ |>.Perm (d.ready ++ ((early ++ late)
          ++ (due d.timers (readings ++ later)).map Timer.expired)) :=
        (fired.append_left _).append_left _

theorem fires_progress (k : Kernel κ) (d : PollDriver τ) (s : κ) :
    d.Fires [] (d.progress k s).1 := by
  obtain ⟨operations, came⟩ := prefix_progressOps k [] d.pending d.ready s
  have kept := perm_progressOps k [] d.pending d.ready s
  rw [← came, List.map_append, List.append_assoc, List.perm_append_left_iff] at kept
  refine ⟨by simp [notDue, Timer.isDue, progress], operations, kept, .of_eq ?_⟩
  simpa [due, Timer.isDue, progress] using came.symm

theorem fires_fireTimers (d : PollDriver τ) (now : Nat) : d.Fires [now] (d.fireTimers now) := by
  refine ⟨?_, [], .refl _, .of_eq ?_⟩
  · simp [fireTimers, notDue, Timer.isDue, List.partition_eq_filter_filter, Function.comp_def]
  · simp [fireTimers, due, Timer.isDue, List.partition_eq_filter_filter, Timer.expired]

theorem fires_advance (k : Kernel κ) (d : PollDriver τ) (s : κ) :
    d.Fires [(k.now (d.progress k s).2).1] (d.advance k s).1 :=
  (fires_progress k d s).trans (fires_fireTimers _ _)

/-- Marks may be taken off operations. -/
theorem fires_nil {pending : List (PendingOp τ)}
    (kept : pending.map PendingOp.token = d.pending.map PendingOp.token) :
    d.Fires [] { d with pending } :=
  ⟨by simp [notDue, Timer.isDue], [], .of_eq kept, .of_eq (by simp [due, Timer.isDue])⟩

theorem fires_pollOnce (k : Kernel κ) (d : PollDriver τ) (limit : Option Nat) (s : κ) :
    d.Fires [] (d.pollOnce k limit s).2.1 := by
  rw [pollOnce]
  split
  · exact fires_nil (map_token_disarm _ _)
  · exact fires_nil rfl

/-! ## How long a poll takes -/

/-- A limit is the least number of milliseconds that reaches a deadline, cut short at the
longest a poll can wait.  Without timers there is none. -/
def Reaches (timers : List (Timer τ)) (now : Nat) : Option Nat → Prop
  | none => timers = []
  | some limit => ∃ least, IsLeast {ms | ∃ t ∈ timers, t.deadline ≤ now + ms * 1000000} least
      ∧ limit = min least maxTimeout

theorem reaches_nextTimeout (d : PollDriver τ) (now : Nat) :
    Reaches d.timers now (d.nextTimeout now) := by
  rw [nextTimeout]
  cases nearest : (d.timers.map Timer.deadline).min? with
  | none => exact List.map_eq_nil_iff.mp (List.min?_eq_none_iff.mp nearest)
  | some deadline =>
    obtain ⟨mem, least⟩ := List.min?_eq_some_iff.mp nearest
    obtain ⟨t, stored, rfl⟩ := List.mem_map.mp mem
    refine ⟨_, ⟨⟨t, stored, by omega⟩, ?_⟩, rfl⟩
    rintro ms ⟨t', stored', reached⟩
    have nearer := least _ (List.mem_map_of_mem stored')
    omega

/-! ## The record -/

theorem watched_tryOp (k : Kernel κ) (p : PendingOp τ) (s : κ) (seen : List Sight) :
    tryOp k.watched p (s, seen) = ((tryOp k p s).1, (tryOp k p s).2, seen) := by
  simp only [tryOp, Kernel.watched]
  rcases k.attempt p.op p.connecting s with ⟨attempt, later⟩
  cases attempt <;> rfl

theorem watched_progressOps (k : Kernel κ) (stay todo : List (PendingOp τ))
    (ready : List (IoCompletion τ)) (s : κ) (seen : List Sight) :
    progressOps k.watched stay todo ready (s, seen)
      = ((progressOps k stay todo ready s).1, (progressOps k stay todo ready s).2.1,
        (progressOps k stay todo ready s).2.2, seen) := by
  fun_induction progressOps k stay todo ready s with
  | case1 stay ready s => rw [progressOps]
  | case2 stay p todo ready s armed ih => rw [progressOps, if_pos armed, ih]
  | case3 stay p todo ready s unarmed p' s' tried ih =>
    rw [progressOps, if_neg unarmed, watched_tryOp, tried]
    exact ih
  | case4 stay p todo ready s unarmed c s' tried ih =>
    rw [progressOps, if_neg unarmed, watched_tryOp, tried]
    exact ih

theorem watched_advance {s s' : κ} (step : d.advance k s = (d', s')) (seen : List Sight) :
    ∃ fired, d.advance k.watched (s, seen) = (d', s', seen ++ [.clock fired])
      ∧ d.Fires [fired] d' := by
  refine ⟨(k.now (d.progress k s).2).1, ?_, ?_⟩
  · have watched : d.advance k.watched (s, seen) = ((d.advance k s).1, (d.advance k s).2,
        seen ++ [.clock (k.now (d.progress k s).2).1]) := by
      simp only [advance, progress, watched_progressOps]
      rfl
    rwa [step] at watched
  · have fires := fires_advance k d s
    rwa [step] at fires

theorem watched_pollOnce {s s' : κ} {result : Except Failure Unit}
    (poll : d.pollOnce k limit s = (result, d', s')) (seen : List Sight) :
    d.pollOnce k.watched limit (s, seen) = (result, d', s', seen ++ [.poll limit])
      ∧ d.Fires [] d' := by
  constructor
  · have watched : d.pollOnce k.watched limit (s, seen) = ((d.pollOnce k limit s).1,
        (d.pollOnce k limit s).2.1, (d.pollOnce k limit s).2.2, seen ++ [.poll limit]) := by
      simp only [pollOnce, Kernel.watched]
      generalize k.poll _ limit s = polled
      obtain ⟨answer, later⟩ := polled
      cases answer <;> rfl
    rwa [poll] at watched
  · have fires := fires_pollOnce k d limit s
    rwa [poll] at fires

/-- What a wait saw before its poll, since it fired timers. -/
inductive Looks (minimum : Nat) (timers : List (Timer τ)) : List Sight → Option Nat → Prop where
  | still : minimum = 0 → Looks minimum timers [] (some 0)
  | timed {now : Nat} {limit : Option Nat} :
      0 < minimum → Reaches timers now limit → Looks minimum timers [.clock now] limit

theorem watched_pollLimit {s s' : κ} (limited : d.pollLimit k minimum s = (limit, s'))
    (seen : List Sight) :
    ∃ looks, d.pollLimit k.watched minimum (s, seen) = (limit, s', seen ++ looks)
      ∧ Looks minimum d.timers looks limit := by
  by_cases none : minimum = 0
  · rw [pollLimit, if_pos none] at limited
    cases limited
    refine ⟨[], ?_, .still none⟩
    rw [pollLimit, if_pos none, List.append_nil]
  · rw [pollLimit, if_neg none] at limited
    cases limited
    refine ⟨[.clock (k.now s).1], ?_, .timed (Nat.pos_of_ne_zero none) (reaches_nextTimeout _ _)⟩
    rw [pollLimit, if_neg none]
    rfl

/-- A poll in a record is the first one, or comes after it. -/
theorem split_at_poll {quiet before after : List Sight} {limit' : Option Nat}
    (none : ∀ limit, .poll limit ∉ quiet)
    (split : quiet ++ .poll limit :: seen = before ++ .poll limit' :: after) :
    before = quiet ∧ limit' = limit
      ∨ ∃ later, before = quiet ++ .poll limit :: later
        ∧ seen = later ++ .poll limit' :: after := by
  induction quiet generalizing before with
  | nil =>
    cases before with
    | nil =>
      cases split
      exact .inl ⟨rfl, rfl⟩
    | cons e later =>
      cases split
      exact .inr ⟨later, rfl, rfl⟩
  | cons e quiet ih =>
    cases before with
    | nil =>
      cases split
      exact absurd (List.mem_cons_self ..) (none limit')
    | cons e' before =>
      obtain ⟨rfl, tail⟩ := List.cons_eq_cons.mp split
      have none' (limit : Option Nat) : .poll limit ∉ quiet :=
        fun mem => none limit (List.mem_cons_of_mem _ mem)
      rcases ih none' tail with ⟨rfl, same⟩ | ⟨later, rfl, last⟩
      · exact .inl ⟨rfl, same⟩
      · exact .inr ⟨later, rfl, last⟩

/-! ## The wait -/

/-- What a wait polls with, after what it saw. -/
structure Lasts (minimum : Nat) (timers : List (Timer τ)) (before : List Sight)
    (limit : Option Nat) : Prop where
  nothing : minimum = 0 → limit = some 0
  something : 0 < minimum → ∃ early now, before = early ++ [.clock now]
    ∧ Reaches (notDue timers (firings before)) now limit

/-- A wait ends when it has enough, or when nothing is left that could become ready, and not
before. -/
structure Ends (minimum : Nat) (result : Option (Except Failure Nat)) (d' : PollDriver τ) :
    Prop where
  ended : ∀ n, result = some (.ok n) → n = d'.ready.length
    ∧ (minimum ≤ n ∨ d'.timers = [] ∧ ∀ p ∈ d'.pending, p.armed = false)
  goes_on : result = none → 0 < minimum → d'.ready.length < minimum
    ∧ (d'.timers ≠ [] ∨ ∃ p ∈ d'.pending, p.armed = true)

/-- What a wait does, by what it saw. -/
structure Paced (d : PollDriver τ) (minimum : Nat) (seen : List Sight)
    (result : Option (Except Failure Nat)) (d' : PollDriver τ) : Prop where
  /-- The timers come back with result 0 that are due when timers are fired.  The other timers
  stay. -/
  fires : d.Fires (firings seen) d'
  polls : ∀ before limit after, seen = before ++ .poll limit :: after →
    Lasts minimum d.timers before limit
  ends : Ends minimum result d'

theorem Looks.firings_eq (h : Looks minimum timers looks limit) (fired : Nat) :
    firings (.clock fired :: looks) = [fired] := by
  cases h <;> rfl

theorem Looks.firings_poll (h : Looks minimum timers looks limit) (fired : Nat) :
    firings ((.clock fired :: looks) ++ .poll limit :: seen) = fired :: firings seen := by
  cases h <;> rfl

theorem Looks.eq_nil (h : Looks minimum timers looks none) : timers = [] := by
  cases h with
  | timed _ reaches => exact reaches

theorem Looks.ne_nil {ms : Nat} (h : Looks minimum timers looks (some ms)) (some : 0 < minimum) :
    timers ≠ [] := by
  cases h with
  | still none => exact absurd none (Nat.ne_of_gt some)
  | timed _ reaches =>
    obtain ⟨_, ⟨⟨t, stored, -⟩, -⟩, -⟩ := reaches
    exact List.ne_nil_of_mem stored

theorem Looks.quiet (h : Looks minimum timers looks limit) (fired : Nat) (limit' : Option Nat) :
    .poll limit' ∉ Sight.clock fired :: looks := by
  cases h <;> simp

/-- The poll of a round lasts as it is to. -/
theorem Looks.lasts {fired : Nat} (h : Looks minimum (notDue timers [fired]) looks limit) :
    Lasts minimum timers (.clock fired :: looks) limit where
  nothing none := by
    cases h with
    | still => rfl
    | timed some => exact absurd none (Nat.ne_of_gt some)
  something some := by
    have fires := h.firings_eq fired
    cases h with
    | still none => exact absurd none (Nat.ne_of_gt some)
    | timed _ reaches => exact ⟨[.clock fired], _, rfl, by rwa [fires]⟩

/-- A later poll lasts as it would without the round. -/
theorem Lasts.round {fired : Nat} {before : List Sight} {limit' : Option Nat}
    (h : Lasts minimum (notDue timers [fired]) before limit')
    (looked : Looks minimum (notDue timers [fired]) looks limit) :
    Lasts minimum timers ((.clock fired :: looks) ++ .poll limit :: before) limit' where
  nothing := h.nothing
  something some := by
    obtain ⟨early, now, rfl, reaches⟩ := h.something some
    refine ⟨(.clock fired :: looks) ++ .poll limit :: early, now, by simp, ?_⟩
    rw [looked.firings_poll]
    exact (notDue_append timers [fired] _).symm ▸ reaches

theorem ends_of_enough {polled : Bool} (enough : d.isEnough minimum polled = true) :
    Ends minimum (some (.ok d.ready.length)) d where
  ended := by
    rintro n ⟨⟩
    simp only [isEnough, Bool.and_eq_true, decide_eq_true_eq] at enough
    exact ⟨rfl, .inl enough.1⟩
  goes_on := nofun

theorem anyArmed_iff (d : PollDriver τ) :
    d.anyArmed = true ↔ ∃ p ∈ d.pending, p.armed = true := List.any_eq_true

theorem Looks.ends_of_idle (h : Looks minimum d.timers looks limit)
    (idle : (limit.isNone && !d.anyArmed) = true) :
    Ends minimum (some (.ok d.ready.length)) d where
  ended := by
    rintro n ⟨⟩
    rw [Bool.and_eq_true, Option.isNone_iff_eq_none, Bool.not_eq_true', Bool.eq_false_iff,
      Ne, anyArmed_iff] at idle
    obtain ⟨rfl, unarmed⟩ := idle
    refine ⟨rfl, .inr ⟨h.eq_nil, fun p stored => ?_⟩⟩
    exact Bool.eq_false_iff.mpr fun armed => unarmed ⟨p, stored, armed⟩
  goes_on := nofun

theorem Looks.ends_of_busy {polled : Bool} (h : Looks minimum d.timers looks limit)
    (short : ¬ d.isEnough minimum polled = true)
    (busy : ¬ (limit.isNone && !d.anyArmed) = true) : Ends minimum none d where
  ended := nofun
  goes_on _ some := by
    simp only [isEnough, some, decide_true, Bool.true_or, Bool.and_true, decide_eq_true_eq,
      Nat.not_le] at short
    refine ⟨short, ?_⟩
    cases limit with
    | some ms => exact .inl (h.ne_nil some)
    | none => exact .inr (d.anyArmed_iff.mp (by simpa using busy))

/-- A wait that ends before it polls. -/
theorem paced_quiet {result : Option (Except Failure Nat)} (h : d.Fires (firings seen) d')
    (quiet : ∀ limit, .poll limit ∉ seen) (ends : Ends minimum result d') :
    d.Paced minimum seen result d' where
  fires := h
  polls before limit' after split := by
    refine absurd ?_ (quiet limit')
    rw [split]
    exact List.mem_append_right _ (List.mem_cons_self ..)
  ends := ends

/-- A round, and what comes after its poll. -/
theorem Paced.round {fired : Nat} {result : Option (Except Failure Nat)} {d₁ d₂ : PollDriver τ}
    (h : d.Fires [fired] d₁) (looked : Looks minimum d₁.timers looks limit)
    (polled : d₁.Fires [] d₂) (rest : d₂.Paced minimum seen result d') :
    d.Paced minimum ((.clock fired :: looks) ++ .poll limit :: seen) result d' where
  fires := by
    rw [looked.firings_poll]
    exact (h.trans polled).trans rest.fires
  polls before limit' after split := by
    have timers : d₂.timers = notDue d.timers [fired] := (h.trans polled).timers
    have same : d₁.timers = notDue d.timers [fired] := h.timers
    rw [same] at looked
    rcases split_at_poll (looked.quiet fired) split with ⟨rfl, rfl⟩ | ⟨later, rfl, tail⟩
    · exact looked.lasts
    · have lasts := rest.polls later limit' after tail
      rw [timers] at lasts
      exact lasts.round looked
  ends := rest.ends

theorem waitPolls_of_short {bound : Nat} {polled : Bool} {s s₁ s₂ : κ}
    (step : d.advance k s = (d', s₁)) (short : ¬ d'.isEnough minimum polled = true)
    (limited : d'.pollLimit k minimum s₁ = (limit, s₂)) :
    waitPolls k minimum bound polled d s
      = if limit.isNone && !d'.anyArmed then (some (.ok d'.ready.length), d', s₂)
        else match bound with
          | 0 => (none, d', s₂)
          | bound + 1 =>
            match d'.pollOnce k limit s₂ with
            | (.ok (), d, s) => waitPolls k minimum bound true d s
            | (.error e, d, s) => (some (.error e), d, s) := by
  obtain ⟨rfl, rfl⟩ := Prod.ext_iff.mp limited
  rw [waitPolls, step]
  exact if_neg short

/-- A wait is not changed by the record, and keeps its pace.  The induction is on its rounds. -/
theorem watched_waitPolls (k : Kernel κ) (minimum bound : Nat) (polled : Bool) (d : PollDriver τ)
    (s : κ) (seen : List Sight) :
    ∃ new, waitPolls k.watched minimum bound polled d (s, seen)
        = ((waitPolls k minimum bound polled d s).1, (waitPolls k minimum bound polled d s).2.1,
          (waitPolls k minimum bound polled d s).2.2, seen ++ new)
      ∧ d.Paced minimum new (waitPolls k minimum bound polled d s).1
          (waitPolls k minimum bound polled d s).2.1 := by
  fun_induction waitPolls k minimum bound polled d s generalizing seen with
  | case1 bound polled d s d₁ s₁ step enough =>
    obtain ⟨fired, advanced, fires⟩ := watched_advance step seen
    refine ⟨[.clock fired], ?_, paced_quiet fires (by simp) (ends_of_enough enough)⟩
    rw [waitPolls, advanced]
    exact if_pos enough
  | case2 bound polled d s d₁ s₁ step short limit s₂ limited idle =>
    obtain ⟨fired, advanced, fires⟩ := watched_advance step seen
    obtain ⟨looks, looked, round⟩ := watched_pollLimit limited (seen ++ [.clock fired])
    refine ⟨.clock fired :: looks, ?_,
      paced_quiet (by rwa [round.firings_eq]) (round.quiet fired) (round.ends_of_idle idle)⟩
    rw [waitPolls_of_short advanced short looked, if_pos idle, List.append_assoc]
    rfl
  | case3 polled d s d₁ s₁ step short limit s₂ limited busy =>
    obtain ⟨fired, advanced, fires⟩ := watched_advance step seen
    obtain ⟨looks, looked, round⟩ := watched_pollLimit limited (seen ++ [.clock fired])
    refine ⟨.clock fired :: looks, ?_,
      paced_quiet (by rwa [round.firings_eq]) (round.quiet fired) (round.ends_of_busy short busy)⟩
    rw [waitPolls_of_short advanced short looked, if_neg busy, List.append_assoc]
    rfl
  | case4 polled d s d₁ s₁ step short limit s₂ limited busy bound d₂ s₃ poll ih =>
    obtain ⟨fired, advanced, fires⟩ := watched_advance step seen
    obtain ⟨looks, looked, round⟩ := watched_pollLimit limited (seen ++ [.clock fired])
    obtain ⟨slept, moved⟩ := watched_pollOnce poll (seen ++ [.clock fired] ++ looks)
    obtain ⟨new, rest, paced⟩ := ih (seen ++ [.clock fired] ++ looks ++ [.poll limit])
    refine ⟨(.clock fired :: looks) ++ .poll limit :: new, ?_, .round fires round moved paced⟩
    rw [waitPolls_of_short advanced short looked, if_neg busy, slept]
    dsimp only
    rw [rest]
    simp
  | case5 polled d s d₁ s₁ step short limit s₂ limited busy bound e d₂ s₃ poll =>
    obtain ⟨fired, advanced, fires⟩ := watched_advance step seen
    obtain ⟨looks, looked, round⟩ := watched_pollLimit limited (seen ++ [.clock fired])
    obtain ⟨slept, moved⟩ := watched_pollOnce poll (seen ++ [.clock fired] ++ looks)
    have failed : d₂.Paced minimum [] (some (.error e)) d₂ :=
      paced_quiet (fires_nil rfl) (by simp) ⟨nofun, nofun⟩
    refine ⟨(.clock fired :: looks) ++ [.poll limit], ?_, .round fires round moved failed⟩
    rw [waitPolls_of_short advanced short looked, if_neg busy, slept]
    simp

/-- A wait that ended does not depend on its bound. -/
theorem waitPolls_add (k : Kernel κ) (minimum bound : Nat) (polled : Bool) (d : PollDriver τ)
    (s : κ) (ended : (waitPolls k minimum bound polled d s).1 ≠ none) (more : Nat) :
    waitPolls k minimum (bound + more) polled d s = waitPolls k minimum bound polled d s := by
  fun_induction waitPolls k minimum bound polled d s with
  | case1 bound polled d s d₁ s₁ step enough =>
    rw [waitPolls, step]
    exact if_pos enough
  | case2 bound polled d s d₁ s₁ step short limit s₂ limited idle =>
    rw [waitPolls_of_short step short limited, if_pos idle]
  | case3 polled d s d₁ s₁ step short limit s₂ limited busy => exact absurd rfl ended
  | case4 polled d s d₁ s₁ step short limit s₂ limited busy bound d₂ s₃ poll ih =>
    rw [Nat.succ_add, waitPolls_of_short step short limited, if_neg busy, poll]
    exact ih ended
  | case5 polled d s d₁ s₁ step short limit s₂ limited busy bound e d₂ s₃ poll =>
    rw [Nat.succ_add, waitPolls_of_short step short limited, if_neg busy, poll]

/-! ## What a wait keeps -/

/-- A wait that was watched. -/
structure Watch (τ κ : Type) where
  result : Option (Except Failure Nat)
  driver : PollDriver τ
  system : κ
  seen : List Sight

def watch (k : Kernel κ) (bound : Nat) (d : PollDriver τ) (minimum : Nat) (s : κ) : Watch τ κ :=
  let (result, driver, system, seen) := d.wait k.watched bound minimum (s, [])
  { result, driver, system, seen }

/-- What holds of a wait by what was seen of time. -/
structure Watch.KeepsTime (w : Watch τ κ) (d : PollDriver τ) (minimum bound : Nat) : Prop where
  paced : d.Paced minimum w.seen w.result w.driver
  /-- A sleep that was not cut short ends when a timer is due. -/
  awake : ∀ before now ms reading after,
    w.seen = before ++ .clock now :: .poll (some ms) :: .clock reading :: after → 0 < minimum →
    ms < maxTimeout → now + ms * 1000000 ≤ reading →
    ∃ t ∈ notDue d.timers (firings (before ++ [.clock now])), t.deadline ≤ reading
  /-- A wait for nothing polls once, and does not sleep. -/
  once : minimum = 0 → bound ≠ 0 → w.result ≠ none ∧ limits w.seen = [some 0]

theorem waitPolls_zero (k : Kernel κ) (bound : Nat) (d : PollDriver τ) (s : κ) :
    waitPolls k 0 bound true d s
      = (some (.ok (d.advance k s).1.ready.length), (d.advance k s).1, (d.advance k s).2) := by
  rw [waitPolls]
  exact if_pos rfl

theorem watch_zero (k : Kernel κ) (bound : Nat) (d : PollDriver τ) (s : κ) :
    (d.watch k (bound + 1) 0 s).result ≠ none
      ∧ limits (d.watch k (bound + 1) 0 s).seen = [some 0] := by
  rcases step : d.advance k s with ⟨d₁, s₁⟩
  rcases poll : d₁.pollOnce k (some 0) s₁ with ⟨result, d₂, s₂⟩
  obtain ⟨fired, advanced, -⟩ := watched_advance step []
  obtain ⟨slept, -⟩ := watched_pollOnce poll ([] ++ [.clock fired])
  have short : ¬ d₁.isEnough 0 false = true := by simp [isEnough]
  rw [watch, wait, waitPolls_of_short advanced short rfl, slept]
  cases result with
  | error e => exact ⟨nofun, rfl⟩
  | ok _ =>
    rcases step' : d₂.advance k s₂ with ⟨d₃, s₃⟩
    obtain ⟨fired', advanced', -⟩ :=
      watched_advance step' ([] ++ [.clock fired] ++ [.poll (some 0)])
    simp only [waitPolls_zero, advanced']
    exact ⟨nofun, rfl⟩

/-- A full sleep reaches the deadline its limit was taken for. -/
theorem Lasts.reached {before : List Sight} {now ms reading : Nat}
    (h : Lasts minimum timers (before ++ [.clock now]) (some ms)) (some : 0 < minimum)
    (uncut : ms < maxTimeout) (slept : now + ms * 1000000 ≤ reading) :
    ∃ t ∈ notDue timers (firings (before ++ [.clock now])), t.deadline ≤ reading := by
  obtain ⟨early, now', last, least, ⟨⟨t, stays, reached⟩, -⟩, cut⟩ := h.something some
  obtain ⟨-, present⟩ := List.append_inj' last rfl
  cases present
  have whole : ms = least := by omega
  exact ⟨t, stays, by omega⟩

/-- A wait keeps time, whatever the clock shows and however many rounds the wait has. -/
theorem keeps_time (k : Kernel κ) (d : PollDriver τ) (bound minimum : Nat) (s : κ) :
    let w := d.watch k bound minimum s
    d.wait k bound minimum s = (w.result, w.driver, w.system)
      ∧ (w.result ≠ none → ∀ more, d.wait k (bound + more) minimum s = d.wait k bound minimum s)
      ∧ w.KeepsTime d minimum bound := by
  obtain ⟨seen, watched, paced⟩ := watched_waitPolls k minimum bound false d s []
  have same : d.watch k bound minimum s = {
      result := (d.wait k bound minimum s).1, driver := (d.wait k bound minimum s).2.1
      system := (d.wait k bound minimum s).2.2, seen } := by
    rw [watch, wait, watched]
    rfl
  have once : minimum = 0 → bound ≠ 0 → (d.watch k bound minimum s).result ≠ none
      ∧ limits (d.watch k bound minimum s).seen = [some 0] := by
    rintro rfl some
    obtain ⟨bound, rfl⟩ := Nat.exists_eq_succ_of_ne_zero some
    exact watch_zero k bound d s
  dsimp only
  rw [same] at once ⊢
  refine ⟨rfl, waitPolls_add k minimum bound false d s, paced, ?_, once⟩
  intro before now ms reading after split some uncut slept
  rw [← List.singleton_append, ← List.append_assoc] at split
  exact (paced.polls _ _ _ split).reached some uncut slept

end PollDriver

end PartitionEngine
