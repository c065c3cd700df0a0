import PartitionEngine.Proofs.Moves
import PartitionEngine.Proofs.Steps

/-!
# Runs of a reactor

A run of a reactor interleaves its moves with everything around it: the driver
completes operations in any order and refuses what it likes, and other threads
change the host and what the reactors share.

Every account is in order at every moment that can be reached (`Reachable.sound`).
`operations_counted` reads off it that a channel counts its operations exactly,
and `channels_get_on` that no channel waits for something that is not on its way.
The latter needs settings that no handler panics over; with others a channel may be
stuck (`open_channel_stuck`).

The loop is held to two bounds.  A key has 32 bits for a slot, and a channel eight
for its timers.
-/

namespace PartitionEngine

namespace Moment

variable {σ : Type}

/-- The number of operations of a channel for a purpose that were not handled. -/
def outstanding (m : Moment σ) (p : Purpose) (key : SlotKey) : Nat :=
  m.turn.reactor.driver.outstanding m.batch p key

/-- The number of timers of a channel that were not handled. -/
def timersOutstanding (m : Moment σ) (key : SlotKey) : Nat :=
  m.turn.reactor.driver.timersOutstanding m.batch key

/-- The slots can be named, and the timers of each channel counted. -/
structure WithinLimits (m : Moment σ) : Prop where
  room : m.turn.reactor.channels.slots.length < Slab.maxSlots
  few : ∀ key, m.timersOutstanding key ≤ maxTimers

/-- The moment with another driver. -/
def withDriver (m : Moment σ) (driver : CompletionQueue) : Moment σ :=
  { m with turn := { m.turn with reactor := { m.turn.reactor with driver } } }

/-- What may happen at a moment.  If drivers are `timely`, a timer comes back with
0 unless it was canceled. -/
inductive Step (timely : Prop) : Moment σ → Moment σ → Prop where
  /-- The driver completes an operation that is under way. -/
  | deliver (m : Moment σ) (c : IoCompletion Token)
      (pending : (m.turn.reactor.driver.pending? c.token).isSome = true)
      (prompt : timely → c.token.isTimer = true → m.turn.reactor.driver.Uncanceled c.token →
        c.result = 0) :
      Step timely m (m.withDriver (m.turn.reactor.driver.complete c))
  /-- The driver is about to refuse submissions, to fail a wait, to complete sends
  at once, or to leave canceled operations pending. -/
  | arrange (m : Moment σ) (refusals : List (IoKind × Int)) (waitFault : Option (Nat × Int))
      (keepsCanceled : Bool) (autosend : Option Nat) :
      Step timely m (m.withDriver
        { m.turn.reactor.driver with refusals, waitFault, keepsCanceled, autosend })
  /-- Other threads change the host and what the reactors share. -/
  | interfere (m : Moment σ) (host : Host) (shared : Shared σ) :
      Step timely m { m with turn := { m.turn with host, shared } }
  /-- The reactor goes on. -/
  | move {m m' : Moment σ} {handed : Option Handover} (move : Move m handed m') : Step timely m m'

/-- A reactor that has done nothing. -/
structure Fresh (t : Turn σ) : Prop where
  channels : t.reactor.channels = {}
  pending : t.reactor.driver.pending = []
  ready : t.reactor.driver.ready = []

/-- The moments of the runs that stay within limits and have settings of a kind. -/
inductive Reachable (timely : Prop) (kind : Config → Prop) : Moment σ → Prop where
  | start (t : Turn σ) (fresh : Fresh t) (settings : kind t.config) :
      Reachable timely kind ⟨t.armWakeup.armAccept, []⟩
  | step {m m' : Moment σ} (reached : Reachable timely kind m) (limits : m.WithinLimits)
      (step : Step timely m m') (settings : kind m'.turn.config) : Reachable timely kind m'

variable {timely : Prop} {kind : Config → Prop} {m m' : Moment σ}

/-! ## Every account is in order -/

theorem Fresh.sound {ideal : Prop} {t : Turn σ} (fresh : Fresh t) : t.Sound ideal [] where
  exact := fresh.channels ▸ Slab.freeExact_empty
  order key :=
    { account := fun c found => by
        rw [Turn.channel?, fresh.channels] at found
        cases found
      vacant := fun _ p _ => by
        simp [CompletionQueue.outstanding, CompletionQueue.unhandled, fresh.pending, fresh.ready] }

/-- A completion that is delivered stays on its way.  A pause of a channel that
connects was not canceled, so it is delivered with 0. -/
theorem agrees_complete {q : CompletionQueue} {batch : List (IoCompletion Token)}
    {c : IoCompletion Token} (pending : (q.pending? c.token).isSome = true)
    (prompt : timely → c.token.isTimer = true → q.Uncanceled c.token → c.result = 0)
    (key : SlotKey) : Agrees timely key batch q batch (q.complete c) where
  outstanding p _ := CompletionQueue.outstanding_complete pending p key
  pauses t none sound := by
    refine ⟨(CompletionQueue.brokenPauses_complete ?_).trans none,
      fun attempt => (sound attempt).complete c⟩
    intro own
    simp only [Token.isOf, Bool.and_eq_true, decide_eq_true_eq] at own
    have token : c.token = .ofChannel .retryTimer key c.token.attempt := by
      rw [← own.2]
      exact congrArg (fun kind => { c.token with kind }) own.1
    refine prompt t ?_ (token ▸ sound c.token.attempt)
    simp [Token.isTimer, own.1]

theorem reactor_of_popTask {t t' : Turn σ} {task : Option Task}
    (popped : t.popTask = (task, t')) : t'.reactor = t.reactor := by
  rw [eq_of_popTask popped]

section

variable {ideal : Prop} (able : ideal → m.turn.config.Bearable)

include able

theorem Move.sound {handed : Option Handover} (move : Move m handed m') (limits : m.WithinLimits)
    (h : m.turn.Sound ideal m.batch) : m'.turn.Sound ideal m'.batch := by
  cases move with
  | wait t =>
    refine ⟨h.exact, fun key => (h.order key).agrees rfl ?_⟩
    simp only [Turn.endWait]
    rw [CompletionQueue.snd_endWait]
    exact ⟨fun _ _ => rfl, fun _ none sound => ⟨none, sound⟩⟩
  | mark t f keep => exact h.of_eq rfl rfl
  | take t limit =>
    refine ⟨h.exact, fun key => (h.order key).agrees rfl ⟨?_, ?_⟩⟩
    · intro p _
      exact CompletionQueue.outstanding_drain limit p key
    · intro _ none sound
      exact ⟨(CompletionQueue.brokenPauses_drain limit key).trans none, sound⟩
  | handle t c rest => exact h.onCompletion limits.room limits.few able
  | run _ task t popped =>
    have same := reactor_of_popTask popped
    have counted : Turn.Sound ideal [] (t.count fun s => { s with tasks := s.tasks + 1 }) :=
      h.of_eq (congrArg Reactor.channels same) (congrArg Reactor.driver same)
    refine counted.onTask ?_ ?_ ?_ task
    · exact same ▸ limits.room
    · intro key
      exact same ▸ limits.few key
    · intro holds
      have bearable := able holds
      rwa [eq_of_popTask popped]

theorem Step.sound (prompt : ideal → timely) (step : Step timely m m') (limits : m.WithinLimits)
    (h : m.turn.Sound ideal m.batch) : m'.turn.Sound ideal m'.batch := by
  cases step with
  | deliver c pending punctual =>
    exact ⟨h.exact, fun key => (h.order key).agrees rfl
      (agrees_complete pending (fun holds => punctual (prompt holds)) key)⟩
  | arrange =>
    exact ⟨h.exact, fun key => (h.order key).agrees rfl
      ⟨fun _ _ => rfl, fun _ none sound => ⟨none, sound⟩⟩⟩
  | interfere host shared => exact h.of_eq rfl rfl
  | move move => exact move.sound able limits h

end

theorem Reachable.settings (reached : Reachable timely kind m) : kind m.turn.config := by
  cases reached with
  | start t _ settings =>
    have acts (key : SlotKey) : Turn.Acts .all key t t.armWakeup.armAccept :=
      (Turn.acts_armWakeup t key trivial).trans (Turn.acts_armAccept _ key trivial)
    exact (acts ⟨0, 0⟩).config ▸ settings
  | step _ _ _ settings => exact settings

/-- At every moment of a run every account is in order.  An ideal run is timely and has
settings that can be borne. -/
theorem Reachable.sound {ideal : Prop} (reached : Reachable timely kind m)
    (prompt : ideal → timely) (able : ∀ config, ideal → kind config → config.Bearable) :
    m.turn.Sound ideal m.batch := by
  induction reached with
  | start t fresh =>
    have woken : t.armWakeup.Sound ideal [] :=
      fresh.sound.of_forall fun key => Turn.acts_armWakeup t key trivial
    exact woken.of_forall fun key => Turn.acts_armAccept _ key trivial
  | step reached limits step _ ih =>
    exact step.sound (fun holds => able _ holds reached.settings) prompt limits ih

/-! ## A run

A reactor accepts a connection, and its channel receives.
-/

/-- A reactor with a listener, alone in its engine. -/
def lone : Turn Unit where
  host := {}
  shared :=
    { config := { reactorCount := 1 }, registry := .empty, links := { reactorCount := 1 },
      reactors := [.new 0 {} .blocking] }
  reactor :=
    { index := 0, listener := some 3, localAddress := default, dispatcher := .new .empty 64 }

/-- A connection came in. -/
def incoming : IoCompletion Token where
  token := .plain .accept
  result := 7
  remote := some default

/-- The lone reactor after the driver has completed its accept. -/
def offered : Moment Unit :=
  withDriver ⟨lone.armWakeup.armAccept, []⟩
    (lone.armWakeup.armAccept.reactor.driver.complete incoming)

/-- The lone reactor with the connection. -/
def accepted : Moment Unit :=
  ⟨{ offered.turn with reactor := { offered.turn.reactor with
      driver := (offered.turn.reactor.driver.drain 1).2 } }.onCompletion incoming, []⟩

/-- There are no more timers of a channel than operations. -/
theorem timersOutstanding_le (m : Moment σ) (key : SlotKey) :
    m.timersOutstanding key ≤ 2 * (m.turn.reactor.driver.unhandled m.batch).length := by
  have timeouts : m.outstanding .connectTimeout key ≤ _ := List.countP_le_length
  have pauses : m.outstanding .retryTimer key ≤ _ := List.countP_le_length
  simp only [outstanding] at timeouts pauses
  simp only [timersOutstanding, CompletionQueue.timersOutstanding]
  omega

theorem withinLimits_of_length {m : Moment σ}
    (room : m.turn.reactor.channels.slots.length < Slab.maxSlots)
    (short : 2 * (m.turn.reactor.driver.unhandled m.batch).length ≤ maxTimers) :
    m.WithinLimits :=
  ⟨room, fun key => Nat.le_trans (m.timersOutstanding_le key) short⟩

theorem reachable_accepted (timely : Prop) (settings : kind { reactorCount := 1 }) :
    Reachable timely kind accepted := by
  have started : Reachable timely kind ⟨lone.armWakeup.armAccept, []⟩ :=
    .start lone ⟨rfl, rfl, rfl⟩ settings
  have delivered : Reachable timely kind offered :=
    started.step (withinLimits_of_length (by decide) (by decide))
      (.deliver _ incoming rfl fun _ timer => by cases timer) settings
  have taken := delivered.step (withinLimits_of_length (by decide) (by decide))
    (.move (.take _ 1)) settings
  exact taken.step (withinLimits_of_length (by decide) (by decide))
    (.move (.handle _ incoming [])) settings

/-! ## What channels count -/

/-- A channel notes exactly the operations it has on its way.  What comes back finds
its channel, for a key without a channel has nothing on its way, and a channel
leaves when the last operation has come back. -/
theorem operations_counted (reached : Reachable timely kind m)
    (few : ∀ key, m.timersOutstanding key ≤ maxTimers) :
    (∀ key c, m.turn.channel? key = some c →
      m.outstanding .recv key = c.recvInFlight.toNat
      ∧ m.outstanding .send key = c.writes.inFlight.toNat
      ∧ m.outstanding .connect key = c.connectInFlight.toNat
      ∧ m.outstanding .connectTimeout key + m.outstanding .retryTimer key = c.timers.toNat
      ∧ c.opsInFlight = m.outstanding .recv key + m.outstanding .send key
        + m.outstanding .connect key
        + (m.outstanding .connectTimeout key + m.outstanding .retryTimer key))
    ∧ (∀ key, m.turn.channel? key = none → ∀ p, p.isChannel = true → m.outstanding p key = 0)
    ∧ (∀ token ∈ m.turn.reactor.driver.unhandled m.batch, ∀ p, token.purpose? = some p →
      p.isChannel = true → ∃ c, m.turn.channel? token.key = some c ∧ 0 < c.opsInFlight)
    ∧ ∀ m', m.WithinLimits → Step timely m m' → ∀ key c, m.turn.channel? key = some c →
      m'.turn.channel? key = none → ∀ p, p.isChannel = true → m'.outstanding p key = 0 := by
  have sound : m.turn.Sound False m.batch := reached.sound False.elim fun _ => False.elim
  have order := sound.order
  refine ⟨?_, fun key => (order key).vacant, ?_, fun m' limits step key _ _ =>
    ((step.sound False.elim False.elim limits sound).order key).vacant⟩
  · intro key c found
    have counted := ((order key).account c found).counted
    exact ⟨counted.recv, counted.send, counted.connect, (counted.timers (few key)).symm,
      counted.opsInFlight (few key)⟩
  · intro token mem p purpose own
    have one : m.outstanding p token.key ≠ 0 := fun none =>
      List.countP_eq_zero.mp none token mem (Token.isOf_of_purpose? purpose)
    cases found : m.turn.channel? token.key with
    | none => exact absurd ((order token.key).vacant found p own) one
    | some c =>
      refine ⟨c, rfl, Nat.pos_of_ne_zero fun idle => one ?_⟩
      have counted := ((order token.key).account c found).counted
      exact counted.outstanding_eq_zero (few token.key) idle own

/-- The channel of the connection counts its receive. -/
theorem accepted_counted :
    (∀ key, accepted.timersOutstanding key ≤ maxTimers)
    ∧ ∃ c, accepted.turn.channel? ⟨0, 0⟩ = some c ∧ c.opsInFlight = 1
      ∧ accepted.outstanding .recv ⟨0, 0⟩ = c.recvInFlight.toNat := by
  have few (key : SlotKey) : accepted.timersOutstanding key ≤ maxTimers :=
    (withinLimits_of_length (by decide) (by decide)).few key
  have reached : Reachable False (fun _ => True) accepted := reachable_accepted False trivial
  obtain ⟨counts, -⟩ := operations_counted reached few
  exact ⟨few, _, rfl, by decide, (counts ⟨0, 0⟩ _ rfl).1⟩

/-! ## No channel is stuck -/

/-- With settings that can be borne, a channel that connects has either an attempt or the
pause before one on its way.  An open channel has a receive on its way, and a send if bytes
wait.  A closing channel has something on its way. -/
theorem channels_get_on (reached : Reachable True Config.Bearable m) {key : SlotKey} {c : Channel}
    (found : m.turn.channel? key = some c) :
    (c.state = .connecting →
      (m.outstanding .connect key = 1 ∧ m.outstanding .retryTimer key = 0)
      ∨ (m.outstanding .connect key = 0 ∧ m.outstanding .retryTimer key = 1))
    ∧ (c.state = .open → m.outstanding .recv key = 1
      ∧ (c.writes.isEmpty = false → m.outstanding .send key = 1))
    ∧ (c.state = .closing → ∃ p, p.isChannel = true ∧ 0 < m.outstanding p key)
    ∧ c.state ≠ .closed := by
  have sound : m.turn.Sound True m.batch := reached.sound id fun _ _ bearable => bearable
  have account := (sound.order key).account c found
  refine ⟨?_, fun isOpen => ⟨?_, ?_⟩, ?_,
    account.present⟩
  · intro connecting
    have one := (account.attempting connecting).trying trivial (by decide)
    simp only [CompletionQueue.attemptsOutstanding] at one
    simp only [outstanding]
    omega
  · exact account.counted.recv.trans (by rw [account.receiving trivial (by decide) isOpen]; rfl)
  · intro waits
    exact account.counted.send.trans (by rw [account.sending trivial (by decide) isOpen waits]; rfl)
  · intro closing
    have busy := account.lingering (by decide) closing
    by_contra none
    have zero (p : Purpose) (own : p.isChannel = true) : m.outstanding p key = 0 := by
      by_contra some
      exact none ⟨p, own, Nat.pos_of_ne_zero some⟩
    have total := account.counted.opsInFlight (account.few (by rw [closing]; decide))
    have recv := zero .recv rfl
    have send := zero .send rfl
    have connect := zero .connect rfl
    have timeout := zero .connectTimeout rfl
    have retry := zero .retryTimer rfl
    simp only [outstanding] at recv send connect timeout retry
    omega

/-- The channel of the connection receives. -/
theorem accepted_gets_on :
    Reachable True Config.Bearable accepted
    ∧ ∃ c, accepted.turn.channel? ⟨0, 0⟩ = some c ∧ c.state = .open
      ∧ accepted.outstanding .recv ⟨0, 0⟩ = 1 := by
  have reached : Reachable True Config.Bearable accepted :=
    reachable_accepted True ⟨by decide, by decide, by decide, by decide⟩
  exact ⟨reached, _, rfl, rfl, ((channels_get_on reached rfl).2.1 rfl).1⟩

/-! ## A channel that is stuck

Two requests wait while a channel connects.  Once it is open they are to be merged, and no
buffer has the room that the settings ask for.
-/

/-- Settings that are valid but cannot be borne. -/
def excessive : Config where
  reactorCount := 1
  writeCoalesceBytes := maxCapacity + 1

/-- A link to a peer. -/
def afar : Link where
  peer := default
  index := 0
  endpoint := default

/-- The lone reactor with these settings, after two writes to the peer. -/
def queued : Turn Unit :=
  (Turn.mk lone.host
    { lone.shared with
      config := excessive
      reactors := [((ReactorHandle.new 0 {} .blocking).submit 0 (.write afar [1] none)).2.submit 0
        (.write afar [2] none) |>.2] }
    lone.reactor).armWakeup.armAccept

/-- The peer has accepted the connection. -/
def connected : IoCompletion Token where
  token := .ofChannel .connect ⟨0, 0⟩ 1
  result := 0

/-- The reactor after it has handled that. -/
def stuck : Moment Unit :=
  let t := Turn.runTasks 2 queued
  let driver := ((t.reactor.driver.complete connected).drain 1).2
  ⟨{ t with reactor := { t.reactor with driver } }.onCompletion connected, []⟩

theorem reachable_stuck : Reachable True (· = excessive) stuck := by
  have started : Reachable True (· = excessive) ⟨queued, []⟩ := .start _ ⟨rfl, rfl, rfl⟩ rfl
  have first := started.step (withinLimits_of_length (by decide) (by decide))
    (.move (.run _ _ _ rfl)) rfl
  have second := first.step (withinLimits_of_length (by decide) (by decide))
    (.move (.run _ _ _ rfl)) rfl
  have delivered := second.step (withinLimits_of_length (by decide) (by decide))
    (.deliver _ connected rfl fun _ timer => by cases timer) rfl
  have taken := delivered.step (withinLimits_of_length (by decide) (by decide))
    (.move (.take _ 1)) rfl
  exact taken.step (withinLimits_of_length (by decide) (by decide))
    (.move (.handle _ connected [])) rfl

/-- With valid settings an open channel has bytes that wait, and no send on its way. -/
theorem open_channel_stuck :
    excessive.validate = .ok ()
    ∧ Reachable True (· = excessive) stuck
    ∧ (∀ key, stuck.timersOutstanding key ≤ maxTimers)
    ∧ ∃ c, stuck.turn.channel? ⟨0, 0⟩ = some c ∧ c.state = .open
      ∧ c.writes.isEmpty = false ∧ stuck.outstanding .send ⟨0, 0⟩ = 0 :=
  ⟨rfl, reachable_stuck, (withinLimits_of_length (by decide) (by decide)).few,
    _, rfl, rfl, rfl, by decide⟩

end Moment

end PartitionEngine
