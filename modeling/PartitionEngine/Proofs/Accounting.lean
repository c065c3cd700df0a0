import PartitionEngine.Proofs.Acts

/-!
# The account of a channel

A channel keeps three flags and a count for its operations on their way.
`Counted` says that they agree with the driver.  An account is in order if they
do and if the channel has on its way what its state asks for: an attempt or the
pause before one while it connects, a receive while it is open and a send while
bytes wait, and anything at all while it is closing.

A handler leaves some of this undone until it ends.  The account names what is
left (`Duty`), and each lemma below says which duty a function settles.  A
function may close the channel on its way; `InOrder.close` settles everything.

Some of it holds in an ideal run only, in which a pause comes back with 0 unless it
is canceled, and no handler panics but for a timer it cannot count.  That part of an
account is stated under the assumption `ideal`.
-/

namespace PartitionEngine

/-- What a handler may leave undone until it ends. -/
inductive Duty where
  /-- An open channel receives. -/
  | receive
  /-- An open channel with bytes that wait sends. -/
  | send
  /-- A channel that connects has an attempt or a pause on its way. -/
  | attempt
  /-- A closing channel has something on its way. -/
  | linger
  deriving DecidableEq

/-! ## The count of timers -/

/-- A count with room goes up by one. -/
theorem toNat_add_one {timers : UInt8} (room : timers.toNat ≠ maxTimers) :
    (timers + 1).toNat = timers.toNat + 1 := by
  have bound := timers.toNat_lt
  simp only [maxTimers] at room
  rw [UInt8.toNat_add]
  exact Nat.mod_eq_of_lt (show timers.toNat + 1 < 256 by omega)

/-- A count that is not 0 goes down by one. -/
theorem toNat_sub_min_one {timers : UInt8} {n : Nat} (some : timers.toNat = n + 1) :
    (timers - min timers 1).toNat = n := by
  have one : (1 : UInt8) ≤ timers := by
    rw [UInt8.le_iff_toNat_le, some]
    exact Nat.le_add_left 1 n
  have least : min timers 1 = 1 := by
    show (if timers ≤ 1 then timers else 1) = 1
    split
    · rename_i small
      exact UInt8.le_antisymm small one
    · rfl
  rw [least, UInt8.toNat_sub_of_le _ _ one, some]
  rfl

/-- The channel when one more timer is on its way. -/
def Channel.withTimer (c : Channel) : Channel :=
  if c.timers.toNat = maxTimers then c else { c with timers := c.timers + 1 }

/-- A timer is counted if there is room for it, and nothing else changes. -/
theorem Channel.exists_withTimer (c : Channel) : ∃ timers, c.withTimer = { c with timers }
    ∧ (c.timers.toNat ≠ maxTimers → timers.toNat = c.timers.toNat + 1) := by
  simp only [withTimer]
  split
  · rename_i full
    exact ⟨c.timers, rfl, absurd full⟩
  · exact ⟨c.timers + 1, rfl, toNat_add_one⟩

namespace CompletionQueue

/-- The timers of a channel that were not handled. -/
def timersOutstanding (q : CompletionQueue) (batch : List (IoCompletion Token)) (key : SlotKey) :
    Nat :=
  q.outstanding batch .connectTimeout key + q.outstanding batch .retryTimer key

/-- The attempts of a channel that were not handled, and the pauses before one. -/
def attemptsOutstanding (q : CompletionQueue) (batch : List (IoCompletion Token)) (key : SlotKey) :
    Nat :=
  q.outstanding batch .connect key + q.outstanding batch .retryTimer key

end CompletionQueue

section

variable (batch : List (IoCompletion Token)) (key : SlotKey)

/-- What a channel notes of its operations is so. -/
structure Counted (q : CompletionQueue) (c : Channel) : Prop where
  recv : q.outstanding batch .recv key = c.recvInFlight.toNat
  send : q.outstanding batch .send key = c.writes.inFlight.toNat
  connect : q.outstanding batch .connect key = c.connectInFlight.toNat
  timers : q.timersOutstanding batch key ≤ maxTimers →
    c.timers.toNat = q.timersOutstanding batch key

/-- The attempts of a channel that connects. -/
structure Attempting (ideal : Prop) (left : List Duty) (q : CompletionQueue) : Prop where
  once : q.attemptsOutstanding batch key ≤ 1
  idle : .attempt ∈ left → q.attemptsOutstanding batch key = 0
  trying : ideal → .attempt ∉ left → q.attemptsOutstanding batch key = 1
  pauses : ideal → q.brokenPauses batch key = 0
  uncanceled : ideal → ∀ attempt, q.Uncanceled (.ofChannel .retryTimer key attempt)

/-- A channel agrees with its driver, and has on its way what it needs but for
what is left to do. -/
structure Account (ideal : Prop) (left : List Duty) (q : CompletionQueue) (c : Channel) :
    Prop where
  counted : Counted batch key q c
  few : c.state ≠ .connecting → q.timersOutstanding batch key ≤ maxTimers
  present : c.state ≠ .closed
  attempting : c.state = .connecting → Attempting batch key ideal left q
  numbered : ideal → c.state = .connecting → q.outstanding batch .retryTimer key ≠ 0 →
    c.attempt.toNat < maxAttempts
  receiving : ideal → .receive ∉ left → c.state = .open → c.recvInFlight = true
  sending : ideal → .send ∉ left → c.state = .open → c.writes.isEmpty = false →
    c.writes.inFlight = true
  lingering : .linger ∉ left → c.state = .closing → 0 < c.opsInFlight

end

namespace Turn

variable {σ : Type}

/-- The account of a key is in order, but for what is left to do.  A key without
a channel has no operation on its way. -/
structure InOrder (ideal : Prop) (left : List Duty) (batch : List (IoCompletion Token))
    (key : SlotKey) (t : Turn σ) : Prop where
  account : ∀ c, t.channel? key = some c → Account batch key ideal left t.reactor.driver c
  vacant : t.channel? key = none → ∀ p, p.isChannel = true →
    t.reactor.driver.outstanding batch p key = 0

end Turn

variable {ideal : Prop} {left : List Duty} {batch : List (IoCompletion Token)} {key : SlotKey}
  {q q' : CompletionQueue} {c : Channel}

/-- What an account depends on is the same for a batch and a driver as for others
before them. -/
structure Agrees (ideal : Prop) (key : SlotKey) (batch : List (IoCompletion Token))
    (q : CompletionQueue) (batch' : List (IoCompletion Token)) (q' : CompletionQueue) : Prop where
  outstanding : ∀ p, p.isChannel = true →
    q'.outstanding batch' p key = q.outstanding batch p key
  pauses : ideal → q.brokenPauses batch key = 0 →
    (∀ attempt, q.Uncanceled (.ofChannel .retryTimer key attempt)) →
    q'.brokenPauses batch' key = 0
      ∧ ∀ attempt, q'.Uncanceled (.ofChannel .retryTimer key attempt)

namespace Agrees

variable {batch' : List (IoCompletion Token)}

theorem timers (h : Agrees ideal key batch q batch' q') :
    q'.timersOutstanding batch' key = q.timersOutstanding batch key := by
  rw [CompletionQueue.timersOutstanding, h.outstanding .connectTimeout rfl,
    h.outstanding .retryTimer rfl, CompletionQueue.timersOutstanding]

theorem attempts (h : Agrees ideal key batch q batch' q') :
    q'.attemptsOutstanding batch' key = q.attemptsOutstanding batch key := by
  rw [CompletionQueue.attemptsOutstanding, h.outstanding .connect rfl,
    h.outstanding .retryTimer rfl, CompletionQueue.attemptsOutstanding]

end Agrees

namespace CompletionQueue.Untouched

theorem agrees (h : q.Untouched key q') : Agrees ideal key batch q batch q' where
  outstanding p own := h.outstanding batch p own
  pauses _ none sound :=
    ⟨(h.brokenPauses batch).trans none, fun attempt => h.uncanceled attempt (sound attempt)⟩

theorem timers (h : q.Untouched key q') :
    q'.timersOutstanding batch key = q.timersOutstanding batch key :=
  Agrees.timers (h.agrees : Agrees True key batch q batch q')

end CompletionQueue.Untouched

namespace CompletionQueue.Posted

variable {p : Purpose}

theorem timers (h : q.Posted p key q') :
    q'.timersOutstanding batch key = q.timersOutstanding batch key
      + if p = .connectTimeout ∨ p = .retryTimer then 1 else 0 := by
  simp only [timersOutstanding, h.outstanding]
  cases p <;> simp <;> omega

theorem attempts (h : q.Posted p key q') :
    q'.attemptsOutstanding batch key = q.attemptsOutstanding batch key
      + if p = .connect ∨ p = .retryTimer then 1 else 0 := by
  simp only [attemptsOutstanding, h.outstanding]
  cases p <;> simp <;> omega

end CompletionQueue.Posted

/-! ## Keeping an account -/

namespace Account

theorem agrees {batch' : List (IoCompletion Token)} (h : Account batch key ideal left q c)
    (same : Agrees ideal key batch q batch' q') : Account batch' key ideal left q' c where
  counted :=
    { recv := (same.outstanding _ rfl).trans h.counted.recv
      send := (same.outstanding _ rfl).trans h.counted.send
      connect := (same.outstanding _ rfl).trans h.counted.connect
      timers := by rw [same.timers]; exact h.counted.timers }
  few live := same.timers ▸ h.few live
  present := h.present
  attempting connecting :=
    have old := h.attempting connecting
    { once := same.attempts ▸ old.once
      idle := fun mem => same.attempts ▸ old.idle mem
      trying := fun t mem => same.attempts ▸ old.trying t mem
      pauses := fun t => (same.pauses t (old.pauses t) (old.uncanceled t)).1
      uncanceled := fun t => (same.pauses t (old.pauses t) (old.uncanceled t)).2 }
  numbered := by rw [same.outstanding .retryTimer rfl]; exact h.numbered
  receiving := h.receiving
  sending := h.sending
  lingering := h.lingering

theorem untouched (h : Account batch key ideal left q c) (same : q.Untouched key q') :
    Account batch key ideal left q' c :=
  h.agrees same.agrees

/-- More may be left to do. -/
theorem weaken {left' : List Duty} (h : Account batch key ideal left q c) (sub : left ⊆ left')
    (attempt : .attempt ∈ left' → .attempt ∈ left) : Account batch key ideal left' q c where
  counted := h.counted
  few := h.few
  present := h.present
  attempting connecting :=
    have old := h.attempting connecting
    { once := old.once
      idle := fun mem => old.idle (attempt mem)
      trying := fun t mem => old.trying t fun here => mem (sub here)
      pauses := old.pauses
      uncanceled := old.uncanceled }
  numbered := h.numbered
  receiving t mem := h.receiving t fun here => mem (sub here)
  sending t mem := h.sending t fun here => mem (sub here)
  lingering mem := h.lingering fun here => mem (sub here)

/-- An account does not depend on the rest of its channel. -/
theorem alike {c' : Channel} (h : Account batch key ideal left q c) (state : c'.state = c.state)
    (recv : c'.recvInFlight = c.recvInFlight) (connect : c'.connectInFlight = c.connectInFlight)
    (timers : c'.timers = c.timers) (sends : c'.writes.inFlight = c.writes.inFlight)
    (writes : .send ∈ left ∨ c'.writes = c.writes)
    (attempt : .attempt ∈ left ∨ c'.attempt = c.attempt := by exact .inr rfl) :
    Account batch key ideal left q c' where
  counted :=
    { recv := recv ▸ h.counted.recv
      send := sends ▸ h.counted.send
      connect := connect ▸ h.counted.connect
      timers := timers ▸ h.counted.timers }
  few live := h.few (state ▸ live)
  present := state ▸ h.present
  attempting connecting := h.attempting (state ▸ connecting)
  numbered t connecting paused := by
    rcases attempt with left' | same
    · have none := (h.attempting (state ▸ connecting)).idle left'
      simp only [CompletionQueue.attemptsOutstanding, Nat.add_eq_zero_iff] at none
      exact absurd none.2 paused
    · exact same ▸ h.numbered t (state ▸ connecting) paused
  receiving t mem isOpen := recv ▸ h.receiving t mem (state ▸ isOpen)
  sending t mem isOpen waits := by
    rw [writes.resolve_left mem] at waits ⊢
    exact h.sending t mem (state ▸ isOpen) waits
  lingering mem closing := by
    have busy := h.lingering mem (state ▸ closing)
    rwa [Channel.opsInFlight, recv, sends, connect, timers]

/-- A duty that is met is not left to do. -/
theorem settle {duty : Duty} (h : Account batch key ideal (duty :: left) q c)
    (other : duty ≠ .attempt)
    (receiving : ideal → duty = .receive → c.state = .open → c.recvInFlight = true)
    (sending : ideal → duty = .send → c.state = .open → c.writes.isEmpty = false →
      c.writes.inFlight = true)
    (lingering : duty = .linger → c.state = .closing → 0 < c.opsInFlight) :
    Account batch key ideal left q c where
  counted := h.counted
  few := h.few
  present := h.present
  attempting connecting :=
    have old := h.attempting connecting
    { once := old.once
      idle := fun mem => old.idle (List.mem_cons_of_mem _ mem)
      trying := fun t mem => old.trying t (by simp [mem, Ne.symm other])
      pauses := old.pauses
      uncanceled := old.uncanceled }
  numbered := h.numbered
  receiving t mem := by
    by_cases this : duty = .receive
    · exact receiving t this
    · exact h.receiving t (by simp [mem, Ne.symm this])
  sending t mem := by
    by_cases this : duty = .send
    · exact sending t this
    · exact h.sending t (by simp [mem, Ne.symm this])
  lingering mem := by
    by_cases this : duty = .linger
    · exact lingering this
    · exact h.lingering (by simp [mem, Ne.symm this])

theorem settle_receive (h : Account batch key ideal (.receive :: left) q c)
    (receives : ideal → c.state = .open → c.recvInFlight = true) :
    Account batch key ideal left q c :=
  h.settle (by decide) (fun t _ => receives t) (fun _ this => by cases this)
    (fun this => by cases this)

theorem settle_send (h : Account batch key ideal (.send :: left) q c)
    (sends : ideal → c.state = .open → c.writes.isEmpty = false → c.writes.inFlight = true) :
    Account batch key ideal left q c :=
  h.settle (by decide) (fun _ this => by cases this) (fun t _ => sends t)
    (fun this => by cases this)

theorem settle_linger (h : Account batch key ideal (.linger :: left) q c)
    (busy : c.state = .closing → 0 < c.opsInFlight) : Account batch key ideal left q c :=
  h.settle (by decide) (fun _ this => by cases this) (fun _ this => by cases this) (fun _ => busy)

/-- A channel that does not connect needs no attempt. -/
theorem of_not_connecting (h : Account batch key ideal [.linger, .attempt] q c)
    (state : c.state ≠ .connecting) : Account batch key ideal [.linger] q c where
  counted := h.counted
  few := h.few
  present := h.present
  attempting connecting := absurd connecting state
  numbered := h.numbered
  receiving t _ := h.receiving t (by decide)
  sending t _ := h.sending t (by decide)
  lingering mem := absurd (by decide) mem

/-- In a run that is not ideal, a channel that connects may be without an attempt, and an open
one may neither receive nor send. -/
theorem of_not_ideal {left' : List Duty} (h : Account batch key ideal left q c)
    (real : ¬ ideal) (attempt : .attempt ∉ left')
    (linger : .linger ∈ left → .linger ∈ left' ∨ c.state ≠ .closing) :
    Account batch key ideal left' q c where
  counted := h.counted
  few := h.few
  present := h.present
  attempting connecting :=
    { once := (h.attempting connecting).once
      idle := fun mem => absurd mem attempt
      trying := fun t => absurd t real
      pauses := fun t => absurd t real
      uncanceled := fun t => absurd t real }
  numbered t := absurd t real
  receiving t := absurd t real
  sending t := absurd t real
  lingering mem closing :=
    h.lingering (fun here => ((linger here).resolve_left mem) closing) closing

/-- A channel that connects neither receives nor sends nor lingers. -/
theorem of_connecting {left' : List Duty} (h : Account batch key ideal left q c)
    (connecting : c.state = .connecting) (attempt : .attempt ∉ left) (attempt' : .attempt ∉ left') :
    Account batch key ideal left' q c where
  counted := h.counted
  few := h.few
  present := h.present
  attempting _ :=
    have old := h.attempting connecting
    { once := old.once
      idle := fun mem => absurd mem attempt'
      trying := fun t _ => old.trying t attempt
      pauses := old.pauses
      uncanceled := old.uncanceled }
  numbered := h.numbered
  receiving := by simp [connecting]
  sending := by simp [connecting]
  lingering := by simp [connecting]

/-- An open channel receives and sends. -/
theorem opened (h : Account batch key ideal left q c)
    (few : q.timersOutstanding batch key ≤ maxTimers) :
    Account batch key ideal [.receive, .send] q { c with state := .open } where
  counted := ⟨h.counted.recv, h.counted.send, h.counted.connect, h.counted.timers⟩
  few _ := few
  present := by simp
  attempting := by simp
  numbered := by simp
  receiving _ mem := absurd (by simp) mem
  sending _ mem := absurd (by simp) mem
  lingering _ := by simp

/-- Closing keeps the counts, and asks for nothing but what is on its way. -/
theorem beginClose (h : Account batch key ideal left q c)
    (few : q.timersOutstanding batch key ≤ maxTimers)
    (same : ∀ p, q'.outstanding batch p key = q.outstanding batch p key) :
    Account batch key ideal [.linger] q' c.beginClose where
  counted :=
    { recv := (same _).trans h.counted.recv
      send := (same _).trans h.counted.send
      connect := (same _).trans h.counted.connect
      timers := by
        simp only [CompletionQueue.timersOutstanding, same]
        exact h.counted.timers }
  few _ := by simpa only [CompletionQueue.timersOutstanding, same] using few
  present := by simp [Channel.beginClose]
  attempting := by simp [Channel.beginClose]
  numbered := by simp [Channel.beginClose]
  receiving := by simp [Channel.beginClose]
  sending := by simp [Channel.beginClose]
  lingering mem := absurd (List.mem_singleton_self _) mem

/-! ### Posting an operation -/

theorem receive (h : Account batch key ideal (.receive :: left) q c)
    (posted : q.Posted .recv key q') (isOpen : c.state = .open) (idle : c.recvInFlight = false) :
    Account batch key ideal left q' { c with recvInFlight := true } where
  counted :=
    { recv := by simp [posted.outstanding, h.counted.recv, idle]
      send := by simp [posted.outstanding, h.counted.send]
      connect := by simp [posted.outstanding, h.counted.connect]
      timers := by simpa [posted.timers] using h.counted.timers }
  few live := by simpa [posted.timers] using h.few live
  present := h.present
  attempting := by simp [isOpen]
  numbered := by simp [isOpen]
  receiving _ _ _ := rfl
  sending t mem := h.sending t (by simp [mem])
  lingering := by simp [isOpen]

/-- The channel has the queue with its send under way before the send is posted. -/
theorem send {writes : WriteQueue} (h : Account batch key ideal (.send :: left) q c)
    (posted : q.Posted .send key q') (isOpen : c.state = .open) (idle : c.writes.inFlight = false)
    (sends : writes.inFlight = true) :
    Account batch key ideal left q' { c with writes } where
  counted :=
    { recv := by simp [posted.outstanding, h.counted.recv]
      send := by simp [posted.outstanding, h.counted.send, idle, sends]
      connect := by simp [posted.outstanding, h.counted.connect]
      timers := by simpa [posted.timers] using h.counted.timers }
  few live := by simpa [posted.timers] using h.few live
  present := h.present
  attempting := by simp [isOpen]
  numbered := by simp [isOpen]
  receiving t mem := h.receiving t (by simp [mem])
  sending _ _ _ _ := sends
  lingering := by simp [isOpen]

/-- Attempts are counted after one was posted. -/
theorem attempting_posted {p : Purpose} (h : Account batch key ideal [.attempt] q c)
    (posted : q.Posted p key q') (attempt : p = .connect ∨ p = .retryTimer)
    (connecting : c.state = .connecting) : Attempting batch key ideal [] q' := by
  have old := h.attempting connecting
  have one : q'.attemptsOutstanding batch key = 1 := by
    rw [posted.attempts, old.idle (List.mem_singleton_self _), if_pos attempt]
  exact
    { once := Nat.le_of_eq one
      idle := fun mem => by cases mem
      trying := fun _ _ => one
      pauses := fun t => (posted.brokenPauses batch).trans (old.pauses t)
      uncanceled := fun t a => posted.uncanceled a (old.uncanceled t a) }

theorem connect (socket : Nat) (h : Account batch key ideal [.attempt] q c)
    (posted : q.Posted .connect key q') (connecting : c.state = .connecting) :
    Account batch key ideal [] q' { c with descriptor := some socket, connectInFlight := true } where
  counted :=
    { recv := by simp [posted.outstanding, h.counted.recv]
      send := by simp [posted.outstanding, h.counted.send]
      connect := by
        have none := (h.attempting connecting).idle (List.mem_singleton_self _)
        simp only [CompletionQueue.attemptsOutstanding, Nat.add_eq_zero_iff] at none
        simp [posted.outstanding, none.1]
      timers := by simpa [posted.timers] using h.counted.timers }
  few live := absurd connecting live
  present := h.present
  attempting _ := h.attempting_posted posted (.inl rfl) connecting
  numbered t _ paused := h.numbered t connecting (by simpa [posted.outstanding] using paused)
  receiving := by simp [connecting]
  sending := by simp [connecting]
  lingering := by simp [connecting]

/-- A timer more is counted, if the count has room for it. -/
theorem counted_timer {p : Purpose} (h : Counted batch key q c) (posted : q.Posted p key q')
    (timer : p = .connectTimeout ∨ p = .retryTimer) : Counted batch key q' c.withTimer := by
  have more : q'.timersOutstanding batch key = q.timersOutstanding batch key + 1 := by
    rw [posted.timers, if_pos timer]
  obtain ⟨recv, send, connect⟩ : q'.outstanding batch .recv key = q.outstanding batch .recv key
      ∧ q'.outstanding batch .send key = q.outstanding batch .send key
      ∧ q'.outstanding batch .connect key = q.outstanding batch .connect key := by
    rcases timer with rfl | rfl <;> simp [posted.outstanding]
  simp only [Channel.withTimer]
  split
  · rename_i full
    refine ⟨recv ▸ h.recv, send ▸ h.send, connect ▸ h.connect, fun few => ?_⟩
    have all := h.timers (by omega)
    omega
  · rename_i room
    refine ⟨recv ▸ h.recv, send ▸ h.send, connect ▸ h.connect, fun few => ?_⟩
    have all := h.timers (by omega)
    rw [more, ← all]
    exact toNat_add_one room

/-- The pause before the next attempt, which has a number. -/
theorem pause (h : Account batch key ideal [.attempt] q c) (posted : q.Posted .retryTimer key q')
    (connecting : c.state = .connecting) (numbered : ideal → c.attempt.toNat < maxAttempts) :
    Account batch key ideal [] q' c.withTimer := by
  have counted := counted_timer h.counted posted (.inr rfl)
  have attempting := h.attempting_posted posted (.inr rfl) connecting
  have present := h.present
  obtain ⟨timers, same, -⟩ := c.exists_withTimer
  rw [same] at counted ⊢
  exact
    { counted, present
      few := fun live => absurd connecting live
      attempting := fun _ => attempting
      numbered := fun t _ _ => numbered t
      receiving := by simp [connecting]
      sending := by simp [connecting]
      lingering := by simp [connecting] }

theorem timeout (h : Account batch key ideal [] q c) (posted : q.Posted .connectTimeout key q')
    (connecting : c.state = .connecting) : Account batch key ideal [] q' c.withTimer := by
  have counted := counted_timer h.counted posted (.inl rfl)
  have old := h.attempting connecting
  have same : q'.attemptsOutstanding batch key = q.attemptsOutstanding batch key := by
    simp [posted.attempts]
  have attempting : Attempting batch key ideal [] q' :=
    { once := same ▸ old.once
      idle := fun mem => same ▸ old.idle mem
      trying := fun t mem => same ▸ old.trying t mem
      pauses := fun t => (posted.brokenPauses batch).trans (old.pauses t)
      uncanceled := fun t a => posted.uncanceled a (old.uncanceled t a) }
  have present := h.present
  obtain ⟨timers, same, -⟩ := c.exists_withTimer
  rw [same] at counted ⊢
  exact
    { counted, present
      few := fun live => absurd connecting live
      attempting := fun _ => attempting
      numbered := fun t _ paused =>
        h.numbered t connecting (by simpa [posted.outstanding] using paused)
      receiving := by simp [connecting]
      sending := by simp [connecting]
      lingering := by simp [connecting] }

/-! ### Handling a completion -/

section

variable {p : Purpose} {done : IoCompletion Token}

/-- A completion that is handled is one operation less. -/
theorem outstanding_handled (own : done.token.isOf p key = true) (p' : Purpose) :
    q.outstanding (done :: batch) p' key
      = q.outstanding batch p' key + if p = p' then 1 else 0 := by
  rw [CompletionQueue.outstanding_cons, Token.isOf_of_isOf own]
  simp

theorem timers_handled (own : done.token.isOf p key = true) :
    q.timersOutstanding (done :: batch) key = q.timersOutstanding batch key
      + if p = .connectTimeout ∨ p = .retryTimer then 1 else 0 := by
  simp only [CompletionQueue.timersOutstanding, outstanding_handled own]
  cases p <;> simp <;> omega

theorem attempts_handled (own : done.token.isOf p key = true) :
    q.attemptsOutstanding (done :: batch) key = q.attemptsOutstanding batch key
      + if p = .connect ∨ p = .retryTimer then 1 else 0 := by
  simp only [CompletionQueue.attemptsOutstanding, outstanding_handled own]
  cases p <;> simp <;> omega

/-- A completion that is neither an attempt nor a pause leaves the attempts. -/
theorem attempting_handled (h : Attempting (done :: batch) key ideal [] q)
    (own : done.token.isOf p key = true) (other : p ≠ .connect ∧ p ≠ .retryTimer)
    (settled : .attempt ∉ left) : Attempting batch key ideal left q := by
  have same : q.attemptsOutstanding (done :: batch) key = q.attemptsOutstanding batch key := by
    simp [attempts_handled own, other]
  have fewer := CompletionQueue.brokenPauses_cons_le q batch done key
  exact
    { once := same ▸ h.once
      idle := fun mem => absurd mem settled
      trying := fun t _ => same ▸ h.trying t (by simp)
      pauses := fun t => Nat.eq_zero_of_le_zero (h.pauses t ▸ fewer)
      uncanceled := h.uncanceled }

/-- After its completion, a channel is without an attempt. -/
theorem attempting_over (h : Attempting (done :: batch) key ideal [] q)
    (own : done.token.isOf p key = true) (attempt : p = .connect ∨ p = .retryTimer)
    (left' : .attempt ∈ left) : Attempting batch key ideal left q := by
  have once := h.once
  rw [attempts_handled own, if_pos attempt] at once
  have none : q.attemptsOutstanding batch key = 0 := by omega
  have fewer := CompletionQueue.brokenPauses_cons_le q batch done key
  exact
    { once := Nat.le_trans (Nat.le_of_eq none) (Nat.zero_le 1)
      idle := fun _ => none
      trying := fun _ mem => absurd left' mem
      pauses := fun t => Nat.eq_zero_of_le_zero (h.pauses t ▸ fewer)
      uncanceled := h.uncanceled }

/-- The receive of a channel is over. -/
theorem received (h : Account (done :: batch) key ideal [] q c)
    (own : done.token.isOf .recv key = true) :
    Account batch key ideal [.receive, .linger] q { c with recvInFlight := false } where
  counted :=
    { recv := by
        have one := h.counted.recv
        rw [outstanding_handled own, if_pos rfl] at one
        have bound := Bool.toNat_le c.recvInFlight
        simp
        omega
      send := by simpa [outstanding_handled own] using h.counted.send
      connect := by simpa [outstanding_handled own] using h.counted.connect
      timers := by simpa [timers_handled own] using h.counted.timers }
  few live := by simpa [timers_handled own] using h.few live
  present := h.present
  attempting connecting :=
    attempting_handled (h.attempting connecting) own (by decide) (by decide)
  numbered := by simpa [outstanding_handled own] using h.numbered
  receiving _ mem := absurd (by simp) mem
  sending t _ := h.sending t (by simp)
  lingering mem := absurd (by simp) mem

/-- The send of a channel is over. -/
theorem sent (writes : WriteQueue) (h : Account (done :: batch) key ideal [] q c)
    (own : done.token.isOf .send key = true) (stopped : writes.inFlight = false) :
    Account batch key ideal [.send, .linger] q { c with writes } where
  counted :=
    { recv := by simpa [outstanding_handled own] using h.counted.recv
      send := by
        have one := h.counted.send
        rw [outstanding_handled own, if_pos rfl] at one
        have bound := Bool.toNat_le c.writes.inFlight
        simp [stopped]
        omega
      connect := by simpa [outstanding_handled own] using h.counted.connect
      timers := by simpa [timers_handled own] using h.counted.timers }
  few live := by simpa [timers_handled own] using h.few live
  present := h.present
  attempting connecting :=
    attempting_handled (h.attempting connecting) own (by decide) (by decide)
  numbered := by simpa [outstanding_handled own] using h.numbered
  receiving t _ := h.receiving t (by simp)
  sending _ mem := absurd (by simp) mem
  lingering mem := absurd (by simp) mem

/-- The attempt of a channel is over. -/
theorem connected (h : Account (done :: batch) key ideal [] q c)
    (own : done.token.isOf .connect key = true) :
    Account batch key ideal [.linger, .attempt] q { c with connectInFlight := false } where
  counted :=
    { recv := by simpa [outstanding_handled own] using h.counted.recv
      send := by simpa [outstanding_handled own] using h.counted.send
      connect := by
        have one := h.counted.connect
        rw [outstanding_handled own, if_pos rfl] at one
        have bound := Bool.toNat_le c.connectInFlight
        simp
        omega
      timers := by simpa [timers_handled own] using h.counted.timers }
  few live := by simpa [timers_handled own] using h.few live
  present := h.present
  attempting connecting := attempting_over (h.attempting connecting) own (.inl rfl) (by simp)
  numbered := by simpa [outstanding_handled own] using h.numbered
  receiving t _ := h.receiving t (by simp)
  sending t _ := h.sending t (by simp)
  lingering mem := absurd (by simp) mem

theorem counted_timerDone (h : Counted (done :: batch) key q c)
    (own : done.token.isOf p key = true) (timer : p = .connectTimeout ∨ p = .retryTimer)
    (few : q.timersOutstanding (done :: batch) key ≤ maxTimers) :
    Counted batch key q (Turn.timerDone c) where
  recv := by
    rcases timer with rfl | rfl
    all_goals simpa [outstanding_handled own, Turn.timerDone] using h.recv
  send := by
    rcases timer with rfl | rfl
    all_goals simpa [outstanding_handled own, Turn.timerDone] using h.send
  connect := by
    rcases timer with rfl | rfl
    all_goals simpa [outstanding_handled own, Turn.timerDone] using h.connect
  timers := by
    have all : q.timersOutstanding (done :: batch) key = _ := timers_handled own
    rw [if_pos timer] at all
    exact fun _ => toNat_sub_min_one ((h.timers few).trans all)

/-- The timer of an attempt is over. -/
theorem timedOut (h : Account (done :: batch) key ideal [] q c)
    (own : done.token.isOf .connectTimeout key = true)
    (few : q.timersOutstanding (done :: batch) key ≤ maxTimers) :
    Account batch key ideal [.linger] q (Turn.timerDone c) where
  counted := counted_timerDone h.counted own (.inl rfl) few
  few _ := by
    rw [timers_handled own] at few
    omega
  present := h.present
  attempting connecting :=
    attempting_handled (h.attempting connecting) own (by decide) (by decide)
  numbered := by simpa [outstanding_handled own, Turn.timerDone] using h.numbered
  receiving t _ := h.receiving t (by simp)
  sending t _ := h.sending t (by simp)
  lingering mem := absurd (by simp) mem

/-- The pause before an attempt is over. -/
theorem paused (h : Account (done :: batch) key ideal [] q c)
    (own : done.token.isOf .retryTimer key = true)
    (few : q.timersOutstanding (done :: batch) key ≤ maxTimers) :
    Account batch key ideal [.linger, .attempt] q (Turn.timerDone c) where
  counted := counted_timerDone h.counted own (.inr rfl) few
  few _ := by
    rw [timers_handled own] at few
    omega
  present := h.present
  attempting connecting := attempting_over (h.attempting connecting) own (.inr rfl) (by simp)
  numbered t connecting _ := h.numbered t connecting (by simp [outstanding_handled own])
  receiving t _ := h.receiving t (by simp)
  sending t _ := h.sending t (by simp)
  lingering mem := absurd (by simp) mem

end

end Account

/-- What a channel counts is what is on its way. -/
theorem Counted.opsInFlight (h : Counted batch key q c)
    (few : q.timersOutstanding batch key ≤ maxTimers) :
    c.opsInFlight = q.outstanding batch .recv key + q.outstanding batch .send key
      + q.outstanding batch .connect key
      + (q.outstanding batch .connectTimeout key + q.outstanding batch .retryTimer key) := by
  rw [Channel.opsInFlight, ← h.recv, ← h.send, ← h.connect, h.timers few]
  rfl

/-- A channel that counts nothing has nothing on its way. -/
theorem Counted.outstanding_eq_zero (h : Counted batch key q c)
    (few : q.timersOutstanding batch key ≤ maxTimers) (none : c.opsInFlight = 0) {p : Purpose}
    (own : p.isChannel = true) : q.outstanding batch p key = 0 := by
  rw [h.opsInFlight few] at none
  cases p with
  | wakeup | accept | drainTimer => cases own
  | recv | send | connect | connectTimeout | retryTimer => omega

namespace Turn

variable {σ : Type} {t t' : Turn σ}

namespace InOrder

theorem of_found (found : t.channel? key = some c)
    (account : Account batch key ideal left t.reactor.driver c) :
    t.InOrder ideal left batch key where
  account c' h := by
    rw [found] at h
    cases h
    exact account
  vacant h := by
    rw [found] at h
    cases h

theorem of_none {left' : List Duty} (h : t.InOrder ideal left' batch key)
    (absent : t.channel? key = none) : t.InOrder ideal left batch key where
  account c found := by
    rw [absent] at found
    cases found
  vacant := h.vacant

theorem agrees {batch' : List (IoCompletion Token)} (h : t.InOrder ideal left batch key)
    (channel : t'.channel? key = t.channel? key)
    (same : Agrees ideal key batch t.reactor.driver batch' t'.reactor.driver) :
    t'.InOrder ideal left batch' key where
  account c found := (h.account c (channel ▸ found)).agrees same
  vacant absent p own := (same.outstanding p own).trans (h.vacant (channel ▸ absent) p own)

theorem untouched (h : t.InOrder ideal left batch key) (same : Untouched key t t') :
    t'.InOrder ideal left batch key :=
  h.agrees same.channel same.driver.agrees

theorem weaken {left' : List Duty} (h : t.InOrder ideal left batch key) (sub : left ⊆ left')
    (attempt : .attempt ∈ left' → .attempt ∈ left) : t.InOrder ideal left' batch key where
  account c found := (h.account c found).weaken sub attempt
  vacant := h.vacant

/-- An account in order is in order whatever may be left to do. -/
theorem of_settled (h : t.InOrder ideal [] batch key) (attempt : .attempt ∉ left) :
    t.InOrder ideal left batch key :=
  h.weaken (List.nil_subset _) fun mem => absurd mem attempt

end InOrder

/-! ## Closing -/

theorem InOrder.release (h : t.InOrder ideal (.linger :: left) batch key) :
    (t.releaseIfDone key).InOrder ideal left batch key := by
  simp only [releaseIfDone]
  cases found : t.channel? key with
  | none => exact h.of_none found
  | some c =>
    have account := h.account c found
    simp only
    split
    · rename_i done
      have few := account.few (by rw [done.1]; decide)
      have gone : ((t.reactor.channels.remove key.slot).2).get? key = none := by
        simp [Slab.get?_remove]
      refine ⟨?_, ?_⟩
      · intro c' found'
        exact absurd (gone.symm.trans found') (by simp)
      · intro _ p own
        exact account.counted.outstanding_eq_zero few done.2 own
    · rename_i busy
      refine .of_found found (account.settle_linger ?_)
      intro closing
      exact Nat.pos_of_ne_zero fun none => busy ⟨closing, none⟩

theorem outstanding_cancelAll (q : CompletionQueue) (tokens : List Token) (p : Purpose)
    (key : SlotKey) :
    (tokens.foldl CompletionQueue.cancel q).outstanding batch p key = q.outstanding batch p key :=
  (CompletionQueue.perm_cancelAll tokens q).countP_eq _

/-- Closing a channel settles its account, whatever was left to do. -/
theorem InOrder.close (found : t.channel? key = some c) (live : c.state.isClosed = false)
    (account : Account batch key ideal left t.reactor.driver c)
    (few : t.reactor.driver.timersOutstanding batch key ≤ maxTimers) (cause : Failure) :
    (t.close key cause).InOrder ideal [] batch key := by
  rw [close_of_live found live]
  refine InOrder.release (.of_found (channel?_shut found cause) ?_)
  rw [driver_shut]
  exact account.beginClose few fun p => outstanding_cancelAll _ _ p key

end Turn

end PartitionEngine
