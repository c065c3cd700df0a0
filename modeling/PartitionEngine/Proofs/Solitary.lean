import PartitionEngine.Proofs.Runs

/-!
# One channel alone

What a reactor does with the only channel that it has, at a driver that refuses nothing and
leaves canceled operations under way (`CompletionQueue.lenient`).  Such a reactor is written
as `Turn.alone`, with the channel and with what is under way, so each handler is one equation.
What the driver noted, and whether the last handler panicked, is of no interest.
-/

namespace PartitionEngine

namespace CompletionQueue

/-- A driver that refuses nothing, and leaves canceled operations under way. -/
def lenient (pending : List Submission) (log : List DriverEvent) : CompletionQueue :=
  { pending, keepsCanceled := true, log }

theorem cancelAll_lenient (pending : List Submission) (log : List DriverEvent)
    (tokens : List Token) :
    ∃ log', tokens.foldl cancel (lenient pending log) = lenient pending log' := by
  induction tokens generalizing log with
  | nil => exact ⟨log, rfl⟩
  | cons token tokens ih =>
    have canceled : (lenient pending log).cancel token
        = lenient pending (.canceled token ((lenient pending log).pending? token).isSome :: log) := by
      simp only [cancel, lenient, note, Bool.not_true, Bool.and_false]
      rfl
    rw [List.foldl_cons, canceled]
    exact ih _

/-- The first operation by its token comes back. -/
theorem complete_lenient {earlier : List Submission} {s : Submission}
    (apart : ∀ s' ∈ earlier, s'.token ≠ s.token) (later : List Submission)
    (log : List DriverEvent) (result : Int) :
    ((lenient (earlier ++ s :: later) log).complete { token := s.token, result }).drain 1
      = ([{ token := s.token, result }], lenient (earlier ++ later) log) := by
  have forgot : (earlier ++ s :: later).eraseP (fun s' => decide (s'.token = s.token))
      = earlier ++ later := by
    rw [List.eraseP_append_right _ fun s' mem => by simpa using apart s' mem,
      List.eraseP_cons_of_pos (by simp)]
  simp only [complete, forget, lenient, finish, forgot]
  rfl

end CompletionQueue

theorem Host.descriptorLimit_modifyStream (h : Host) (d : Nat) (f : Stream → Stream) :
    (h.modifyStream d f).descriptorLimit = h.descriptorLimit := by
  simp only [modifyStream]
  split
  · rfl
  · rfl

theorem Host.descriptorLimit_closeOne (h : Host) (d : Nat) :
    (h.closeOne d).descriptorLimit = h.descriptorLimit := by
  simp only [closeOne]
  split
  · exact descriptorLimit_modifyStream ..
  · rfl

theorem Host.descriptorLimit_close (h : Host) (d : Option Nat) :
    (h.close d).descriptorLimit = h.descriptorLimit := by
  simp only [close]
  split
  · rfl
  · split
    · rename_i backlog _
      have all (h : Host) : (backlog.foldl closeOne h).descriptorLimit = h.descriptorLimit := by
        clear * -
        induction backlog generalizing h with
        | nil => rfl
        | cons d backlog ih => exact (ih _).trans (descriptorLimit_closeOne h d)
      exact (all _).trans (descriptorLimit_closeOne h _)
    · exact descriptorLimit_closeOne h _

namespace Turn

variable {σ : Type}

/-! ## What is submitted -/

/-- The connect of the attempt `n` of a channel. -/
def dial (key : SlotKey) (n socket : Nat) (remote : Endpoint) : Submission where
  token := .ofChannel .connect key (UInt8.ofNat n)
  op := .connect (some socket) remote

/-- The pause after the attempt `n` of a channel. -/
def pause (config : Config) (key : SlotKey) (n : Nat) : Submission where
  token := .ofChannel .retryTimer key (UInt8.ofNat n)
  op := .timeout (config.connectBackoff * n)

/-- The limit for the attempt `n` of a channel. -/
def limit (config : Config) (key : SlotKey) (n : Nat) : Submission where
  token := .ofChannel .connectTimeout key (UInt8.ofNat n)
  op := .timeout config.connectTimeout

/-- The deadline for winding down. -/
def deadline (config : Config) : Submission where
  token := .plain .drainTimer
  op := .timeout config.terminationTimeout

/-! ## What handlers do -/

/-- A turn with one channel, at a lenient driver. -/
def alone (t : Turn σ) (c : Channel) (pending : List Submission) (log : List DriverEvent)
    (panicked : Bool) : Turn σ :=
  { t with reactor := { t.reactor with
      channels := { slots := [{ occupant := some c }] }, driver := .lenient pending log, panicked } }

variable {t : Turn σ} {c : Channel} {pending : List Submission} {log : List DriverEvent}
  {panicked : Bool}

/-- A timer that is submitted is on its way, whether or not it is counted. -/
theorem submitTimer_alone (t : Turn σ) (c : Channel) (pending : List Submission)
    (log : List DriverEvent) (panicked : Bool) (token : Token) (after : Nat) :
    ∃ log' panicked', (t.alone c pending log panicked).submitTimer ⟨0, 0⟩ token after
      = (.ok (), t.alone c.withTimer (pending ++ [{ token, op := .timeout after }]) log'
        panicked') := by
  show ∃ log' panicked', (_, if c.timers.toNat = maxTimers then _ else _) = _
  rw [Channel.withTimer]
  split
  · exact ⟨_, _, rfl⟩
  · exact ⟨_, _, rfl⟩

/-- After an attempt that has failed the pause is under way. -/
theorem connectFailed_alone (going : t.reactor.stopping = false)
    (left : c.attempt ≤ t.config.connectRetries) (spans : t.config.Spans) (reason : String) :
    ∃ log' panicked', (t.alone c pending log panicked).connectFailed ⟨0, 0⟩ reason
      = t.alone c.withTimer (pending ++ [pause t.config ⟨0, 0⟩ c.attempt.toNat]) log' panicked' := by
  obtain ⟨log', panicked', timed⟩ := submitTimer_alone t c pending log panicked
    (.ofChannel .retryTimer ⟨0, 0⟩ c.attempt.toUInt8) (t.config.connectBackoff * c.attempt.toNat)
  refine ⟨log', panicked', ?_⟩
  have found : (t.alone c pending log panicked).channel? ⟨0, 0⟩ = some c := rfl
  have config : (t.alone c pending log panicked).config = t.config := rfl
  have goes : (t.alone c pending log panicked).reactor.stopping = false := going
  simp only [connectFailed, found, config, left, goes, Config.pauseAfter?_of_le left spans, timed,
    Bool.not_false, and_self, if_true]
  rfl

theorem cancel_alone (t : Turn σ) (c : Channel) (pending : List Submission)
    (log : List DriverEvent) (panicked : Bool) (token : Token) :
    ∃ log', (t.alone c pending log panicked).cancel token = t.alone c pending log' panicked := by
  obtain ⟨log', canceled⟩ := CompletionQueue.cancelAll_lenient pending log [token]
  exact ⟨log', congrArg (fun driver => { t with reactor := { t.reactor with
    channels := { slots := [{ occupant := some c }] }, driver, panicked } }) canceled⟩

/-- The connect of an attempt is refused, and the pause after it is on its way. -/
theorem onConnect_alone (pending : List Submission) (log : List DriverEvent) (panicked : Bool)
    (connecting : c.state = .connecting) (going : t.reactor.stopping = false)
    (left : c.attempt ≤ t.config.connectRetries) (spans : t.config.Spans) (attempt : UInt8)
    {result : Int} (refused : result ≠ 0) :
    ∃ log' panicked', (t.alone c pending log panicked).onConnect ⟨0, 0⟩ attempt result
      = (t.closeSocket c.descriptor).alone
        { c with connectInFlight := false, descriptor := none }.withTimer
        (pending ++ [pause t.config ⟨0, 0⟩ c.attempt.toNat]) log' panicked' := by
  let c' : Channel := { c with connectInFlight := false }
  have canceled : ∃ log', (t.alone c' pending log panicked).cancelTimer ⟨0, 0⟩ c' attempt
      = t.alone c' pending log' panicked := by
    rw [cancelTimer]
    split
    · exact cancel_alone ..
    · exact ⟨log, rfl⟩
  obtain ⟨log', canceled⟩ := canceled
  have found : (t.alone c pending log panicked).channel? ⟨0, 0⟩ = some c := rfl
  have put : (t.alone c pending log panicked).putChannel ⟨0, 0⟩ c'
    = t.alone c' pending log panicked := rfl
  simp only [onConnect, found]
  rw [if_neg (not_not.mpr connecting), if_neg refused, put, canceled]
  exact connectFailed_alone (t := t.closeSocket c.descriptor)
    (c := { c with connectInFlight := false, descriptor := none }) going left spans _

/-- The channel whose pause is over, with its next attempt under way. -/
def redialed (c : Channel) (socket : Nat) : Channel :=
  { timerDone c with
    attempt := c.attempt + 1
    timedOut := false
    descriptor := some socket
    connectInFlight := true }

/-- The pause is over, and the next attempt is on its way with its limit. -/
theorem onRetryTimer_alone (pending : List Submission) (log : List DriverEvent) (panicked : Bool)
    (connecting : c.state = .connecting) (unlimited : t.host.descriptorLimit = none)
    (more : c.attempt.toNat ≠ maxAttempts) :
    ∃ (socket : Nat) (host : Host) (log' : List DriverEvent) (panicked' : Bool),
      host.descriptorLimit = none
      ∧ (t.alone c pending log panicked).onRetryTimer ⟨0, 0⟩ 0
        = { t with host }.alone (redialed c socket).withTimer
          (pending ++ [dial ⟨0, 0⟩ (c.attempt + 1).toNat socket c.remote,
            limit t.config ⟨0, 0⟩ (c.attempt + 1).toNat]) log' panicked' := by
  let socket := t.host.nextDescriptor
  let host : Host := (t.host.add .socket).2
  let connect := dial ⟨0, 0⟩ (c.attempt + 1).toNat socket c.remote
  obtain ⟨log', panicked', timed⟩ := submitTimer_alone { t with host } (redialed c socket)
    (pending ++ [connect]) (.submitted connect none :: log) panicked
    (.ofChannel .connectTimeout ⟨0, 0⟩ (c.attempt + 1).toUInt8) t.config.connectTimeout
  refine ⟨socket, host, log', panicked', unlimited, ?_⟩
  have found (c : Channel) : (t.alone c pending log panicked).channel? ⟨0, 0⟩ = some c := rfl
  have put : (t.alone c pending log panicked).putChannel ⟨0, 0⟩ (timerDone c)
    = t.alone (timerDone c) pending log panicked := rfl
  have goes : ¬((0 : Int) ≠ 0 ∨ (timerDone c).state ≠ .connecting) :=
    not_or.mpr ⟨not_not.mpr rfl, not_not.mpr connecting⟩
  have opened : t.host.openSocket = .ok (socket, host) := by
    simp [Host.openSocket, Host.openFile, Host.canOpen, unlimited]
    rfl
  have number : (timerDone c).attempt.toNat ≠ maxAttempts := more
  simp only [onRetryTimer, found]
  rw [if_neg goes, put]
  simp only [startConnect, found]
  rw [if_neg number]
  rw [show ((t.alone (timerDone c) pending log panicked).putChannel ⟨0, 0⟩ _).host.openSocket
    = .ok (socket, host) from opened]
  rw [List.append_assoc] at timed
  exact congrArg Prod.snd timed

/-- A channel that is not closing, or has something under way, is not released. -/
theorem releaseIfDone_alone (t : Turn σ) (pending : List Submission) (log : List DriverEvent)
    (panicked : Bool) (busy : c.state ≠ .closing ∨ c.opsInFlight ≠ 0) :
    (t.alone c pending log panicked).releaseIfDone ⟨0, 0⟩ = t.alone c pending log panicked := by
  have found : (t.alone c pending log panicked).channel? ⟨0, 0⟩ = some c := rfl
  simp only [releaseIfDone, found]
  exact if_neg fun idle => busy.elim (· idle.1) (· idle.2)

theorem release_alone (t : Turn σ) (pending : List Submission) (log : List DriverEvent)
    (panicked : Bool) (connecting : c.state = .connecting) :
    (t.alone c pending log panicked).andThen (·.releaseIfDone ⟨0, 0⟩)
      = t.alone c pending log panicked :=
  andThen_cases (motive := (· = t.alone c pending log panicked)) _ rfl
    (releaseIfDone_alone t pending log panicked (.inl (by rw [connecting]; decide)))

/-- A channel that is closed stays, with what it has under way. -/
theorem close_alone (t : Turn σ) (pending : List Submission) (log : List DriverEvent)
    (panicked : Bool) (live : c.state.isClosed = false) (busy : c.opsInFlight ≠ 0)
    (cause : Failure) :
    ∃ (u : Turn σ) (log' : List DriverEvent), (t.alone c pending log panicked).close ⟨0, 0⟩ cause
        = u.alone c.beginClose pending log' panicked
      ∧ u.reactor.stopping = t.reactor.stopping ∧ u.reactor.acceptArmed = t.reactor.acceptArmed
      ∧ u.reactor.wakeArmed = t.reactor.wakeArmed := by
  obtain ⟨log', canceled⟩ := CompletionQueue.cancelAll_lenient pending log (c.cancelTokens ⟨0, 0⟩)
  let t' := (t.shutdown c.descriptor).count fun s => { s with closed := s.closed + 1 }
  have asked : ((((t.alone c pending log panicked).putChannel ⟨0, 0⟩ c.beginClose).shutdown
      c.descriptor).cancelAll (c.cancelTokens ⟨0, 0⟩)).count
        (fun s => { s with closed := s.closed + 1 }) = t'.alone c.beginClose pending log' panicked :=
    congrArg (fun driver => { t' with reactor := { t'.reactor with
      channels := { slots := [{ occupant := some c.beginClose }] }, driver, panicked } }) canceled
  have found : (t.alone c pending log panicked).channel? ⟨0, 0⟩ = some c := rfl
  have stays (u : Turn σ) : (u.alone c.beginClose pending log' panicked).releaseIfDone ⟨0, 0⟩
      = u.alone c.beginClose pending log' panicked :=
    releaseIfDone_alone u pending log' panicked (.inr busy)
  rw [close_of_live found live]
  simp only [Turn.shut, asked]
  cases c.link with
  | none => exact ⟨t', log', stays t', rfl, rfl, rfl⟩
  | some l =>
    let left := t'.abandonLink ⟨0, 0⟩ l cause
    exact ⟨left, log', stays left, rfl, rfl, rfl⟩

/-- A reactor that watches for nothing only submits the deadline when its channels are closed. -/
theorem beginStop_of_closed {t u : Turn σ} (going : t.reactor.stopping = false)
    (closed : t.reactor.channels.keys.foldl (fun t key => t.close key .shuttingDown)
      { t with reactor := { t.reactor with stopping := true } } = u)
    (accept : u.reactor.acceptArmed = false) (wake : u.reactor.wakeArmed = false) :
    t.beginStop = match u.submit (deadline u.config).token (deadline u.config).op with
      | (.ok (), t) => t
      | (.error _, t) => { t with reactor := { t.reactor with drainExpired := true } } := by
  simp only [beginStop, going, closed, accept, wake, Bool.false_eq_true, if_false]
  rfl

/-- A reactor that is told to stop closes its channel, and sets the deadline. -/
theorem beginStop_alone (t : Turn σ) (pending : List Submission) (log : List DriverEvent)
    (panicked : Bool) (live : c.state.isClosed = false) (busy : c.opsInFlight ≠ 0)
    (going : t.reactor.stopping = false) (accept : t.reactor.acceptArmed = false)
    (wake : t.reactor.wakeArmed = false) :
    ∃ (u : Turn σ) (log' : List DriverEvent), (t.alone c pending log panicked).beginStop
        = u.alone c.beginClose (pending ++ [deadline u.config]) log' panicked
      ∧ u.reactor.stopping = true ∧ u.reactor.acceptArmed = false ∧ u.reactor.wakeArmed = false := by
  let t' : Turn σ := { t with reactor := { t.reactor with stopping := true } }
  obtain ⟨u, log', closed, stopping, unaccepting, unwakeful⟩ :=
    close_alone t' pending log panicked live busy .shuttingDown
  have unaccepting : u.reactor.acceptArmed = false := unaccepting.trans accept
  have unwakeful : u.reactor.wakeArmed = false := unwakeful.trans wake
  have stopped := beginStop_of_closed (t := t.alone c pending log panicked)
    (u := u.alone c.beginClose pending log' panicked) going closed unaccepting unwakeful
  exact ⟨u, .submitted (deadline u.config) none :: log', stopped, stopping, unaccepting, unwakeful⟩

end Turn

namespace Moment

variable {σ : Type}

/-- An operation comes back, and the reactor handles it. -/
theorem later_alone (t : Turn σ) (c : Channel) (earlier : List Submission) (s : Submission)
    (later : List Submission) (log : List DriverEvent) (panicked : Bool) (result : Int)
    (apart : ∀ s' ∈ earlier, s'.token ≠ s.token) (prompt : s.token.isTimer = true → result = 0) :
    Relation.ReflTransGen (Step True) ⟨t.alone c (earlier ++ s :: later) log panicked, []⟩
      ⟨(t.alone c (earlier ++ later) log panicked).onCompletion { token := s.token, result }, []⟩ := by
  let done : IoCompletion Token := { token := s.token, result }
  let before := t.alone c (earlier ++ s :: later) log panicked
  have pending : (before.reactor.driver.pending? s.token).isSome = true := by
    rw [CompletionQueue.pending?, List.find?_isSome]
    exact ⟨s, List.mem_append_right _ List.mem_cons_self, decide_eq_true rfl⟩
  let delivered := withDriver ⟨before, []⟩ (before.reactor.driver.complete done)
  have deliver : Step True ⟨before, []⟩ delivered :=
    .deliver ⟨before, []⟩ done pending fun _ timer _ => prompt timer
  have drained : delivered.turn.reactor.driver.drain 1
      = ([done], .lenient (earlier ++ later) log) :=
    CompletionQueue.complete_lenient apart later log result
  have take : Step True delivered ⟨t.alone c (earlier ++ later) log panicked, [done]⟩ := by
    have move := Move.take delivered.turn 1
    rw [drained] at move
    exact .move move
  exact ((Relation.ReflTransGen.single deliver).tail take).tail (.move (.handle _ done []))

end Moment

end PartitionEngine
