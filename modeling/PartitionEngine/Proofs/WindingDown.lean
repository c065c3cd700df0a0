import PartitionEngine.Proofs.Arming
import PartitionEngine.Proofs.Shutdown
import PartitionEngine.Proofs.Solitary

/-!
# Winding down

A reactor that is told to stop closes its channels and waits for what it has under way.
From then on it only recedes (`Turn.Recedes`): a handler takes note of its completion on a
channel that closes, and a task is rejected.  So the state of a reactor that winds down
(`Turn.Winding`) is kept by every step, with nothing but the steps themselves to go by
(`Moment.Step.winding`).

The measure is the number of operations of all channels.  A completion takes one away, and
removing a channel takes none, since it has none left.  When only the timer is on its way,
the reactor is quiescent (`Moment.Winding.quiescent_iff`).

Counts of timers have eight bits.  A reactor whose channels had more timers under way when
it was told to stop may remove a channel too early (`stops_too_early`), hence the limits until
then.  They are not needed after.
-/

namespace PartitionEngine

namespace CompletionQueue

/-- What was submitted, accepted or not, the last first. -/
def submissions (q : CompletionQueue) : List Submission :=
  q.log.filterMap fun
    | .submitted submission _ => some submission
    | .canceled .. => none

theorem submissions_cancelAll (tokens : List Token) (q : CompletionQueue) :
    (tokens.foldl cancel q).submissions = q.submissions := by
  obtain ⟨events, log, canceled⟩ := q.log_cancelAll tokens
  rw [submissions, log, List.filterMap_append, List.filterMap_eq_nil_iff.mpr, List.nil_append,
    ← submissions]
  intro event mem
  obtain ⟨token, found, rfl⟩ := canceled event mem
  rfl

theorem submissions_submit (q : CompletionQueue) (token : Token) (op : IoOp) :
    (q.submit token op).2.submissions = ⟨token, op⟩ :: q.submissions := by
  simp only [submit]
  split
  · rfl
  · split
    · rfl
    · rfl

end CompletionQueue

namespace Channel

/-- The operations of some channels that have not come back. -/
def total (channels : List Channel) : Nat := channels.foldr (fun c n => c.opsInFlight + n) 0

theorem total_middle (earlier later : List Channel) (c : Channel) :
    total (earlier ++ c :: later) = c.opsInFlight + total (earlier ++ later) := by
  induction earlier with
  | nil => rfl
  | cons first rest ih =>
    simp only [total, List.cons_append, List.foldr_cons] at ih ⊢
    omega

end Channel

namespace Turn

variable {σ : Type} {batch : List (IoCompletion Token)} {key : SlotKey} {t t' t'' : Turn σ}
  {done : IoCompletion Token}

/-- The operations of all channels that have not come back. -/
def opsInFlight (t : Turn σ) : Nat := Channel.total t.reactor.channels.occupants

theorem opsInFlight_putChannel {c : Channel} (found : t.channel? key = some c) (c' : Channel) :
    (t.putChannel key c').opsInFlight + c.opsInFlight = t.opsInFlight + c'.opsInFlight := by
  obtain ⟨earlier, later, before, after⟩ := Slab.occupants_modify found fun _ => c'
  have same : (t.putChannel key c').reactor.channels.occupants = earlier ++ c' :: later := after
  simp only [opsInFlight, before, same, Channel.total_middle]
  omega

/-- A channel that is removed had nothing on its way. -/
theorem opsInFlight_releaseIfDone (t : Turn σ) (key : SlotKey) :
    (t.releaseIfDone key).opsInFlight = t.opsInFlight := by
  obtain same | ⟨c, found, -, idle, -, removed⟩ := releaseIfDone_cases t key
  · rw [same]
  · obtain ⟨earlier, later, before, after⟩ := Slab.occupants_remove found
    rw [removed]
    simp only [opsInFlight, before, after, Channel.total_middle, idle, Nat.zero_add]

/-! ## What recedes -/

/-- Channels only go, and keep their state until then.  Nothing is asked of the driver,
and nothing is run. -/
structure Recedes (t t' : Turn σ) : Prop where
  driver : t'.reactor.driver = t.reactor.driver
  dispatcher : t'.reactor.dispatcher = t.reactor.dispatcher
  stopping : t'.reactor.stopping = t.reactor.stopping
  slots : t'.reactor.channels.slots.length = t.reactor.channels.slots.length
  states : ∀ key c', t'.channel? key = some c' → ∃ c, t.channel? key = some c ∧ c'.state = c.state

namespace Recedes

theorem of_channels (driver : t'.reactor.driver = t.reactor.driver)
    (dispatcher : t'.reactor.dispatcher = t.reactor.dispatcher)
    (stopping : t'.reactor.stopping = t.reactor.stopping)
    (channels : t'.reactor.channels = t.reactor.channels) : t.Recedes t' where
  driver := driver
  dispatcher := dispatcher
  stopping := stopping
  slots := by rw [channels]
  states _ c' found := ⟨c', by rwa [channel?, channels] at found, rfl⟩

theorem of_reactor (same : t'.reactor = t.reactor) : t.Recedes t' :=
  of_channels (same ▸ rfl) (same ▸ rfl) (same ▸ rfl) (same ▸ rfl)

theorem refl (t : Turn σ) : t.Recedes t := of_reactor rfl

theorem trans (h : t.Recedes t') (h' : t'.Recedes t'') : t.Recedes t'' where
  driver := h'.driver.trans h.driver
  dispatcher := h'.dispatcher.trans h.dispatcher
  stopping := h'.stopping.trans h.stopping
  slots := h'.slots.trans h.slots
  states key c'' found := by
    obtain ⟨c', there, same⟩ := h'.states key c'' found
    obtain ⟨c, here, same'⟩ := h.states key c' there
    exact ⟨c, here, same.trans same'⟩

theorem put {c c' : Channel} (found : t.channel? key = some c) (state : c'.state = c.state) :
    t.Recedes (t.putChannel key c') where
  driver := rfl
  dispatcher := rfl
  stopping := rfl
  slots := Slab.length_slots_modify _ _ _
  states k d there := by
    simp only [putChannel, channel?_modifyChannel, found] at there
    split at there
    · rename_i same
      cases there
      exact ⟨c, same ▸ found, state⟩
    · exact ⟨d, there, rfl⟩

theorem release (t : Turn σ) (key : SlotKey) : t.Recedes (t.releaseIfDone key) := by
  obtain same | ⟨c, -, -, -, -, removed⟩ := releaseIfDone_cases t key
  · rw [same]
    exact refl t
  · rw [removed]
    refine ⟨rfl, rfl, rfl, Slab.length_slots_remove _ _, fun k c' there => ?_⟩
    exact ⟨c', channel?_of_releaseIfDone (removed ▸ there), rfl⟩

end Recedes

/-! ## Closing every channel -/

theorem submissions_close (t : Turn σ) (key : SlotKey) (cause : Failure) :
    (t.close key cause).reactor.driver.submissions = t.reactor.driver.submissions := by
  cases found : t.channel? key with
  | none => rw [close_of_none found]
  | some c =>
    cases live : c.state.isClosed with
    | true => rw [close_of_isClosed found live]
    | false =>
      rw [close_of_live found live, driver_releaseIfDone, driver_shut]
      exact CompletionQueue.submissions_cancelAll _ _

/-- What is left of a channel that is closed waits for its operations. -/
theorem isClosed_close {c : Channel} {k : SlotKey} {cause : Failure}
    (found : (t.close key cause).channel? k = some c) :
    ∃ before, t.channel? k = some before
      ∧ (k = key ∨ before.state.isClosed = true → c.state.isClosed = true) := by
  by_cases here : k = key
  · subst here
    cases there : t.channel? k with
    | none =>
      rw [close_of_none there, there] at found
      cases found
    | some before =>
      refine ⟨before, rfl, fun _ => ?_⟩
      cases live : before.state.isClosed with
      | true =>
        rw [close_of_isClosed there live, there] at found
        cases found
        exact live
      | false =>
        rw [close_of_live there live] at found
        obtain ⟨closed, shut, state⟩ := (Recedes.release _ _).states _ _ found
        rw [channel?_shut there cause] at shut
        cases shut
        rw [state]
        rfl
  · have same := ((acts_close t key cause : Acts .all _ _ _).untouched here).channel
    exact ⟨c, same.symm.trans found, fun closed => closed.resolve_left here⟩

theorem isClosed_closeAll {c : Channel} {k : SlotKey} {cause : Failure} (keys : List SlotKey)
    (t : Turn σ) (found : (keys.foldl (fun t key => t.close key cause) t).channel? k = some c) :
    ∃ before, t.channel? k = some before
      ∧ (k ∈ keys ∨ before.state.isClosed = true → c.state.isClosed = true) := by
  induction keys generalizing t with
  | nil => exact ⟨c, found, fun closed => closed.resolve_left (List.not_mem_nil)⟩
  | cons key rest ih =>
    obtain ⟨between, there, later⟩ := ih _ found
    obtain ⟨before, here, now⟩ := isClosed_close there
    refine ⟨before, here, ?_⟩
    rintro (mem | closed)
    · obtain same | mem := List.mem_cons.mp mem
      · exact later (.inr (now (.inl same)))
      · exact later (.inl mem)
    · exact later (.inr (now (.inr closed)))

/-- After a reactor has begun to wind down, every channel waits for its operations. -/
theorem closing_beginStop (sound : t.Sound False batch)
    (few : ∀ key, t.reactor.driver.timersOutstanding batch key ≤ maxTimers)
    (going : t.reactor.stopping = false) {c : Channel}
    (found : t.beginStop.channel? key = some c) : c.state = .closing := by
  have present := ((sound.beginStop few).order key).account c found |>.present
  have same : t.beginStop.channel? key = _ :=
    (untouched_of_forall (fun k => acts_beginStop going k trivial) key).channel
  rw [same] at found
  obtain ⟨before, here, closed⟩ := isClosed_closeAll _ _ found
  have now := closed (.inl (Slab.mem_keys here))
  cases state : c.state with
  | closing => rfl
  | closed => exact absurd state present
  | connecting | «open» =>
    rw [state] at now
    cases now

theorem config_closeAll (keys : List SlotKey) (cause : Failure) (t : Turn σ) :
    (keys.foldl (fun t key => t.close key cause) t).config = t.config := by
  induction keys generalizing t with
  | nil => rfl
  | cons key rest ih =>
    have acts : Acts .all key t (t.close key cause) := acts_close t key cause
    exact (ih _).trans acts.evolves.shared.config

theorem submissions_closeAll (keys : List SlotKey) (cause : Failure) (t : Turn σ) :
    (keys.foldl (fun t key => t.close key cause) t).reactor.driver.submissions
      = t.reactor.driver.submissions := by
  induction keys generalizing t with
  | nil => rfl
  | cons key rest ih => exact (ih _).trans (submissions_close t key cause)

/-- Beginning to wind down submits the timer for it, and nothing else. -/
theorem submissions_beginStop (going : t.reactor.stopping = false) :
    t.beginStop.reactor.driver.submissions
      = ⟨.plain .drainTimer, .timeout t.config.terminationTimeout⟩
        :: t.reactor.driver.submissions := by
  have config := config_closeAll t.reactor.channels.keys .shuttingDown
    { t with reactor := { t.reactor with stopping := true } }
  have closed := submissions_closeAll t.reactor.channels.keys .shuttingDown
    { t with reactor := { t.reactor with stopping := true } }
  unfold beginStop
  rw [if_neg (by simp [going])]
  simp only
  generalize List.foldl _ _ _ = s at config closed ⊢
  have canceled (b : Bool) (token : Token) (s : Turn σ) :
      (if b then s.cancel token else s).reactor.driver.submissions = s.reactor.driver.submissions
        ∧ (if b then s.cancel token else s).config = s.config := by
    split
    · exact ⟨CompletionQueue.submissions_cancelAll [token] _, rfl⟩
    · exact ⟨rfl, rfl⟩
  obtain ⟨unaccepted, kept⟩ := canceled s.reactor.acceptArmed (.plain .accept) s
  generalize (if s.reactor.acceptArmed then s.cancel (.plain .accept) else s) = s' at unaccepted kept ⊢
  obtain ⟨unwoken, kept'⟩ := canceled s'.reactor.wakeArmed (.plain .wakeup) s'
  generalize (if s'.reactor.wakeArmed then s'.cancel (.plain .wakeup) else s') = s'' at unwoken kept' ⊢
  have timed : (s''.submit (.plain .drainTimer)
      (.timeout s''.config.terminationTimeout)).2.reactor.driver.submissions
        = ⟨.plain .drainTimer, .timeout t.config.terminationTimeout⟩
          :: t.reactor.driver.submissions := by
    have limit : s''.config = t.config := kept'.trans (kept.trans config)
    have before : s''.reactor.driver.submissions = t.reactor.driver.submissions :=
      unwoken.trans (unaccepted.trans closed)
    rw [limit, ← before]
    exact CompletionQueue.submissions_submit _ _ _
  split
  · rename_i t' accepted
    rw [accepted] at timed
    exact timed
  · rename_i e t' refused
    rw [refused] at timed
    exact timed

/-! ## Winding down -/

/-- A reactor that was told to stop. -/
structure Winding (batch : List (IoCompletion Token)) (t : Turn σ) : Prop where
  stopping : t.reactor.stopping = true
  closing : ∀ key c, t.channel? key = some c → c.state = .closing
  sound : t.Sound False batch
  armed : t.Armed batch
  room : t.reactor.channels.slots.length < Slab.maxSlots
  few : ∀ key, t.reactor.driver.timersOutstanding batch key ≤ maxTimers

/-- A channel that counts right before and after one of its completions is handled. -/
theorem opsInFlight_handled {q : CompletionQueue} {c c' : Channel} {p : Purpose}
    (counted : Counted (done :: batch) key q c) (counted' : Counted batch key q c')
    (few : q.timersOutstanding (done :: batch) key ≤ maxTimers)
    (own : done.token.isOf p key = true) (channel : p.isChannel = true) :
    c'.opsInFlight + 1 = c.opsInFlight := by
  have handled (other : Purpose) : q.outstanding (done :: batch) other key = _ :=
    Account.outstanding_handled own other
  have fewer : q.timersOutstanding batch key ≤ maxTimers := by
    have timers : q.timersOutstanding (done :: batch) key = _ := Account.timers_handled own
    omega
  rw [counted.opsInFlight few, counted'.opsInFlight fewer]
  simp only [handled]
  cases p with
  | wakeup | accept | drainTimer => cases channel
  | recv | send | connect | connectTimeout | retryTimer =>
    simp
    try omega

/-- A completion for a channel that closes is taken note of, and nothing else. -/
theorem Winding.handled (h : t.Winding (done :: batch)) {p : Purpose}
    (purpose : done.token.purpose? = some p) (channel : p.isChannel = true) :
    ∃ c c', t.channel? done.token.key = some c ∧ c'.state = c.state
      ∧ c'.opsInFlight + 1 = c.opsInFlight
      ∧ t.onCompletion done
        = (t.afresh.putChannel done.token.key c').releaseIfDone done.token.key := by
  have own := Token.isOf_of_purpose? purpose
  have few := h.few done.token.key
  obtain ⟨c, found, account⟩ := (h.sound.order done.token.key).found_of_isOf own channel
  have closing := h.closing _ c found
  have counts {left : List Duty} {c' : Channel}
      (account' : Account batch done.token.key False left t.reactor.driver c') :
      c'.opsInFlight + 1 = c.opsInFlight :=
    opsInFlight_handled account.counted account'.counted few own channel
  have found' : t.afresh.channel? done.token.key = some c := found
  -- Nothing that a channel does while it closes panics, so it is released if it can be.
  have released {c' : Channel} {s : Turn σ} (same : s = t.afresh.putChannel done.token.key c') :
      s.andThen (·.releaseIfDone done.token.key)
        = (t.afresh.putChannel done.token.key c').releaseIfDone done.token.key := by
    rw [same]
    exact andThen_of_going rfl
  simp only [onCompletion, purpose]
  cases p with
  | wakeup | accept | drainTimer => cases channel
  | recv =>
    refine ⟨c, { c with recvInFlight := false }, found, rfl, counts (account.received own),
      released ?_⟩
    simp [onRecv, found', closing]
  | send =>
    by_cases failed : done.result < 0
    · have put := channel?_putChannel_self found' { c with writes := c.writes.abortSend }
      refine ⟨c, { c with writes := c.writes.abortSend }, found, rfl,
        counts (account.sent _ own rfl), released ?_⟩
      simp only [onSend, found', if_pos failed]
      rw [close_of_isClosed put (by simp [closing, ChannelState.isClosed])]
    · have put := channel?_putChannel_self found'
        { c with writes := c.writes.consume done.result.toNat }
      have settled : (c.writes.consume done.result.toNat).inFlight = false := by
        simp only [WriteQueue.consume]
        split <;> rfl
      refine ⟨c, { c with writes := c.writes.consume done.result.toNat }, found, rfl,
        counts (account.sent _ own settled), released ?_⟩
      simp only [onSend, found', if_neg failed]
      rw [flush, put]
      simp [closing]
  | connect =>
    refine ⟨c, { c with connectInFlight := false }, found, rfl, counts (account.connected own),
      released ?_⟩
    simp [onConnect, found', closing]
  | connectTimeout =>
    refine ⟨c, timerDone c, found, rfl, counts (account.timedOut own few), released ?_⟩
    simp [onConnectTimeout, found', closing, timerDone]
  | retryTimer =>
    refine ⟨c, timerDone c, found, rfl, counts (account.paused own few), released ?_⟩
    simp [onRetryTimer, found', closing, timerDone]

theorem Winding.recedes_onCompletion (h : t.Winding (done :: batch)) :
    t.Recedes (t.onCompletion done) := by
  have flagged : t.Recedes t.afresh := .of_channels rfl rfl rfl rfl
  cases purpose : done.token.purpose? with
  | none =>
    simp only [onCompletion, purpose]
    exact flagged
  | some p =>
    cases channel : p.isChannel with
    | true =>
      obtain ⟨c, c', found, state, -, handled⟩ := h.handled purpose channel
      have put : t.afresh.Recedes (t.afresh.putChannel done.token.key c') :=
        .put (by exact found) state
      rw [handled]
      exact (flagged.trans put).trans (.release _ _)
    | false =>
      simp only [onCompletion, purpose]
      refine flagged.trans ?_
      have stopping : t.afresh.reactor.stopping = true := h.stopping
      generalize t.afresh = t at stopping
      cases p with
      | recv | send | connect | connectTimeout | retryTimer => cases channel
      | wakeup =>
        simp only [onWakeup, stopping, if_true]
        exact .of_channels rfl rfl stopping.symm rfl
      | accept =>
        have unarmed (s : Turn σ) (stopping : s.reactor.stopping = true) : s.armAccept = s := by
          simp [armAccept, stopping]
        simp only [onAccept]
        split
        · rw [unarmed]
          · exact .of_channels rfl rfl rfl rfl
          · exact stopping
        · exact .of_channels rfl rfl rfl rfl
      | drainTimer =>
        simp only [onDrainTimer]
        split
        · exact .of_channels rfl rfl rfl rfl
        · exact .refl t

/-- A completion of a channel lowers the number of operations by one, and no other does. -/
theorem Winding.opsInFlight_onCompletion (h : t.Winding (done :: batch)) {p : Purpose}
    (purpose : done.token.purpose? = some p) (channel : p.isChannel = true) :
    (t.onCompletion done).opsInFlight + 1 = t.opsInFlight := by
  obtain ⟨c, c', found, -, fewer, handled⟩ := h.handled purpose channel
  have put : (t.afresh.putChannel done.token.key c').opsInFlight + c.opsInFlight
      = t.opsInFlight + c'.opsInFlight := opsInFlight_putChannel (by exact found) c'
  rw [handled, opsInFlight_releaseIfDone]
  omega

/-- A reactor that winds down rejects every task. -/
theorem recedes_onTask (stopping : t.reactor.stopping = true) (task : Task) :
    t.Recedes (t.onTask task) := by
  simp only [onTask, stopping, if_true, reject]
  split
  all_goals exact .of_reactor rfl

end Turn

namespace Moment

variable {σ : Type} {timely : Prop} {m m' m'' : Moment σ}

/-- A reactor that was told to stop. -/
def Winding (m : Moment σ) : Prop := m.turn.Winding m.batch

/-- Channels only go, and keep their state until then.  Nothing is submitted, nothing comes
under way, and nothing is run. -/
structure Recedes (m m' : Moment σ) : Prop where
  stopping : m'.turn.reactor.stopping = m.turn.reactor.stopping
  dispatcher : m'.turn.reactor.dispatcher = m.turn.reactor.dispatcher
  submissions : m'.turn.reactor.driver.submissions = m.turn.reactor.driver.submissions
  operations : (m'.turn.reactor.driver.unhandled m'.batch).Subperm
    (m.turn.reactor.driver.unhandled m.batch)
  slots : m'.turn.reactor.channels.slots.length = m.turn.reactor.channels.slots.length
  states : ∀ key c', m'.turn.channel? key = some c' →
    ∃ c, m.turn.channel? key = some c ∧ c'.state = c.state

namespace Recedes

theorem refl (m : Moment σ) : m.Recedes m :=
  ⟨rfl, rfl, rfl, .refl _, rfl, fun _ c found => ⟨c, found, rfl⟩⟩

theorem trans (h : m.Recedes m') (h' : m'.Recedes m'') : m.Recedes m'' where
  stopping := h'.stopping.trans h.stopping
  dispatcher := h'.dispatcher.trans h.dispatcher
  submissions := h'.submissions.trans h.submissions
  operations := h'.operations.trans h.operations
  slots := h'.slots.trans h.slots
  states key c'' found := by
    obtain ⟨c', there, same⟩ := h'.states key c'' found
    obtain ⟨c, here, same'⟩ := h.states key c' there
    exact ⟨c, here, same.trans same'⟩

/-- What recedes in a turn, with no more in the batch. -/
theorem of_turn {t t' : Turn σ} {batch batch' : List (IoCompletion Token)} (h : t.Recedes t')
    (fewer : batch'.Sublist batch) : Recedes ⟨t, batch⟩ ⟨t', batch'⟩ where
  stopping := h.stopping
  dispatcher := h.dispatcher
  submissions := congrArg _ h.driver
  operations := by
    simp only [CompletionQueue.unhandled, h.driver]
    exact (((fewer.append_right _).map _).append_right _).subperm
  slots := h.slots
  states := h.states

/-- A driver that goes on by itself. -/
theorem of_driver {t : Turn σ} {batch batch' : List (IoCompletion Token)}
    {driver : CompletionQueue} (log : driver.log = t.reactor.driver.log)
    (operations : (driver.unhandled batch').Perm (t.reactor.driver.unhandled batch)) :
    Recedes ⟨t, batch⟩ ⟨{ t with reactor := { t.reactor with driver } }, batch'⟩ where
  stopping := rfl
  dispatcher := rfl
  submissions := by simp only [CompletionQueue.submissions, log]
  operations := operations.subperm
  slots := rfl
  states _ c found := ⟨c, found, rfl⟩

end Recedes

theorem Move.recedes {handed : Option Handover} (move : Move m handed m')
    (h : m.Winding) : m.Recedes m' := by
  cases move with
  | wait t =>
    simp only [Turn.endWait]
    rw [CompletionQueue.snd_endWait]
    exact .of_driver rfl (.refl _)
  | mark t f keep => exact .of_turn (.of_reactor rfl) (.refl _)
  | take t limit =>
    exact .of_driver rfl (List.Perm.of_eq (CompletionQueue.unhandled_drain limit))
  | handle t c rest => exact .of_turn h.recedes_onCompletion (List.sublist_cons_self c rest)
  | run t task t' popped =>
    have same := reactor_of_popTask popped
    have stopping : (t'.count fun s => { s with tasks := s.tasks + 1 }).reactor.stopping = true :=
      (congrArg Reactor.stopping same).trans h.stopping
    have counted : t.Recedes (t'.count fun s => { s with tasks := s.tasks + 1 }) := .of_reactor same
    exact .of_turn (counted.trans (Turn.recedes_onTask stopping task)) (.refl _)

theorem Step.recedes (step : Step timely m m') (h : m.Winding) : m.Recedes m' := by
  cases step with
  | deliver c pending => exact .of_driver rfl (CompletionQueue.perm_complete pending)
  | arrange => exact .of_driver rfl (.refl _)
  | interfere => exact .of_turn (.of_reactor rfl) (.refl _)
  | move move => exact move.recedes h

/-- What recedes stays within limits. -/
theorem Recedes.outstanding_le (h : m.Recedes m') (p : Purpose) (key : SlotKey) :
    m'.outstanding p key ≤ m.outstanding p key := h.operations.countP_le _

theorem Winding.of_recedes (h : m.Winding) (recedes : m.Recedes m')
    (sound : m'.turn.Sound False m'.batch) (armed : m'.turn.Armed m'.batch) :
    m'.Winding where
  stopping := recedes.stopping.trans h.stopping
  closing key c' found := by
    obtain ⟨c, here, same⟩ := recedes.states key c' found
    exact same.trans (h.closing key c here)
  sound := sound
  armed := armed
  room := recedes.slots ▸ h.room
  few key := Nat.le_trans (Nat.add_le_add (recedes.outstanding_le .connectTimeout key)
    (recedes.outstanding_le .retryTimer key)) (h.few key)

theorem Step.winding (step : Step timely m m') (h : m.Winding) : m'.Winding :=
  have sound := step.sound False.elim False.elim ⟨h.room, h.few⟩ h.sound
  h.of_recedes (step.recedes h) sound (step.armed h.armed)

/-! ## When it is over -/

/-- Every operation has been handled, but for the timer of winding down. -/
def Drained (m : Moment σ) : Prop :=
  ∀ token ∈ m.turn.reactor.driver.unhandled m.batch, ∀ p, token.purpose? = some p → p = .drainTimer

/-- A reactor that winds down is quiescent when every operation has been handled. -/
theorem Winding.quiescent_iff (h : m.Winding) :
    m.turn.reactor.quiescent = true ↔ m.Drained := by
  have empty := h.sound.exact.isEmpty_iff h.room
  have counted (p : Purpose) : m.turn.reactor.driver.countFor m.batch p = 0
      ↔ ∀ token ∈ m.turn.reactor.driver.unhandled m.batch, token.purpose? ≠ some p := by
    simp [CompletionQueue.countFor]
  have unarmed (b : Bool) : b.toNat = 0 ↔ b = false := by cases b <;> simp
  simp only [Reactor.quiescent, Bool.and_eq_true, Bool.not_eq_true', empty, ← unarmed,
    ← h.armed.accept, ← h.armed.wakeup, counted, Drained]
  constructor
  · rintro ⟨⟨vacant, accept⟩, wakeup⟩ token mem p purpose
    cases channel : p.isChannel with
    | true =>
      have none := (h.sound.order token.key).vacant (vacant token.key) p channel
      exact absurd (Token.isOf_of_purpose? purpose) (List.countP_eq_zero.mp none token mem)
    | false =>
      cases p with
      | recv | send | connect | connectTimeout | retryTimer => cases channel
      | accept => exact absurd purpose (accept token mem)
      | wakeup => exact absurd purpose (wakeup token mem)
      | drainTimer => rfl
  · intro drained
    have other {p : Purpose} (other : p ≠ .drainTimer) (token : Token)
        (mem : token ∈ m.turn.reactor.driver.unhandled m.batch) : token.purpose? ≠ some p :=
      fun purpose => other (drained token mem p purpose)
    refine ⟨⟨fun key => ?_, other (by decide)⟩, other (by decide)⟩
    cases found : m.turn.channel? key with
    | none => exact found
    | some c =>
      have account := (h.sound.order key).account c found
      have busy := account.lingering (by simp) (h.closing key c found)
      have none (p : Purpose) (apart : p ≠ .drainTimer) :
          m.turn.reactor.driver.outstanding m.batch p key = 0 :=
        List.countP_eq_zero.mpr fun token mem own =>
          other apart token mem (Token.purpose?_of_isOf own)
      rw [account.counted.opsInFlight (h.few key)] at busy
      simp only [none .recv (by decide), none .send (by decide), none .connect (by decide),
        none .connectTimeout (by decide), none .retryTimer (by decide)] at busy
      cases busy

/-! ## Told to stop -/

/-- A reactor that has done nothing, and was not told to stop. -/
structure Unused (t : Turn σ) : Prop extends Fresh t where
  going : t.reactor.stopping = false
  unaccepting : t.reactor.acceptArmed = false
  unwakeful : t.reactor.wakeArmed = false

/-- What happens to a reactor from one moment to a later one, within limits at least until
then. -/
def Run (timely : Prop) : Moment σ → Moment σ → Prop :=
  Relation.ReflTransGen fun m m' => m.WithinLimits ∧ Step timely m m'

theorem Unused.armed {t : Turn σ} (h : Unused t) : t.Armed [] := by
  have none (p : Purpose) : t.reactor.driver.countFor [] p = 0 := by
    simp [CompletionQueue.countFor, CompletionQueue.unhandled, h.pending, h.ready]
  exact ⟨by rw [none, h.unaccepting]; rfl, by rw [none, h.unwakeful]; rfl⟩

/-- However it was told to stop, a reactor winds down. -/
theorem Run.winding {t : Turn σ} (unused : Unused t) (run : Run timely ⟨t.armWakeup.armAccept, []⟩ m)
    (limits : m.WithinLimits) (stopping : m.turn.reactor.stopping = true) : m.Winding := by
  have kept : m.turn.Sound False m.batch ∧ m.turn.Armed m.batch
      ∧ (m.turn.reactor.stopping = true →
        ∀ key c, m.turn.channel? key = some c → c.state = .closing) := by
    clear limits stopping
    induction run with
    | refl =>
      have reached : Reachable timely (fun _ => True) ⟨t.armWakeup.armAccept, []⟩ :=
        .start t unused.toFresh trivial
      refine ⟨reached.sound False.elim fun _ => False.elim,
        (unused.armed.armWakeup unused.unwakeful).armAccept, fun stopping => ?_⟩
      have going := (Turn.stopping_armAccept _).trans (Turn.stopping_armWakeup t)
      cases (going.trans unused.going).symm.trans stopping
    | @tail m m' _ next ih =>
      obtain ⟨limits, step⟩ := next
      obtain ⟨sound, armed, closing⟩ := ih
      refine ⟨step.sound False.elim False.elim limits sound, step.armed armed, fun stopping => ?_⟩
      cases before : m.turn.reactor.stopping with
      | true =>
        have winding : m.Winding :=
          ⟨before, closing before, sound, armed, limits.room, limits.few⟩
        exact (step.winding winding).closing
      | false =>
        obtain ⟨u, same, -, idle, stopped⟩ := step.stops before stopping
        rw [idle] at sound
        have few (key : SlotKey) : m.turn.reactor.driver.timersOutstanding [] key ≤ maxTimers :=
          idle ▸ limits.few key
        subst stopped
        exact fun key c found => Turn.closing_beginStop
          (sound.of_eq (congrArg Reactor.channels same) (congrArg Reactor.driver same))
          (fun key => same ▸ few key) (same ▸ before) found
  exact ⟨stopping, kept.2.2 stopping, kept.1, kept.2.1, limits.room, limits.few⟩

/-- Winding down goes on. -/
theorem Winding.later (h : m.Winding) (later : Relation.ReflTransGen (Step timely) m m') :
    m'.Winding ∧ m.Recedes m' := by
  induction later with
  | refl => exact ⟨h, .refl m⟩
  | tail _ step ih => exact ⟨step.winding ih.1, ih.2.trans (step.recedes ih.1)⟩

/-! ## Tasks that come too late -/

end Moment

/-- The invocation that a task is for, by its peer and its id. -/
def Task.invocation? (here : Address) : Task → Option (Address × UInt64)
  | .execute _ (some id) => some (here, id)
  | .write l _ (some id) => some (l.peer, id)
  | _ => none

namespace Turn

variable {σ : Type}

/-- A task that is rejected fails its invocation, and does nothing else. -/
theorem reject_eq (t : Turn σ) (task : Task) :
    t.reject task = match task.invocation? t.reactor.localAddress with
      | some (peer, id) => t.modifyInvocations fun table => (table.fail peer id .shuttingDown).2
      | none => t := by
  cases task with
  | execute r correlationId => cases correlationId <;> rfl
  | write l bytes correlationId => cases correlationId <;> rfl
  | connect | forward | reply | stop => rfl

/-- A reactor that ends while the engine shuts down fails what goes through it, and runs
nothing. -/
theorem finish_of_shuttingDown {t : Turn σ} (down : t.shared.shuttingDown = true) :
    t.finish.reactor.dispatcher = t.reactor.dispatcher
      ∧ ∀ peer id i, t.shared.invocations.find? peer id = some i → i.reactor = t.reactor.index →
        t.shared.invocations.standing i.future = some none →
        t.finish.shared.invocations.standing i.future = some (some (.error .shuttingDown)) := by
  obtain ⟨reactor, shared⟩ := t.finish_eq
  refine ⟨by rw [reactor], fun peer id i found routed pending => ?_⟩
  rw [shared, causeOfEnd, if_pos down]
  exact InvocationTable.standing_failAnywhere_of_find? found (by simp [routed]) pending

/-- A reactor that winds down rejects the task it takes, and fails its invocation. -/
theorem reject_popTask {t u : Turn σ} {task : Task} (stopping : t.reactor.stopping = true)
    (popped : t.popTask = (some task, u)) :
    ((u.count fun s => { s with tasks := s.tasks + 1 }).onTask task).reactor = t.reactor
      ∧ ∀ peer id i, task.invocation? t.reactor.localAddress = some (peer, id) →
        t.shared.invocations.find? peer id = some i →
        t.shared.invocations.standing i.future = some none →
        ((u.count fun s => { s with tasks := s.tasks + 1 }).onTask task).shared.invocations.standing
          i.future = some (some (.error .shuttingDown)) := by
  have same := Moment.reactor_of_popTask popped
  have kept : u.shared.invocations = t.shared.invocations := by
    rw [Moment.eq_of_popTask popped]
  have stopping : u.reactor.stopping = true := same ▸ stopping
  have here : u.reactor.localAddress = t.reactor.localAddress := same ▸ rfl
  have rejected : (u.count fun s => { s with tasks := s.tasks + 1 }).onTask task
      = (u.count fun s => { s with tasks := s.tasks + 1 }).reject task := by
    simp only [onTask]
    exact if_pos stopping
  rw [rejected, reject_eq]
  have here : (u.count fun s => { s with tasks := s.tasks + 1 }).reactor.localAddress
      = t.reactor.localAddress := here
  rw [here]
  cases about : task.invocation? t.reactor.localAddress with
  | none => exact ⟨same, fun peer id i about => by cases about⟩
  | some whose =>
    refine ⟨same, ?_⟩
    rintro peer id i ⟨rfl⟩ found pending
    exact InvocationTable.standing_complete (kept ▸ found) (kept ▸ pending) _

end Turn

/-! ## Winding down as a whole -/

namespace Moment

variable {σ : Type} {timely : Prop} {m m' : Moment σ}

theorem later_of_moves (moves : Moves m m') : Relation.ReflTransGen (Step timely) m m' :=
  Relation.ReflTransGen.mono (fun _ _ ⟨_, move⟩ => .move move) _ _ moves

/-- The loop ends in the round in which the last operation is handled. -/
theorem Winding.ends {u : Turn σ} (h : Winding ⟨u, []⟩) (drained : Drained ⟨u.work, []⟩)
    (bound : Nat) :
    u.work.reactor.quiescent = true ∧ u.proceed (bound + 1) .awake = (.ended, u.work) := by
  obtain ⟨worked, -⟩ := h.later (later_of_moves (moves_work u) : Relation.ReflTransGen (Step True) _ _)
  have quiescent : u.work.reactor.quiescent = true := worked.quiescent_iff.mpr drained
  have stopping : u.work.reactor.stopping = true := worked.stopping
  refine ⟨quiescent, ?_⟩
  simp [Turn.proceed, Reactor.isFinished, quiescent, stopping]

/-- A reactor that was told to stop only winds down.  Being told submits the timer for it
alone.  From then on, whatever completes and whatever is queued: every channel closes and
none comes, nothing is submitted, and nothing is run.  A task that is taken fails its
invocation, and so does the end of the loop.  Each completion of a channel lowers the
number of operations by one, and when none is left but the timer, the loop ends. -/
theorem stopping_winds_down {t : Turn σ} (unused : Unused t)
    (run : Run timely ⟨t.armWakeup.armAccept, []⟩ m) (limits : m.WithinLimits)
    (stopping : m.turn.reactor.stopping = true)
    (later : Relation.ReflTransGen (Step timely) m m') :
    (∀ m₀ m₁ : Moment σ, Step timely m₀ m₁ → m₀.turn.reactor.stopping = false →
      m₁.turn.reactor.stopping = true →
      m₁.turn.reactor.driver.submissions
        = ⟨.plain .drainTimer, .timeout m₀.turn.config.terminationTimeout⟩
          :: m₀.turn.reactor.driver.submissions)
    ∧ m'.turn.reactor.stopping = true
    ∧ (∀ key c, m'.turn.channel? key = some c →
      c.state = .closing ∧ (m.turn.channel? key).isSome = true)
    ∧ m'.turn.reactor.driver.submissions = m.turn.reactor.driver.submissions
    ∧ (m'.turn.reactor.driver.unhandled m'.batch).Subperm (m.turn.reactor.driver.unhandled m.batch)
    ∧ m'.turn.reactor.dispatcher = m.turn.reactor.dispatcher
    ∧ (∀ task u, m'.turn.popTask = (some task, u) →
      ∀ peer id i, task.invocation? m'.turn.reactor.localAddress = some (peer, id) →
      m'.turn.shared.invocations.find? peer id = some i →
      m'.turn.shared.invocations.standing i.future = some none →
      ((u.count fun s => { s with tasks := s.tasks + 1 }).onTask task).shared.invocations.standing
        i.future = some (some (.error .shuttingDown)))
    ∧ (m'.turn.shared.shuttingDown = true →
      m'.turn.finish.reactor.dispatcher = m'.turn.reactor.dispatcher
      ∧ ∀ peer id i, m'.turn.shared.invocations.find? peer id = some i →
        i.reactor = m'.turn.reactor.index →
        m'.turn.shared.invocations.standing i.future = some none →
        m'.turn.finish.shared.invocations.standing i.future = some (some (.error .shuttingDown)))
    ∧ (∀ u done rest p, m' = ⟨u, done :: rest⟩ → done.token.purpose? = some p →
      p.isChannel = true → (u.onCompletion done).opsInFlight + 1 = u.opsInFlight)
    ∧ (m'.turn.reactor.quiescent = true ↔ m'.Drained)
    ∧ ∀ u bound, m' = ⟨u, []⟩ → Drained ⟨u.work, []⟩ →
      u.work.reactor.quiescent = true ∧ u.proceed (bound + 1) .awake = (.ended, u.work) := by
  obtain ⟨winding, recedes⟩ := (run.winding unused limits stopping).later later
  refine ⟨?_, winding.stopping, ?_, recedes.submissions, recedes.operations, recedes.dispatcher,
    fun task u popped => (Turn.reject_popTask winding.stopping popped).2,
    Turn.finish_of_shuttingDown, ?_, winding.quiescent_iff, ?_⟩
  · intro m₀ m₁ step going told
    obtain ⟨u, same, config, -, rfl⟩ := step.stops going told
    have timer := Turn.submissions_beginStop (t := u) (same ▸ going)
    rw [same, config] at timer
    exact timer
  · intro key c found
    obtain ⟨before, here, -⟩ := recedes.states key c found
    exact ⟨winding.closing key c found, here ▸ rfl⟩
  · rintro u done rest p rfl purpose channel
    exact winding.opsInFlight_onCompletion purpose channel
  · rintro u bound rfl drained
    exact winding.ends drained bound

/-- The lone reactor at work, with the task to stop in its queue. -/
def told : Moment Unit :=
  ⟨{ lone.armWakeup.armAccept with
      shared := { lone.shared with reactors := lone.shared.reactors.map fun r => r.stop 0 } }, []⟩

/-- The lone reactor after it has run the task.  Both operations it had are canceled. -/
def stopped : Moment Unit :=
  ⟨(told.turn.popTask.2.count fun s => { s with tasks := s.tasks + 1 }).onTask .stop, []⟩

/-- The lone reactor after it has handled them. -/
def spent : Moment Unit :=
  ⟨(stopped.turn.reactor.driver.drain 2).1.foldl Turn.onCompletion
    { stopped.turn with reactor := { stopped.turn.reactor with
        driver := (stopped.turn.reactor.driver.drain 2).2 } }, []⟩

/-- The lone reactor is told to stop, and winds down. -/
theorem lone_winds_down :
    Unused lone ∧ stopped.WithinLimits ∧ stopped.turn.reactor.stopping = true ∧ spent.Drained
      ∧ spent.turn.reactor.quiescent = true := by
  have unused : Unused lone := ⟨⟨rfl, rfl, rfl⟩, rfl, rfl, rfl⟩
  have limits : stopped.WithinLimits := withinLimits_of_length (by decide) (by decide)
  have queued : Run True ⟨lone.armWakeup.armAccept, []⟩ told :=
    .single ⟨withinLimits_of_length (by decide) (by decide), .interfere _ _ _⟩
  have run : Run True ⟨lone.armWakeup.armAccept, []⟩ stopped :=
    queued.tail ⟨withinLimits_of_length (by decide) (by decide), .move (.run _ .stop _ rfl)⟩
  have later : Relation.ReflTransGen (Step True) stopped spent :=
    later_of_moves (.head (.take _ 2) (moves_batch _ _))
  have only : spent.turn.reactor.driver.unhandled spent.batch = [.plain .drainTimer] := by rfl
  have drained : spent.Drained := by
    intro token mem p purpose
    rw [only, List.mem_singleton] at mem
    subst mem
    exact (Option.some.inj ((Token.purpose?_plain _).symm.trans purpose)).symm
  have whole := stopping_winds_down unused run limits rfl later
  exact ⟨unused, limits, rfl, drained, whole.2.2.2.2.2.2.2.2.2.1.mpr drained⟩

/-! ## A timer that is not counted

A connect is refused again and again, and the driver leaves the limits of those attempts under
way that were canceled.  With the pause after attempt 255 there is a timer more than the
channel can count.
-/

/-- Settings with many retries. -/
def persistent : Config where
  reactorCount := 1
  connectRetries := 300

/-- A reactor that is to connect.  Its driver refuses to watch for wakeups. -/
def caller : Turn Unit where
  host := {}
  shared :=
    { lone.shared with
      config := persistent
      reactors := [((ReactorHandle.new 0 {} .blocking).submit 0 (.connect afar)).2] }
  reactor :=
    { lone.reactor with
      listener := none
      driver := { refusals := [(.read, 12)], keepsCanceled := true } }

/-- The reactor after it has run its task. -/
def called : Turn Unit :=
  (caller.armWakeup.armAccept.popTask.2.count fun s => { s with tasks := s.tasks + 1 }).onTask
    (.connect afar)

/-- The limits of the first attempts. -/
def firstLimits (n : Nat) : List Submission := (List.range' 1 n).map (Turn.limit persistent ⟨0, 0⟩)

theorem firstLimits_succ (n : Nat) :
    firstLimits (n + 1) = firstLimits n ++ [Turn.limit persistent ⟨0, 0⟩ (n + 1)] := by
  rw [firstLimits, List.range'_1_concat, List.map_append, Nat.add_comm 1 n]
  rfl

/-- A channel in the attempt `n`, and the timers that it counts. -/
structure Dials (c : Channel) (n timers : Nat) : Prop where
  state : c.state = .connecting
  remote : c.remote = afar.endpoint
  attempt : c.attempt.toNat = n
  timers : c.timers.toNat = timers
  recv : c.recvInFlight = false
  send : c.writes.inFlight = false

/-- The attempt `n + 1` is under way, and the limits of those before. -/
def Dialing (n : Nat) (t : Turn Unit) : Prop :=
  ∃ (host : Host) (c : Channel) (socket : Nat) (log : List DriverEvent) (panicked : Bool),
    host.descriptorLimit = none ∧ Dials c (n + 1) (n + 1)
      ∧ t = { called with host }.alone c
        (firstLimits n ++ [Turn.dial ⟨0, 0⟩ (n + 1) socket afar.endpoint,
          Turn.limit persistent ⟨0, 0⟩ (n + 1)]) log panicked

/-- The attempt `n + 1` has failed, and the pause after it is under way. -/
def Pausing (n : Nat) (t : Turn Unit) : Prop :=
  ∃ (host : Host) (c : Channel) (log : List DriverEvent) (panicked : Bool),
    host.descriptorLimit = none ∧ Dials c (n + 1) (min (n + 2) maxTimers)
      ∧ c.connectInFlight = false
      ∧ t = { called with host }.alone c
        (firstLimits (n + 1) ++ [Turn.pause persistent ⟨0, 0⟩ (n + 1)]) log panicked

theorem Dials.withTimer {c : Channel} {n timers : Nat} (h : Dials c n timers)
    (few : timers ≤ maxTimers) : Dials c.withTimer n (min (timers + 1) maxTimers) := by
  have count := h.timers
  simp only [Channel.withTimer]
  split
  · rename_i full
    exact ⟨h.state, h.remote, h.attempt, by omega, h.recv, h.send⟩
  · rename_i room
    obtain ⟨timers', same, counted⟩ := c.exists_withTimer
    refine ⟨h.state, h.remote, h.attempt, ?_, h.recv, h.send⟩
    show (c.timers + 1).toNat = _
    rw [toNat_add_one room]
    omega

/-- The task makes the first attempt. -/
theorem dialing_called : Dialing 0 called :=
  ⟨_, _, _, _, false, rfl, ⟨rfl, rfl, rfl, rfl, rfl, rfl⟩, rfl⟩

theorem apart_firstLimits {n : Nat} {s : Submission}
    (other : s.token.purpose? ≠ some .connectTimeout) :
    ∀ s' ∈ firstLimits n, s'.token ≠ s.token := by
  intro s' mem same
  obtain ⟨i, -, rfl⟩ := List.mem_map.mp mem
  rw [← same] at other
  exact other rfl

/-- The attempt is refused.  Its limit is canceled, and stays under way. -/
theorem Dialing.pausing {n : Nat} {t : Turn Unit} (h : Dialing n t) (few : n < maxTimers) :
    ∃ t', Relation.ReflTransGen (Step True) ⟨t, []⟩ ⟨t', []⟩ ∧ Pausing n t' := by
  obtain ⟨host, c, socket, log, panicked, unlimited, dials, rfl⟩ := h
  have left : c.attempt ≤ ({ called with host } : Turn Unit).config.connectRetries := by
    rw [UInt32.le_iff_toNat_le, dials.attempt]
    show n + 1 ≤ 300
    simp only [maxTimers] at few
    omega
  have spans : called.config.Spans := by decide
  have refused : (-111 : Int) ≠ 0 := by decide
  obtain ⟨log', panicked', failed⟩ := Turn.onConnect_alone (t := { called with host }) (c := c)
    (firstLimits (n + 1)) log false dials.state rfl left spans (UInt8.ofNat (n + 1)) refused
  have back := later_alone { called with host } c (firstLimits n)
    (Turn.dial ⟨0, 0⟩ (n + 1) socket afar.endpoint) [Turn.limit persistent ⟨0, 0⟩ (n + 1)] log
    panicked (-111) (apart_firstLimits fun kind => by cases kind) fun timer => by cases timer
  rw [← firstLimits_succ] at back
  let c' : Channel := { c with connectInFlight := false, descriptor := none }
  have dials' : Dials c' (n + 1) (n + 1) :=
    ⟨dials.state, dials.remote, dials.attempt, dials.timers, dials.recv, dials.send⟩
  have timed := dials'.withTimer (by omega)
  refine ⟨_, back, host.close c.descriptor, c'.withTimer, log', panicked',
    (Host.descriptorLimit_close ..).trans unlimited, timed, ?_, ?_⟩
  · obtain ⟨timers, same, -⟩ := c'.exists_withTimer
    rw [same]
  · rw [dials.attempt] at failed
    have released := Turn.release_alone { called with host := host.close c.descriptor }
      (firstLimits (n + 1) ++ [Turn.pause persistent ⟨0, 0⟩ (n + 1)]) log' panicked' timed.state
    exact (congrArg (Turn.andThen · (·.releaseIfDone ⟨0, 0⟩)) failed).trans released

/-- The pause is over, and the next attempt is made. -/
theorem Pausing.dialing {n : Nat} {t : Turn Unit} (h : Pausing n t) (few : n + 1 < maxTimers) :
    ∃ t', Relation.ReflTransGen (Step True) ⟨t, []⟩ ⟨t', []⟩ ∧ Dialing (n + 1) t' := by
  obtain ⟨host, c, log, panicked, unlimited, dials, -, rfl⟩ := h
  have count := dials.timers
  rw [Nat.min_eq_left few] at count
  have more : c.attempt.toNat ≠ maxAttempts := by
    rw [dials.attempt]
    simp only [maxTimers] at few
    simp only [maxAttempts]
    omega
  have number : (c.attempt + 1).toNat = n + 2 := by
    simp only [maxTimers] at few
    rw [UInt32.toNat_add, dials.attempt]
    exact Nat.mod_eq_of_lt (show n + 1 + 1 < 4294967296 by omega)
  obtain ⟨socket, host', log', panicked', unlimited', dialed⟩ := Turn.onRetryTimer_alone
    (t := { called with host }) (c := c) (firstLimits (n + 1)) log false dials.state unlimited more
  have back := later_alone { called with host } c (firstLimits (n + 1))
    (Turn.pause persistent ⟨0, 0⟩ (n + 1)) [] log panicked 0 (apart_firstLimits fun kind => by cases kind)
    fun _ => rfl
  rw [List.append_nil] at back
  have dials' : Dials (Turn.redialed c socket) (n + 2) (n + 1) :=
    ⟨dials.state, dials.remote, number, toNat_sub_min_one count, dials.recv, dials.send⟩
  have timed := dials'.withTimer (by omega)
  rw [Nat.min_eq_left few] at timed
  refine ⟨_, back, host', _, socket, log', panicked', unlimited', timed, ?_⟩
  rw [number, dials.remote] at dialed
  have released := Turn.release_alone { called with host := host' }
    (firstLimits (n + 1) ++ [Turn.dial ⟨0, 0⟩ (n + 2) socket afar.endpoint,
      Turn.limit persistent ⟨0, 0⟩ (n + 2)]) log' panicked' timed.state
  exact (congrArg (Turn.andThen · (·.releaseIfDone ⟨0, 0⟩)) dialed).trans released

/-- As many attempts as a channel counts timers, one after the other. -/
theorem exists_pausing :
    ∃ t, Relation.ReflTransGen (Step True) ⟨called, []⟩ ⟨t, []⟩ ∧ Pausing 254 t := by
  have all (n : Nat) (few : n < maxTimers) :
      ∃ t, Relation.ReflTransGen (Step True) ⟨called, []⟩ ⟨t, []⟩ ∧ Pausing n t := by
    induction n with
    | zero => exact dialing_called.pausing few
    | succ n ih =>
      obtain ⟨t, run, pausing⟩ := ih (by omega)
      obtain ⟨t', resumed, dialing⟩ := pausing.dialing few
      obtain ⟨t'', failed, pausing'⟩ := dialing.pausing few
      exact ⟨t'', (run.trans resumed).trans failed, pausing'⟩
  exact all 254 (by decide)

/-- The reactor winds down with one channel, whose timers are counted. -/
structure Lingers (t : Turn Unit) (c : Channel) (timers : Nat) : Prop where
  stopping : t.reactor.stopping = true
  unarmed : t.reactor.acceptArmed = false ∧ t.reactor.wakeArmed = false
  state : c.state = .closing
  recv : c.recvInFlight = false
  send : c.writes.inFlight = false
  connect : c.connectInFlight = false
  timers : c.timers.toNat = timers

theorem Lingers.opsInFlight {t : Turn Unit} {c : Channel} {timers : Nat} (h : Lingers t c timers) :
    c.opsInFlight = timers := by
  rw [Channel.opsInFlight, h.recv, h.send, h.connect, h.timers]
  simp

/-- A timer that is counted comes back. -/
theorem Lingers.back {t : Turn Unit} {c : Channel} {n : Nat} (h : Lingers t c (n + 1)) (i : Nat)
    (later : List Submission) (log : List DriverEvent) (panicked : Bool) :
    ∃ c', Lingers t c' n ∧ Relation.ReflTransGen (Step True)
      ⟨t.alone c (Turn.limit persistent ⟨0, 0⟩ i :: later) log panicked, []⟩
      ⟨(t.alone c' later log false).releaseIfDone ⟨0, 0⟩, []⟩ := by
  have back := later_alone t c [] (Turn.limit persistent ⟨0, 0⟩ i) later log panicked 0 nofun
    fun _ => rfl
  have lingers : Lingers t (Turn.timerDone c) n :=
    ⟨h.stopping, h.unarmed, h.state, h.recv, h.send, h.connect, toNat_sub_min_one h.timers⟩
  have handled : (t.alone c later log panicked).onCompletion
      { token := (Turn.limit persistent ⟨0, 0⟩ i).token, result := 0 }
      = (t.alone (Turn.timerDone c) later log false).releaseIfDone ⟨0, 0⟩ := by
    have dispatched : (t.alone c later log panicked).onCompletion
        { token := (Turn.limit persistent ⟨0, 0⟩ i).token, result := 0 }
        = ((t.alone c later log false).onConnectTimeout ⟨0, 0⟩ (UInt8.ofNat i) 0).andThen
          (·.releaseIfDone ⟨0, 0⟩) := rfl
    have found : (t.alone c later log false).channel? ⟨0, 0⟩ = some c := rfl
    have closing : (Turn.timerDone c).state ≠ .connecting := by rw [lingers.state]; decide
    rw [dispatched]
    simp only [Turn.onConnectTimeout, found]
    rw [if_pos (.inr (.inr (.inl closing)))]
    rfl
  rw [List.nil_append, List.nil_append, handled] at back
  exact ⟨_, lingers, back⟩

/-- A channel that counts no operations is removed, and then nothing is waited for. -/
theorem Lingers.finished {t : Turn Unit} {c : Channel} (h : Lingers t c 0)
    (later : List Submission) (log : List DriverEvent) :
    ((t.alone c later log false).releaseIfDone ⟨0, 0⟩).reactor.isFinished = true
      ∧ ((t.alone c later log false).releaseIfDone ⟨0, 0⟩).opsInFlight = 0 := by
  constructor
  · have found : (t.alone c later log false).channel? ⟨0, 0⟩ = some c := rfl
    simp only [Turn.releaseIfDone, found]
    rw [if_pos ⟨h.state, h.opsInFlight⟩]
    show (t.reactor.stopping && ((_ && !t.reactor.acceptArmed && !t.reactor.wakeArmed) || _)) = true
    rw [h.stopping, h.unarmed.1, h.unarmed.2]
    rfl
  · rw [Turn.opsInFlight_releaseIfDone]
    exact h.opsInFlight

/-- The timers that are counted come back, and the channel is removed with the last. -/
theorem Lingers.spent {t : Turn Unit} (later : List Submission) (log : List DriverEvent)
    (numbers : List Nat) {c : Channel} (panicked : Bool) (h : Lingers t c numbers.length)
    (some : numbers ≠ []) : ∃ t', Relation.ReflTransGen (Step True)
        ⟨t.alone c (numbers.map (Turn.limit persistent ⟨0, 0⟩) ++ later) log panicked, []⟩ ⟨t', []⟩
      ∧ t'.reactor.isFinished = true ∧ t'.opsInFlight = 0
      ∧ t'.reactor.driver = .lenient later log := by
  induction numbers generalizing c panicked with
  | nil => exact absurd rfl some
  | cons i numbers ih =>
    obtain ⟨c', lingers, back⟩ := Lingers.back h i
      (numbers.map (Turn.limit persistent ⟨0, 0⟩) ++ later) log panicked
    cases numbers with
    | nil =>
      obtain ⟨finished, none⟩ := Lingers.finished lingers later log
      exact ⟨_, back, finished, none, Turn.driver_releaseIfDone _ _⟩
    | cons j numbers =>
      have busy : c'.opsInFlight ≠ 0 := by rw [lingers.opsInFlight]; exact Nat.succ_ne_zero _
      obtain ⟨t', run, finished⟩ := ih false lingers nofun
      rw [Turn.releaseIfDone_alone t _ log false (.inr busy)] at back
      exact ⟨t', back.trans run, finished⟩

/-- What the reactors share when they are told to stop. -/
def ending : Shared Unit :=
  { called.shared with reactors := called.shared.reactors.map fun r => r.stop 0 }

/-- The reactor is told to stop, and its timers stay under way. -/
theorem Pausing.stopping {n : Nat} {t : Turn Unit} (h : Pausing n t) :
    ∃ (u : Turn Unit) (c : Channel) (log : List DriverEvent) (panicked : Bool),
      Relation.ReflTransGen (Step True) ⟨t, []⟩ ⟨u.alone c (firstLimits (n + 1)
        ++ [Turn.pause persistent ⟨0, 0⟩ (n + 1), Turn.deadline u.config]) log panicked, []⟩
      ∧ Lingers u c (min (n + 2) maxTimers) := by
  obtain ⟨host, c, log, panicked, -, dials, connect, rfl⟩ := h
  let pending := firstLimits (n + 1) ++ [Turn.pause persistent ⟨0, 0⟩ (n + 1)]
  let t := ({ called with host, shared := ending } : Turn Unit).alone c pending log panicked
  have live : c.state.isClosed = false := by rw [dials.state]; rfl
  have busy : c.opsInFlight ≠ 0 := by
    have counted := dials.timers
    simp only [maxTimers] at counted
    simp only [Channel.opsInFlight]
    omega
  have told : Step True ⟨({ called with host } : Turn Unit).alone c pending log panicked, []⟩
      ⟨t, []⟩ := .interfere _ host ending
  have popped : t.popTask = (some .stop, t.popTask.2) := rfl
  let u₀ : Turn Unit := { called with
    host, shared := (t.popTask.2.count fun s => { s with tasks := s.tasks + 1 }).shared }
  obtain ⟨u, log', stopped, stopping, unaccepting, unwakeful⟩ :=
    Turn.beginStop_alone u₀ pending log panicked live busy rfl rfl rfl
  have ran : Step True ⟨t, []⟩ ⟨(u₀.alone c pending log panicked).beginStop, []⟩ :=
    .move (.run t .stop _ popped)
  rw [stopped, List.append_assoc] at ran
  exact ⟨u, c.beginClose, log', panicked, (Relation.ReflTransGen.single told).tail ran,
    stopping, ⟨unaccepting, unwakeful⟩, rfl, dials.recv, dials.send, connect, dials.timers⟩

/-- With valid settings a reactor may stop with an operation of a channel under way, which no
channel counts any longer.  After 255 attempts a channel has one timer more under way than it
counts, and is removed when the others have come back. -/
theorem stops_too_early : ∃ m m' : Moment Unit,
    persistent.validate = .ok () ∧ Unused caller
    ∧ Relation.ReflTransGen (Step True) ⟨caller.armWakeup.armAccept, []⟩ m
    ∧ m.turn.reactor.stopping = true
    ∧ Relation.ReflTransGen (Step True) m m'
    ∧ m'.turn.reactor.isFinished = true ∧ m'.turn.opsInFlight = 0
    ∧ m'.outstanding .retryTimer ⟨0, 0⟩ = 1 := by
  obtain ⟨t, dialed, pausing⟩ := exists_pausing
  obtain ⟨u, c, log, panicked, stopped, lingers⟩ := pausing.stopping
  have counted : Lingers u c (List.range' 1 255).length := by
    rw [List.length_range']
    exact lingers
  obtain ⟨t', later, finished, none, driver⟩ := Lingers.spent
    [Turn.pause persistent ⟨0, 0⟩ 255, Turn.deadline u.config] log (List.range' 1 255) panicked
    counted (by simp)
  have called : Step True ⟨caller.armWakeup.armAccept, []⟩ ⟨called, []⟩ :=
    .move (.run _ (.connect afar) _ rfl)
  refine ⟨_, ⟨t', []⟩, rfl, ⟨⟨rfl, rfl, rfl⟩, rfl, rfl, rfl⟩,
    ((Relation.ReflTransGen.single called).trans dialed).trans stopped, lingers.stopping, later,
    finished, none, ?_⟩
  rw [outstanding, driver]
  rfl

end Moment

end PartitionEngine
