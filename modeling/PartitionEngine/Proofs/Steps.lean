import PartitionEngine.Proofs.Settling
import PartitionEngine.Proofs.Works

/-!
# Steps keep every account in order

A step of a reactor handles one completion or runs one task.  It works for one
channel and leaves the others alone, it makes a channel, or, when the reactor is
told to stop, it closes all of them.  In each case every account that was in
order is in order after it (`Sound.onCompletion`, `Sound.onTask`).
-/

namespace PartitionEngine

theorem Purpose.byte_of_ofByte? {b : UInt8} {p : Purpose} (h : ofByte? b = some p) : p.byte = b := by
  simpa using List.find?_some h

theorem Purpose.ofByte?_byte (p : Purpose) : ofByte? p.byte = some p := by
  cases p <;> decide

/-- The operation of a token is of the channel and for the purpose the token names. -/
theorem Token.isOf_of_purpose? {token : Token} {p : Purpose} (h : token.purpose? = some p) :
    token.isOf p token.key = true := by
  simp [isOf, Purpose.byte_of_ofByte? h]

theorem Token.purpose?_of_isOf {token : Token} {p : Purpose} {key : SlotKey}
    (h : token.isOf p key = true) : token.purpose? = some p := by
  simp only [isOf, Bool.and_eq_true, decide_eq_true_eq] at h
  rw [purpose?, h.1, Purpose.ofByte?_byte]

theorem Token.key_of_isOf {token : Token} {p : Purpose} {key : SlotKey}
    (h : token.isOf p key = true) : token.key = key := by
  simp only [isOf, Bool.and_eq_true, decide_eq_true_eq] at h
  exact h.2

/-- The operation of a token is none of a channel's, or it is one of them, and then the token
names both the purpose and the channel. -/
theorem Token.foreign_or_own (token : Token) (key : SlotKey) :
    (∀ p : Purpose, p.isChannel = true → token.isOf p key = false)
    ∨ ∃ p : Purpose, p.isChannel = true ∧ token.isOf p key = true ∧ token.purpose? = some p
      ∧ token.key = key := by
  by_cases foreign : ∀ p : Purpose, p.isChannel = true → token.isOf p key = false
  · exact .inl foreign
  · obtain ⟨p, own⟩ := not_forall.mp foreign
    obtain ⟨channel, own⟩ := Classical.not_imp.mp own
    rw [Bool.not_eq_false] at own
    exact .inr ⟨p, channel, own, purpose?_of_isOf own, key_of_isOf own⟩

namespace CompletionQueue

variable {q : CompletionQueue} {batch : List (IoCompletion Token)} {key : SlotKey}

theorem brokenPauses_le_outstanding :
    q.brokenPauses batch key ≤ q.outstanding batch .retryTimer key := by
  rw [outstanding, unhandled, List.countP_append, List.countP_map, brokenPauses]
  refine Nat.le_trans (List.countP_mono_left ?_) (Nat.le_add_right _ _)
  intro c _ h
  simp only [Bool.and_eq_true] at h
  exact h.1

/-- Without operations on its way a channel has no canceled one. -/
theorem uncanceled_of_outstanding {p : Purpose} (none : q.outstanding batch p key = 0)
    (attempt : UInt8) : q.Uncanceled (.ofChannel p key attempt) := by
  refine uncanceled_of_absent (Nat.eq_zero_of_le_zero ?_)
  rw [← none, outstanding, unhandled, List.countP_append, List.countP_map (l := q.pending)]
  refine Nat.le_trans (List.countP_mono_left ?_) (Nat.le_add_left _ _)
  intro s _ h
  simp only [decide_eq_true_eq] at h
  simp [h]

end CompletionQueue

namespace Turn

variable {σ : Type} {ideal : Prop} {batch : List (IoCompletion Token)} {key : SlotKey}
  {t t' : Turn σ} {done : IoCompletion Token}

/-- Every account is in order, and so is the list of empty slots. -/
structure Sound (ideal : Prop) (batch : List (IoCompletion Token)) (t : Turn σ) : Prop where
  exact : t.reactor.channels.FreeExact
  order : ∀ key, t.InOrder ideal [] batch key

/-- A completion that is not of a channel does not matter to it. -/
theorem InOrder.of_foreign (h : t.InOrder ideal [] (done :: batch) key)
    (foreign : ∀ p, p.isChannel = true → done.token.isOf p key = false) :
    t.InOrder ideal [] batch key := by
  refine h.agrees rfl ⟨?_, fun _ none sound => ⟨?_, sound⟩⟩
  · intro p own
    simp [CompletionQueue.outstanding_cons, foreign p own]
  · exact Nat.eq_zero_of_le_zero (none ▸ CompletionQueue.brokenPauses_cons_le _ _ done key)

namespace Sound

/-- What works for one channel has to keep one account. -/
theorem of_acts (h : t.Sound ideal batch) (acts : Acts .all key t t')
    (here : t'.InOrder ideal [] batch key) : t'.Sound ideal batch where
  exact := acts.freeExact h.exact
  order k := by
    by_cases same : k = key
    · exact same ▸ here
    · exact (h.order k).untouched (acts.untouched same)

/-- What works for no channel keeps every account. -/
theorem of_forall (h : t.Sound ideal batch) (acts : ∀ key, Acts .all key t t') :
    t'.Sound ideal batch where
  exact := (acts ⟨0, 0⟩).freeExact h.exact
  order k := (h.order k).untouched (untouched_of_forall acts k)

theorem of_eq (h : t.Sound ideal batch) (channels : t'.reactor.channels = t.reactor.channels)
    (driver : t'.reactor.driver = t.reactor.driver) : t'.Sound ideal batch where
  exact := channels ▸ h.exact
  order k := (h.order k).untouched (.of_eq channels driver)

theorem write (h : t.Sound ideal batch) (able : ideal → t.config.Bearable) (key : SlotKey)
    (bytes : Bytes) : (t.write key bytes).Sound ideal batch :=
  h.of_acts (acts_write t key bytes trivial) ((h.order key).write (by decide) able bytes)

/-! ## New channels -/

/-- The account of a key that was not in use, with a channel that counts nothing. -/
theorem counted_vacant {q : CompletionQueue} {c : Channel}
    (none : ∀ p, p.isChannel = true → q.outstanding batch p key = 0)
    (idle : c.recvInFlight = false ∧ c.writes.inFlight = false ∧ c.connectInFlight = false
      ∧ c.timers = 0) : Counted batch key q c where
  recv := by rw [none _ rfl, idle.1]; rfl
  send := by rw [none _ rfl, idle.2.1]; rfl
  connect := by rw [none _ rfl, idle.2.2.1]; rfl
  timers := by
    rw [idle.2.2.2, CompletionQueue.timersOutstanding, none _ rfl, none _ rfl]
    exact fun _ => rfl

/-- A key that was not in use has no attempt on its way. -/
theorem attempting_vacant {q : CompletionQueue}
    (none : ∀ p, p.isChannel = true → q.outstanding batch p key = 0) :
    Attempting batch key ideal [.attempt] q := by
  have attempts : q.attemptsOutstanding batch key = 0 := by
    rw [CompletionQueue.attemptsOutstanding, none _ rfl, none _ rfl]
  exact
    { once := Nat.le_trans (Nat.le_of_eq attempts) (Nat.zero_le 1)
      idle := fun _ => attempts
      trying := fun _ mem => absurd (by simp) mem
      pauses := fun _ => Nat.eq_zero_of_le_zero
        (none .retryTimer rfl ▸ CompletionQueue.brokenPauses_le_outstanding)
      uncanceled := fun _ => CompletionQueue.uncanceled_of_outstanding (none _ rfl) }

/-- A new channel gets a key that nothing else goes by. -/
theorem addChannel (h : t.Sound ideal batch) (room : t.reactor.channels.slots.length < Slab.maxSlots)
    (left : List Duty) (c : Channel) (t' : Turn σ)
    (account : (∀ p, p.isChannel = true →
        t.reactor.driver.outstanding batch p (t.addChannel c).1 = 0) →
      Account batch (t.addChannel c).1 ideal left t.reactor.driver c)
    (channels : t'.reactor.channels = (t.addChannel c).2.reactor.channels)
    (driver : t'.reactor.driver = t.reactor.driver) :
    t'.reactor.channels.FreeExact ∧ t'.channel? (t.addChannel c).1 = some c
      ∧ t'.InOrder ideal left batch (t.addChannel c).1
      ∧ ∀ k ≠ (t.addChannel c).1, t'.InOrder ideal [] batch k := by
  have lookup (k : SlotKey) :
      t'.channel? k = if k = (t.addChannel c).1 then some c else t.channel? k := by
    rw [channel?, channels]
    exact Slab.get?_alloc h.exact room c k
  have found : t'.channel? (t.addChannel c).1 = some c := by rw [lookup, if_pos rfl]
  refine ⟨channels ▸ h.exact.alloc c, found, .of_found found ?_, ?_⟩
  · rw [driver]
    exact account ((h.order _).vacant (Slab.get?_alloc_key h.exact room c))
  · intro k apart
    refine (h.order k).untouched ⟨?_, driver ▸ .refl _⟩
    rw [lookup, if_neg apart]

theorem adopt (h : t.Sound ideal batch) (room : t.reactor.channels.slots.length < Slab.maxSlots)
    (able : ideal → t.config.Bearable) (socket : Nat) (remote : Option Endpoint) :
    (t.adopt socket remote).Sound ideal batch := by
  cases remote with
  | none => exact h.of_eq rfl rfl
  | some remote =>
    let c := Channel.accepted (some socket) remote t.config.maxMessageSize
    let t' := (t.addChannel c).2.count fun s => { s with accepted := s.accepted + 1 }
    obtain ⟨exact, -, here, others⟩ := h.addChannel room [.receive] c t'
      (fun none =>
        { counted := counted_vacant none ⟨rfl, rfl, rfl, rfl⟩
          few := fun _ => by
            simp [CompletionQueue.timersOutstanding, none .connectTimeout rfl, none .retryTimer rfl]
          present := by simp [c, Channel.accepted]
          attempting := by simp [c, Channel.accepted]
          numbered := by simp [c, Channel.accepted]
          receiving := fun _ mem => absurd (by simp) mem
          sending := fun _ _ _ waits => by cases waits
          lingering := by simp [c, Channel.accepted] })
      rfl rfl
    have acts : Acts .all _ t' _ := acts_postRecv t' (t.addChannel c).1 trivial
    refine ⟨acts.freeExact exact, ?_⟩
    intro k
    by_cases same : k = (t.addChannel c).1
    · exact same ▸ here.postRecv (by decide) able
    · exact (others k same).untouched (acts.untouched same)

/-- Making the channel of a link keeps every account, and so does using the one
that is there. -/
theorem outboundChannel (h : t.Sound ideal batch)
    (room : t.reactor.channels.slots.length < Slab.maxSlots) (able : ideal → t.config.Bearable)
    (l : Link) :
    (t.outboundChannel l).2.Sound ideal batch := by
  rcases outboundChannel_cases t l with ⟨key, c, -, -, -, same⟩ | ⟨made, -⟩
  · rw [same]
    exact h
  · rw [made]
    let c := Channel.outbound l t.config.maxMessageSize
    have account (none : ∀ p, p.isChannel = true →
        t.reactor.driver.outstanding batch p (t.addChannel c).1 = 0) :
        Account batch (t.addChannel c).1 ideal [.attempt] t.reactor.driver c :=
      { counted := counted_vacant none ⟨rfl, rfl, rfl, rfl⟩
        few := fun other => absurd rfl other
        present := by simp [c, Channel.outbound]
        attempting := fun _ => attempting_vacant none
        numbered := fun _ _ paused => absurd (none .retryTimer rfl) paused
        receiving := fun _ _ isOpen => by cases isOpen
        sending := fun _ _ isOpen => by cases isOpen
        lingering := fun _ closing => by cases closing }
    obtain ⟨exact, found, here, others⟩ := h.addChannel room [.attempt] c (t.makeChannel l).2
      account rfl rfl
    have none := (h.order (t.addChannel c).1).vacant (Slab.get?_alloc_key h.exact room c)
    have few : (t.makeChannel l).2.reactor.driver.timersOutstanding batch (t.addChannel c).1
        ≤ maxTimers := by
      show t.reactor.driver.timersOutstanding batch (t.addChannel c).1 ≤ maxTimers
      rw [CompletionQueue.timersOutstanding, none _ rfl, none _ rfl]
      exact Nat.zero_le _
    have acts : Acts .all _ _ _ := acts_startConnect (t.makeChannel l).2 (t.addChannel c).1 trivial
    refine ⟨acts.freeExact exact, ?_⟩
    intro k
    by_cases same : k = (t.addChannel c).1
    · rw [same]
      exact .startConnect found rfl (here.account c found) few able fun _ => by
        show (0 : UInt32).toNat < maxAttempts
        decide
    · exact (others k same).untouched (acts.untouched same)

/-! ## Winding down -/

/-- Closing a channel takes nothing off its driver. -/
theorem outstanding_close (t : Turn σ) (key : SlotKey) (cause : Failure) (p : Purpose)
    (k : SlotKey) : (t.close key cause).reactor.driver.outstanding batch p k
      = t.reactor.driver.outstanding batch p k := by
  cases found : t.channel? key with
  | none => rw [close_of_none found]
  | some c =>
    cases live : c.state.isClosed with
    | true => rw [close_of_isClosed found live]
    | false =>
      rw [close_of_live found live, driver_releaseIfDone, driver_shut]
      exact outstanding_cancelAll _ _ p k

theorem close (h : t.Sound ideal batch) (key : SlotKey)
    (few : t.reactor.driver.timersOutstanding batch key ≤ maxTimers) (cause : Failure) :
    (t.close key cause).Sound ideal batch := by
  refine h.of_acts (acts_close t key cause) ?_
  cases found : t.channel? key with
  | none =>
    rw [close_of_none found]
    exact h.order key
  | some c =>
    cases live : c.state.isClosed with
    | true =>
      rw [close_of_isClosed found live]
      exact h.order key
    | false => exact .close found live ((h.order key).account c found) few cause

theorem closeAll (keys : List SlotKey) (h : t.Sound ideal batch)
    (few : ∀ key, t.reactor.driver.timersOutstanding batch key ≤ maxTimers) (cause : Failure) :
    (keys.foldl (fun t key => t.close key cause) t).Sound ideal batch := by
  induction keys generalizing t with
  | nil => exact h
  | cons key rest ih =>
    refine ih (h.close key (few key) cause) ?_
    intro k
    rw [CompletionQueue.timersOutstanding, outstanding_close, outstanding_close]
    exact few k

theorem beginStop (h : t.Sound ideal batch)
    (few : ∀ key, t.reactor.driver.timersOutstanding batch key ≤ maxTimers) :
    t.beginStop.Sound ideal batch := by
  cases going : t.reactor.stopping with
  | true =>
    rw [beginStop_of_stopping going]
    exact h
  | false =>
    have stopping : Sound ideal batch { t with reactor := { t.reactor with stopping := true } } :=
      h.of_eq rfl rfl
    have closed := stopping.closeAll t.reactor.channels.keys few .shuttingDown
    exact closed.of_forall fun key => acts_beginStop going key trivial

/-! ## Tasks -/

theorem runForwarded (h : t.Sound ideal batch) (able : ideal → t.config.Bearable) (f : Frame)
    (replyTo : ChannelKey) : (t.runForwarded f replyTo).Sound ideal batch := by
  have acts : Acts .all replyTo.key t (t.execute f).2 := acts_execute t _ f trivial
  have ran := h.of_forall fun key => acts_execute t key f trivial
  obtain same | ⟨bytes, -, same | same⟩ := runForwarded_cases t f replyTo
  · rw [same]
    exact ran
  · rw [same]
    exact ran.write (acts.config ▸ able) _ bytes
  · rw [same]
    exact ran.of_eq rfl rfl

/-- A task keeps every account. -/
theorem onTask (h : t.Sound ideal batch)
    (room : t.reactor.channels.slots.length < Slab.maxSlots)
    (few : ∀ key, t.reactor.driver.timersOutstanding batch key ≤ maxTimers)
    (able : ideal → t.config.Bearable) (task : Task) : (t.onTask task).Sound ideal batch := by
  have step := t.taskStep_onTask task
  generalize t.onTask task = t' at step ⊢
  cases step with
  | rejected => exact h.of_forall fun key => acts_reject t key task trivial
  | executed r correlationId =>
    exact h.of_forall fun key => acts_runLocal t key r correlationId trivial trivial
  | connected l | unwritten l => exact h.outboundChannel room able l
  | written l bytes correlationId key =>
    have works : Works .all t (t.outboundChannel l).2 := works_outboundChannel t l trivial
    exact (h.outboundChannel room able l).write (works.config ▸ able) key bytes
  | forwarded f replyTo => exact h.runForwarded able f replyTo
  | replied channel bytes => exact h.write able channel.key bytes
  | stopped => exact h.beginStop few

/-! ## Completions -/

theorem onAccept (h : t.Sound ideal batch)
    (room : t.reactor.channels.slots.length < Slab.maxSlots) (able : ideal → t.config.Bearable)
    (result : Int) (remote : Option Endpoint) : (t.onAccept result remote).Sound ideal batch := by
  have marked : t.unarmed.Sound ideal batch := h.of_eq rfl rfl
  obtain acts | acts := onAccept_cases .all t result remote trivial
  · exact h.of_forall acts
  · exact (marked.adopt room able result.toNat remote).of_forall acts

/-- A completion that is of no channel matters to none. -/
theorem of_plain (h : t.Sound ideal (done :: batch))
    (plain : ∀ p, done.token.purpose? = some p → p.isChannel = false) : t.Sound ideal batch := by
  refine ⟨h.exact, ?_⟩
  intro k
  refine (h.order k).of_foreign ?_
  intro p own
  cases foreign : done.token.isOf p k with
  | false => rfl
  | true =>
    have other := plain p (Token.purpose?_of_isOf foreign)
    rw [own] at other
    cases other

/-- A completion that is handled for its channel matters to no other.  The release
settles what its handler leaves to do, if that has not panicked. -/
theorem handled (h : t.Sound ideal (done :: batch)) (able : ideal → t.config.Bearable)
    (acts : Acts .all done.token.key t t') (halted : t'.Halted done.token.key)
    (here : t'.InOrder ideal [.linger] batch done.token.key) :
    (t'.andThen (·.releaseIfDone done.token.key)).Sound ideal batch := by
  have all : Acts .all done.token.key t (t'.andThen (·.releaseIfDone done.token.key)) :=
    acts.andThen (.of_act (.release t'))
  refine ⟨all.freeExact h.exact, ?_⟩
  intro k
  by_cases same : k = done.token.key
  · rw [same]
    exact here.andThen halted (acts.config ▸ able) (by decide) (by decide) fun _ => here.release
  · have elsewhere : t.InOrder ideal [] batch k := by
      refine (h.order k).of_foreign ?_
      intro p _
      exact Token.isOf_of_ne (Ne.symm same)
    exact elsewhere.untouched (all.untouched same)

/-- A completion keeps every account.  It counts before it is handled, and does
not count after. -/
theorem onCompletion (h : t.Sound ideal (done :: batch))
    (room : t.reactor.channels.slots.length < Slab.maxSlots)
    (few : ∀ key, t.reactor.driver.timersOutstanding (done :: batch) key ≤ maxTimers)
    (able : ideal → t.config.Bearable) : (t.onCompletion done).Sound ideal batch := by
  have h : t.afresh.Sound ideal (done :: batch) := h.of_eq rfl rfl
  have able : ideal → t.afresh.config.Bearable := able
  have room : t.afresh.reactor.channels.slots.length < Slab.maxSlots := room
  have few : t.afresh.reactor.driver.timersOutstanding (done :: batch) done.token.key ≤ maxTimers :=
    few done.token.key
  have going : t.afresh.panicked = false := rfl
  simp only [Turn.onCompletion]
  generalize t.afresh = t at h able room few going ⊢
  have order := h.order done.token.key
  cases kind : done.token.purpose? with
  | none =>
    refine h.of_plain ?_
    intro p other
    cases kind.symm.trans other
  | some p =>
    have own := Token.isOf_of_purpose? kind
    have plain (foreign : p.isChannel = false) : t.Sound ideal batch := by
      refine h.of_plain ?_
      intro q other
      cases kind.symm.trans other
      exact foreign
    cases p with
    | wakeup => exact (plain rfl).of_forall fun key => acts_onWakeup t key trivial
    | accept => exact (plain rfl).onAccept room able _ _
    | drainTimer => exact (plain rfl).of_forall fun key => acts_onDrainTimer t key _ trivial
    | recv =>
      exact h.handled able (acts_onRecv t _ _ _ (Scope.serving_all _ _) trivial trivial)
        (halted_onRecv going _ _) (order.onRecv own able going _ _)
    | send =>
      exact h.handled able (acts_onSend t _ _ trivial) (halted_onSend going _)
        (order.onSend own few able _)
    | connect =>
      exact h.handled able (acts_onConnect trivial t _ _ _ trivial trivial trivial)
        (halted_onConnect going _ _) (order.onConnect own few able going _ _)
    | connectTimeout =>
      exact h.handled able (acts_onConnectTimeout t _ _ _ trivial)
        (halted_onConnectTimeout going _ _) (order.onConnectTimeout own few _ _)
    | retryTimer =>
      exact h.handled able (acts_onRetryTimer t _ _ trivial) (halted_onRetryTimer going _)
        (order.onRetryTimer own few able)

end Sound

end Turn

end PartitionEngine
