import PartitionEngine.Proofs.Accounting
import PartitionEngine.Proofs.Panics

/-!
# Handlers settle accounts

Each handler takes an account that is in order, but for what its completion took
away, to one that is in order.  The lemmas go up the calls: sending and
receiving, connecting, and the handlers of completions, which are given the
account before their completion was handled.

Submissions may be refused anywhere.  A refused receive or send closes the
channel, a refused connect makes the attempt fail, and a refused pause closes the
channel.

A handler that panics leaves undone what comes after.  In an ideal run the settings
are bearable, and then that is nothing (`InOrder.andThen`).
-/

namespace PartitionEngine

namespace Turn

variable {σ : Type} {ideal : Prop} {left : List Duty} {batch : List (IoCompletion Token)}
  {key : SlotKey} {t t' : Turn σ} {c : Channel}

/-! ## Panics -/

/-- A handler that has panicked has nothing left to do that is asked for. -/
theorem InOrder.halt {left' : List Duty} (h : t.InOrder ideal left batch key)
    (halted : t.Halted key) (panicked : t.panicked = true) (able : ideal → t.config.Bearable)
    (attempt : .attempt ∉ left) (attempt' : .attempt ∉ left') :
    t.InOrder ideal left' batch key := by
  obtain ⟨c, found, connecting | ⟨isOpen, much⟩⟩ := halted panicked
  · exact .of_found found ((h.account c found).of_connecting connecting attempt attempt')
  · exact .of_found found ((h.account c found).of_not_ideal (fun t => much (able t)) attempt'
      fun _ => .inr (by simp [isOpen]))

/-- A handler settles what is left to do, unless it has panicked. -/
theorem InOrder.andThen {left' : List Duty} {rest : Turn σ → Turn σ}
    (h : t.InOrder ideal left batch key) (halted : t.Halted key)
    (able : ideal → t.config.Bearable) (attempt : .attempt ∉ left) (attempt' : .attempt ∉ left')
    (next : t.panicked = false → (rest t).InOrder ideal left' batch key) :
    (t.andThen rest).InOrder ideal left' batch key := by
  simp only [Turn.andThen]
  split
  · rename_i panicked
    exact h.halt halted panicked able attempt attempt'
  · rename_i going
    exact next (Bool.eq_false_iff.mpr going)

/-! ## Submissions -/

/-- A submission for a channel that is accepted is on its way. -/
theorem submit_ok {p : Purpose} {attempt : UInt8} {op : IoOp} {u : Unit}
    (result : t.submit (.ofChannel p key attempt) op = (.ok u, t'))
    (sends : op.kind = .send → p ≠ .retryTimer) :
    (∀ k, t'.channel? k = t.channel? k) ∧ t.reactor.driver.Posted p key t'.reactor.driver := by
  have accepted := congrArg Prod.fst result
  have after := congrArg Prod.snd result
  subst after
  exact ⟨fun _ => rfl, CompletionQueue.posted_of_ok accepted sends⟩

/-- One that is refused changes nothing. -/
theorem submit_error {p : Purpose} {attempt : UInt8} {op : IoOp} {e : Failure}
    (result : t.submit (.ofChannel p key attempt) op = (.error e, t'))
    (sends : op.kind = .send → p ≠ .retryTimer) : Untouched key t t' := by
  have refused := congrArg Prod.fst result
  have after := congrArg Prod.snd result
  subst after
  refine ⟨rfl, CompletionQueue.untouched_of_error refused ?_⟩
  intro send
  simp [sends send]

theorem countTimer_eq (found : t.channel? key = some c) :
    (t.countTimer key).channel? key = some c.withTimer
      ∧ (t.countTimer key).reactor.driver = t.reactor.driver := by
  simp only [countTimer]
  rw [found]
  simp only [Channel.withTimer]
  split
  · exact ⟨found, rfl⟩
  · exact ⟨channel?_putChannel_self found _, rfl⟩

/-- A timer that is accepted is on its way, and it is counted. -/
theorem submitTimer_ok {p : Purpose} {attempt : UInt8} {after : Nat} {u : Unit}
    (result : t.submitTimer key (.ofChannel p key attempt) after = (.ok u, t'))
    (found : t.channel? key = some c) :
    t'.channel? key = some c.withTimer
      ∧ t.reactor.driver.Posted p key t'.reactor.driver := by
  simp only [submitTimer] at result
  split at result
  · rename_i s accepted
    cases result
    obtain ⟨same, posted⟩ := submit_ok accepted (by simp [IoOp.kind])
    have counted := countTimer_eq ((same key).trans found)
    exact ⟨counted.1, counted.2 ▸ posted⟩
  · cases result

/-- One that is refused changes nothing. -/
theorem submitTimer_error {p : Purpose} {attempt : UInt8} {after : Nat} {e : Failure}
    (result : t.submitTimer key (.ofChannel p key attempt) after = (.error e, t')) :
    Untouched key t t' := by
  simp only [submitTimer] at result
  split at result
  · cases result
  · rename_i e' s refused
    cases result
    exact submit_error refused (by simp [IoOp.kind])

/-- Canceling the timer of an attempt changes nothing, for it comes back. -/
theorem untouched_cancelTimer (t : Turn σ) (key : SlotKey) (c : Channel) (attempt : UInt8) :
    Untouched key t (t.cancelTimer key c attempt) := by
  simp only [cancelTimer]
  split
  · exact ⟨rfl, CompletionQueue.untouched_cancel (by simp)⟩
  · exact .refl t

namespace InOrder

/-! ## Receiving and sending -/

/-- An open channel receives, or it is closed. -/
theorem postRecv (h : t.InOrder ideal (.receive :: left) batch key) (attempt : .attempt ∉ left)
    (able : ideal → t.config.Bearable) : (t.postRecv key).InOrder ideal left batch key := by
  simp only [Turn.postRecv]
  cases found : t.channel? key with
  | none => exact h.of_none found
  | some c =>
    have account := h.account c found
    simp only
    split
    · rename_i idle
      refine .of_found found (account.settle_receive ?_)
      intro _ isOpen
      exact idle.resolve_left (not_not_intro isOpen)
    · rename_i due
      simp only [not_or, not_not, Bool.not_eq_true] at due
      split
      · rename_i beyond
        refine .of_found (t := t.panic) found (account.settle_receive fun t => ?_)
        exact absurd (able t).reads (Nat.not_le.mpr beyond)
      · split
        · rename_i t' result
          obtain ⟨same, posted⟩ := submit_ok result (by simp [IoOp.kind])
          exact .of_found (channel?_modifyChannel_self ((same key).trans found) _)
            (account.receive posted due.1 due.2)
        · rename_i e t' result
          have same := submit_error result (by simp [IoOp.kind])
          have live : c.state.isClosed = false := by rw [due.1]; rfl
          have few := account.few (by rw [due.1]; decide)
          refine of_settled ?_ attempt
          exact .close (same.channel.trans found) live (account.untouched same.driver)
            (same.driver.timers ▸ few) e

/-- An open channel with bytes that wait sends, or it is closed. -/
theorem flush (h : t.InOrder ideal (.send :: left) batch key) (attempt : .attempt ∉ left)
    (able : ideal → t.config.Bearable) : (t.flush key).InOrder ideal left batch key := by
  simp only [Turn.flush]
  cases found : t.channel? key with
  | none => exact h.of_none found
  | some c =>
    have account := h.account c found
    simp only
    split
    · rename_i other
      exact .of_found found (account.settle_send fun _ isOpen => absurd isOpen other)
    · rename_i isOpen
      rw [not_not] at isOpen
      have few := account.few (by rw [isOpen]; decide)
      have live : c.state.isClosed = false := by rw [isOpen]; rfl
      split
      · rename_i panics
        refine .of_found (t := t.panic) found (account.settle_send fun t => ?_)
        obtain ⟨next, starts⟩ := c.writes.exists_nextSend (able t).merges
        cases panics.symm.trans starts
      · rename_i writes next
        obtain ⟨same, -⟩ := WriteQueue.nextSend_none next
        refine .of_found (channel?_putChannel_self found _) ?_
        have account : Account batch key ideal (.send :: left) t.reactor.driver
            { c with writes } :=
          account.alike rfl rfl rfl rfl same (.inl List.mem_cons_self)
        exact account.settle_send fun _ _ => WriteQueue.inFlight_of_nextSend_none next
      · rename_i bytes writes next
        obtain ⟨idle, sends, -⟩ := WriteQueue.nextSend_some next
        have put := channel?_putChannel_self found { c with writes }
        split
        · rename_i t' result
          obtain ⟨same, posted⟩ := submit_ok result (by simp)
          exact .of_found ((same key).trans put) (account.send posted isOpen idle sends)
        · rename_i e t' result
          have same := submit_error result (by simp)
          have aborted := channel?_modifyChannel_self (same.channel.trans put)
            fun c => { c with writes := c.writes.abortSend }
          have account : Account batch key ideal (.send :: left) t'.reactor.driver
              { c with writes := writes.abortSend } :=
            (account.untouched same.driver).alike rfl rfl rfl rfl idle.symm
              (.inl List.mem_cons_self)
          exact of_settled (.close aborted live account (same.driver.timers ▸ few) e) attempt

/-- Bytes that are added to the queue are sent. -/
theorem write (h : t.InOrder ideal left batch key) (attempt : .attempt ∉ left)
    (able : ideal → t.config.Bearable) (bytes : Bytes) :
    (t.write key bytes).InOrder ideal left batch key := by
  simp only [Turn.write]
  cases found : t.channel? key with
  | none => exact h
  | some c =>
    simp only
    split
    · exact h
    · refine flush (.of_found (channel?_putChannel_self found _) ?_) attempt able
      have account := (h.account c found).weaken (List.subset_cons_self .send left) (by simp)
      exact account.alike rfl rfl rfl rfl (c.writes.inFlight_push bytes) (.inl List.mem_cons_self)

/-! ## Serving -/

theorem onRequest (h : t.InOrder ideal left batch key) (attempt : .attempt ∉ left)
    (able : ideal → t.config.Bearable) (f : Frame) :
    (t.onRequest key f).InOrder ideal left batch key := by
  simp only [Turn.onRequest]
  split
  · have ran : Acts .all key t (t.execute f).2 := acts_execute t key f trivial
    have run := h.untouched (untouched_of_forall (fun k => acts_execute t k f trivial) key)
    split
    · rename_i bytes t' executed
      rw [executed] at run ran
      exact run.write attempt (ran.config ▸ able) bytes
    · rename_i t' executed
      rw [executed] at run
      exact run
  · have handed : Acts .all key t (t.submitTask (t.shared.reactorOf f.partition)
        (.forward f { reactor := t.reactor.index, key })).2 :=
      .of_act (.hand t _ _ rfl trivial)
    have order : (t.submitTask (t.shared.reactorOf f.partition)
        (.forward f { reactor := t.reactor.index, key })).2.InOrder ideal left batch key :=
      h.untouched (.of_eq rfl rfl)
    split
    · rename_i t' submitted
      rw [submitted] at order
      exact order
    · rename_i e t' submitted
      rw [submitted] at order handed
      split
      · exact order
      · refine write (t := (t'.encodeResponse _ _ _ _).2) ?_ attempt (handed.config ▸ able) _
        exact order.untouched (.of_eq rfl rfl)

theorem onFrame (h : t.InOrder ideal left batch key) (attempt : .attempt ∉ left)
    (able : ideal → t.config.Bearable) (f : Frame) :
    (t.onFrame key f).InOrder ideal left batch key := by
  simp only [Turn.onFrame]
  split
  · simp only [onResponse]
    split
    · exact h
    · split
      · exact h
      · exact h.untouched (.of_eq rfl rfl)
  · exact h.onRequest attempt able f

theorem drains {t t' : Turn σ} {fs : List Frame} (drains : Drains key t fs t')
    (h : t.InOrder ideal left batch key) (attempt : .attempt ∉ left)
    (able : ideal → t.config.Bearable) : t'.InOrder ideal left batch key := by
  -- taking a message changes nothing the account depends on
  have next {t : Turn σ} {c c' : Channel} {maxPayload : Nat}
      {result : Except FrameError (Option Frame)} (h : t.InOrder ideal left batch key)
      (found : t.channel? key = some c) (asked : c.nextMessage maxPayload = (result, c')) :
      (t.putChannel key c').InOrder ideal left batch key := by
    cases asked
    exact .of_found (channel?_putChannel_self found _)
      ((h.account c found).alike rfl rfl rfl rfl rfl (.inr rfl))
  have taken {t : Turn σ} {c c' : Channel} {f : Frame} (h : t.InOrder ideal left batch key)
      (able : ideal → t.config.Bearable) (found : t.channel? key = some c)
      (asked : c.nextMessage t.config.maxFramePayload = (.ok (some f), c')) :
      ((t.taking key c').onFrame key f).InOrder ideal left batch key :=
    onFrame (t := t.taking key c') ((next h found asked).untouched (.of_eq rfl rfl)) attempt able f
  induction drains with
  | refl t => exact h
  | starved found isOpen asked => exact next h found asked
  | last found isOpen asked => exact taken h able found asked
  | @handled t t' c c' f fs found isOpen asked going later ih =>
    have config : ((t.taking key c').onFrame key f).config = t.config :=
      (acts_all_onFrame (t.taking key c') key f).config
    exact ih (taken h able found asked) (config ▸ able)
  | @lost t c c' e found isOpen asked =>
    have put := channel?_putChannel_self found c'
    have account := (next h found asked).account c' put
    have few := (h.account c found).few (by rw [isOpen]; decide)
    have live : c'.state.isClosed = false := by
      rw [state_nextMessage asked, isOpen]
      rfl
    exact of_settled (.close put live account few _) attempt
  | skipped found isOpen asked kept later ih => exact ih (next h found asked) able

/-! ## Connecting -/

/-- A channel whose attempt has failed pauses, or it is closed. -/
theorem connectFailed (found : t.channel? key = some c) (connecting : c.state = .connecting)
    (account : Account batch key ideal [.attempt] t.reactor.driver c)
    (few : t.reactor.driver.timersOutstanding batch key ≤ maxTimers)
    (able : ideal → t.config.Bearable) (reason : String) :
    (t.connectFailed key reason).InOrder ideal [] batch key := by
  have live : c.state.isClosed = false := by rw [connecting]; rfl
  simp only [Turn.connectFailed]
  rw [found]
  simp only
  split
  · rename_i more
    split
    · rename_i panics
      refine .of_found (t := t.panic) found (account.of_not_ideal (fun t => ?_) (by decide) (by simp))
      cases panics.symm.trans (Config.pauseAfter?_of_le more.1 (able t).pauses)
    · split
      · rename_i t' result
        obtain ⟨found, posted⟩ := submitTimer_ok result found
        refine .of_found found (account.pause posted connecting fun t => ?_)
        exact Nat.lt_of_le_of_lt (UInt32.le_iff_toNat_le.mp more.1) (able t).retries
      · rename_i e t' result
        have same := submitTimer_error result
        exact .close (same.channel.trans found) live (account.untouched same.driver)
          (same.driver.timers ▸ few) _
  · exact .close found live account few _

/-- An attempt is on its way, with or without its timer. -/
theorem submitConnect (found : t.channel? key = some c) (connecting : c.state = .connecting)
    (account : Account batch key ideal [.attempt] t.reactor.driver c)
    (few : t.reactor.driver.timersOutstanding batch key ≤ maxTimers)
    (able : ideal → t.config.Bearable) (socket : Nat) :
    (t.submitConnect key c socket).InOrder ideal [] batch key := by
  simp only [Turn.submitConnect]
  split
  · rename_i e t' result
    have same := submit_error result (by simp [IoOp.kind])
    have config : t'.config = t.config := by
      have after := congrArg Prod.snd result
      subst after
      rfl
    exact connectFailed (t := t'.closeSocket (some socket)) (same.channel.trans found) connecting
      (account.untouched same.driver) (same.driver.timers ▸ few) (config ▸ able) _
  · rename_i t' result
    obtain ⟨same, posted⟩ := submit_ok result (by simp)
    have tuned := channel?_modifyChannel_self ((same key).trans found)
      fun c => { c with descriptor := some socket, connectInFlight := true }
    have account := account.connect socket posted connecting
    generalize timed : Turn.submitTimer _ _ _ _ = submitted
    obtain ⟨result, s⟩ := submitted
    cases result with
    | ok =>
      obtain ⟨found, posted⟩ := submitTimer_ok timed tuned
      exact .of_found found (account.timeout posted connecting)
    | error e =>
      have same := submitTimer_error timed
      exact .of_found (same.channel.trans tuned) (account.untouched same.driver)

theorem startConnect (found : t.channel? key = some c) (connecting : c.state = .connecting)
    (account : Account batch key ideal [.attempt] t.reactor.driver c)
    (few : t.reactor.driver.timersOutstanding batch key ≤ maxTimers)
    (able : ideal → t.config.Bearable) (numbered : ideal → c.attempt.toNat < maxAttempts) :
    (t.startConnect key).InOrder ideal [] batch key := by
  have put := channel?_putChannel_self found
    { c with attempt := c.attempt + 1, timedOut := false }
  have account' : Account batch key ideal [.attempt] t.reactor.driver
      { c with attempt := c.attempt + 1, timedOut := false } :=
    account.alike rfl rfl rfl rfl rfl (.inr rfl) (.inl List.mem_cons_self)
  simp only [Turn.startConnect]
  rw [found]
  simp only
  split
  · rename_i last
    refine .of_found (t := t.panic) found (account.of_not_ideal (fun t => ?_) (by decide) (by simp))
    exact absurd last (Nat.ne_of_lt (numbered t))
  · split
    · exact connectFailed put connecting account' few able _
    · rename_i socket host _
      exact submitConnect (t := { t.putChannel key _ with host }) put connecting account' few able
        socket

/-- A channel that opens receives, and sends what was written to it before. -/
theorem openChannel (found : t.channel? key = some c)
    (account : Account batch key ideal left t.reactor.driver c)
    (few : t.reactor.driver.timersOutstanding batch key ≤ maxTimers)
    (able : ideal → t.config.Bearable) (going : t.panicked = false) :
    (t.openChannel key c).InOrder ideal [] batch key := by
  have put : (t.putChannel key { c with state := .open }).InOrder ideal [.receive, .send]
      batch key := .of_found (channel?_putChannel_self found _) (account.opened few)
  have started {t : Turn σ} (h : t.InOrder ideal [.receive, .send] batch key)
      (able : ideal → t.config.Bearable) (going : t.panicked = false) :
      ((t.postRecv key).andThen (·.flush key)).InOrder ideal [] batch key := by
    have acts : Acts .all key t (t.postRecv key) := acts_postRecv t key trivial
    have config := acts.config
    have posted := h.postRecv (by decide) able
    exact posted.andThen (halted_postRecv going) (config ▸ able) (by decide) (by decide)
      fun _ => posted.flush (by decide) (config ▸ able)
  simp only [Turn.openChannel]
  split
  · rename_i l _
    have marked : ((t.putChannel key { c with state := .open }).modifyLinks
        fun links => links.markOpen l).InOrder ideal [.receive, .send] batch key :=
      put.untouched (.of_eq rfl rfl)
    exact started marked able going
  · exact started put able going

/-! ## Completions -/

section

variable {done : IoCompletion Token}

/-- A completion finds its channel. -/
theorem found_of_isOf {p : Purpose} (h : t.InOrder ideal left (done :: batch) key)
    (own : done.token.isOf p key = true) (channel : p.isChannel = true) :
    ∃ c, t.channel? key = some c
      ∧ Account (done :: batch) key ideal left t.reactor.driver c := by
  cases found : t.channel? key with
  | none =>
    have none := h.vacant found p channel
    rw [Account.outstanding_handled own, if_pos rfl] at none
    omega
  | some c => exact ⟨c, rfl, h.account c found⟩

theorem onRecv (h : t.InOrder ideal [] (done :: batch) key)
    (own : done.token.isOf .recv key = true) (able : ideal → t.config.Bearable)
    (going : t.panicked = false) (result : Int) (bytes : Bytes) :
    (t.onRecv key result bytes).InOrder ideal [.linger] batch key := by
  obtain ⟨c, found, account⟩ := h.found_of_isOf own rfl
  have account := account.received own
  have put := channel?_putChannel_self found { c with recvInFlight := false }
  simp only [Turn.onRecv]
  rw [found]
  simp only
  split
  · rename_i other
    exact .of_found put (account.settle_receive fun _ isOpen => absurd isOpen other)
  · rename_i isOpen
    rw [not_not] at isOpen
    have live : ChannelState.isClosed c.state = false := by rw [isOpen]; rfl
    have few := account.few (by rw [isOpen]; decide)
    split
    · exact of_settled (.close put live account few _) (by decide)
    · split
      · exact of_settled (.close put live account few _) (by decide)
      · have got := channel?_putChannel_self put
          (Channel.received { c with recvInFlight := false } bytes)
        have order := InOrder.of_found got (account.alike rfl rfl rfl rfl rfl (.inr rfl))
        generalize reached : Turn.putChannel _ key (Channel.received _ _) = s at got order ⊢
        have able : ideal → s.config.Bearable := reached ▸ able
        have going : s.panicked = false := reached ▸ going
        generalize List.length _ + 1 = bound
        have drains := drains_drainFrames bound key s
        have drained := order.drains drains (by decide) able
        have config := (acts_all_drainFrames bound key s).config
        exact drained.andThen (drains.halted going) (config ▸ able) (by decide)
          (by decide) fun _ => drained.postRecv (by decide) (config ▸ able)

theorem onSend (h : t.InOrder ideal [] (done :: batch) key)
    (own : done.token.isOf .send key = true)
    (few : t.reactor.driver.timersOutstanding (done :: batch) key ≤ maxTimers)
    (able : ideal → t.config.Bearable) (result : Int) :
    (t.onSend key result).InOrder ideal [.linger] batch key := by
  obtain ⟨c, found, account⟩ := h.found_of_isOf own rfl
  rw [Account.timers_handled own] at few
  simp only [Turn.onSend]
  rw [found]
  simp only
  split
  · have put := channel?_putChannel_self found { c with writes := c.writes.abortSend }
    have account := account.sent c.writes.abortSend own rfl
    cases live : c.state.isClosed with
    | false => exact of_settled (.close put live account few _) (by decide)
    | true =>
      rw [close_of_isClosed put live]
      refine .of_found put (account.settle_send ?_)
      intro _ isOpen
      rw [show c.state = .open from isOpen] at live
      cases live
  · refine flush (.of_found (channel?_putChannel_self found _) ?_) (by decide) able
    refine account.sent _ own ?_
    simp only [WriteQueue.consume]
    split <;> rfl

theorem onConnect (h : t.InOrder ideal [] (done :: batch) key)
    (own : done.token.isOf .connect key = true)
    (few : t.reactor.driver.timersOutstanding (done :: batch) key ≤ maxTimers)
    (able : ideal → t.config.Bearable) (going : t.panicked = false) (attempt : UInt8)
    (result : Int) : (t.onConnect key attempt result).InOrder ideal [.linger] batch key := by
  obtain ⟨c, found, account⟩ := h.found_of_isOf own rfl
  rw [Account.timers_handled own] at few
  have account := account.connected own
  have put := channel?_putChannel_self found { c with connectInFlight := false }
  simp only [Turn.onConnect]
  rw [found]
  simp only
  generalize reached : t.putChannel key { c with connectInFlight := false } = s at put ⊢
  have driver : s.reactor.driver = t.reactor.driver := by rw [← reached]; rfl
  have able : ideal → s.config.Bearable := reached ▸ able
  have going : s.panicked = false := reached ▸ going
  rw [← driver] at account few
  split
  · rename_i other
    exact .of_found put (account.of_not_connecting other)
  · rename_i connecting
    rw [not_not] at connecting
    have account : Account batch key ideal [.attempt] s.reactor.driver _ :=
      account.settle_linger (by simp [show c.state = .connecting from connecting])
    refine of_settled ?_ (by decide)
    have same := untouched_cancelTimer s key { c with connectInFlight := false } attempt
    have acts : Acts .all key s _ :=
      acts_cancelTimer s key { c with connectInFlight := false } attempt
    rw [← acts.config] at able
    rw [← panicked_cancelTimer s key { c with connectInFlight := false } attempt] at going
    generalize s.cancelTimer key { c with connectInFlight := false } attempt = s'
      at same able going ⊢
    have found := same.channel.trans put
    have account := account.untouched same.driver
    have few : s'.reactor.driver.timersOutstanding batch key ≤ maxTimers :=
      same.driver.timers ▸ few
    split
    · exact openChannel found account few able going
    · have put := channel?_putChannel_self (t := s'.closeSocket c.descriptor) found
        { c with descriptor := none, connectInFlight := false }
      refine connectFailed put connecting ?_ few able _
      exact account.alike rfl rfl rfl rfl rfl (.inr rfl)

theorem onConnectTimeout (h : t.InOrder ideal [] (done :: batch) key)
    (own : done.token.isOf .connectTimeout key = true)
    (few : t.reactor.driver.timersOutstanding (done :: batch) key ≤ maxTimers) (attempt : UInt8)
    (result : Int) :
    (t.onConnectTimeout key attempt result).InOrder ideal [.linger] batch key := by
  obtain ⟨c, found, account⟩ := h.found_of_isOf own rfl
  have account := account.timedOut own few
  have put := channel?_putChannel_self found (timerDone c)
  simp only [Turn.onConnectTimeout]
  rw [found]
  simp only
  split
  · exact .of_found put account
  · have marked : ((t.putChannel key (timerDone c)).putChannel key
        { timerDone c with timedOut := true }).InOrder ideal [.linger] batch key :=
      .of_found (channel?_putChannel_self put _)
        (account.alike rfl rfl rfl rfl rfl (.inr rfl))
    exact marked.untouched ⟨rfl, CompletionQueue.untouched_cancel (by simp)⟩

theorem onRetryTimer (h : t.InOrder ideal [] (done :: batch) key)
    (own : done.token.isOf .retryTimer key = true)
    (few : t.reactor.driver.timersOutstanding (done :: batch) key ≤ maxTimers)
    (able : ideal → t.config.Bearable) :
    (t.onRetryTimer key done.result).InOrder ideal [.linger] batch key := by
  obtain ⟨c, found, before⟩ := h.found_of_isOf own rfl
  have account := before.paused own few
  rw [Account.timers_handled own] at few
  have put := channel?_putChannel_self found (timerDone c)
  simp only [Turn.onRetryTimer]
  rw [found]
  simp only
  split
  · rename_i stops
    refine .of_found put ?_
    by_cases connecting : c.state = .connecting
    · -- a pause that is not canceled comes back with 0
      have broken := stops.resolve_right (not_not_intro connecting)
      have late : ¬ ideal := fun t =>
        Nat.ne_of_gt (CompletionQueue.brokenPauses_cons_pos own broken)
          ((before.attempting connecting).pauses t)
      exact account.of_not_ideal late (by decide) fun _ => .inl (by decide)
    · exact account.of_not_connecting connecting
  · rename_i due
    simp only [not_or, not_not] at due
    have connecting : c.state = .connecting := due.2
    have account := account.settle_linger (by simp [timerDone, connecting])
    refine of_settled (startConnect put connecting account ?_ able fun t => ?_) (by decide)
    · exact Nat.le_trans (Nat.le_add_right _ _) few
    · exact before.numbered t connecting (by simp [Account.outstanding_handled own])

end

end InOrder

end Turn

end PartitionEngine
