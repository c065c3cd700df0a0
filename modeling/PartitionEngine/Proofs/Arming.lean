import PartitionEngine.Proofs.Runs

/-!
# The operations of the reactor itself

A reactor notes whether its read on the wakeup signal and its accept are under way, and
each note is right at every moment of a run (`Turn.Armed`).  They concern no channel, so
a handler of a channel leaves them alone (`Turn.Aside`), and it does not tell the reactor
to stop.  Only the task to stop does (`Moment.Step.stops`).
-/

namespace PartitionEngine

namespace CompletionQueue

/-- The number of operations for a purpose, of any channel or none, that were not
handled. -/
def countFor (q : CompletionQueue) (batch : List (IoCompletion Token)) (p : Purpose) : Nat :=
  (q.unhandled batch).countP fun token => token.purpose? = some p

variable {q q' : CompletionQueue} {batch : List (IoCompletion Token)}

theorem countFor_cons (done : IoCompletion Token) (p : Purpose) :
    q.countFor (done :: batch) p
      = q.countFor batch p + if done.token.purpose? = some p then 1 else 0 := by
  simp only [countFor, unhandled_cons, List.countP_cons, decide_eq_true_eq]

theorem countFor_submit_of_ok {token : Token} {op : IoOp} {u : Unit}
    (accepted : (q.submit token op).1 = .ok u) (p : Purpose) :
    (q.submit token op).2.countFor batch p
      = q.countFor batch p + if token.purpose? = some p then 1 else 0 := by
  simp only [countFor, (perm_submit_of_ok accepted).countP_eq, List.countP_cons, decide_eq_true_eq]

theorem countFor_submit_of_error {token : Token} {op : IoOp} {e : Failure}
    (refused : (q.submit token op).1 = .error e) (p : Purpose) :
    (q.submit token op).2.countFor batch p = q.countFor batch p :=
  congrArg (List.countP _) (unhandled_submit_of_error refused)

/-- A submission for another purpose does not count. -/
theorem countFor_submit_of_ne {token : Token} {p : Purpose} (other : token.purpose? ≠ some p)
    (op : IoOp) : (q.submit token op).2.countFor batch p = q.countFor batch p := by
  cases result : (q.submit token op).1 with
  | ok u => rw [countFor_submit_of_ok result, if_neg other, Nat.add_zero]
  | error e => exact countFor_submit_of_error result p

end CompletionQueue

theorem Token.purpose?_plain (p : Purpose) : (plain p).purpose? = some p :=
  Purpose.ofByte?_byte p

theorem Token.purpose?_ofChannel (p : Purpose) (key : SlotKey) (attempt : UInt8) :
    (ofChannel p key attempt).purpose? = some p :=
  Purpose.ofByte?_byte p

/-- A handler that may do everything but what is of no channel. -/
def Scope.channel : Scope := { arms := False }

theorem Scope.serving_channel (count i : Nat) : channel.Serving count i :=
  ⟨trivial, fun _ _ => trivial, fun _ _ => trivial, fun _ _ => trivial⟩

namespace Turn

variable {σ : Type} {may : Scope} {batch : List (IoCompletion Token)} {key : SlotKey}
  {t t' t'' : Turn σ} {done : IoCompletion Token}

/-! ## What handlers of channels leave alone -/

/-- The operations of the reactor itself stand as they stood. -/
structure Aside (t t' : Turn σ) : Prop where
  stopping : t'.reactor.stopping = t.reactor.stopping
  acceptArmed : t'.reactor.acceptArmed = t.reactor.acceptArmed
  wakeArmed : t'.reactor.wakeArmed = t.reactor.wakeArmed
  count : ∀ batch p, p.isChannel = false →
    t'.reactor.driver.countFor batch p = t.reactor.driver.countFor batch p

namespace Aside

theorem of_driver (stopping : t'.reactor.stopping = t.reactor.stopping)
    (acceptArmed : t'.reactor.acceptArmed = t.reactor.acceptArmed)
    (wakeArmed : t'.reactor.wakeArmed = t.reactor.wakeArmed)
    (driver : t'.reactor.driver = t.reactor.driver) : Aside t t' :=
  ⟨stopping, acceptArmed, wakeArmed, fun _ _ _ => driver ▸ rfl⟩

theorem refl (t : Turn σ) : Aside t t := of_driver rfl rfl rfl rfl

theorem trans (h : Aside t t') (h' : Aside t' t'') : Aside t t'' where
  stopping := h'.stopping.trans h.stopping
  acceptArmed := h'.acceptArmed.trans h.acceptArmed
  wakeArmed := h'.wakeArmed.trans h.wakeArmed
  count batch p own := (h'.count batch p own).trans (h.count batch p own)

theorem cancelAll (t : Turn σ) (tokens : List Token) : Aside t (t.cancelAll tokens) :=
  ⟨rfl, rfl, rfl, fun _ _ _ => (CompletionQueue.perm_cancelAll tokens _).countP_eq _⟩

theorem submit (t : Turn σ) {p : Purpose} (channel : p.isChannel = true) (key : SlotKey)
    (attempt : UInt8) (op : IoOp) : Aside t (t.submit (.ofChannel p key attempt) op).2 := by
  refine ⟨rfl, rfl, rfl, fun batch q own => CompletionQueue.countFor_submit_of_ne ?_ op⟩
  rw [Token.purpose?_ofChannel]
  rintro ⟨rfl⟩
  cases channel.symm.trans own

theorem shut (t : Turn σ) (key : SlotKey) (c : Channel) (cause : Failure) :
    Aside t (t.shut key c cause) := by
  rw [shut_eq]
  exact ⟨rfl, rfl, rfl, fun _ _ _ => (CompletionQueue.perm_cancelAll _ _).countP_eq _⟩

theorem release (t : Turn σ) (key : SlotKey) : Aside t (t.releaseIfDone key) := by
  rw [releaseIfDone_eq]
  exact of_driver rfl rfl rfl rfl

end Aside

theorem Act.aside (act : Act may key t t') (unarmed : ¬ may.arms) : Aside t t' := by
  cases act with
  | mark _ _ _ arms | submitPlain _ _ _ arms | cancelPlain _ _ arms => exact absurd arms unarmed
  | submit p attempt op own => exact .submit t own key attempt op
  | cancel => exact .cancelAll t _
  | shut c cause => exact .shut t key c cause
  | release => exact .release t key
  | _ => exact .of_driver rfl rfl rfl rfl

theorem Acts.aside (acts : Acts may key t t') (unarmed : ¬ may.arms) : Aside t t' := by
  induction acts with
  | refl => exact .refl t
  | tail _ act ih => exact ih.trans (act.aside unarmed)

theorem Aside.of_acts (acts : Acts .channel key t t') : Aside t t' := acts.aside id

theorem aside_write (t : Turn σ) (key : SlotKey) (bytes : Bytes) :
    Aside t (t.write key bytes) := .of_acts (acts_write t key bytes trivial)

theorem aside_adopt (t : Turn σ) (socket : Nat) (remote : Option Endpoint) :
    Aside t (t.adopt socket remote) := by
  cases remote with
  | none => exact .of_driver rfl rfl rfl rfl
  | some remote =>
    have added : Aside t (t.addChannel (.accepted (some socket) remote t.config.maxMessageSize)).2 :=
      .of_driver rfl rfl rfl rfl
    exact added.trans (.of_acts (acts_adopt t socket remote trivial))

theorem aside_outboundChannel (t : Turn σ) (l : Link) : Aside t (t.outboundChannel l).2 := by
  obtain ⟨key, c, -, -, -, same⟩ | ⟨made, -⟩ := outboundChannel_cases t l
  · rw [same]
    exact .refl t
  · rw [made]
    have new : Aside t (t.makeChannel l).2 := .of_driver rfl rfl rfl rfl
    exact new.trans (.of_acts (acts_startConnect _ _ trivial))

theorem aside_closeAll (keys : List SlotKey) (cause : Failure) (t : Turn σ) :
    Aside t (keys.foldl (fun t key => t.close key cause) t) := by
  induction keys generalizing t with
  | nil => exact .refl t
  | cons key rest ih => exact (Aside.of_acts (acts_close t key cause)).trans (ih _)

/-- A task other than the one to stop. -/
theorem aside_onTask (t : Turn σ) {task : Task} (other : task ≠ .stop) :
    Aside t (t.onTask task) := by
  have step := t.taskStep_onTask task
  generalize t.onTask task = t' at step ⊢
  cases step with
  | rejected => exact .of_acts (acts_reject t default task trivial)
  | executed r correlationId =>
    exact .of_acts (acts_runLocal t default r correlationId trivial trivial)
  | connected l | unwritten l => exact aside_outboundChannel t l
  | written l bytes correlationId key =>
    exact (aside_outboundChannel t l).trans (aside_write _ key bytes)
  | forwarded f replyTo =>
    exact .of_acts (acts_runForwarded t f replyTo (Scope.serving_channel _ _) trivial)
  | replied channel bytes => exact aside_write t channel.key bytes
  | stopped => exact absurd rfl other

/-- A completion that is of a channel. -/
theorem aside_onCompletion (t : Turn σ) {p : Purpose} (purpose : done.token.purpose? = some p)
    (channel : p.isChannel = true) : Aside t (t.onCompletion done) := by
  have flagged : Aside t t.afresh := .of_driver rfl rfl rfl rfl
  refine flagged.trans ?_
  simp only [onCompletion, purpose]
  generalize t.afresh = t
  have released {s : Turn σ} (h : Acts .channel done.token.key t s) :
      Aside t (s.andThen (·.releaseIfDone done.token.key)) :=
    .of_acts (h.andThen (.of_act (.release s)))
  cases p with
  | wakeup | accept | drainTimer => cases channel
  | recv => exact released (acts_onRecv t _ _ _ (Scope.serving_channel _ _) trivial trivial)
  | send => exact released (acts_onSend t _ _ trivial)
  | connect => exact released (acts_onConnect trivial t _ _ _ trivial trivial trivial)
  | connectTimeout => exact released (acts_onConnectTimeout t _ _ _ trivial)
  | retryTimer => exact released (acts_onRetryTimer t _ _ trivial)

/-! ## The notes of a reactor -/

/-- A reactor notes what it has under way for itself. -/
structure Armed (batch : List (IoCompletion Token)) (t : Turn σ) : Prop where
  accept : t.reactor.driver.countFor batch .accept = t.reactor.acceptArmed.toNat
  wakeup : t.reactor.driver.countFor batch .wakeup = t.reactor.wakeArmed.toNat

namespace Armed

theorem aside (h : t.Armed batch) (same : Aside t t') : t'.Armed batch where
  accept := by rw [same.count batch _ rfl, same.acceptArmed, h.accept]
  wakeup := by rw [same.count batch _ rfl, same.wakeArmed, h.wakeup]

/-- An operation is submitted that was not under way, and it is noted. -/
theorem submit_ok {p : Purpose} {op : IoOp} {u : Unit} (h : t.Armed batch)
    (accepted : t.submit (.plain p) op = (.ok u, t')) :
    (p = .wakeup → t.reactor.wakeArmed = false →
      Armed batch { t' with reactor := { t'.reactor with wakeArmed := true } })
    ∧ (p = .accept → t.reactor.acceptArmed = false →
      Armed batch { t' with reactor := { t'.reactor with acceptArmed := true } }) := by
  simp only [Turn.submit, Prod.mk.injEq] at accepted
  obtain ⟨ok, rfl⟩ := accepted
  have count (q : Purpose) : (t.reactor.driver.submit (.plain p) op).2.countFor batch q = _ :=
    CompletionQueue.countFor_submit_of_ok ok q
  have accept := h.accept
  have wakeup := h.wakeup
  refine ⟨?_, ?_⟩
  · rintro rfl idle
    rw [idle] at wakeup
    exact ⟨by simp [count, Token.purpose?_plain, accept], by simp [count, Token.purpose?_plain, wakeup]⟩
  · rintro rfl idle
    rw [idle] at accept
    exact ⟨by simp [count, Token.purpose?_plain, accept], by simp [count, Token.purpose?_plain, wakeup]⟩

theorem submit_error {p : Purpose} {op : IoOp} {e : Failure} (h : t.Armed batch)
    (refused : t.submit (.plain p) op = (.error e, t')) : t'.Armed batch := by
  simp only [Turn.submit, Prod.mk.injEq] at refused
  obtain ⟨error, rfl⟩ := refused
  have count (q : Purpose) : (t.reactor.driver.submit (.plain p) op).2.countFor batch q = _ :=
    CompletionQueue.countFor_submit_of_error error q
  exact ⟨(count _).trans h.accept, (count _).trans h.wakeup⟩

theorem armWakeup (h : t.Armed batch) (idle : t.reactor.wakeArmed = false) :
    t.armWakeup.Armed batch := by
  simp only [Turn.armWakeup]
  split
  · rename_i t' accepted
    exact (h.submit_ok accepted).1 rfl idle
  · rename_i e t' refused
    exact h.submit_error refused

theorem armAccept (h : t.Armed batch) : t.armAccept.Armed batch := by
  simp only [Turn.armAccept]
  split
  · exact h
  · rename_i free
    simp only [not_or, Bool.not_eq_true] at free
    split
    · rename_i t' accepted
      exact (h.submit_ok accepted).2 rfl free.2.1
    · rename_i e t' refused
      exact h.submit_error refused

/-- What comes back that the reactor does not note. -/
theorem of_other (h : t.Armed (done :: batch)) (accept : done.token.purpose? ≠ some .accept)
    (wakeup : done.token.purpose? ≠ some .wakeup) : t.Armed batch where
  accept := by simpa [CompletionQueue.countFor_cons, accept] using h.accept
  wakeup := by simpa [CompletionQueue.countFor_cons, wakeup] using h.wakeup

/-- The read on the wakeup signal is over. -/
theorem woken (h : t.Armed (done :: batch)) (own : done.token.purpose? = some .wakeup) :
    Armed batch { t with reactor := { t.reactor with wakeArmed := false } } := by
  have accept := h.accept
  have wakeup := h.wakeup
  rw [CompletionQueue.countFor_cons, own] at accept wakeup
  have most := Bool.toNat_le t.reactor.wakeArmed
  exact ⟨by simpa using accept, by simp at wakeup ⊢; omega⟩

/-- The accept is over. -/
theorem offered (h : t.Armed (done :: batch)) (own : done.token.purpose? = some .accept) :
    Armed batch { t with reactor := { t.reactor with acceptArmed := false } } := by
  have accept := h.accept
  have wakeup := h.wakeup
  rw [CompletionQueue.countFor_cons, own] at accept wakeup
  have most := Bool.toNat_le t.reactor.acceptArmed
  exact ⟨by simp at accept ⊢; omega, by simpa using wakeup⟩

theorem onAccept (h : t.Armed (done :: batch)) (own : done.token.purpose? = some .accept)
    (result : Int) (remote : Option Endpoint) : (t.onAccept result remote).Armed batch := by
  have settled := h.offered own
  simp only [Turn.onAccept]
  split
  · exact settled.armAccept
  · split
    · exact settled.aside (.of_driver rfl rfl rfl rfl)
    · have adopted := settled.aside (aside_adopt _ result.toNat remote)
      exact andThen_cases _ adopted adopted.armAccept

theorem onCompletion (h : t.Armed (done :: batch)) : (t.onCompletion done).Armed batch := by
  have h' : t.afresh.Armed (done :: batch) := ⟨h.accept, h.wakeup⟩
  cases purpose : done.token.purpose? with
  | none =>
    simp only [Turn.onCompletion, purpose]
    exact h'.of_other (by simp [purpose]) (by simp [purpose])
  | some p =>
    cases channel : p.isChannel with
    | true =>
      refine Armed.aside (h.of_other ?_ ?_) (aside_onCompletion t purpose channel)
      · rw [purpose]
        rintro ⟨rfl⟩
        cases channel
      · rw [purpose]
        rintro ⟨rfl⟩
        cases channel
    | false =>
      simp only [Turn.onCompletion, purpose]
      cases p with
      | recv | send | connect | connectTimeout | retryTimer => cases channel
      | accept => exact h'.onAccept purpose _ _
      | drainTimer =>
        have settled := h'.of_other (by simp [purpose]) (by simp [purpose])
        simp only [Turn.onDrainTimer]
        split
        · exact settled.aside (.of_driver rfl rfl rfl rfl)
        · exact settled
      | wakeup =>
        simp only [Turn.onWakeup]
        split
        · exact h'.woken purpose
        · exact (h'.woken purpose).armWakeup rfl

theorem cancel (h : t.Armed batch) (token : Token) : (t.cancel token).Armed batch :=
  h.aside (.cancelAll t [token])

/-- Winding down cancels what is noted, and submits nothing that is. -/
theorem beginStop (h : t.Armed batch) : t.beginStop.Armed batch := by
  simp only [Turn.beginStop]
  split
  · exact h
  · have closed : Armed batch (t.reactor.channels.keys.foldl
        (fun t key => t.close key .shuttingDown)
        { t with reactor := { t.reactor with stopping := true } }) :=
      Armed.aside (t := { t with reactor := { t.reactor with stopping := true } })
        ⟨h.accept, h.wakeup⟩ (aside_closeAll _ _ _)
    generalize List.foldl _ _ _ = s at closed ⊢
    have unaccepted : Armed batch (if s.reactor.acceptArmed then s.cancel (.plain .accept) else s) := by
      split
      · exact closed.cancel _
      · exact closed
    generalize (if s.reactor.acceptArmed then s.cancel (.plain .accept) else s) = s at unaccepted ⊢
    have unwoken : Armed batch (if s.reactor.wakeArmed then s.cancel (.plain .wakeup) else s) := by
      split
      · exact unaccepted.cancel _
      · exact unaccepted
    generalize (if s.reactor.wakeArmed then s.cancel (.plain .wakeup) else s) = s at unwoken ⊢
    have timed : Armed batch (s.submit (.plain .drainTimer)
        (.timeout s.config.terminationTimeout)).2 := by
      have same (p : Purpose) (other : p ≠ .drainTimer) :
          (s.reactor.driver.submit (.plain .drainTimer)
            (.timeout s.config.terminationTimeout)).2.countFor batch p
              = s.reactor.driver.countFor batch p := by
        refine CompletionQueue.countFor_submit_of_ne ?_ _
        rw [Token.purpose?_plain]
        exact fun same => other (Option.some.inj same).symm
      exact ⟨(same .accept (by decide)).trans unwoken.accept,
        (same .wakeup (by decide)).trans unwoken.wakeup⟩
    split
    · rename_i t' accepted
      rw [accepted] at timed
      exact timed
    · rename_i e t' refused
      rw [refused] at timed
      exact ⟨timed.accept, timed.wakeup⟩

theorem onTask (h : t.Armed batch) (task : Task) : (t.onTask task).Armed batch := by
  by_cases stops : task = .stop
  · subst stops
    simp only [Turn.onTask]
    split
    · exact h
    · exact h.beginStop
  · exact h.aside (aside_onTask t stops)

end Armed

end Turn

/-! ## Stopping -/

namespace Turn

variable {σ : Type}

theorem stopping_armWakeup (t : Turn σ) : t.armWakeup.reactor.stopping = t.reactor.stopping := by
  simp only [armWakeup, submit]
  split
  all_goals
    rename_i result
    obtain ⟨-, rfl⟩ := Prod.mk.inj result
    rfl

theorem stopping_armAccept (t : Turn σ) : t.armAccept.reactor.stopping = t.reactor.stopping := by
  simp only [armAccept, submit]
  split
  · rfl
  · split
    all_goals
      rename_i result
      obtain ⟨-, rfl⟩ := Prod.mk.inj result
      rfl

/-- Handling a completion does not tell a reactor to stop. -/
theorem stopping_onCompletion (t : Turn σ) (done : IoCompletion Token) :
    (t.onCompletion done).reactor.stopping = t.reactor.stopping := by
  cases purpose : done.token.purpose? with
  | none =>
    simp only [onCompletion, purpose]
    rfl
  | some p =>
    cases channel : p.isChannel with
    | true => exact (aside_onCompletion t purpose channel).stopping
    | false =>
      simp only [onCompletion, purpose]
      cases p with
      | recv | send | connect | connectTimeout | retryTimer => cases channel
      | wakeup =>
        simp only [onWakeup]
        split
        · rfl
        · exact stopping_armWakeup _
      | accept =>
        simp only [onAccept]
        split
        · exact stopping_armAccept _
        · split
          · rfl
          · have adopted (s : Turn σ) := (aside_adopt s done.result.toNat done.remote).stopping
            exact andThen_cases (motive := fun s => s.reactor.stopping = t.reactor.stopping) _
              (adopted _) ((stopping_armAccept _).trans (adopted _))
      | drainTimer =>
        simp only [onDrainTimer]
        split
        · rfl
        · rfl

end Turn

namespace Moment

variable {σ : Type} {timely : Prop} {m m' : Moment σ}

theorem Move.armed {handed : Option Handover} (move : Move m handed m')
    (h : m.turn.Armed m.batch) : m'.turn.Armed m'.batch := by
  cases move with
  | wait t =>
    have same : t.endWait.2.reactor.driver.unhandled [] = t.reactor.driver.unhandled [] := by
      simp only [Turn.endWait]
      rw [CompletionQueue.snd_endWait]
      rfl
    exact ⟨(congrArg (List.countP _) same).trans h.accept,
      (congrArg (List.countP _) same).trans h.wakeup⟩
  | mark t f keep => exact ⟨h.accept, h.wakeup⟩
  | take t limit =>
    have same := CompletionQueue.unhandled_drain (q := t.reactor.driver) limit
    exact ⟨(congrArg (List.countP _) same).trans h.accept,
      (congrArg (List.countP _) same).trans h.wakeup⟩
  | handle t c rest => exact h.onCompletion
  | run t task t' popped =>
    have same := reactor_of_popTask popped
    refine Turn.Armed.onTask ⟨?_, ?_⟩ task
    · exact same ▸ h.accept
    · exact same ▸ h.wakeup

theorem Step.armed (step : Step timely m m') (h : m.turn.Armed m.batch) :
    m'.turn.Armed m'.batch := by
  cases step with
  | deliver c pending =>
    have moved : ((m.turn.reactor.driver.complete c).unhandled m.batch).Perm _ :=
      CompletionQueue.perm_complete pending
    exact ⟨(moved.countP_eq _).trans h.accept, (moved.countP_eq _).trans h.wakeup⟩
  | arrange | interfere => exact ⟨h.accept, h.wakeup⟩
  | move move => exact move.armed h

/-- A reactor that was told to stop ran the task to stop. -/
theorem Step.stops (step : Step timely m m') (going : m.turn.reactor.stopping = false)
    (stops : m'.turn.reactor.stopping = true) :
    ∃ t : Turn σ, t.reactor = m.turn.reactor ∧ t.config = m.turn.config ∧ m.batch = []
      ∧ m' = ⟨t.beginStop, []⟩ := by
  have stays {b : Bool} (same : b = m.turn.reactor.stopping) (on : b = true) : False := by
    cases same.symm.trans on |>.symm.trans going
  cases step with
  | deliver | arrange | interfere => exact (stays rfl stops).elim
  | move move =>
    cases move with
    | wait | mark | take => exact (stays rfl stops).elim
    | handle t c rest => exact (stays (Turn.stopping_onCompletion t c) stops).elim
    | run t task t' popped =>
      have same := reactor_of_popTask popped
      by_cases told : task = .stop
      · subst told
        have config : t'.config = t.config := by
          rw [eq_of_popTask popped]
          rfl
        refine ⟨t'.count fun s => { s with tasks := s.tasks + 1 }, same, config, rfl, ?_⟩
        simp only [Turn.onTask]
        rw [if_neg]
        rw [show (t'.count _).reactor = t.reactor from same]
        exact Bool.eq_false_iff.mp going
      · have aside := Turn.aside_onTask (t'.count fun s => { s with tasks := s.tasks + 1 }) told
        exact (stays (aside.stopping.trans (congrArg Reactor.stopping same)) stops).elim

end Moment

end PartitionEngine
