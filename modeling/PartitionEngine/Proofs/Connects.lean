import PartitionEngine.Proofs.Returns

/-!
# Connects that are submitted

A connect of a channel is submitted where an attempt is made, once at most, and nowhere
else (`Turn.connects_startConnect`).  A completion makes an attempt if it ends a pause of a
channel that connects (`Turn.connects_onCompletion`), and a task if it makes a channel
(`Turn.connects_onTask`).
-/

namespace PartitionEngine

/-- Whether a connect of a channel was submitted. -/
def DriverEvent.isConnect (key : SlotKey) : DriverEvent → Bool
  | .submitted s _ => s.token.isOf .connect key
  | _ => false

namespace CompletionQueue

variable {q q' q'' : CompletionQueue} {key : SlotKey} {n n' : Nat}

/-- At most `n` connects of a channel were submitted. -/
def Connects (key : SlotKey) (n : Nat) (q q' : CompletionQueue) : Prop :=
  ∃ events, q'.log = events ++ q.log ∧ events.countP (·.isConnect key) ≤ n

namespace Connects

theorem of_spares (spares : q.Spares .connect key q') : Connects key 0 q q' := by
  obtain ⟨events, log, others⟩ := spares.asks
  refine ⟨events, log, Nat.le_of_eq (List.countP_eq_zero.mpr fun event mem => ?_)⟩
  cases event with
  | submitted s refusal => simpa [DriverEvent.isConnect] using others s refusal mem
  | canceled => nofun

theorem refl (q : CompletionQueue) : Connects key 0 q q := .of_spares (.refl q)

theorem trans (h : Connects key n q q') (h' : Connects key n' q' q'') :
    Connects key (n + n') q q'' := by
  obtain ⟨events, log, most⟩ := h
  obtain ⟨events', log', most'⟩ := h'
  refine ⟨events' ++ events, by rw [log', log, List.append_assoc], ?_⟩
  rw [List.countP_append]
  omega

end Connects

end CompletionQueue

namespace Scope

/-- A handler that makes no attempt. -/
def resting : Scope := { connects := False }

theorem resting_bars : resting.Bars .connect where
  sends := nofun
  reads := nofun
  connects _ _ := not_false

theorem serving_resting (count i : Nat) : resting.Serving count i :=
  ⟨trivial, fun _ _ => trivial, fun _ _ => trivial, fun _ _ => trivial⟩

end Scope

namespace Turn

variable {σ : Type} {key k : SlotKey} {t t' : Turn σ} {done : IoCompletion Token}

/-- What is submitted is one connect at most. -/
theorem connects_submit {token : Token} {op : IoOp} {result : Except Failure Unit}
    (submitted : t.submit token op = (result, t')) :
    t.reactor.driver.Connects key 1 t'.reactor.driver := by
  obtain ⟨⟨refusal, log, -⟩, -⟩ := log_submit submitted
  exact ⟨[_], log, List.countP_le_length⟩

theorem Acts.connects (acts : Acts .resting k t t') :
    t.reactor.driver.Connects key 0 t'.reactor.driver :=
  .of_spares (acts.spares rfl (.inr Scope.resting_bars))

theorem Works.connects (works : Works .resting t t') :
    t.reactor.driver.Connects key 0 t'.reactor.driver := by
  induction works with
  | refl => exact .refl _
  | tail _ work ih =>
    cases work with
    | act k act => exact ih.trans (Acts.of_act act).connects
    | accept | make | windDown => exact ih

theorem Passes.connects (passes : Passes key t t') :
    t.reactor.driver.Connects key 0 t'.reactor.driver := by
  induction passes with
  | refl => exact .refl _
  | tail _ pass ih =>
    cases pass with
    | act apart act => exact ih.trans (.of_spares ((Acts.of_act act).spares rfl (.inl apart)))
    | write _ bytes => exact ih.trans (acts_write _ key bytes trivial).connects
    | add c exact room apart channels driver => exact driver ▸ ih

/-- An attempt submits its connect once. -/
theorem connects_startConnect (t : Turn σ) (key : SlotKey) :
    t.reactor.driver.Connects key 1 (t.startConnect key).reactor.driver := by
  have failed (s : Turn σ) (reason : String) :
      s.reactor.driver.Connects key 0 (s.connectFailed key reason).reactor.driver :=
    .of_spares (spares_connectFailed s key reason rfl nofun nofun)
  have least {q : CompletionQueue} (h : t.reactor.driver.Connects key 0 q) :
      t.reactor.driver.Connects key 1 q := by
    obtain ⟨events, log, none⟩ := h
    exact ⟨events, log, Nat.le_succ_of_le none⟩
  simp only [startConnect]
  split
  · exact least (.refl _)
  · rename_i c found
    split
    · exact least (.refl _)
    split
    · rename_i e _
      let s : Turn σ := t.putChannel key { c with attempt := c.attempt + 1, timedOut := false }
      exact least (failed s e.text)
    · rename_i socket host _
      simp only [submitConnect]
      split
      · rename_i e s refused
        exact (connects_submit refused).trans (failed (s.closeSocket (some socket)) e.message)
      · rename_i s accepted
        let s₁ := s.modifyChannel key fun c =>
          { c with descriptor := some socket, connectInFlight := true }
        have timed : s₁.reactor.driver.Connects key 0 (s₁.submitTimer key
            (.ofChannel .connectTimeout key (c.attempt + 1).toUInt8)
            s₁.config.connectTimeout).2.reactor.driver := by
          obtain ⟨s₂, accepted', timed⟩ | ⟨e, s₂, refused, timed⟩ := submitTimer_cases s₁ key
            (.ofChannel .connectTimeout key (c.attempt + 1).toUInt8) s₁.config.connectTimeout
          · rw [timed]
            exact (countTimer_driver s₂ key).symm ▸
              .of_spares (spares_of_submit accepted' .connect key (by simp))
          · rw [timed]
            exact .of_spares (spares_of_submit refused .connect key (by simp))
        exact (connects_submit accepted).trans timed

/-- A connect that comes back submits none. -/
theorem connects_onConnect (t : Turn σ) (key : SlotKey) (attempt : UInt8) (result : Int) :
    t.reactor.driver.Connects key 0 (t.onConnect key attempt result).reactor.driver := by
  simp only [onConnect]
  split
  · exact .refl _
  · rename_i c found
    let c₁ : Channel := { c with connectInFlight := false }
    have here := channel?_putChannel_self found c₁
    split
    · exact .refl _
    · rename_i connecting
      rw [not_not] at connecting
      let s := (t.putChannel key c₁).cancelTimer key c₁ attempt
      have canceled : t.reactor.driver.Connects key 0 s.reactor.driver :=
        (acts_cancelTimer (t.putChannel key c₁) key c₁ attempt).connects
      have found' : s.channel? key = some c₁ := (channel?_cancelTimer _ key c₁ attempt key).trans here
      split
      · exact canceled.trans
          (acts_openChannel trivial s key c₁ found' connecting trivial trivial).connects
      · let s₁ := (s.closeSocket c.descriptor).putChannel key { c₁ with descriptor := none }
        have failed (reason : String) :
            s₁.reactor.driver.Connects key 0 (s₁.connectFailed key reason).reactor.driver :=
          .of_spares (spares_connectFailed s₁ key reason rfl (by decide) (by decide))
        exact canceled.trans (failed _)

/-- Whether a channel connects. -/
def connecting (t : Turn σ) (key : SlotKey) : Bool :=
  (t.channel? key).any fun c => c.state = .connecting

/-- A pause that is over submits a connect if the channel connects. -/
theorem connects_onRetryTimer (t : Turn σ) (key : SlotKey) (result : Int) :
    t.reactor.driver.Connects key (if result = 0 && t.connecting key then 1 else 0)
      (t.onRetryTimer key result).reactor.driver := by
  cases found : t.channel? key with
  | none =>
    simp only [onRetryTimer, connecting, found, Option.any_none, Bool.and_false]
    exact .refl _
  | some c =>
    simp only [onRetryTimer, connecting, found, Option.any_some]
    by_cases elapsed : result = 0 ∧ c.state = .connecting
    · have goes : ¬(result ≠ 0 ∨ (timerDone c).state ≠ .connecting) :=
        not_or.mpr ⟨not_not.mpr elapsed.1, not_not.mpr elapsed.2⟩
      rw [if_pos (by simp [elapsed.1, elapsed.2]), if_neg goes]
      exact connects_startConnect (t.putChannel key (timerDone c)) key
    · have stays : result ≠ 0 ∨ (timerDone c).state ≠ .connecting := not_and_or.mp elapsed
      rw [if_neg (by simpa using elapsed), if_pos stays]
      exact .refl _

/-- Whether a completion ends a pause of a channel that connects. -/
def resumes (t : Turn σ) (key : SlotKey) (done : IoCompletion Token) : Bool :=
  done.token.isOf .retryTimer key && done.result = 0 && t.connecting key

/-- A completion submits a connect if it ends a pause. -/
theorem connects_onCompletion (exact : t.reactor.channels.FreeExact)
    (room : t.reactor.channels.slots.length < Slab.maxSlots) (key : SlotKey)
    (done : IoCompletion Token) :
    t.reactor.driver.Connects key (if t.resumes key done then 1 else 0)
      (t.onCompletion done).reactor.driver := by
  obtain foreign | ⟨p, channel, own, kind, rfl⟩ := done.token.foreign_or_own key
  · rw [if_neg (by simp [resumes, foreign .retryTimer rfl])]
    by_cases accepts : done.token.purpose? = some .accept
    · have works : Works .resting t.afresh (t.afresh.onAccept done.result done.remote) :=
        works_onAccept t.afresh _ _ trivial trivial
      rw [onCompletion_of_accept t accepts]
      exact works.connects
    · exact (passes_onCompletion exact room (fun accept => absurd accept accepts) foreign).connects
  · have purpose := Token.isOf_of_isOf (q := .retryTimer) own
    have released (s : Turn σ) {n : Nat}
        (h : t.reactor.driver.Connects done.token.key n s.reactor.driver) :
        t.reactor.driver.Connects done.token.key n
          (s.andThen (·.releaseIfDone done.token.key)).reactor.driver :=
      andThen_cases (motive := fun s => t.reactor.driver.Connects done.token.key n s.reactor.driver)
        s h ((driver_releaseIfDone s done.token.key).symm ▸ h)
    simp only [onCompletion, kind]
    cases p with
    | wakeup | accept | drainTimer => cases channel
    | recv =>
      rw [if_neg (by simp [resumes, purpose])]
      exact released _ (acts_onRecv t.afresh _ _ _ (Scope.serving_resting _ _) trivial trivial).connects
    | send =>
      rw [if_neg (by simp [resumes, purpose])]
      exact released _ (acts_onSend t.afresh _ _ trivial).connects
    | connect =>
      rw [if_neg (by simp [resumes, purpose])]
      exact released _ (connects_onConnect t.afresh _ _ _)
    | connectTimeout =>
      rw [if_neg (by simp [resumes, purpose])]
      refine released _ ?_
      simp only [onConnectTimeout]
      split
      · exact .refl _
      · split
        · exact .refl _
        · exact .of_spares (.cancelAll [_])
    | retryTimer =>
      have same : t.resumes done.token.key done = (done.result = 0 && t.connecting done.token.key) := by
        rw [resumes, own, Bool.true_and]
      rw [same]
      exact released _ (connects_onRetryTimer t.afresh _ _)

/-- The channel that a task makes. -/
def made? (t : Turn σ) (task : Task) : Option SlotKey :=
  (t.makes task).map fun l => (t.makeChannel l).1

/-- A channel is made under a key that no channel has. -/
theorem vacant_of_made (exact : t.reactor.channels.FreeExact)
    (room : t.reactor.channels.slots.length < Slab.maxSlots) {task : Task} {key : SlotKey}
    (own : t.made? task = some key) : t.channel? key = none := by
  obtain ⟨l, -, rfl⟩ := Option.map_eq_some_iff.mp own
  exact Slab.get?_alloc_key exact room (.outbound l t.config.maxMessageSize)

/-- A task does what it does about other channels than the one that it makes. -/
theorem passes_of_not_made (going : t.reactor.stopping = false) {task : Task}
    (other : task ≠ .stop) (exact : t.reactor.channels.FreeExact)
    (room : t.reactor.channels.slots.length < Slab.maxSlots) {key : SlotKey}
    (apart : t.made? task ≠ some key) : Passes key t (t.onTask task) := by
  refine passes_onTask going other exact room fun l makes same => apart ?_
  rw [made?, makes, ← same]
  rfl

/-- A task submits a connect for a channel that it makes. -/
theorem connects_onTask (going : t.reactor.stopping = false) {task : Task} (other : task ≠ .stop)
    (exact : t.reactor.channels.FreeExact)
    (room : t.reactor.channels.slots.length < Slab.maxSlots) (key : SlotKey) :
    t.reactor.driver.Connects key (if t.made? task = some key then 1 else 0)
      (t.onTask task).reactor.driver := by
  by_cases own : t.made? task = some key
  · rw [if_pos own]
    obtain ⟨l, makes, rfl⟩ := Option.map_eq_some_iff.mp own
    obtain ⟨-, lacks, kind⟩ := makes_spec makes
    have ready : t.reactor.driver.Connects (t.makeChannel l).1 1
        (t.outboundChannel l).2.reactor.driver := by
      rw [outboundChannel_eq, if_pos lacks]
      exact connects_startConnect (t.makeChannel l).2 (t.makeChannel l).1
    obtain rfl | ⟨bytes, correlationId, rfl⟩ := kind
    · rw [onTask, if_neg (Bool.eq_false_iff.mp going)]
      exact ready
    · cases there : (t.outboundChannel l).1 with
      | some k =>
        rw [onTask_write going there]
        exact ready.trans (acts_write _ k bytes trivial).connects
      | none =>
        rw [onTask_write_none going there]
        exact ready
  · rw [if_neg own]
    exact (passes_of_not_made going other exact room own).connects

end Turn

end PartitionEngine
