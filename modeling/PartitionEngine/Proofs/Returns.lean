import PartitionEngine.Proofs.Retries

/-!
# What comes back to a channel

What a reactor does about other channels passes a channel by (`Passes`).  It may write to
the channel.  A channel that connects goes on with its attempt then (`Turn.GoesOn`), and
one that does not connect stays so.

Of the completions of a channel that connects, three matter.  The connect that comes back
ends the attempt, and the pause that is over makes the next one.  A limit that is up
cancels the connect of the last attempt, or nothing (`Turn.Outcome`).
-/

namespace PartitionEngine

namespace CompletionQueue

variable {q : CompletionQueue} {batch : List (IoCompletion Token)} {key : SlotKey}
  {done : IoCompletion Token} {p : Purpose}

/-- What is handled for another channel, or for a receive, changes nothing. -/
theorem sameWay_handled (foreign : ∀ p, p.isChannel = true → p ≠ .recv →
    done.token.isOf p key = false) : SameWay key (done :: batch) q batch q := by
  intro p own other
  exact .of_eq (by rw [those_cons, if_neg (by simp [foreign p own other])])

end CompletionQueue

namespace Turn

variable {σ : Type} {few : Prop} {batch batch' batch'' : List (IoCompletion Token)}
  {key k : SlotKey} {t t' t'' : Turn σ} {c c' : Channel} {l : Link} {n : UInt32}
  {done : IoCompletion Token} {p : Purpose}

/-! ## What is done for others -/

/-- One thing a reactor does that concerns other channels, or a write. -/
inductive Pass (key : SlotKey) : Turn σ → Turn σ → Prop where
  | act {k : SlotKey} {t t' : Turn σ} (apart : k ≠ key) (act : Act .all k t t') : Pass key t t'
  | write (t : Turn σ) (bytes : Bytes) : Pass key t (t.write key bytes)
  | add {t t' : Turn σ} (c : Channel) (exact : t.reactor.channels.FreeExact)
      (room : t.reactor.channels.slots.length < Slab.maxSlots) (apart : (t.addChannel c).1 ≠ key)
      (channels : t'.reactor.channels = (t.addChannel c).2.reactor.channels)
      (driver : t'.reactor.driver = t.reactor.driver) : Pass key t t'

/-- What a reactor does that concerns other channels. -/
def Passes (key : SlotKey) : Turn σ → Turn σ → Prop := Relation.ReflTransGen (Pass key)

namespace Passes

theorem refl (t : Turn σ) : Passes key t t := Relation.ReflTransGen.refl

theorem trans (h : Passes key t t') (h' : Passes key t' t'') : Passes key t t'' :=
  Relation.ReflTransGen.trans h h'

theorem of_pass (h : Pass key t t') : Passes key t t' := Relation.ReflTransGen.single h

theorem of_acts (apart : k ≠ key) (acts : Acts .all k t t') : Passes key t t' := by
  induction acts with
  | refl => exact .refl t
  | tail _ act ih => exact ih.tail (.act apart act)

/-- What concerns no channel can be done for another. -/
theorem of_forall (acts : ∀ k, Acts .all k t t') : Passes key t t' := by
  have apart : { key with generation := key.generation + 1 } ≠ key := by
    intro same
    have next := congrArg SlotKey.generation same
    simp at next
  exact .of_acts apart (acts _)

/-- A write goes to the channel or to another one. -/
theorem write (t : Turn σ) (k : SlotKey) (bytes : Bytes) : Passes key t (t.write k bytes) := by
  by_cases own : k = key
  · subst own
    exact .of_pass (.write t bytes)
  · exact .of_acts own (acts_write t k bytes trivial)

end Passes

theorem passes_adopt (exact : t.reactor.channels.FreeExact)
    (room : t.reactor.channels.slots.length < Slab.maxSlots)
    (apart : ∀ c, (t.addChannel c).1 ≠ key) (socket : Nat) (remote : Option Endpoint) :
    Passes key t (t.adopt socket remote) := by
  cases remote with
  | none => exact .of_forall fun _ => .of_act (.host t _)
  | some remote =>
    let c := Channel.accepted (some socket) remote t.config.maxMessageSize
    have added : Passes key t (t.addChannel c).2 :=
      .of_pass (.add c exact room (apart c) rfl rfl)
    have acts : Acts .all (t.addChannel c).1 (t.addChannel c).2 (t.adopt socket (some remote)) :=
      acts_adopt t socket remote trivial
    exact added.trans (.of_acts (apart c) acts)

theorem passes_onAccept (exact : t.reactor.channels.FreeExact)
    (room : t.reactor.channels.slots.length < Slab.maxSlots)
    (apart : ∀ c, (t.addChannel c).1 ≠ key) (result : Int) (remote : Option Endpoint) :
    Passes key t (t.onAccept result remote) := by
  have marked : Passes key t t.unarmed := .of_forall fun k => acts_unarmed t k trivial
  obtain acts | acts := onAccept_cases .all t result remote trivial
  · exact .of_forall acts
  · have adopted := passes_adopt (t := t.unarmed) exact room apart result.toNat remote
    exact (marked.trans adopted).trans (.of_forall acts)

/-- A completion that is not of a channel passes it by. -/
theorem passes_onCompletion (exact : t.reactor.channels.FreeExact)
    (room : t.reactor.channels.slots.length < Slab.maxSlots)
    (apart : done.token.purpose? = some .accept → ∀ c, (t.addChannel c).1 ≠ key)
    (foreign : ∀ p, p.isChannel = true → done.token.isOf p key = false) :
    Passes key t (t.onCompletion done) := by
  have flagged : Passes key t t.afresh := .of_forall fun _ => .of_act (.flag t false)
  cases kind : done.token.purpose? with
  | none =>
    simp only [onCompletion, kind]
    exact flagged
  | some p =>
    cases channel : p.isChannel with
    | true =>
      have other : done.token.key ≠ key := by
        rintro rfl
        cases (foreign p channel).symm.trans (Token.isOf_of_purpose? kind)
      refine .of_acts other (acts_all_onCompletion t done ?_)
      rw [kind]
      rintro ⟨⟩
      cases channel
    | false =>
      simp only [onCompletion, kind]
      cases p with
      | recv | send | connect | connectTimeout | retryTimer => cases channel
      | wakeup => exact flagged.trans (.of_forall fun k => acts_onWakeup t.afresh k trivial)
      | drainTimer =>
        exact flagged.trans (.of_forall fun k => acts_onDrainTimer t.afresh k _ trivial)
      | accept => exact flagged.trans (passes_onAccept (t := t.afresh) exact room (apart kind) _ _)

theorem passes_outboundChannel (exact : t.reactor.channels.FreeExact)
    (room : t.reactor.channels.slots.length < Slab.maxSlots) (l : Link)
    (apart : t.lacks l = true → (t.makeChannel l).1 ≠ key) :
    Passes key t (t.outboundChannel l).2 := by
  rw [outboundChannel_eq]
  cases lacks : t.lacks l with
  | true =>
    have added : Passes key t (t.makeChannel l).2 :=
      .of_pass (.add (.outbound l t.config.maxMessageSize) exact room (apart lacks) rfl rfl)
    exact added.trans (.of_acts (apart lacks) (acts_startConnect _ _ trivial))
  | false => exact .refl t

/-- A task passes the channels by that it does not make. -/
theorem passes_onTask (going : t.reactor.stopping = false) {task : Task} (other : task ≠ .stop)
    (exact : t.reactor.channels.FreeExact)
    (room : t.reactor.channels.slots.length < Slab.maxSlots)
    (apart : ∀ l, t.makes task = some l → (t.makeChannel l).1 ≠ key) :
    Passes key t (t.onTask task) := by
  have step := t.taskStep_onTask task
  generalize t.onTask task = t' at step ⊢
  cases step with
  | rejected stopping => cases going.symm.trans stopping
  | executed r correlationId =>
    exact .of_forall fun k => acts_runLocal t k r correlationId trivial trivial
  | connected l | unwritten l =>
    exact passes_outboundChannel exact room l fun lacks => apart l (by simp [makes, going, lacks])
  | written l bytes correlationId k =>
    have ready : Passes key t (t.outboundChannel l).2 :=
      passes_outboundChannel exact room l fun lacks => apart l (by simp [makes, going, lacks])
    exact ready.trans (.write _ k bytes)
  | forwarded f replyTo =>
    have run : Passes key t (t.execute f).2 := .of_forall fun k => acts_execute t k f trivial
    obtain same | ⟨bytes, -, same | same⟩ := runForwarded_cases t f replyTo
    · rw [same]
      exact run
    · rw [same]
      exact run.trans (.write _ _ bytes)
    · rw [same]
      exact run.trans (.of_forall fun _ => .of_act (.hand _ _ _ rfl trivial))
  | replied channel bytes => exact .write t channel.key bytes
  | stopped => exact absurd rfl other

/-! ## Channels that do not connect -/

theorem Calm.pass (h : t.Calm few batch key) (pass : Pass key t t') : t'.Calm few batch key := by
  cases pass with
  | act apart act => exact h.elsewhere (.of_act act) apart
  | write _ bytes => exact h.write bytes
  | add c exact room apart channels driver =>
    refine h.same ?_ (driver ▸ fun _ _ _ => .refl _)
    rw [channel?, channels]
    exact (channel?_addChannel exact room c key).trans (if_neg (Ne.symm apart))

theorem Calm.passes (h : t.Calm few batch key) (passes : Passes key t t') :
    t'.Calm few batch key := by
  induction passes with
  | refl => exact h
  | tail _ pass ih => exact ih.pass pass

/-- A connection that comes in may get the key. -/
theorem Calm.adopt (h : t.Calm few batch key) (exact : t.reactor.channels.FreeExact)
    (room : t.reactor.channels.slots.length < Slab.maxSlots) (socket : Nat)
    (remote : Option Endpoint) : (t.adopt socket remote).Calm few batch key := by
  cases remote with
  | none => exact h.same rfl fun _ _ _ => .refl _
  | some remote =>
    let c := Channel.accepted (some socket) remote t.config.maxMessageSize
    by_cases own : key = (t.addChannel c).1
    · have acts : Acts .still (t.addChannel c).1 (t.addChannel c).2
          (t.adopt socket (some remote)) :=
        (Acts.of_act (.count _ fun s => { s with accepted := s.accepted + 1 })).trans
          (acts_postRecv _ _ trivial)
      have channel := channel?_addChannel exact room c key
      rw [if_pos own] at channel
      have vacant : t.channel? key = none := own ▸ Slab.get?_alloc_key exact room c
      obtain ⟨sends, limits⟩ := h.vacant vacant
      have added : (t.addChannel c).2.Calm few batch key := by
        refine ⟨h.rest, ?_, ?_, ?_, ?_⟩
        · intro c' found
          cases channel.symm.trans found
          nofun
        · intro c' found
          exact sends ▸ Nat.zero_le _
        · intro f c' found
          cases channel.symm.trans found
          have limits : (t.addChannel c).2.reactor.driver.those batch .connectTimeout key = [] :=
            limits f
          have pauses : (t.addChannel c).2.reactor.driver.those batch .retryTimer key = [] :=
            h.rest.pauses
          refine ⟨by rw [limits, pauses]; rfl, limits ▸ List.nodup_nil, limits ▸ Nat.zero_le _, ?_,
            Nat.zero_lt_succ _⟩
          rw [limits]
          nofun
        · intro absent
          cases channel.symm.trans absent
      rw [← own] at acts
      exact acts.calm added
    · exact h.passes (passes_adopt exact room (fun _ => Ne.symm own) socket (some remote))

theorem Calm.onAccept (h : t.Calm few batch key) (exact : t.reactor.channels.FreeExact)
    (room : t.reactor.channels.slots.length < Slab.maxSlots) (result : Int)
    (remote : Option Endpoint) : (t.onAccept result remote).Calm few batch key := by
  have marked : t.unarmed.Calm few batch key := h.same rfl fun _ _ _ => .refl _
  obtain acts | acts := onAccept_cases .all t result remote trivial
  · exact h.passes (.of_forall acts)
  · exact (marked.adopt exact room result.toNat remote).passes (.of_forall acts)

/-- A send that comes back is the one under way. -/
theorem Calm.sent (h : t.Calm few (done :: batch) key) (own : done.token.isOf .send key = true) :
    ∃ c, t.channel? key = some c ∧ t.reactor.driver.those batch .send key = []
      ∧ t.Calm few batch key := by
  have back := CompletionQueue.those_handled (q := t.reactor.driver) (b := batch) own
  have sends := back .send
  rw [if_pos rfl] at sends
  have connects := back .connect
  have limits := back .connectTimeout
  have pauses := back .retryTimer
  rw [if_neg nofun] at connects limits pauses
  cases found : t.channel? key with
  | none =>
    have none := (h.vacant found).1
    rw [sends] at none
    cases none
  | some c =>
    have one := h.sends c found
    rw [sends, List.length_cons] at one
    have none : t.reactor.driver.those batch .send key = [] := by
      have most := Bool.toNat_le c.writes.inFlight
      exact List.eq_nil_of_length_eq_zero (by omega)
    refine ⟨c, rfl, none, ⟨connects ▸ h.rest.connects, pauses ▸ h.rest.pauses⟩, h.still, ?_, ?_, ?_⟩
    · intro c' found'
      exact none ▸ Nat.zero_le _
    · intro f c' found'
      exact (h.timed f c' found').same (.of_eq limits.symm) (.of_eq pauses.symm) rfl rfl
    · intro absent
      cases found.symm.trans absent

theorem Calm.onSend (h : t.Calm few (done :: batch) key)
    (own : done.token.isOf .send key = true) (result : Int) :
    (t.onSend key result).Calm few batch key := by
  obtain ⟨c, found, none, h⟩ := h.sent own
  have put (writes : WriteQueue) : (t.putChannel key { c with writes }).Calm few batch key :=
    h.modify found (h.still c found) (none ▸ Nat.zero_le _) rfl rfl
  simp only [Turn.onSend, found]
  split
  · exact (put _).close _
  · exact (put _).flush

/-- A limit that is up does nothing but that it is counted no longer. -/
theorem Calm.onConnectTimeout (h : t.Calm few (done :: batch) key)
    (own : done.token.isOf .connectTimeout key = true) (attempt : UInt8) (result : Int) :
    (t.onConnectTimeout key attempt result).Calm few batch key := by
  have back := CompletionQueue.those_handled (q := t.reactor.driver) (b := batch) own
  have limits := back .connectTimeout
  rw [if_pos rfl] at limits
  have sends := back .send
  have connects := back .connect
  have pauses := back .retryTimer
  rw [if_neg nofun] at sends connects pauses
  have rest : t.reactor.driver.AtRest batch key :=
    ⟨connects ▸ h.rest.connects, pauses ▸ h.rest.pauses⟩
  simp only [Turn.onConnectTimeout]
  split
  · rename_i absent
    obtain ⟨none, idle⟩ := h.vacant absent
    refine ⟨rest, h.still, fun c found => ?_, fun _ c found => ?_, fun _ => ⟨sends ▸ none, ?_⟩⟩
    · cases absent.symm.trans found
    · cases absent.symm.trans found
    · intro f
      have none := idle f
      rw [limits] at none
      cases none
  · rename_i c found
    have still := h.still c found
    have put : (t.putChannel key (timerDone c)).Calm few batch key := by
      have channel := channel?_putChannel_self found (timerDone c)
      refine ⟨rest, ?_, ?_, ?_, ?_⟩
      · intro c' found'
        cases channel.symm.trans found'
        exact still
      · intro c' found'
        cases channel.symm.trans found'
        exact sends ▸ h.sends c found
      · intro f c' found'
        cases channel.symm.trans found'
        exact (h.timed f c found).timerDone own (.inl rfl)
      · intro absent
        cases channel.symm.trans absent
    rw [if_pos (.inr (.inr (.inl still)))]
    exact put

/-- A completion leaves a channel that does not connect without attempts. -/
theorem Calm.onCompletion (h : t.Calm few (done :: batch) key)
    (exact : t.reactor.channels.FreeExact)
    (room : t.reactor.channels.slots.length < Slab.maxSlots) :
    (t.onCompletion done).Calm few batch key := by
  obtain foreign | ⟨p, channel, own, kind, rfl⟩ := done.token.foreign_or_own key
  · have h : t.Calm few batch key :=
      h.same rfl (CompletionQueue.sameWay_handled fun p own _ => foreign p own)
    by_cases accepts : done.token.purpose? = some .accept
    · have h : t.afresh.Calm few batch key := h.same rfl fun _ _ _ => .refl _
      rw [onCompletion_of_accept t accepts]
      exact h.onAccept exact room _ _
    · exact h.passes (passes_onCompletion exact room (fun accept => absurd accept accepts) foreign)
  · have back := CompletionQueue.those_handled (q := t.reactor.driver) (b := batch) own
    have released {s : Turn σ} (h : s.Calm few batch done.token.key) :
        (s.andThen (·.releaseIfDone done.token.key)).Calm few batch done.token.key :=
      (acts_release s done.token.key).calm h
    have h : t.afresh.Calm few (done :: batch) done.token.key := h.same rfl fun _ _ _ => .refl _
    have back : ∀ p, t.afresh.reactor.driver.those (done :: batch) p done.token.key = _ := back
    simp only [Turn.onCompletion, kind]
    generalize t.afresh = t at h back
    cases p with
    | wakeup | accept | drainTimer => cases channel
    | recv =>
      have h : t.Calm few batch done.token.key :=
        h.same rfl (CompletionQueue.sameWay_handled fun p' _ other => by
          rw [Token.isOf_of_isOf own]
          simp [Ne.symm other])
      exact released
        ((attends_onRecv t _ _ _ (Scope.routes_still _ _) trivial trivial).calm h)
    | send => exact released (h.onSend own _)
    | connect =>
      have none := h.rest.connects
      rw [back, if_pos rfl] at none
      cases none
    | connectTimeout => exact released (h.onConnectTimeout own _ _)
    | retryTimer =>
      have none := h.rest.pauses
      rw [back, if_pos rfl] at none
      cases none

/-! ## Channels that connect -/

/-- A channel goes on with its attempt.  Nothing is added to what is on its way for it. -/
structure GoesOn (few : Prop) (batch : List (IoCompletion Token)) (key : SlotKey) (c : Channel)
    (t t' : Turn σ) : Prop where
  tries : ∃ c', t'.Tries few batch key c' ∧ c'.attempt = c.attempt ∧ c'.link = c.link
  pauses : ∀ token ∈ t'.reactor.driver.those batch .retryTimer key,
    token ∈ t.reactor.driver.those batch .retryTimer key
  limits : ∀ token ∈ t'.reactor.driver.those batch .connectTimeout key,
    token ∈ t.reactor.driver.those batch .connectTimeout key

theorem GoesOn.of_same (tries : t'.Tries few batch key c') (attempt : c'.attempt = c.attempt)
    (link : c'.link = c.link)
    (same : CompletionQueue.SameWay key batch t.reactor.driver batch t'.reactor.driver) :
    GoesOn few batch key c t t' :=
  ⟨⟨c', tries, attempt, link⟩, fun _ => (same .retryTimer rfl nofun).mem_iff.mp,
    fun _ => (same .connectTimeout rfl nofun).mem_iff.mp⟩

/-- Bytes wait until the channel opens. -/
theorem Tries.write (h : t.Tries few batch key c) (bytes : Bytes) :
    t.write key bytes = t.putChannel key { c with writes := c.writes.push bytes } := by
  have live : c.state.isClosed = false := by rw [h.connecting]; rfl
  have put := channel?_putChannel_self h.found { c with writes := c.writes.push bytes }
  have waits : ¬ c.state = .open := by rw [h.connecting]; decide
  simp only [Turn.write, h.found, live, Turn.flush, put]
  rw [if_neg Bool.false_ne_true, if_pos waits]

theorem Tries.pass (h : t.Tries few batch key c) (pass : Pass key t t') :
    GoesOn few batch key c t t' := by
  cases pass with
  | act apart act =>
    have acts := Acts.of_act act
    exact .of_same (h.elsewhere acts apart) rfl rfl (acts.sameWay apart batch)
  | write _ bytes =>
    have flying := c.writes.inFlight_push bytes
    rw [h.write bytes]
    have put := channel?_putChannel_self h.found { c with writes := c.writes.push bytes }
    have same : CompletionQueue.SameWay key batch t.reactor.driver batch
        (t.putChannel key { c with writes := c.writes.push bytes }).reactor.driver :=
      fun _ _ _ => .refl _
    exact .of_same (h.same put rfl rfl rfl flying rfl rfl same) rfl rfl same
  | add new exact room apart channels driver =>
    have same : CompletionQueue.SameWay key batch t.reactor.driver batch t'.reactor.driver :=
      driver ▸ fun _ _ _ => .refl _
    refine .of_same (h.same ?_ rfl rfl rfl rfl rfl rfl same) rfl rfl same
    rw [channel?, channels]
    exact ((channel?_addChannel exact room new key).trans (if_neg (Ne.symm apart))).trans h.found

theorem GoesOn.tail (h : GoesOn few batch key c t t') (pass : Pass key t' t'') :
    GoesOn few batch key c t t'' := by
  obtain ⟨⟨c', tries, attempt, link⟩, pauses, limits⟩ := h
  obtain ⟨⟨c'', tries', attempt', link'⟩, pauses', limits'⟩ := tries.pass pass
  exact ⟨⟨c'', tries', attempt'.trans attempt, link'.trans link⟩,
    fun token mem => pauses token (pauses' token mem),
    fun token mem => limits token (limits' token mem)⟩

theorem GoesOn.passes (h : GoesOn few batch key c t t') (passes : Passes key t' t'') :
    GoesOn few batch key c t t'' := by
  induction passes with
  | refl => exact h
  | tail _ pass ih => exact ih.tail pass

/-- A channel that connects is not removed. -/
theorem Tries.releaseIfDone (h : t.Tries few batch key c) : t.releaseIfDone key = t := by
  obtain same | ⟨c', found, closing, -⟩ := releaseIfDone_cases t key
  · exact same
  · cases h.found.symm.trans found
    cases h.connecting.symm.trans closing

/-- The connect of the attempt is over, and nothing is on its way for it. -/
theorem Tries.connected (h : t.Tries few (done :: batch) key c)
    (own : done.token.isOf .connect key = true) :
    t.Tries few batch key c ∧ t.reactor.driver.AtRest batch key := by
  have back := CompletionQueue.those_handled (q := t.reactor.driver) (b := batch) own
  have connects := back .connect
  rw [if_pos rfl] at connects
  have sends := back .send
  have limits := back .connectTimeout
  have pauses := back .retryTimer
  rw [if_neg nofun] at sends limits pauses
  have alone := h.alone
  rw [connects, pauses, List.length_cons] at alone
  have rest : t.reactor.driver.AtRest batch key :=
    ⟨List.eq_nil_of_length_eq_zero (by omega), List.eq_nil_of_length_eq_zero (by omega)⟩
  refine ⟨⟨h.found, h.connecting, h.link, h.idle, sends ▸ h.sends, ?_, ?_, fun f =>
    (h.timed f).same (.of_eq limits.symm) (.of_eq pauses.symm) rfl rfl⟩, rest⟩
  · rw [rest.connects, rest.pauses]
    exact Nat.zero_le 1
  · rw [rest.connects, rest.pauses]
    rintro token (mem | mem)
    · cases mem
    · cases mem

/-- The pause is over, and nothing is on its way for the attempt. -/
theorem Tries.paused (h : t.Tries few (done :: batch) key c)
    (own : done.token.isOf .retryTimer key = true) :
    (t.putChannel key (timerDone c)).Tries few batch key (timerDone c)
      ∧ t.reactor.driver.AtRest batch key := by
  have back := CompletionQueue.those_handled (q := t.reactor.driver) (b := batch) own
  have pauses := back .retryTimer
  rw [if_pos rfl] at pauses
  have sends := back .send
  have connects := back .connect
  rw [if_neg nofun] at sends connects
  have alone := h.alone
  rw [connects, pauses, List.length_cons] at alone
  have rest : t.reactor.driver.AtRest batch key :=
    ⟨List.eq_nil_of_length_eq_zero (by omega), List.eq_nil_of_length_eq_zero (by omega)⟩
  have rest' : (t.putChannel key (timerDone c)).reactor.driver.AtRest batch key := rest
  refine ⟨⟨channel?_putChannel_self h.found _, h.connecting, h.link, h.idle, sends ▸ h.sends, ?_,
    ?_, fun f => (h.timed f).timerDone own (.inr rfl)⟩, rest⟩
  · rw [rest'.connects, rest'.pauses]
    exact Nat.zero_le 1
  · rw [rest'.connects, rest'.pauses]
    rintro token (mem | mem)
    · cases mem
    · cases mem

/-- A limit is counted no longer. -/
theorem Tries.limited (h : t.Tries few (done :: batch) key c)
    (own : done.token.isOf .connectTimeout key = true) :
    GoesOn few batch key c t (t.putChannel key (timerDone c))
      ∧ (t.putChannel key (timerDone c)).Tries few batch key (timerDone c) := by
  have back := CompletionQueue.those_handled (q := t.reactor.driver) (b := batch) own
  have sends := back .send
  have connects := back .connect
  have pauses := back .retryTimer
  rw [if_neg nofun] at sends connects pauses
  have alone := h.alone
  have tagged := h.tagged
  rw [connects, pauses] at alone
  simp only [connects, pauses] at tagged
  have tries : (t.putChannel key (timerDone c)).Tries few batch key (timerDone c) :=
    ⟨channel?_putChannel_self h.found _, h.connecting, h.link, h.idle, sends ▸ h.sends, alone, tagged,
      fun f => (h.timed f).timerDone own (.inl rfl)⟩
  exact ⟨⟨⟨_, tries, rfl, rfl⟩, fun _ => id, fun _ => id⟩, tries⟩

/-- The channel of a connection that is there does not connect any longer. -/
theorem Tries.openChannel (h : t.Tries few batch key c)
    (rest : t.reactor.driver.AtRest batch key) : (t.openChannel key c).Calm few batch key := by
  have put : (t.putChannel key { c with state := .open }).Calm few batch key := by
    have channel := channel?_putChannel_self h.found { c with state := .open }
    refine ⟨rest, ?_, ?_, ?_, ?_⟩
    · intro c' found
      cases channel.symm.trans found
      nofun
    · intro c' found
      have none : (t.putChannel key { c with state := .open }).reactor.driver.those batch .send key
        = [] := h.sends
      exact none ▸ Nat.zero_le _
    · intro f c' found
      cases channel.symm.trans found
      exact (h.timed f).same (.refl _) (.refl _) rfl rfl
    · intro absent
      cases channel.symm.trans absent
  have started (s : Turn σ) (h : s.Calm few batch key) :
      ((s.postRecv key).andThen (·.flush key)).Calm few batch key :=
    have posted := Acts.calm (acts_postRecv s key trivial) h
    andThen_cases _ posted posted.flush
  have noted (l : Link) : ((t.putChannel key { c with state := .open }).modifyLinks
      fun links => links.markOpen l).Calm few batch key := put.same rfl fun _ _ _ => .refl _
  simp only [Turn.openChannel]
  split
  · exact started _ (noted _)
  · exact started _ put

/-- The connect of an attempt has come back. -/
theorem Tries.onConnect (h : t.Tries few (done :: batch) key c)
    (own : done.token.isOf .connect key = true) (going : t.reactor.stopping = false)
    (spans : t.config.Spans) (link : c.link = some l) (attempt : UInt8) (result : Int) :
    (result = 0 → (t.onConnect key attempt result).Calm few batch key)
    ∧ (result ≠ 0 → Failed few batch key c.attempt l t (t.onConnect key attempt result)) := by
  obtain ⟨tries, rest⟩ := h.connected own
  let c₁ : Channel := { c with connectInFlight := false }
  have found := channel?_putChannel_self h.found c₁
  have tries₁ : (t.putChannel key c₁).Tries few batch key c₁ :=
    tries.same found rfl rfl rfl rfl rfl rfl fun _ _ _ => .refl _
  let s := (t.putChannel key c₁).cancelTimer key c₁ attempt
  have same : CompletionQueue.SameWay key batch t.reactor.driver batch s.reactor.driver := by
    intro p _ _
    simp only [s, cancelTimer]
    split
    · exact (CompletionQueue.Spares.cancelAll [_]).way batch
    · exact .refl _
  have near : Near t s := by
    simp only [s, cancelTimer]
    split
    · exact .of_shared rfl (CompletionQueue.log_suffix_cancelAll [_] _) rfl rfl
    · exact .of_shared rfl (List.suffix_refl _) rfl rfl
  have found₂ : s.channel? key = some c₁ := (channel?_cancelTimer _ key c₁ attempt key).trans found
  have tries₂ : s.Tries few batch key c₁ := tries₁.same found₂ rfl rfl rfl rfl rfl rfl same
  have rest₂ := rest.same same
  have waits : ¬ c₁.state ≠ .connecting := not_not.mpr h.connecting
  simp only [Turn.onConnect, h.found]
  rw [if_neg waits]
  constructor
  · intro zero
    rw [if_pos zero]
    exact tries₂.openChannel rest₂
  · intro nonzero
    rw [if_neg nonzero]
    let s₁ := (s.closeSocket c.descriptor).putChannel key { c₁ with descriptor := none }
    have near₁ : Near t s₁ := near.trans (.of_shared rfl (List.suffix_refl _) rfl rfl)
    have found₃ : s₁.channel? key = some { c₁ with descriptor := none } :=
      channel?_putChannel_self (t := s.closeSocket c.descriptor) found₂ _
    have tries₃ : s₁.Tries few batch key { c₁ with descriptor := none } :=
      tries₂.same found₃ rfl rfl rfl rfl rfl rfl fun _ _ _ => .refl _
    have spans₁ : s₁.config.Spans := near₁.config ▸ spans
    have failed := tries₃.connectFailed rest₂ (near₁.stopping.trans going) spans₁ link
      (if c₁.timedOut then "timed out after " ++ Text.span s.config.connectTimeout
        else (Failure.ofErrno "connect" result).message)
    exact failed.near near₁ fun token => (same .connectTimeout rfl (by decide)).mem_iff.mp

/-- A limit that is up leaves the channel at its attempt. -/
theorem Tries.onConnectTimeout (h : t.Tries few (done :: batch) key c)
    (own : done.token.isOf .connectTimeout key = true) (attempt : UInt8) (result : Int) :
    GoesOn few batch key c t (t.onConnectTimeout key attempt result) := by
  obtain ⟨goesOn, tries⟩ := h.limited own
  simp only [Turn.onConnectTimeout, h.found]
  split
  · exact goesOn
  · let s := (t.putChannel key (timerDone c)).putChannel key { timerDone c with timedOut := true }
    have found : s.channel? key = some { timerDone c with timedOut := true } :=
      channel?_putChannel_self tries.found _
    have same : CompletionQueue.SameWay key batch t.reactor.driver batch
        (s.cancel (.ofChannel .connect key attempt)).reactor.driver :=
      fun _ _ _ => (CompletionQueue.Spares.cancelAll [_]).way batch
    have later : (s.cancel (.ofChannel .connect key attempt)).Tries few batch key
        { timerDone c with timedOut := true } :=
      tries.same found rfl rfl rfl rfl rfl rfl same
    exact ⟨⟨_, later, rfl, rfl⟩,
      fun token mem => goesOn.pauses token ((same .retryTimer rfl (by decide)).mem_iff.mp mem),
      fun token mem => goesOn.limits token ((same .connectTimeout rfl (by decide)).mem_iff.mp mem)⟩

/-- A pause that is over makes the next attempt. -/
theorem Tries.resumed (h : t.Tries few (done :: batch) key c)
    (own : done.token.isOf .retryTimer key = true) (going : t.reactor.stopping = false)
    (spans : t.config.Spans) (link : c.link = some l) (number : n.toNat = c.attempt.toNat + 1)
    (small : few → n.toNat < 255) {result : Int} (zero : result = 0) :
    Begun few batch key n l t (t.onRetryTimer key result) := by
  obtain ⟨tries, rest⟩ := h.paused own
  have near : Near t (t.putChannel key (timerDone c)) :=
    .of_shared rfl (List.suffix_refl _) rfl rfl
  have goes : ¬(result ≠ 0 ∨ (timerDone c).state ≠ .connecting) :=
    not_or.mpr ⟨not_not.mpr zero, not_not.mpr h.connecting⟩
  simp only [Turn.onRetryTimer, h.found]
  rw [if_neg goes]
  exact (tries.startConnect rest going spans link number small).near near rfl

/-- A pause that was canceled makes no attempt. -/
theorem Tries.unresumed (h : t.Tries few (done :: batch) key c)
    (own : done.token.isOf .retryTimer key = true) {result : Int} (nonzero : result ≠ 0) :
    GoesOn few batch key c t (t.onRetryTimer key result) := by
  obtain ⟨tries, rest⟩ := h.paused own
  simp only [Turn.onRetryTimer, h.found]
  rw [if_pos (.inl nonzero)]
  exact ⟨⟨_, tries, rfl, rfl⟩, fun _ => id, fun _ => id⟩

/-! ## Completions -/

/-- What a completion makes of a channel that connects for a link. -/
inductive Outcome (few : Prop) (done : IoCompletion Token) (batch : List (IoCompletion Token))
    (key : SlotKey) (c : Channel) (n : UInt32) (l : Link) (t t' : Turn σ) : Prop where
  | goesOn (on : GoesOn few batch key c t t')
      (other : done.token.isOf .connect key = false)
      (waits : done.token.isOf .retryTimer key = true → done.result ≠ 0)
  | opened (calm : t'.Calm few batch key) (own : done.token.isOf .connect key = true)
      (result : done.result = 0)
  | failed (failed : Failed few batch key c.attempt l t t')
      (own : done.token.isOf .connect key = true) (result : done.result ≠ 0)
  | begun (begun : Begun few batch key n l t t') (own : done.token.isOf .retryTimer key = true)
      (result : done.result = 0)

theorem asked_releaseIfDone (t t' : Turn σ) (key : SlotKey) :
    t.asked (t'.releaseIfDone key) = t.asked t' := by
  rw [asked, driver_releaseIfDone]
  rfl

/-- A channel that gave up may be removed. -/
theorem Failed.release (h : Failed few batch key n l t t') :
    Failed few batch key n l t (t'.andThen (·.releaseIfDone key)) := by
  refine andThen_cases t' h ?_
  cases h with
  | paused c tries number link left asked limits =>
    rw [tries.releaseIfDone]
    exact .paused c tries number link left asked limits
  | gaveUp reason calm spent up =>
    obtain same | ⟨c, -, -, -, gone, -⟩ := releaseIfDone_cases t' key
    · rw [same]
      exact .gaveUp reason calm spent up
    · refine .gaveUp reason (Act.calm (.release _) calm) (asked_releaseIfDone t t' key ▸ spent) ?_
      have dead : (t'.releaseIfDone key).isLive key = false := by
        rw [isLive, gone]
        rfl
      rw [releaseIfDone_eq] at dead ⊢
      exact ⟨dead, up.closed, up.invocations, up.idle⟩

theorem Begun.release (h : Begun few batch key n l t t') :
    Begun few batch key n l t (t'.andThen (·.releaseIfDone key)) := by
  cases h with
  | pending c tries number link asked pauses limits =>
    have on : Begun few batch key n l t t' := .pending c tries number link asked pauses limits
    exact andThen_cases t' on (tries.releaseIfDone.symm ▸ on)
  | failed failed unmade =>
    have same : t.asked (t'.andThen (·.releaseIfDone key)) = t.asked t' :=
      andThen_cases (motive := fun s => t.asked s = t.asked t') t' rfl
        (asked_releaseIfDone t t' key)
    exact .failed failed.release fun s mem => unmade s (same ▸ mem)

theorem GoesOn.release (h : GoesOn few batch key c t t') :
    GoesOn few batch key c t (t'.andThen (·.releaseIfDone key)) := by
  obtain ⟨c', tries, attempt, link⟩ := h.tries
  exact andThen_cases t' h (tries.releaseIfDone.symm ▸ h)

/-- A completion is handled with the flag lowered, which asks for nothing. -/
theorem Outcome.of_afresh (h : Outcome few done batch key c n l t.afresh t') :
    Outcome few done batch key c n l t t' := by
  have near : Near t t.afresh := .of_shared rfl (List.suffix_refl _) rfl rfl
  cases h with
  | goesOn on other waits => exact .goesOn ⟨on.tries, on.pauses, on.limits⟩ other waits
  | opened calm own result => exact .opened calm own result
  | failed failed own result => exact .failed (failed.near near fun _ => id) own result
  | begun begun own result => exact .begun (begun.near near rfl) own result

/-- What a completion makes of a channel that connects. -/
theorem Tries.onCompletion (h : t.Tries few (done :: batch) key c)
    (exact : t.reactor.channels.FreeExact)
    (room : t.reactor.channels.slots.length < Slab.maxSlots) (going : t.reactor.stopping = false)
    (spans : t.config.Spans) (link : c.link = some l)
    (number : done.token.isOf .retryTimer key = true → done.result = 0 →
      n.toNat = c.attempt.toNat + 1 ∧ (few → n.toNat < 255)) :
    Outcome few done batch key c n l t (t.onCompletion done) := by
  obtain foreign | ⟨p, channel, own, kind, rfl⟩ := done.token.foreign_or_own key
  · have same : CompletionQueue.SameWay key (done :: batch) t.reactor.driver batch
        t.reactor.driver := CompletionQueue.sameWay_handled fun p own _ => foreign p own
    have tries : t.Tries few batch key c := h.same h.found rfl rfl rfl rfl rfl rfl same
    have on : GoesOn few batch key c t t := .of_same tries rfl rfl fun _ _ _ => .refl _
    have held : (t.channel? key).isSome = true := by rw [h.found]; rfl
    refine .goesOn (on.passes (passes_onCompletion exact room
      (fun _ => addChannel_ne exact room held) foreign)) (foreign .connect rfl) fun own => ?_
    cases (foreign .retryTimer rfl).symm.trans own
  · have purpose (p' : Purpose) := Token.isOf_of_isOf (q := p') own
    have h : t.afresh.Tries few (done :: batch) done.token.key c :=
      h.same h.found rfl rfl rfl rfl rfl rfl fun _ _ _ => .refl _
    have going : t.afresh.reactor.stopping = false := going
    have spans : t.afresh.config.Spans := spans
    refine .of_afresh ?_
    simp only [Turn.onCompletion, kind]
    generalize t.afresh = t at h going spans ⊢
    cases p with
    | wakeup | accept | drainTimer => cases channel
    | recv =>
      have same : CompletionQueue.SameWay done.token.key (done :: batch) t.reactor.driver batch
          t.reactor.driver := CompletionQueue.sameWay_handled fun p' _ other => by
        rw [purpose]
        simp [Ne.symm other]
      let c' : Channel := { c with recvInFlight := false }
      have put := channel?_putChannel_self h.found c'
      have on : GoesOn few batch done.token.key c t
          (t.onRecv done.token.key done.result done.received) := by
        have waits : c.state ≠ .open := by rw [h.connecting]; decide
        simp only [Turn.onRecv, h.found]
        rw [if_pos waits]
        exact .of_same (h.same put rfl rfl rfl rfl rfl rfl same) rfl rfl fun _ _ _ => .refl _
      exact .goesOn on.release (purpose .connect) fun again => by cases (purpose _).symm.trans again
    | send =>
      have none := h.sends
      rw [CompletionQueue.those_handled own, if_pos rfl] at none
      cases none
    | connect =>
      obtain ⟨opened, failed⟩ := h.onConnect own going spans link done.token.attempt done.result
      by_cases zero : done.result = 0
      · exact .opened ((acts_release _ done.token.key).calm (opened zero)) own zero
      · exact .failed (failed zero).release own zero
    | connectTimeout =>
      exact .goesOn (h.onConnectTimeout own _ _).release (purpose .connect)
        fun again => by cases (purpose _).symm.trans again
    | retryTimer =>
      by_cases zero : done.result = 0
      · obtain ⟨number, small⟩ := number own zero
        exact .begun (h.resumed own going spans link number small zero).release own zero
      · exact .goesOn (h.unresumed own zero).release (purpose .connect) fun _ => zero

/-! ## Tasks -/

theorem near_makeChannel (t : Turn σ) (l : Link) : Near t (t.makeChannel l).2 where
  config := rfl
  stopping := rfl
  log := List.suffix_refl _
  closed := by
    show ((t.shared.modifyReactor t.reactor.index _).reactor? t.reactor.index).map _ = _
    simp only [Shared.reactor?, Shared.modifyReactor, List.getElem?_modify_eq, handle?]
    cases t.shared.reactors[t.reactor.index]? <;> rfl
  invocations := rfl

/-- A channel that is made connects, and no attempt was made for it. -/
theorem Calm.makeChannel (h : t.Calm few batch (t.makeChannel l).1)
    (exact : t.reactor.channels.FreeExact)
    (room : t.reactor.channels.slots.length < Slab.maxSlots) :
    (t.makeChannel l).2.Tries few batch (t.makeChannel l).1
      (.outbound l t.config.maxMessageSize) := by
  have vacant : t.channel? (t.makeChannel l).1 = none :=
    Slab.get?_alloc_key exact room (.outbound l t.config.maxMessageSize)
  obtain ⟨sends, limits⟩ := h.vacant vacant
  have found : (t.makeChannel l).2.channel? (t.makeChannel l).1
      = some (.outbound l t.config.maxMessageSize) :=
    (channel?_addChannel exact room _ _).trans (if_pos rfl)
  have rest : (t.makeChannel l).2.reactor.driver.AtRest batch (t.makeChannel l).1 := h.rest
  refine ⟨found, rfl, ⟨l, rfl, rfl⟩, rfl, sends, ?_, ?_, fun f => ?_⟩
  · rw [rest.connects, rest.pauses]
    exact Nat.zero_le 1
  · rw [rest.connects, rest.pauses]
    rintro token (mem | mem)
    · cases mem
    · cases mem
  · have none : (t.makeChannel l).2.reactor.driver.those batch .connectTimeout
        (t.makeChannel l).1 = [] := limits f
    refine ⟨by rw [none, rest.pauses]; rfl, none ▸ List.nodup_nil, none ▸ Nat.zero_le _, ?_,
      Nat.zero_lt_succ _⟩
    rw [none]
    nofun

/-- Bytes for a channel that is not there, or is closed, are dropped. -/
theorem write_of_not_live (gone : t.isLive key = false) (bytes : Bytes) :
    t.write key bytes = t := by
  simp only [Turn.write]
  split
  · rfl
  · rename_i c found
    have closed : c.state.isClosed = true := by simpa [isLive, found] using gone
    rw [if_pos closed]

/-- Bytes wait for the attempt that was made, or are dropped. -/
theorem Begun.write (h : Begun few batch key n l t t') (bytes : Bytes) :
    Begun few batch key n l t (t'.write key bytes) := by
  have waits {c : Channel} (tries : t'.Tries few batch key c) :
      t'.write key bytes = t'.putChannel key { c with writes := c.writes.push bytes }
        ∧ (t'.write key bytes).Tries few batch key { c with writes := c.writes.push bytes } := by
    have flying := c.writes.inFlight_push bytes
    rw [tries.write bytes]
    exact ⟨rfl, tries.same (channel?_putChannel_self tries.found _) rfl rfl rfl flying rfl rfl
      fun _ _ _ => .refl _⟩
  cases h with
  | pending c tries number link asked pauses limits =>
    obtain ⟨same, tries⟩ := waits tries
    rw [same] at tries ⊢
    exact .pending _ tries number link asked pauses limits
  | failed failed unmade =>
    cases failed with
    | paused c tries number link left asked limits =>
      obtain ⟨same, tries⟩ := waits tries
      rw [same] at tries ⊢
      exact .failed (.paused _ tries number link left asked limits) unmade
    | gaveUp reason calm spent up =>
      rw [write_of_not_live up.gone]
      exact .failed (.gaveUp reason calm spent up) unmade

/-- Channels are made for tasks to connect and to write. -/
theorem makes_spec {task : Task} (makes : t.makes task = some l) :
    t.reactor.stopping = false ∧ t.lacks l = true
      ∧ (task = .connect l ∨ ∃ bytes correlationId, task = .write l bytes correlationId) := by
  cases task with
  | connect l' =>
    simp only [Turn.makes, Option.ite_none_right_eq_some, Bool.and_eq_true, Bool.not_eq_true',
      Option.some.injEq] at makes
    obtain ⟨⟨going, lacks⟩, rfl⟩ := makes
    exact ⟨going, lacks, .inl rfl⟩
  | write l' bytes correlationId =>
    simp only [Turn.makes, Option.ite_none_right_eq_some, Bool.and_eq_true, Bool.not_eq_true',
      Option.some.injEq] at makes
    obtain ⟨⟨going, lacks⟩, rfl⟩ := makes
    exact ⟨going, lacks, .inr ⟨bytes, correlationId, rfl⟩⟩
  | execute | forward | reply | stop => cases makes

/-- A task that makes a channel makes its first attempt. -/
theorem Calm.onTask {task : Task} (h : t.Calm few batch (t.makeChannel l).1)
    (exact : t.reactor.channels.FreeExact)
    (room : t.reactor.channels.slots.length < Slab.maxSlots) (spans : t.config.Spans)
    (makes : t.makes task = some l) :
    Begun few batch (t.makeChannel l).1 1 l t (t.onTask task) := by
  obtain ⟨going, lacks, kind⟩ := makes_spec makes
  have near := near_makeChannel t l
  have begun : Begun few batch (t.makeChannel l).1 1 l t (t.outboundChannel l).2 := by
    rw [outboundChannel_eq, if_pos lacks]
    have spans : (t.makeChannel l).2.config.Spans := near.config ▸ spans
    exact ((h.makeChannel exact room).startConnect h.rest (near.stopping.trans going) spans rfl rfl
      (fun _ => by decide)).near near rfl
  obtain rfl | ⟨bytes, correlationId, rfl⟩ := kind
  · rw [Turn.onTask, if_neg (Bool.eq_false_iff.mp going)]
    exact begun
  · cases ready : (t.outboundChannel l).1 with
    | some k =>
      rw [onTask_write going ready]
      obtain ⟨k', c, entry, found, usable, -⟩ | ⟨-, own, -⟩ := outboundChannel_cases t l
      · cases lacks.symm.trans (lacks_of_usable entry found usable)
      · obtain ⟨rfl, -⟩ := own k ready
        exact begun.write bytes
    | none =>
      rw [onTask_write_none going ready]
      exact begun

end Turn

end PartitionEngine
