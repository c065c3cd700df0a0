import PartitionEngine.Proofs.Moves
import PartitionEngine.Proofs.Sending

/-!
# Bytes that are handed to a channel

A reactor that makes a channel evolves too, and its channels still fit.  So do
completions and tasks (`Fit.onCompletion`, `Fit.onTask`).

The bytes of a write are handed to a channel that serves the endpoint of the link.
If there is none, and none can be had, no invocation that goes through the link is
left (`Fit.outboundChannel`).  So a task that carries an invocation completes it,
fails it, or hands its bytes over (`Fit.onTask_carries`).  Bytes that are handed over
go to the end of the write queue of a channel that can be used (`Moment.Move.enters`).
-/

namespace PartitionEngine

namespace Turn

variable {σ : Type} {may : Scope} {K : Link → Prop} {key : SlotKey} {t t' t'' : Turn σ}

/-- A reactor evolves into one whose channels fit. -/
structure Proceeds (K : Link → Prop) (t t' : Turn σ) : Prop where
  evolves : Evolves t t'
  fit : t'.Fit K

namespace Proceeds

theorem refl (fit : t.Fit K) : t.Proceeds K t := ⟨.refl t, fit⟩

theorem trans (h : t.Proceeds K t') (h' : t'.Proceeds K t'') : t.Proceeds K t'' :=
  ⟨h.evolves.trans h'.evolves, h'.fit⟩

theorem of_acts (fit : t.Fit K) (acts : Acts may key t t') : t.Proceeds K t' :=
  ⟨acts.evolves, acts.fit fit⟩

theorem acts (h : t.Proceeds K t') (acts : Acts may key t' t'') : t.Proceeds K t'' :=
  h.trans (of_acts h.fit acts)

end Proceeds

/-! ## New channels -/

theorem channel?_addChannel (exact : t.reactor.channels.FreeExact)
    (room : t.reactor.channels.slots.length < Slab.maxSlots) (c : Channel) (k : SlotKey) :
    (t.addChannel c).2.channel? k = if k = (t.addChannel c).1 then some c else t.channel? k :=
  Slab.get?_alloc exact room c k

theorem Serves.add {k : SlotKey} {l : Link} (h : t.Serves k l)
    (exact : t.reactor.channels.FreeExact)
    (room : t.reactor.channels.slots.length < Slab.maxSlots) (c : Channel) :
    (t.addChannel c).2.Serves k l := by
  refine h.of_eq ?_
  rw [channel?_addChannel exact room, if_neg]
  rintro rfl
  obtain ⟨c', found, -⟩ := h
  cases (Slab.get?_alloc_key exact room c).symm.trans found

/-- A reactor with one more channel. -/
theorem Fit.add (h : t.Fit K) (room : t.reactor.channels.slots.length < Slab.maxSlots)
    {c : Channel} (known : ∀ l, c.link = some l → K l) :
    t.Proceeds K (t.addChannel c).2 where
  evolves := ⟨.refl _, rfl, rfl, fun stopping => stopping,
    fun k l serves => .inl (serves.add h.exact room c)⟩
  fit :=
    { exact := h.exact.alloc c
      entry := fun e k entry => by
        obtain ⟨l, serves, endpoint⟩ := h.entry e k entry
        exact ⟨l, serves.add h.exact room c, endpoint⟩
      known := fun k c' l found link => by
        rw [channel?_addChannel h.exact room] at found
        split at found
        · cases found
          exact known l link
        · exact h.known k c' l found link }

theorem Fit.adopt (h : t.Fit K) (room : t.reactor.channels.slots.length < Slab.maxSlots)
    (socket : Nat) (remote : Option Endpoint) : t.Proceeds K (t.adopt socket remote) := by
  cases remote with
  | none => exact .of_acts h (Acts.of_act (.host t _) : Acts .all ⟨0, 0⟩ t _)
  | some remote =>
    have added := h.add room (c := .accepted (some socket) remote t.config.maxMessageSize)
      fun l link => by cases link
    exact added.acts (acts_adopt t socket remote trivial : Acts .all _ _ _)

theorem Fit.onAccept (h : t.Fit K) (room : t.reactor.channels.slots.length < Slab.maxSlots)
    (result : Int) (remote : Option Endpoint) : t.Proceeds K (t.onAccept result remote) := by
  have marked : Acts .all ⟨0, 0⟩ t t.unarmed := acts_unarmed t _ trivial
  obtain acts | acts := onAccept_cases .all t result remote trivial
  · exact .of_acts h (acts ⟨0, 0⟩)
  · have adopted := (marked.fit h).adopt room result.toNat remote
    exact ((Proceeds.of_acts h marked).trans adopted).acts (acts ⟨0, 0⟩)

/-- A reactor that handles a completion evolves. -/
theorem Fit.onCompletion (h : t.Fit K) (room : t.reactor.channels.slots.length < Slab.maxSlots)
    (c : IoCompletion Token) : t.Proceeds K (t.onCompletion c) := by
  by_cases accept : c.token.purpose? = some .accept
  · have flagged : Acts .all ⟨0, 0⟩ t t.afresh := .of_act (.flag t false)
    rw [onCompletion_of_accept t accept]
    exact (Proceeds.of_acts h flagged).trans
      ((flagged.fit h).onAccept room c.result c.remote)
  · have acts : Acts .all c.token.key t (t.onCompletion c) :=
      acts_all_onCompletion t c accept
    exact .of_acts h acts

/-! ## The channel of a link -/

/-- A channel for a link, with its entry. -/
theorem Fit.makeChannel (h : t.Fit K) (room : t.reactor.channels.slots.length < Slab.maxSlots)
    {l : Link} (known : K l) :
    t.Proceeds K (t.makeChannel l).2
      ∧ (t.makeChannel l).2.channel? (t.makeChannel l).1
        = some (.outbound l t.config.maxMessageSize) := by
  have added := h.add room (c := .outbound l t.config.maxMessageSize) fun l' link => by
    cases link
    exact known
  have found : (t.makeChannel l).2.channel? (t.makeChannel l).1
      = some (.outbound l t.config.maxMessageSize) :=
    (channel?_addChannel h.exact room _ _).trans (if_pos rfl)
  have serves (k : SlotKey) (l' : Link) (old : (t.addChannel _).2.Serves k l') :
      (t.makeChannel l).2.Serves k l' := old
  refine ⟨⟨⟨?_, rfl, rfl, fun stopping => stopping, ?_⟩, ?_⟩, found⟩
  · exact (Shared.Quiet.links t.shared l _).trans
      (.handle (f := fun r => r.count fun s => { s with connects := s.connects + 1 })
        (i := t.reactor.index) fun _ _ => rfl)
  · intro k l' old
    exact .inl (serves k l' (old.add h.exact room _))
  · refine ⟨h.exact.alloc _, ?_, added.fit.known⟩
    intro e k entry
    have entry : (t.reactor.outbound.insert l.endpoint (t.makeChannel l).1).get? e = some k := entry
    rw [Assoc.get?_insert] at entry
    split at entry
    · rename_i same
      cases entry
      exact ⟨l, ⟨_, found, .inl rfl, rfl⟩, same.symm⟩
    · obtain ⟨l', old, endpoint⟩ := h.entry e k entry
      exact ⟨l', serves k l' (old.add h.exact room _), endpoint⟩

/-- The channel of a link serves its endpoint.  If there is none, no invocation is
left that goes through the link. -/
theorem Fit.outboundChannel (h : t.Fit K)
    (room : t.reactor.channels.slots.length < Slab.maxSlots) {l : Link} (known : K l) :
    t.Proceeds K (t.outboundChannel l).2
      ∧ (∀ key, (t.outboundChannel l).1 = some key →
        ∃ l', (t.outboundChannel l).2.Serves key l' ∧ l'.endpoint = l.endpoint)
      ∧ ((t.outboundChannel l).1 = none → (t.outboundChannel l).2.shared.Deserted l) := by
  rcases outboundChannel_cases t l with ⟨key, c, entry, found, usable, same⟩ | ⟨made, some, none⟩
  · rw [same]
    refine ⟨.refl h, fun k here => ?_, fun absent => by cases absent⟩
    cases here
    exact h.entry l.endpoint key entry
  · obtain ⟨proceeds, fresh⟩ := h.makeChannel room known
    rw [made] at some none ⊢
    have acts : Acts .own (t.makeChannel l).1 _ _ := acts_startConnect (t.makeChannel l).2 _ trivial
    refine ⟨proceeds.acts acts, ?_, ?_⟩
    · intro key here
      obtain ⟨rfl, c, found, usable⟩ := some key here
      exact ⟨l, ⟨c, found, usable, (acts.channel fresh c found).1⟩, rfl⟩
    · intro here
      refine (acts.evolves.serves _ l ⟨_, fresh, .inl rfl, rfl⟩).resolve_left ?_
      rintro ⟨c, found, usable, -⟩
      rcases (acts.channel fresh c found).2 with tuned | closed
      · rcases tuned.state with same | ⟨never, -⟩
        · exact none here c found same
        · exact never
      · exact not_isUsable_of_isClosed closed usable

/-! ## Tasks -/

theorem Fit.closeAll (h : t.Fit K) (keys : List SlotKey) (cause : Failure) :
    t.Proceeds K (keys.foldl (fun t key => t.close key cause) t) := by
  induction keys generalizing t with
  | nil => exact .refl h
  | cons key rest ih =>
    have closed := Proceeds.of_acts h (acts_close t key cause : Acts .all key t _)
    exact closed.trans (ih closed.fit)

theorem Fit.beginStop (h : t.Fit K) : t.Proceeds K t.beginStop := by
  cases going : t.reactor.stopping with
  | true =>
    rw [beginStop_of_stopping going]
    exact .refl h
  | false =>
    have stopping : t.Proceeds K { t with reactor := { t.reactor with stopping := true } } :=
      ⟨⟨.refl _, rfl, rfl, fun _ => rfl, fun _ _ serves => .inl serves⟩, h.of_reactor rfl rfl⟩
    have closed := stopping.trans (stopping.fit.closeAll t.reactor.channels.keys .shuttingDown)
    exact closed.acts (acts_beginStop going ⟨0, 0⟩ trivial : Acts .all _ _ _)

/-- A reactor that runs a task evolves. -/
theorem Fit.onTask (h : t.Fit K) (room : t.reactor.channels.slots.length < Slab.maxSlots)
    (task : Task) (known : ∀ l, task.link? = some l → K l) : t.Proceeds K (t.onTask task) := by
  have step := t.taskStep_onTask task
  generalize t.onTask task = t' at step ⊢
  cases step with
  | rejected => exact .of_acts h (acts_reject t ⟨0, 0⟩ task trivial : Acts .all _ _ _)
  | executed r correlationId =>
    exact .of_acts h (acts_runLocal t ⟨0, 0⟩ r correlationId trivial trivial : Acts .all _ _ _)
  | connected l | unwritten l => exact (h.outboundChannel room (known l rfl)).1
  | written l bytes correlationId key =>
    have linked := (h.outboundChannel room (known l rfl)).1
    exact linked.acts (acts_write _ key bytes trivial : Acts .all _ _ _)
  | forwarded f replyTo =>
    exact .of_acts h
      (acts_runForwarded t f replyTo (Scope.serving_all _ _) trivial : Acts .all _ _ _)
  | replied channel bytes =>
    exact .of_acts h (acts_write t channel.key bytes trivial : Acts .all _ _ _)
  | stopped => exact h.beginStop

/-- The channel of a link can be used. -/
theorem outboundChannel_usable {l : Link} {key : SlotKey}
    (ready : (t.outboundChannel l).1 = some key) :
    ∃ c, (t.outboundChannel l).2.channel? key = some c ∧ isUsable c := by
  rcases outboundChannel_cases t l with ⟨_, c, -, found, usable, same⟩ | ⟨-, made, -⟩
  · rw [same] at ready ⊢
    cases ready
    exact ⟨c, found, usable⟩
  · exact (made key ready).2

/-- A task writes the bytes of an invocation.  They go to the end of the write queue of the
channel of its link, which can be used, and wait there behind the others until a driver takes
them. -/
structure Enters (h : Handover) (l : Link) (t t' : Turn σ) : Prop where
  peer : l.peer = h.peer
  channel : (t.outboundChannel l).1 = some h.key
  queue : ∃ c, (t.outboundChannel l).2.channel? h.key = some c ∧ isUsable c
    ∧ t' = ((t.outboundChannel l).2.putChannel h.key
        { c with writes := c.writes.push h.bytes }).flush h.key
  puts : Puts h.key h.bytes (t.outboundChannel l).2 t'

/-- What is handed over is written to a channel that can be used. -/
theorem enters_of_handover? {task : Task} {h : Handover} (handed : t.handover? task = some h) :
    ∃ l, task = .write l h.bytes (some h.correlationId) ∧ t.Enters h l (t.onTask task) := by
  cases task with
  | execute | connect | forward | reply | stop => cases handed
  | write l bytes correlationId =>
    cases correlationId with
    | none => cases handed
    | some id =>
      cases going : t.reactor.stopping with
      | true => simp [handover?, going] at handed
      | false =>
        simp only [handover?, going] at handed
        obtain ⟨key, ready, rfl⟩ := Option.map_eq_some_iff.mp handed
        have wrote := onTask_write going ready bytes (some id)
        obtain ⟨c, found, usable⟩ := outboundChannel_usable ready
        refine ⟨l, rfl, rfl, ready, ⟨c, found, usable, ?_⟩, ?_⟩
        · rw [wrote, write, found]
          exact if_neg fun closed => not_isUsable_of_isClosed closed usable
        · rw [wrote]
          exact puts_write _ key bytes

/-- An invocation that a task carries is completed or failed when the task is run,
or its bytes are handed to the channel of its link. -/
theorem Fit.onTask_carries (h : t.Fit K)
    (room : t.reactor.channels.slots.length < Slab.maxSlots) {task : Task}
    (known : ∀ l, task.link? = some l → K l)
    (alike : ∀ l l', K l → K l' → l.endpoint = l'.endpoint → l = l')
    (here : t.shared.localAddress = some t.reactor.localAddress)
    (going : t.reactor.stopping = false) {peer : Address} {id : UInt64} {r : Request}
    {i : Invocation} (carries : t.shared.Carries peer id i.reactor r task)
    (waits : (t.onTask task).shared.invocations.Waits peer id i) :
    ∃ key l, (t.onTask task).Serves key l ∧ l.peer = peer ∧ l.index = i.reactor
      ∧ t.handover? task = some ⟨key, peer, id, t.shared.encodeRequest id r⟩ := by
  rcases carries with ⟨address, rfl⟩ | ⟨l, rfl, index, rfl⟩
  · simp only [Turn.onTask, going] at waits
    rw [here] at address
    cases address
    exact absurd ⟨rfl, rfl⟩ (InvocationTable.waits_complete waits).2
  · obtain ⟨linked, some, none⟩ := h.outboundChannel room (known l rfl)
    cases ready : (t.outboundChannel l).1 with
    | none =>
      rw [onTask_write_none going ready] at waits
      exact absurd index.symm (none ready id i waits)
    | some key =>
      rw [onTask_write going ready] at waits ⊢
      obtain ⟨l', serves, endpoint⟩ := some key ready
      have same : l' = l := by
        obtain ⟨c, found, -, link⟩ := serves
        exact alike l' l (linked.fit.known key c l' found link) (known l rfl) endpoint
      subst same
      refine ⟨key, l', ?_, rfl, index, by simp [handover?, going, ready]⟩
      have acts : Acts .all key (t.outboundChannel l').2 _ :=
        acts_write _ key (t.shared.encodeRequest id r) trivial
      refine (acts.evolves.serves key l' serves).resolve_right ?_
      intro deserted
      exact deserted id i waits index.symm

end Turn

/-- Bytes are handed over by a task that is taken off the queue and writes them. -/
theorem Moment.Move.enters {σ : Type} {m m' : Moment σ} {h : Handover}
    (move : Moment.Move m (some h) m') : ∃ l t,
      m.turn.popTask = (some (.write l h.bytes (some h.correlationId)), t)
      ∧ (t.count fun s => { s with tasks := s.tasks + 1 }).Enters h l m'.turn := by
  generalize handed : some h = h' at move
  cases move with
  | run t task t' popped =>
    obtain ⟨l, rfl, enters⟩ := Turn.enters_of_handover? handed.symm
    exact ⟨l, t', popped, enters⟩
  | wait | mark | take | handle => cases handed

end PartitionEngine
