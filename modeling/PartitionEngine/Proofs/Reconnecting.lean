import PartitionEngine.Proofs.Courses
import PartitionEngine.Proofs.Exits
import PartitionEngine.Proofs.Routing

/-!
# Channels that reconnect

A channel makes a bounded number of attempts, with a pause between two of them, and a
limit that is up touches its own attempt only.  After the last one the channel gives up:
it is closed for good, the invocations that went through it fail, and the link can be
asked for again (`Moment.retries_bounded`).

That a channel that gave up stays closed does not need an account of it.  Nothing that is
done to a channel makes it live (`Turn.Acts.not_live`).
-/

namespace PartitionEngine

/-! ## Channels that are closed -/

namespace Turn

variable {σ : Type} {may : Scope} {key k : SlotKey} {t t' : Turn σ} {done : IoCompletion Token}

/-- A channel is not made live by what is done to it. -/
theorem Act.not_live (act : Act may k t t') (gone : t.isLive key = false) :
    t'.isLive key = false := by
  by_cases own : key = k
  · subst own
    have closed (c : Channel) (found : t.channel? key = some c) : c.state.isClosed = true := by
      simpa [isLive, found] using gone
    cases act with
    | host | dispatch | mark | flag | count | hand | complete | markOpen => exact gone
    | submit | submitPlain | cancel | cancelPlain => exact gone
    | tune f tuned =>
      refine isLive_of_closed fun c' found' => ?_
      obtain ⟨c, found, rfl⟩ := exists_of_channel?_modifyChannel found'
      exact isClosed_of_tuned (closed c found) (tuned c found)
    | shut c cause found live => cases live.symm.trans (closed c found)
    | release =>
      exact isLive_of_closed fun c found => closed c (channel?_of_releaseIfDone found)
  · rw [isLive, (act.untouched own).channel]
    exact gone

theorem Acts.not_live (acts : Acts may k t t') (gone : t.isLive key = false) :
    t'.isLive key = false := by
  induction acts with
  | refl => exact gone
  | tail _ act ih => exact act.not_live ih

theorem Passes.not_live (passes : Passes key t t') (gone : t.isLive key = false) :
    t'.isLive key = false := by
  induction passes with
  | refl => exact gone
  | tail _ pass ih =>
    cases pass with
    | act apart act => exact act.not_live ih
    | write _ bytes => exact (acts_write _ key bytes trivial : Acts .all key _ _).not_live ih
    | add c exact room apart channels driver =>
      rw [isLive, channel?, channels]
      have same := (channel?_addChannel exact room c key).trans (if_neg (Ne.symm apart))
      exact (congrArg (fun c : Option Channel => c.any _) same).trans ih

/-- A completion does not make a channel live that is there. -/
theorem not_live_onCompletion (exact : t.reactor.channels.FreeExact)
    (room : t.reactor.channels.slots.length < Slab.maxSlots)
    (held : (t.channel? key).isSome = true) (gone : t.isLive key = false) :
    (t.onCompletion done).isLive key = false := by
  obtain foreign | ⟨p, channel, -, kind, -⟩ := done.token.foreign_or_own key
  · exact (passes_onCompletion exact room (fun _ => addChannel_ne exact room held)
      foreign).not_live gone
  · have other : done.token.purpose? ≠ some .accept := by
      rw [kind]
      rintro ⟨⟩
      cases channel
    have acts : Acts .all done.token.key t (t.onCompletion done) :=
      acts_all_onCompletion t done other
    exact acts.not_live gone

theorem not_live_onTask (going : t.reactor.stopping = false) {task : Task} (other : task ≠ .stop)
    (exact : t.reactor.channels.FreeExact)
    (room : t.reactor.channels.slots.length < Slab.maxSlots)
    (held : (t.channel? key).isSome = true) (gone : t.isLive key = false) :
    (t.onTask task).isLive key = false :=
  (passes_onTask going other exact room fun l _ =>
    addChannel_ne exact room held (.outbound l t.config.maxMessageSize)).not_live gone

/-- A limit cancels the connect of the attempt that the channel makes, or nothing. -/
theorem asked_onConnectTimeout (t : Turn σ) (key : SlotKey) (attempt : UInt8) (result : Int) :
    t.asked (t.onConnectTimeout key attempt result) = []
    ∨ (∃ c, t.channel? key = some c ∧ c.state = .connecting ∧ attempt = c.attempt.toUInt8)
      ∧ result = 0 ∧ ∃ found, t.asked (t.onConnectTimeout key attempt result)
        = [.canceled (.ofChannel .connect key attempt) found] := by
  have silent (s : Turn σ) (same : s.reactor.driver = t.reactor.driver) : t.asked s = [] := by
    rw [asked, same, Nat.sub_self]
    rfl
  simp only [onConnectTimeout]
  split
  · exact .inl (silent t rfl)
  · rename_i c found
    split
    · exact .inl (silent _ rfl)
    · rename_i mine
      simp only [not_or, not_not] at mine
      obtain ⟨zero, number, connecting, -⟩ := mine
      obtain ⟨known, log⟩ := t.reactor.driver.log_cancel (.ofChannel .connect key attempt)
      exact .inr ⟨⟨c, found, connecting, number⟩, zero, known, asked_eq log⟩

end Turn

/-! ## An attempt that has failed -/

namespace Deed

variable {σ : Type} {config : Config} {key : SlotKey} {ds : List (Deed σ)}
  {batch : List (IoCompletion Token)} {t : Turn σ} {i : Nat}

/-- The link of the channel under a key, whether it was there or was made. -/
def link? (key : SlotKey) : Deed σ → Option Link
  | handled _ t _ => (t.channel? key).bind (·.link)
  | ran _ t task => t.makes task
  | ended .. => none

/-- An attempt fails with the connect that came back, or with none after a pause. -/
theorem fails_handled_iff {done : IoCompletion Token} : (handled i t done).Fails key
    ↔ t.connecting key = true ∧ (done.token.isOf .connect key = true ∧ done.result ≠ 0
      ∨ done.token.isOf .retryTimer key = true ∧ done.result = 0
        ∧ Turn.Unmade key t (t.onCompletion done)) := by
  simp only [Fails, reports, begins, opens, Bool.false_or, resumes, Turn.resumes, before, after,
    Bool.and_eq_true, decide_eq_true_eq]
  tauto

/-- The channel of a completion has failed with its attempt. -/
theorem failed_of_handled {done : IoCompletion Token}
    (stands : Stands config key ds (done :: batch) t) (exact : t.reactor.channels.FreeExact)
    (room : t.reactor.channels.slots.length < Slab.maxSlots) (going : t.reactor.stopping = false)
    (small : config.connectRetries.toNat < 2 ^ 32 - 1) (spans : t.config.Spans)
    (fails : (handled i t done).Fails key) :
    ∃ l n, (handled i t done).link? key = some l ∧ n.toNat = attempts key (handled i t done :: ds)
      ∧ Turn.Failed (Few key (handled i t done :: ds)) batch key n l t (t.onCompletion done) := by
  obtain ⟨connects, how⟩ := fails_handled_iff.mp fails
  obtain ⟨c, under⟩ := stands.underway connects
  obtain ⟨l, link, -⟩ := under.tries.link
  have linked : (handled i t done).link? key = some l := by simp [link?, under.tries.found, link]
  cases under.outcome i exact room going small spans link with
  | goesOn on other waits =>
    rcases how with ⟨own, -⟩ | ⟨own, zero, -⟩
    · cases other.symm.trans own
    · exact absurd zero (waits own)
  | opened calm own zero =>
    rcases how with ⟨-, result⟩ | ⟨other, -⟩
    · exact absurd zero result
    · simp [Token.isOf_of_isOf own] at other
  | failed failed own result =>
    have still : (handled i t done).begins key = false := by
      simp [begins, opens, resumes, Turn.resumes, Token.isOf_of_isOf own]
    exact ⟨l, _, linked, under.number.trans (attempts_of_not_begins still).symm, failed⟩
  | begun begun own zero =>
    obtain ⟨-, next, number⟩ := under.next (i := i) small own zero
    refine ⟨l, _, linked, next.trans number.symm, ?_⟩
    cases begun with
    | pending c' tries number link asked pauses limits =>
      rcases how with ⟨other, -⟩ | ⟨-, -, unmade⟩
      · simp [Token.isOf_of_isOf own] at other
      · obtain ⟨socket, asked⟩ := asked
        have none := unmade _ asked
        simp at none
    | failed failed unmade => exact failed

/-- The channel that a task made has failed with its first attempt. -/
theorem failed_of_ran {task : Task} (stands : Stands config key ds [] t)
    (exact : t.reactor.channels.FreeExact)
    (room : t.reactor.channels.slots.length < Slab.maxSlots) (spans : t.config.Spans)
    (fails : (ran i t task).Fails key) :
    ∃ l n, (ran i t task).link? key = some l ∧ n.toNat = attempts key (ran i t task :: ds)
      ∧ Turn.Failed (Few key (ran i t task :: ds)) [] key n l t (t.onTask task) := by
  obtain reports | ⟨begins, unmade⟩ := fails
  · cases reports
  · have own : t.made? task = some key := by simpa [Deed.begins, opens, resumes] using begins
    obtain ⟨l, makes, number, begun, -⟩ := stands.made i exact room spans own
    refine ⟨l, 1, makes, number.symm, ?_⟩
    cases begun with
    | pending c' tries number link asked pauses limits =>
      obtain ⟨socket, asked⟩ := asked
      have made := unmade _ asked
      simp at made
    | failed failed unmade => exact failed

end Deed

/-! ## A limit that is up -/

namespace Deed

variable {σ : Type} {config : Config} {key : SlotKey} {d : Deed σ} {ds : List (Deed σ)}
  {batch : List (IoCompletion Token)} {t : Turn σ}

/-- Whether an operation came back with 0. -/
def fires (token : Token) : Deed σ → Bool
  | handled _ _ done => done.token = token && done.result = 0
  | _ => false

/-- Whether the connect of a channel came back with 0. -/
def connected (key : SlotKey) : Deed σ → Bool
  | handled _ _ done => done.token.isOf .connect key && done.result = 0
  | _ => false

/-- Whether a limit of a channel came back. -/
def limits (key : SlotKey) : Deed σ → Bool
  | handled _ _ done => done.token.isOf .connectTimeout key
  | _ => false

end Deed

/-- A limit that is up was accepted for the last attempt, and no other has its name.  It
cancels the connect of that attempt. -/
theorem Stands.limited {σ : Type} {config : Config} {key : SlotKey} {ds : List (Deed σ)}
    {batch : List (IoCompletion Token)} {t : Turn σ} {done : IoCompletion Token} {i : Nat}
    (h : Stands config key ds (done :: batch) t) (few : Deed.Few key ds)
    (own : done.token.isOf .connectTimeout key = true) :
    (Deed.handled i t done).asked = []
    ∨ (Deed.handled i t done).fires (Turn.limit config key (Deed.attempts key ds)).token = true
      ∧ Deed.Armed config key (Deed.attempts key ds) ds
      ∧ (t.reactor.driver.unhandled (done :: batch)).count
        (Turn.limit config key (Deed.attempts key ds)).token = 1
      ∧ ∃ found, (Deed.handled i t done).asked
        = [.canceled (.ofChannel .connect key (UInt8.ofNat (Deed.attempts key ds))) found] := by
  have kind := Token.purpose?_of_isOf own
  obtain rfl := Token.key_of_isOf own
  let timed := t.afresh.onConnectTimeout done.token.key done.token.attempt done.result
  have asked : (Deed.handled i t done).asked = t.afresh.asked timed := by
    show t.afresh.asked (t.onCompletion done) = _
    simp only [Turn.onCompletion, kind]
    exact Turn.andThen_cases (motive := fun s => t.afresh.asked s = t.afresh.asked timed) timed rfl
      (Turn.asked_releaseIfDone t.afresh timed done.token.key)
  rw [asked]
  obtain nothing | ⟨⟨c, found, connecting, number⟩, zero, canceled⟩ :=
    t.afresh.asked_onConnectTimeout done.token.key done.token.attempt done.result
  · exact .inl nothing
  · have found : t.channel? done.token.key = some c := found
    have connects : t.connecting done.token.key = true := by
      simp [Turn.connecting, found, connecting]
    obtain ⟨c', under⟩ := h.underway connects
    cases found.symm.trans under.tries.found
    have tag : done.token.attempt = UInt8.ofNat (Deed.attempts done.token.key ds) := by
      rw [number, ← under.number]
      rfl
    have token : done.token
        = (Turn.limit config done.token.key (Deed.attempts done.token.key ds)).token := by
      refine (Token.eq_ofChannel own).trans ?_
      rw [tag]
      rfl
    have mem : done.token ∈ t.reactor.driver.those (done :: batch) .connectTimeout done.token.key := by
      rw [CompletionQueue.those_handled own, if_pos rfl]
      exact List.mem_cons_self
    rw [← token]
    refine .inr ⟨by simp [Deed.fires, zero], under.armed few (token ▸ mem), ?_, tag ▸ canceled⟩
    have once := List.count_eq_one_of_mem (under.tries.timed few).once mem
    exact (List.count_filter (p := (Token.isOf · .connectTimeout done.token.key)) own).symm.trans once

/-! ## A channel that gave up -/

/-- A channel gave up its link.  One channel was closed, and it was this one.  The
invocations that went through it fail, and no other.  The link is idle, so who asks for it
next has it connected. -/
structure Deed.GaveUp {σ : Type} (key : SlotKey) (l : Link) (d : Deed σ) (e : Failure) : Prop where
  gone : d.after.isLive key = false
  closed : d.after.handle?.map (·.stats.closed) = d.before.handle?.map (·.stats.closed + 1)
  left : ∀ peer id i, d.after.shared.invocations.Waits peer id i
    ↔ d.before.shared.invocations.Waits peer id i ∧ ¬ (peer = l.peer ∧ i.reactor = l.index)
  failed : ∀ id i, d.before.shared.invocations.Waits l.peer id i → i.reactor = l.index →
    d.before.shared.invocations.standing i.future = some none →
    d.after.shared.invocations.standing i.future = some (some (.error e))
  others : ∀ k, (∀ id i, d.before.shared.invocations.Waits l.peer id i → i.reactor = l.index →
    i.future ≠ k) → d.after.shared.invocations.standing k = d.before.shared.invocations.standing k
  idle : d.after.shared.links.state l = .idle
  again : ∀ thread, d.after.shared.isAlive l.index = true →
    ∃ s', d.after.shared.acquire thread l = (.ok (), s')
      ∧ s'.queued l.index = d.after.shared.queued l.index ++ [.connect l]

theorem Turn.GivesUp.gaveUp {σ : Type} {key : SlotKey} {l : Link} {reason : String} {d : Deed σ}
    (up : Turn.GivesUp key l reason d.before d.after) :
    d.GaveUp key l (.connect l.endpoint reason) := by
  have fails (k : FutureId) :=
    d.before.shared.invocations.fails_failWhere l.peer (.connect l.endpoint reason)
      (fun i => i.reactor = l.index) k
  have same : d.after.shared.invocations = (d.before.shared.invocations.failWhere l.peer
      (.connect l.endpoint reason) fun i => i.reactor = l.index).2 := up.invocations
  simp only [← same, decide_eq_true_eq] at fails
  refine ⟨up.gone, up.closed, fun peer id i => ?_, fun id i waits through pending => ?_,
    fun k apart => ?_, up.idle, fun thread alive => ?_⟩
  · rw [same, InvocationTable.waits_failWhere_iff]
    simp
  · rcases fails i.future with ⟨-, others⟩ | ⟨-, done, -⟩
    · exact absurd pending (others l.peer id i waits ⟨rfl, through⟩ rfl)
    · exact done
  · rcases fails k with ⟨same, -⟩ | ⟨-, -, peer, id, i, waits, ⟨rfl, through⟩, own⟩
    · exact same
    · exact absurd own (apart id i waits through)
  · obtain ⟨s', acquired, -, -, -, queued, -⟩ := Shared.acquire_spec alive thread
    refine ⟨s', acquired, (queued l.index).trans ?_⟩
    rw [if_pos ⟨rfl, up.idle⟩]

namespace Moment

variable {σ : Type} {m m' m₀ : Moment σ} {d : Option (Deed σ)} {ds ds' : List (Deed σ)}
  {key : SlotKey}

theorem Course.freeExact (course : Course m₀ m ds)
    (exact : m₀.turn.reactor.channels.FreeExact) : m.turn.reactor.channels.FreeExact := by
  induction course with
  | start => exact exact
  | step before room does ih => exact does.keeps.2 ih

/-- A channel is live if it was, or if it is new. -/
theorem Does.not_live (does : Does m d m') (exact : m.turn.reactor.channels.FreeExact)
    (room : m.turn.reactor.channels.slots.length < Slab.maxSlots)
    (going : m'.turn.reactor.stopping = false) (gone : m.turn.isLive key = false)
    (live : m'.turn.isLive key = true) :
    ∃ d' ∈ d, d'.before.channel? key = none ∧ d'.after.isLive key = true := by
  have before := does.step.going going
  cases d with
  | none =>
    have same : m'.turn.isLive key = m.turn.isLive key := by
      rw [Turn.isLive, (does.sameWay key).1, Turn.isLive]
    cases gone.symm.trans (same.symm.trans live)
  | some d =>
    cases does with
    | handle t done rest =>
      refine ⟨_, rfl, ?_, live⟩
      by_contra held
      have gone : (t.onCompletion done).isLive key = false :=
        Turn.not_live_onCompletion exact room (Option.isSome_iff_ne_none.mpr held) gone
      cases gone.symm.trans live
    | run t task t' popped =>
      have took := Turn.took_popTask popped fun s => { s with tasks := s.tasks + 1 }
      refine ⟨_, rfl, ?_, live⟩
      by_contra held
      have onward := (congrArg Reactor.stopping took.reactor).trans before
      have gone := Turn.not_live_onTask onward (Turn.ne_stop_of_going onward going)
        (took.reactor ▸ exact) (took.reactor ▸ room) (Option.isSome_iff_ne_none.mpr held)
        (by rw [Turn.isLive, Turn.channel?, took.reactor]; exact gone)
      cases gone.symm.trans live

/-- A channel that was closed is live no more, unless another is made under its key. -/
theorem Course.not_live (course : Course m₀ m ds) (exact : m₀.turn.reactor.channels.FreeExact)
    (going : m.turn.reactor.stopping = false) (gone : m₀.turn.isLive key = false)
    (live : m.turn.isLive key = true) :
    ∃ d ∈ ds, d.before.channel? key = none ∧ d.after.isLive key = true := by
  induction course with
  | start => cases gone.symm.trans live
  | step before room does ih =>
    rename_i m m' d ds
    cases earlier : m.turn.isLive key with
    | true =>
      obtain ⟨d', mem, made⟩ := ih (does.step.going going) earlier
      exact ⟨d', List.mem_append_right _ mem, made⟩
    | false =>
      obtain ⟨d', rfl, made⟩ := does.not_live (before.freeExact exact) room going earlier live
      exact ⟨d', List.mem_append_left _ (List.mem_singleton_self d'), made⟩

theorem Does.connects {d : Deed σ} (does : Does m (some d) m')
    (exact : m.turn.reactor.channels.FreeExact)
    (room : m.turn.reactor.channels.slots.length < Slab.maxSlots)
    (going : m'.turn.reactor.stopping = false) (key : SlotKey) :
    d.asked.countP (·.isConnect key) ≤ if d.begins key then 1 else 0 := by
  have before := does.step.going going
  cases does with
  | handle t done rest =>
    obtain ⟨events, log, most⟩ := Turn.connects_onCompletion exact room key done
    rw [Deed.asked, Deed.before, Deed.after, Turn.asked_eq log]
    exact most
  | run t task t' popped =>
    have took := Turn.took_popTask popped fun s => { s with tasks := s.tasks + 1 }
    have onward := (congrArg Reactor.stopping took.reactor).trans before
    obtain ⟨events, log, most⟩ := Turn.connects_onTask onward (Turn.ne_stop_of_going onward going)
      (took.reactor ▸ exact) (took.reactor ▸ room) key
    rw [Deed.asked, Deed.before, Deed.after, Turn.asked_eq log]
    simpa [Deed.begins, Deed.opens, Deed.resumes] using most

/-- An attempt after the first one is made when the pause after the one before is over. -/
theorem Told.resumed {config : Config} {d : Deed σ} (told : Told config m ds)
    (does : Does m (some d) m') (resumes : d.resumes key = true) :
    Deed.attempts key ds ≤ config.connectRetries.toNat
      ∧ d.fires (Turn.pause config key (Deed.attempts key ds)).token = true
      ∧ Deed.Waited config key (Deed.attempts key ds) ds ∧ m.outstanding .retryTimer key = 1 := by
  cases does with
  | run => cases resumes
  | handle t done rest =>
    obtain ⟨left, waited, token, zero, alone⟩ := (told.stands key).waited resumes
    exact ⟨left, by simp [Deed.fires, token, zero], waited, alone⟩

/-- A limit that is up cancels the connect of the attempt that it was accepted for. -/
theorem Told.limited {config : Config} {d : Deed σ} (told : Told config m ds)
    (does : Does m (some d) m') (few : Deed.Few key ds) (limits : d.limits key = true) :
    d.asked = [] ∨ d.fires (Turn.limit config key (Deed.attempts key ds)).token = true
      ∧ Deed.Armed config key (Deed.attempts key ds) ds
      ∧ (m.turn.reactor.driver.unhandled m.batch).count
        (Turn.limit config key (Deed.attempts key ds)).token = 1
      ∧ ∃ found, d.asked
        = [.canceled (.ofChannel .connect key (UInt8.ofNat (Deed.attempts key ds))) found] := by
  cases does with
  | run => cases limits
  | handle t done rest => exact (told.stands key).limited few limits

/-- An attempt has failed with its number. -/
theorem Told.failed {config : Config} {d : Deed σ} (told : Told config m ds)
    (small : config.connectRetries.toNat < 2 ^ 32 - 1) (spans : config.Spans)
    (room : m.turn.reactor.channels.slots.length < Slab.maxSlots) (does : Does m (some d) m')
    (going : m'.turn.reactor.stopping = false) (fails : d.Fails key) :
    ∃ l n batch, d.link? key = some l ∧ n.toNat = Deed.attempts key (d :: ds)
      ∧ Turn.Failed (Deed.Few key (d :: ds)) batch key n l d.before d.after := by
  have before := does.step.going going
  cases does with
  | handle t done rest =>
    obtain ⟨l, n, link, number, failed⟩ :=
      Deed.failed_of_handled (told.stands key) told.exact room before small
        (told.settings ▸ spans) fails
    exact ⟨l, n, rest, link, number, failed⟩
  | run t task t' popped =>
    have took := Turn.took_popTask popped fun s => { s with tasks := s.tasks + 1 }
    have counted := told.of_reactor took.reactor took.config
    obtain ⟨l, n, link, number, failed⟩ :=
      Deed.failed_of_ran (counted.stands key) counted.exact (took.reactor ▸ room)
        (counted.settings ▸ spans) fails
    exact ⟨l, n, [], link, number, failed⟩

/-- A channel that connects is closed if it gives up, or when it was connected. -/
theorem Told.closed {config : Config} {d : Deed σ} (told : Told config m ds)
    (small : config.connectRetries.toNat < 2 ^ 32 - 1) (spans : config.Spans)
    (room : m.turn.reactor.channels.slots.length < Slab.maxSlots) (does : Does m (some d) m')
    (going : m'.turn.reactor.stopping = false) (connects : m.turn.connecting key = true)
    (gone : m'.turn.isLive key = false) : d.Fails key ∨ d.connected key = true := by
  have before := does.step.going going
  have stays {few : Prop} {batch : List (IoCompletion Token)} {c : Channel}
      (tries : m'.turn.Tries few batch key c) : False := by
    simp [Turn.isLive, tries.found, tries.connecting, ChannelState.isClosed] at gone
  obtain ⟨c, under⟩ := (told.stands key).underway connects
  obtain ⟨l, link, -⟩ := under.tries.link
  cases does with
  | handle t done rest =>
    cases under.outcome t.reactor.index told.exact room before small (told.settings ▸ spans) link with
    | goesOn on other waits =>
      obtain ⟨c', tries, -⟩ := on.tries
      exact (stays tries).elim
    | opened calm own zero => exact .inr (by simp [Deed.connected, own, zero])
    | failed failed own result =>
      exact .inl (Deed.fails_handled_iff.mpr ⟨connects, .inl ⟨own, result⟩⟩)
    | begun begun own zero =>
      cases begun with
      | pending c' tries number link asked pauses limits => exact (stays tries).elim
      | failed failed unmade =>
        exact .inl (Deed.fails_handled_iff.mpr ⟨connects, .inr ⟨own, zero, unmade⟩⟩)
  | run t task t' popped =>
    have took := Turn.took_popTask popped fun s => { s with tasks := s.tasks + 1 }
    have onward := (congrArg Reactor.stopping took.reactor).trans before
    have counted := told.of_reactor took.reactor took.config
    have connects : (t'.count fun s => { s with tasks := s.tasks + 1 }).connecting key = true := by
      rw [Turn.connecting, Turn.channel?, took.reactor]
      exact connects
    obtain ⟨c, under⟩ := (counted.stands key).underway connects
    have apart : (t'.count fun s => { s with tasks := s.tasks + 1 }).made? task ≠ some key := by
      intro own
      have vacant := Turn.vacant_of_made counted.exact (took.reactor ▸ room) own
      cases vacant.symm.trans under.tries.found
    have passes := Turn.passes_of_not_made onward (Turn.ne_stop_of_going onward going)
      counted.exact (took.reactor ▸ room) apart
    have on := Turn.GoesOn.of_same under.tries rfl rfl fun _ _ _ => .refl _
    obtain ⟨c', tries, -⟩ := (on.passes passes).tries
    exact (stays tries).elim

theorem Does.settings {d : Deed σ} (does : Does m (some d) m') : d.before.config = m.turn.config := by
  cases does with
  | handle => rfl
  | run t task t' popped =>
    exact (Turn.took_popTask popped fun s => { s with tasks := s.tasks + 1 }).config

theorem Does.after_eq {d : Deed σ} (does : Does m (some d) m') : d.after = m'.turn := by
  cases does with
  | handle | run => rfl

/-- A channel makes at most one attempt more than there are retries, and submits at most one
connect for each.  The first one is made with the channel, and the next one when the pause
comes back with 0 that was accepted when the last one had failed, and is the only one on
its way.  A limit that is up cancels nothing but the connect of the attempt that it was
accepted for, as long as the attempts can be told apart.  When an attempt has failed, a pause
is accepted if attempts are left.  If none is left, or the pause is refused, the channel gives
up, and stays closed.  It is closed for nothing else while it connects. -/
theorem retries_bounded {t : Turn σ} {d : Deed σ} (fresh : Fresh t)
    (small : t.config.connectRetries.toNat < 2 ^ 32 - 1) (spans : t.config.Spans)
    (course : Course ⟨t.armWakeup.armAccept, []⟩ m ds)
    (room : m.turn.reactor.channels.slots.length < Slab.maxSlots) (does : Does m (some d) m')
    (going : m'.turn.reactor.stopping = false) (key : SlotKey) :
    let retries := t.config.connectRetries.toNat
    let pause := Turn.pause t.config key
    let limit := Turn.limit t.config key
    let n := Deed.attempts key ds
    let n' := Deed.attempts key (d :: ds)
    (n' ≤ retries + 1 ∧ d.asked.countP (·.isConnect key) ≤ if d.begins key then 1 else 0)
    ∧ (d.begins key = true → d.opens key = true ∧ n' = 1
      ∨ n' = n + 1 ∧ n ≤ retries ∧ d.fires (pause n).token = true
        ∧ Deed.Waited t.config key n ds ∧ m.outstanding .retryTimer key = 1)
    ∧ (Deed.Few key ds → d.limits key = true → d.asked = []
      ∨ d.fires (limit n).token = true ∧ Deed.Armed t.config key n ds
        ∧ (m.turn.reactor.driver.unhandled m.batch).count (limit n).token = 1
        ∧ ∃ found, d.asked = [.canceled (.ofChannel .connect key (UInt8.ofNat n)) found])
    ∧ (d.Fails key → ∃ l, d.link? key = some l
      ∧ (n' ≤ retries ∧ .submitted (pause n') none ∈ d.asked ∧ m'.turn.connecting key = true
        ∨ (n' = retries + 1 ∨ ∃ errno, .submitted (pause n') (some errno) ∈ d.asked)
          ∧ (∃ reason, d.GaveUp key l (.connect l.endpoint reason))
          ∧ ∀ m'' ds', Course m' m'' ds' → m''.turn.reactor.stopping = false →
            m''.turn.isLive key = true →
            ∃ d' ∈ ds', d'.before.channel? key = none ∧ d'.after.isLive key = true))
    ∧ (m.turn.connecting key = true → m'.turn.isLive key = false →
      d.Fails key ∨ d.connected key = true) := by
  intro retries pause limit n n'
  have told := course.told fresh small spans (does.step.going going)
  have later : Told t.config m' (d :: ds) := told.step small spans room does going
  have settings := does.settings.trans told.settings
  refine ⟨⟨later.bounded key, does.connects told.exact room going key⟩, fun begins => ?_,
    fun few limits => told.limited does few limits, fun fails => ?_,
    told.closed small spans room does going⟩
  · cases opens : d.opens key with
    | true => exact .inl ⟨rfl, by simp [n', Deed.attempts, opens]⟩
    | false =>
      rw [Deed.begins, opens, Bool.false_or] at begins
      obtain ⟨left, fired, waited, alone⟩ := told.resumed does begins
      exact .inr ⟨by simp [n', n, Deed.attempts, opens, begins], left, fired, waited, alone⟩
  · obtain ⟨l, k, batch, link, number, failed⟩ := told.failed small spans room does going fails
    refine ⟨l, link, ?_⟩
    cases failed with
    | paused c tries _ _ left asked limits =>
      rw [settings, number] at asked
      rw [settings, UInt32.le_iff_toNat_le, number] at left
      refine .inl ⟨left, asked, ?_⟩
      rw [← does.after_eq]
      simp [Turn.connecting, tries.found, tries.connecting]
    | gaveUp reason calm spent up =>
      refine .inr ⟨?_, ⟨reason, up.gaveUp⟩, fun m'' ds' course going live =>
        course.not_live later.exact going (does.after_eq ▸ up.gone) live⟩
      rw [settings, number] at spent
      refine spent.imp_left fun less => ?_
      rw [UInt32.lt_iff_toNat_lt, number] at less
      exact Nat.le_antisymm (later.bounded key) less

/-! ## A link that is refused

A reactor with one retry connects for a call, and the connect is refused twice.
-/

def distant : Link :=
  { peer := .ofIp (.v4 0x7f000001) 24000, index := 0, endpoint := .v4 0x7f000001 24000 }

/-- The call that waits for the link. -/
def waiting : Invocation := { correlationId := 501, partition := 7, reactor := 0, future := 0 }

/-- A reactor with one retry that is asked to connect for a call. -/
def eager : Turn Unit :=
  let invocations := (({} : InvocationTable).register distant.peer 7 0).2.2
  let shared := { lone.shared with config := { reactorCount := 1, connectRetries := 1 }, invocations }
  { lone with shared := (shared.submit 0 0 (.connect distant)).2 }

/-- The driver has completed an operation, and the reactor has taken what is there. -/
def returned (t : Turn σ) (c : IoCompletion Token) : Moment σ :=
  let drained := (t.reactor.driver.complete c).drain 8
  ⟨{ t with reactor := { t.reactor with driver := drained.2 } }, drained.1⟩

theorem Course.returned {t : Turn σ} (course : Course m₀ ⟨t, []⟩ ds)
    (room : t.reactor.channels.slots.length < Slab.maxSlots) (c : IoCompletion Token)
    (pending : (t.reactor.driver.pending? c.token).isSome = true) :
    Course m₀ (returned t c) ds :=
  have delivered := course.step room (.deliver ⟨t, []⟩ c pending)
  delivered.step room (.take _ 8)

theorem Course.handled {t : Turn σ} (done : IoCompletion Token) {rest : List (IoCompletion Token)}
    (course : Course m₀ ⟨t, done :: rest⟩ ds)
    (room : t.reactor.channels.slots.length < Slab.maxSlots) :
    Course m₀ ⟨t.onCompletion done, rest⟩ (.handled t.reactor.index t done :: ds) :=
  course.step room (.handle t done rest)

/-- A connect came back, and was refused. -/
def refusal (attempt : UInt8) : IoCompletion Token where
  token := .ofChannel .connect ⟨0, 0⟩ attempt
  result := -111

/-- The pause is over. -/
def elapsed : IoCompletion Token where
  token := .ofChannel .retryTimer ⟨0, 0⟩ 1
  result := 0

/-- The limit of the first attempt was canceled. -/
def lifted : IoCompletion Token where
  token := .ofChannel .connectTimeout ⟨0, 0⟩ 1
  result := -125

/-- The eager reactor after it has run its task. -/
def tried : Turn Unit :=
  (eager.armWakeup.armAccept.popTask.2.count fun s => { s with tasks := s.tasks + 1 }).onTask
    (.connect distant)

/-- The eager reactor in the pause. -/
def waits : Turn Unit := (returned tried (refusal 1)).turn.onCompletion (refusal 1)

/-- The eager reactor at its second attempt. -/
def retried : Turn Unit := ((returned waits elapsed).turn.onCompletion lifted).onCompletion elapsed

/-- After two attempts the channel is closed, and the call has failed. -/
theorem retries_bounded_of_refusals : ∃ (m m' : Moment Unit) (ds : List (Deed Unit)) (d : Deed Unit),
    Fresh eager ∧ eager.config.connectRetries.toNat < 2 ^ 32 - 1 ∧ eager.config.Spans
    ∧ Course ⟨eager.armWakeup.armAccept, []⟩ m ds
    ∧ m.turn.reactor.channels.slots.length < Slab.maxSlots ∧ Does m (some d) m'
    ∧ m'.turn.reactor.stopping = false
    ∧ Deed.attempts ⟨0, 0⟩ (d :: ds) = 2 ∧ d.Fails ⟨0, 0⟩
    ∧ ∃ reason, d.GaveUp ⟨0, 0⟩ distant (.connect distant.endpoint reason)
      ∧ m'.turn.shared.invocations.standing waiting.future
        = some (some (.error (.connect distant.endpoint reason))) := by
  have fresh : Fresh eager := ⟨rfl, rfl, rfl⟩
  have begun : Course ⟨eager.armWakeup.armAccept, []⟩ ⟨tried, []⟩ _ :=
    Course.start.step (by decide) (.run _ (.connect distant) _ rfl)
  have paused : Course _ ⟨waits, []⟩ _ :=
    .handled (refusal 1) (begun.returned (by decide) (refusal 1) rfl) (by decide)
  have rested := Course.handled lifted (paused.returned (by decide) elapsed rfl) (by decide)
  have resumed : Course _ ⟨retried, []⟩ _ := .handled elapsed rested (by decide)
  have refused := resumed.returned (by decide) (refusal 2) rfl
  have does := Does.handle (returned retried (refusal 2)).turn (refusal 2) []
  obtain ⟨-, -, -, ended, -⟩ :=
    retries_bounded fresh (by decide) (by decide) refused (by decide) does rfl ⟨0, 0⟩
  have fails : Deed.Fails ⟨0, 0⟩ (.handled 0 (returned retried (refusal 2)).turn (refusal 2)) :=
    .inl rfl
  obtain ⟨l, link, ⟨-, -, connecting⟩ | ⟨-, ⟨reason, up⟩, -⟩⟩ := ended fails
  · cases (show Turn.connecting _ ⟨0, 0⟩ = false from rfl).symm.trans connecting
  · cases link
    have call : (returned retried (refusal 2)).turn.shared.invocations.Waits distant.peer 501
        waiting := ⟨_, rfl, List.mem_singleton_self _⟩
    exact ⟨_, _, _, _, fresh, by decide, by decide, refused, by decide, does, rfl, rfl, fails,
      reason, up, up.failed 501 waiting call rfl rfl⟩

end Moment

end PartitionEngine
