import PartitionEngine.Proofs.Attempts
import PartitionEngine.Proofs.LinkRecords

/-!
# What becomes of an attempt

An attempt that is made is under way, or it has failed at once (`Turn.Begun`).  After one
that has failed there is a pause, or the channel gives up (`Turn.Failed`).  A channel that
gives up is closed, and the invocations that went through it fail with the reason
(`Turn.GivesUp`).

Each function that ends an attempt or makes one gives such an outcome for a channel that
connects and has nothing on its way for it.
-/

namespace PartitionEngine

namespace Turn

variable {σ : Type} {may : Scope} {few : Prop} {batch batch' : List (IoCompletion Token)}
  {key k : SlotKey} {t t' t'' : Turn σ} {c c' : Channel} {l : Link} {n : UInt32}
  {reason : String} {e : DriverEvent}

/-! ## What is asked on the way -/

/-- The reactor has asked for more.  What it closed and the invocations stand as they
stood. -/
structure Near (t t' : Turn σ) : Prop where
  config : t'.config = t.config
  stopping : t'.reactor.stopping = t.reactor.stopping
  log : t.reactor.driver.log <:+ t'.reactor.driver.log
  closed : t'.handle?.map (·.stats.closed) = t.handle?.map (·.stats.closed)
  invocations : t'.shared.invocations = t.shared.invocations

namespace Near

theorem of_shared (stopping : t'.reactor.stopping = t.reactor.stopping)
    (log : t.reactor.driver.log <:+ t'.reactor.driver.log)
    (index : t'.reactor.index = t.reactor.index) (shared : t'.shared = t.shared) : Near t t' where
  config := by rw [Turn.config, shared, Turn.config]
  stopping := stopping
  log := log
  closed := by rw [handle?, shared, index, handle?]
  invocations := by rw [shared]

theorem trans (h : Near t t') (h' : Near t' t'') : Near t t'' where
  config := h'.config.trans h.config
  stopping := h'.stopping.trans h.stopping
  log := h.log.trans h'.log
  closed := h'.closed.trans h.closed
  invocations := h'.invocations.trans h.invocations

theorem submitted {token : Token} {op : IoOp} {result : Except Failure Unit}
    (h : t.submit token op = (result, t')) : Near t t' := by
  obtain ⟨⟨refusal, log, -⟩, -⟩ := log_submit h
  have after := congrArg Prod.snd h
  subst after
  exact of_shared rfl (log ▸ List.suffix_cons _ _) rfl rfl

end Near

theorem mem_asked_of_log {s : Turn σ} (log : s.reactor.driver.log = e :: t.reactor.driver.log) :
    e ∈ t.asked s := by
  have log : s.reactor.driver.log = [e] ++ t.reactor.driver.log := log
  rw [asked_eq log]
  exact List.mem_singleton_self e

/-- What is asked later was asked since earlier. -/
theorem mem_asked_of_near (near : Near t t') (mem : e ∈ t'.asked t'') : e ∈ t.asked t'' := by
  have length := near.log.length_le
  exact (List.take_prefix_take_left (by omega)).subset mem

/-- What was asked stays asked. -/
theorem mem_asked_trans (log : t.reactor.driver.log <:+ t'.reactor.driver.log)
    (log' : t'.reactor.driver.log <:+ t''.reactor.driver.log) (mem : e ∈ t.asked t') :
    e ∈ t.asked t'' := by
  obtain ⟨events, log⟩ := log
  obtain ⟨events', log'⟩ := log'
  have both : t''.reactor.driver.log = (events' ++ events) ++ t.reactor.driver.log := by
    rw [← log', ← log, List.append_assoc]
  rw [asked_eq both]
  rw [asked_eq log.symm] at mem
  exact List.mem_append_right _ mem

/-- No connect of a channel was accepted. -/
def Unmade (key : SlotKey) (t t' : Turn σ) : Prop :=
  ∀ s, .submitted s none ∈ t.asked t' → s.token.isOf .connect key = false

theorem Unmade.trans (h : Unmade key t t') (h' : Unmade key t' t'')
    (log : t.reactor.driver.log <:+ t'.reactor.driver.log)
    (log' : t'.reactor.driver.log <:+ t''.reactor.driver.log) : Unmade key t t'' := by
  intro s mem
  obtain ⟨events, log⟩ := log
  obtain ⟨events', log'⟩ := log'
  rw [(Puts.log_trans ⟨events, log.symm⟩ ⟨events', log'.symm⟩).2, List.mem_append] at mem
  exact mem.elim (h' s) (h s)

theorem Unmade.of_spares (spares : t.reactor.driver.Spares .connect key t'.reactor.driver) :
    Unmade key t t' := by
  obtain ⟨events, log, others⟩ := spares.asks
  intro s mem
  rw [asked_eq log] at mem
  exact others s none mem

/-! ## Giving up -/

/-- A channel gives up its link.  One channel was closed, and it was this one.  The
invocations that went through it fail, and the link is idle. -/
structure GivesUp (key : SlotKey) (l : Link) (reason : String) (t t' : Turn σ) : Prop where
  gone : t'.isLive key = false
  closed : t'.handle?.map (·.stats.closed) = t.handle?.map (·.stats.closed + 1)
  invocations : t'.shared.invocations
    = (t.shared.invocations.failRouted l.peer l.index (.connect l.endpoint reason)).2
  idle : t'.shared.links.state l = .idle

theorem GivesUp.near (h : GivesUp key l reason t' t'') (near : Near t t') :
    GivesUp key l reason t t'' where
  gone := h.gone
  closed := by
    have more := congrArg (Option.map (· + 1)) near.closed
    simp only [Option.map_map] at more
    exact h.closed.trans more
  invocations := near.invocations ▸ h.invocations
  idle := h.idle

/-- A link that is reset is idle, whether it is known or not. -/
theorem state_reset (links : Links) (l : Link) : (links.reset l).state l = .idle := by
  by_cases has : links.Has l
  · exact congrArg LinkRecord.state (Links.record_modify_self has _)
  · rw [Links.state, Links.reset, Links.setState, Links.record_modify_of_not_has has,
      Links.record_of_not_has has]

theorem isLive_of_closed (closed : ∀ c, t.channel? key = some c → c.state.isClosed = true) :
    t.isLive key = false := by
  rw [isLive]
  cases found : t.channel? key with
  | none => rfl
  | some c => simp [closed c found]

theorem givesUp_close (found : t.channel? key = some c) (live : c.state.isClosed = false)
    (link : c.link = some l) (remote : c.remote = l.endpoint) (reason : String) :
    GivesUp key l reason t (t.close key (.connect c.remote reason)) := by
  have shared : (t.close key (.connect c.remote reason)).shared
      = (t.shut key c (.connect c.remote reason)).shared := by
    rw [close_of_live found live, releaseIfDone_eq]
  have index : (t.close key (.connect c.remote reason)).reactor.index = t.reactor.index :=
    (acts_close t key _ : Acts .all key _ _).stays.1
  refine ⟨isLive_of_closed (closed_close t key _), ?_, ?_, ?_⟩
  · rw [handle?, shared, index]
    simp only [shut, link]
    show ((t.shared.modifyReactor t.reactor.index _).reactor? t.reactor.index).map _ = _
    simp only [Shared.reactor?, Shared.modifyReactor, List.getElem?_modify_eq, handle?]
    cases t.shared.reactors[t.reactor.index]? <;> rfl
  · rw [shared]
    simp only [shut, link, remote]
    rfl
  · rw [shared]
    simp only [shut, link]
    exact state_reset _ _

/-! ## A failure -/

/-- The attempt `n` for a link has failed. -/
inductive Failed (few : Prop) (batch : List (IoCompletion Token)) (key : SlotKey) (n : UInt32)
    (l : Link) (t t' : Turn σ) : Prop where
  /-- There is a pause, for more attempts are left. -/
  | paused (c : Channel) (tries : t'.Tries few batch key c) (number : c.attempt = n)
      (link : c.link = some l) (left : n ≤ t.config.connectRetries)
      (asked : .submitted (pause t.config key n.toNat) none ∈ t.asked t')
      (limits : ∀ token ∈ t'.reactor.driver.those batch .connectTimeout key,
        token ∈ t.reactor.driver.those batch .connectTimeout key)
  /-- No attempt is left, or the pause was refused. -/
  | gaveUp (reason : String) (calm : t'.Calm few batch key)
      (spent : t.config.connectRetries < n
        ∨ ∃ errno, .submitted (pause t.config key n.toNat) (some errno) ∈ t.asked t')
      (up : GivesUp key l reason t t')

theorem Failed.near (h : Failed few batch key n l t' t'') (near : Near t t')
    (limits : ∀ token ∈ t'.reactor.driver.those batch .connectTimeout key,
      token ∈ t.reactor.driver.those batch .connectTimeout key) :
    Failed few batch key n l t t'' := by
  cases h with
  | paused c tries number link left asked limits' =>
    rw [near.config] at left asked
    exact .paused c tries number link left (mem_asked_of_near near asked)
      fun token mem => limits token (limits' token mem)
  | gaveUp reason calm spent up =>
    rw [near.config] at spent
    exact .gaveUp reason calm (spent.imp_right fun ⟨errno, mem⟩ =>
      ⟨errno, mem_asked_of_near near mem⟩) (up.near near)

/-- Closing a channel that has nothing on its way for an attempt ends its attempts. -/
theorem Tries.close (h : t.Tries few batch key c) (rest : t.reactor.driver.AtRest batch key)
    (cause : Failure) : (t.close key cause).Calm few batch key := by
  have live : c.state.isClosed = false := by rw [h.connecting]; rfl
  have shut := channel?_shut h.found cause
  have same : CompletionQueue.SameWay key batch t.reactor.driver batch
      (t.shut key c cause).reactor.driver := by
    intro p _ _
    rw [driver_shut]
    exact (CompletionQueue.Spares.cancelAll _).way batch
  rw [close_of_live h.found live]
  refine Act.calm (.release _) ⟨rest.same same, ?_, ?_, ?_, ?_⟩
  · intro c' found
    cases shut.symm.trans found
    nofun
  · intro c' found
    have none : (t.shut key c cause).reactor.driver.those batch .send key = [] :=
      (h.sends ▸ same .send rfl nofun).eq_nil
    exact none ▸ Nat.zero_le _
  · intro f c' found
    cases shut.symm.trans found
    exact (h.timed f).same (same .connectTimeout rfl nofun) (same .retryTimer rfl nofun) rfl rfl
  · intro absent
    cases shut.symm.trans absent

/-- A refusal is noted. -/
theorem log_of_refused {token : Token} {op : IoOp} {failure : Failure}
    (refused : t.submit token op = (.error failure, t')) :
    ∃ errno, t'.reactor.driver.log
      = .submitted { token, op } (some errno) :: t.reactor.driver.log := by
  have result := congrArg Prod.fst refused
  have after := congrArg Prod.snd refused
  subst after
  obtain ⟨errno, refusal⟩ := CompletionQueue.refusal?_of_submit_error (Prod.ext result rfl)
  exact ⟨errno, refusal ▸ t.reactor.driver.log_submit token op⟩

/-- A timer that is accepted is counted. -/
theorem submitTimer_cases (t : Turn σ) (key : SlotKey) (token : Token) (after : Nat) :
    (∃ s, t.submit token (.timeout after) = (.ok (), s)
      ∧ t.submitTimer key token after = (.ok (), s.countTimer key))
    ∨ ∃ failure s, t.submit token (.timeout after) = (.error failure, s)
      ∧ t.submitTimer key token after = (.error failure, s) := by
  simp only [submitTimer]
  split
  · rename_i s accepted
    exact .inl ⟨s, accepted, rfl⟩
  · rename_i failure s refused
    exact .inr ⟨failure, s, refused, rfl⟩

/-- Counting a timer asks for nothing. -/
theorem countTimer_driver (t : Turn σ) (key : SlotKey) :
    (t.countTimer key).reactor.driver = t.reactor.driver := by
  cases found : t.channel? key with
  | none => simp only [countTimer, found]
  | some c => exact (countTimer_eq found).2

/-- The pause is the one operation on its way for the attempts. -/
theorem Tries.pause (h : t.Tries few batch key c) (rest : t.reactor.driver.AtRest batch key)
    {config : Config} {s : Turn σ}
    (accepted : t.submit (pause config key c.attempt.toNat).token (pause config key c.attempt.toNat).op
      = (.ok (), s)) :
    (s.countTimer key).Tries few batch key c.withTimer
      ∧ ∀ token ∈ (s.countTimer key).reactor.driver.those batch .connectTimeout key,
        token ∈ t.reactor.driver.those batch .connectTimeout key := by
  have posted := those_of_accepted accepted .retryTimer key (by simp [Turn.pause]) batch
  rw [rest.pauses] at posted
  have spares (p : Purpose) (other : p ≠ .retryTimer) :=
    (spares_of_submit accepted p key (by simp [Turn.pause, Ne.symm other])).way batch
  have limits := spares .connectTimeout nofun
  obtain ⟨found, driver⟩ := countTimer_eq (((log_submit accepted).2 key).trans h.found)
  obtain ⟨timers, same, counted⟩ := c.exists_withTimer
  rw [same] at found ⊢
  rw [← driver] at posted spares limits
  refine ⟨⟨found, h.connecting, h.link, h.idle, (h.sends ▸ spares .send nofun).eq_nil, ?_, ?_, ?_⟩,
    fun token => limits.mem_iff.mp⟩
  · have none := (rest.connects ▸ spares .connect nofun).eq_nil
    have one := posted.length_eq
    simp [none, one]
  · rintro token (mem | mem)
    · have before := (spares .connect nofun).mem_iff.mp mem
      rw [rest.connects] at before
      cases before
    · cases List.mem_singleton.mp (posted.mem_iff.mp mem)
      rfl
  · intro f
    have old := h.timed f
    have count := old.count
    rw [rest.pauses, List.length_nil] at count
    have less := Nat.lt_of_le_of_lt old.most old.few
    refine ⟨?_, limits.nodup_iff.mpr old.once, limits.length_eq ▸ old.most,
      fun token mem => old.below token (limits.mem_iff.mp mem), old.few⟩
    show timers.toNat = _
    rw [counted (by simp only [maxTimers]; omega), count, limits.length_eq, posted.length_eq]
    rfl

/-- A submission that is refused leaves a channel connecting. -/
theorem Tries.refused (h : t.Tries few batch key c) {token : Token} {op : IoOp}
    {failure : Failure} (refused : t.submit token op = (.error failure, t')) :
    t'.Tries few batch key c :=
  h.same (((log_submit refused).2 key).trans h.found) rfl rfl rfl rfl rfl rfl
    (sameWay_of_refused refused key batch)

/-- After a failure there is a pause, or the channel gives up. -/
theorem Tries.connectFailed (h : t.Tries few batch key c)
    (rest : t.reactor.driver.AtRest batch key) (going : t.reactor.stopping = false)
    (spans : t.config.Spans) (link : c.link = some l) (reason : String) :
    Failed few batch key c.attempt l t (t.connectFailed key reason) := by
  have live : c.state.isClosed = false := by rw [h.connecting]; rfl
  have remote : c.remote = l.endpoint := by
    obtain ⟨l', link', remote⟩ := h.link
    cases link.symm.trans link'
    exact remote
  have number : UInt8.ofNat c.attempt.toNat = c.attempt.toUInt8 := rfl
  simp only [Turn.connectFailed, h.found, going, Bool.not_false, and_true]
  split
  · rename_i left
    rw [Config.pauseAfter?_of_le left spans]
    obtain ⟨s, accepted, timed⟩ | ⟨failure, s, refused, timed⟩ := submitTimer_cases t key
      (Turn.pause t.config key c.attempt.toNat).token (t.config.connectBackoff * c.attempt.toNat)
    · simp only [Turn.pause, number] at timed
      simp only [timed]
      obtain ⟨tries, limits⟩ := h.pause rest accepted
      obtain ⟨⟨refusal, log, none⟩, -⟩ := log_submit accepted
      cases none rfl
      obtain ⟨timers, same, -⟩ := c.exists_withTimer
      rw [same] at tries
      rw [← countTimer_driver s key] at log
      exact .paused _ tries rfl link left (mem_asked_of_log log) limits
    · simp only [Turn.pause, number] at timed
      simp only [timed]
      have near := Near.submitted refused
      have h₁ := h.refused refused
      have rest₁ := rest.same (sameWay_of_refused refused key batch)
      obtain ⟨errno, log⟩ := log_of_refused refused
      obtain ⟨events, more⟩ := log_close s key (.connect c.remote reason)
      refine .gaveUp reason (h₁.close rest₁ _) (.inr ⟨errno, ?_⟩)
        ((givesUp_close h₁.found live link remote reason).near near)
      exact mem_asked_trans near.log ⟨events, more.symm⟩ (mem_asked_of_log log)
  · rename_i spent
    exact .gaveUp reason (h.close rest _) (.inl (UInt32.not_le.mp spent))
      (givesUp_close h.found live link remote reason)

/-! ## An attempt -/

/-- The attempt `n` for a link is made. -/
inductive Begun (few : Prop) (batch : List (IoCompletion Token)) (key : SlotKey) (n : UInt32)
    (l : Link) (t t' : Turn σ) : Prop where
  /-- It is under way.  Its limit may be under way too. -/
  | pending (c : Channel) (tries : t'.Tries few batch key c) (number : c.attempt = n)
      (link : c.link = some l)
      (asked : ∃ socket, .submitted ⟨.ofChannel .connect key (UInt8.ofNat n.toNat),
        .connect (some socket) l.endpoint⟩ none ∈ t.asked t')
      (pauses : t'.reactor.driver.those batch .retryTimer key = [])
      (limits : ∀ token ∈ t'.reactor.driver.those batch .connectTimeout key,
        token ∈ t.reactor.driver.those batch .connectTimeout key
        ∨ token = (limit t.config key n.toNat).token
          ∧ .submitted (limit t.config key n.toNat) none ∈ t.asked t')
  /-- It has failed at once. -/
  | failed (failed : Failed few batch key n l t t') (unmade : Unmade key t t')

/-- Nothing was asked for before the attempt. -/
theorem Begun.near (h : Begun few batch key n l t' t'') (near : Near t t')
    (quiet : t'.reactor.driver = t.reactor.driver) : Begun few batch key n l t t'' := by
  have same : t'.asked t'' = t.asked t'' := by rw [asked, quiet, asked]
  cases h with
  | pending c tries number link asked pauses limits =>
    rw [near.config, same, quiet] at limits
    exact .pending c tries number link (same ▸ asked) pauses limits
  | failed failed unmade =>
    refine .failed (failed.near near ?_) fun s mem => unmade s (same ▸ mem)
    rw [quiet]
    exact fun _ => id

/-- What is asked for when an attempt has failed is the pause. -/
theorem spares_connectFailed (t : Turn σ) (key : SlotKey) (reason : String) {p : Purpose}
    (own : p.isChannel = true) (other : p ≠ .retryTimer) (recv : p ≠ .recv) :
    t.reactor.driver.Spares p key (t.connectFailed key reason).reactor.driver := by
  have closed (s : Turn σ) (cause : Failure) :
      s.reactor.driver.Spares p key (s.close key cause).reactor.driver :=
    Acts.spares (acts_close s key cause) own (.inr (Scope.still_bars recv))
  simp only [Turn.connectFailed]
  split
  · exact .refl _
  · rename_i c found
    split
    · split
      · exact .refl _
      · rename_i pause _
        obtain ⟨s, accepted, timed⟩ | ⟨failure, s, refused, timed⟩ := submitTimer_cases t key
          (.ofChannel .retryTimer key c.attempt.toUInt8) pause
        · rw [timed]
          simp only
          rw [countTimer_driver]
          exact spares_of_submit accepted p key (by simp [Ne.symm other])
        · rw [timed]
          exact (spares_of_submit refused p key (by simp [Ne.symm other])).trans (closed s _)
    · exact closed t _

/-- A connect that is accepted is the one operation on its way for the attempts. -/
theorem Tries.connect (h : t.Tries few batch key c) (rest : t.reactor.driver.AtRest batch key)
    {op : IoOp} {s : Turn σ}
    (accepted : t.submit (.ofChannel .connect key c.attempt.toUInt8) op = (.ok (), s))
    (socket : Nat) :
    (s.modifyChannel key fun c =>
        { c with descriptor := some socket, connectInFlight := true }).Tries few batch key
          { c with descriptor := some socket, connectInFlight := true }
      ∧ s.reactor.driver.those batch .retryTimer key = []
      ∧ (s.reactor.driver.those batch .connectTimeout key).Perm
        (t.reactor.driver.those batch .connectTimeout key) := by
  have posted := those_of_accepted accepted .connect key (by simp) batch
  rw [rest.connects] at posted
  have spares (p : Purpose) (other : p ≠ .connect) :=
    (spares_of_submit accepted p key (by simp [Ne.symm other])).way batch
  have none := (rest.pauses ▸ spares .retryTimer nofun).eq_nil
  have found := channel?_modifyChannel_self (((log_submit accepted).2 key).trans h.found)
    fun c => { c with descriptor := some socket, connectInFlight := true }
  refine ⟨⟨found, h.connecting, h.link, h.idle, (h.sends ▸ spares .send nofun).eq_nil, ?_, ?_,
    fun f => (h.timed f).same (spares .connectTimeout nofun) (spares .retryTimer nofun) rfl rfl⟩,
    none, spares .connectTimeout nofun⟩
  · have one := posted.length_eq
    show (s.reactor.driver.those batch .connect key).length
      + (s.reactor.driver.those batch .retryTimer key).length ≤ 1
    simp [none, one]
  · rintro token (mem | mem)
    · cases List.mem_singleton.mp (posted.mem_iff.mp mem)
      rfl
    · have before := (spares .retryTimer nofun).mem_iff.mp mem
      rw [rest.pauses] at before
      cases before

/-- The limit of an attempt is accepted, and there was none by its name. -/
theorem Tries.limit (h : t.Tries few batch key c)
    (pauses : t.reactor.driver.those batch .retryTimer key = [])
    (older : few → (t.reactor.driver.those batch .connectTimeout key).length < c.attempt.toNat
      ∧ ∀ token ∈ t.reactor.driver.those batch .connectTimeout key,
        token.attempt.toNat < c.attempt.toNat)
    {after : Nat} {s : Turn σ}
    (accepted : t.submit (.ofChannel .connectTimeout key c.attempt.toUInt8) (.timeout after)
      = (.ok (), s)) :
    (s.countTimer key).Tries few batch key c.withTimer
      ∧ (s.countTimer key).reactor.driver.those batch .retryTimer key = []
      ∧ ((s.countTimer key).reactor.driver.those batch .connectTimeout key).Perm
        (.ofChannel .connectTimeout key c.attempt.toUInt8
          :: t.reactor.driver.those batch .connectTimeout key) := by
  have posted := those_of_accepted accepted .connectTimeout key (by simp) batch
  have spares (p : Purpose) (other : p ≠ .connectTimeout) :=
    (spares_of_submit accepted p key (by simp [Ne.symm other])).way batch
  obtain ⟨found, driver⟩ := countTimer_eq (((log_submit accepted).2 key).trans h.found)
  obtain ⟨timers, same, counted⟩ := c.exists_withTimer
  rw [same] at found ⊢
  rw [← driver] at posted spares
  have none := (pauses ▸ spares .retryTimer nofun).eq_nil
  refine ⟨⟨found, h.connecting, h.link, h.idle, (h.sends ▸ spares .send nofun).eq_nil, ?_, ?_, ?_⟩,
    none, posted⟩
  · rw [(spares .connect nofun).length_eq, (spares .retryTimer nofun).length_eq]
    exact h.alone
  · exact fun token mem => h.tagged token
      (mem.imp (spares .connect nofun).mem_iff.mp (spares .retryTimer nofun).mem_iff.mp)
  · intro f
    have old := h.timed f
    obtain ⟨fewer, below⟩ := older f
    have count := old.count
    rw [pauses, List.length_nil, Nat.add_zero] at count
    have number : (c.attempt.toUInt8).toNat = c.attempt.toNat := by
      have small := old.few
      rw [UInt32.toNat_toUInt8]
      omega
    have fresh : Token.ofChannel .connectTimeout key c.attempt.toUInt8
        ∉ t.reactor.driver.those batch .connectTimeout key := fun mem =>
      absurd (below _ mem) (Nat.not_lt.mpr (Nat.le_of_eq number.symm))
    have length := posted.length_eq
    rw [List.length_cons] at length
    have small := old.few
    refine ⟨?_, posted.nodup_iff.mpr (List.nodup_cons.mpr ⟨fresh, old.once⟩), ?_, ?_, old.few⟩
    · show timers.toNat = _
      rw [counted (by simp only [maxTimers]; omega), count, length, none]
      rfl
    · exact length ▸ fewer
    · intro token mem
      rcases List.mem_cons.mp (posted.mem_iff.mp mem) with rfl | mem
      · exact Nat.le_of_eq number
      · exact Nat.le_of_lt (below token mem)

/-- An attempt whose connect is refused has failed. -/
theorem Tries.begun_of_refused (h : t.Tries few batch key c)
    (rest : t.reactor.driver.AtRest batch key) (going : t.reactor.stopping = false)
    (spans : t.config.Spans) (link : c.link = some l) {attempt : UInt8} {op : IoOp}
    {failure : Failure} {s : Turn σ}
    (refused : t.submit (.ofChannel .connect key attempt) op = (.error failure, s))
    (socket : Nat) :
    Begun few batch key c.attempt l t
      ((s.closeSocket (some socket)).connectFailed key failure.message) := by
  have near : Near t (s.closeSocket (some socket)) :=
    (Near.submitted refused).trans (.of_shared rfl (List.suffix_refl _) rfl rfl)
  have same := sameWay_of_refused refused key batch
  have h₁ : (s.closeSocket (some socket)).Tries few batch key c :=
    (h.refused refused).same (h.refused refused).found rfl rfl rfl rfl rfl rfl
      fun _ _ _ => .refl _
  have rest₁ : (s.closeSocket (some socket)).reactor.driver.AtRest batch key := rest.same same
  have spans : (s.closeSocket (some socket)).config.Spans := near.config ▸ spans
  have failed := (h₁.connectFailed rest₁ (near.stopping.trans going) spans link failure.message).near
    near fun token => (same .connectTimeout rfl (by decide)).mem_iff.mp
  obtain ⟨errno, log⟩ := log_of_refused refused
  have spares : (s.closeSocket (some socket)).reactor.driver.Spares .connect key _ :=
    spares_connectFailed _ key failure.message rfl (by decide) (by decide)
  have unmade : Unmade key t (s.closeSocket (some socket)) := by
    intro s' mem
    have log : (s.closeSocket (some socket)).reactor.driver.log = [_] ++ t.reactor.driver.log := log
    rw [asked_eq log] at mem
    cases List.mem_singleton.mp mem
  obtain ⟨events, more, -⟩ := spares.asks
  exact .failed failed (unmade.trans (.of_spares spares) near.log ⟨events, more.symm⟩)

/-- An attempt whose connect is accepted is under way, with or without its limit. -/
theorem Tries.begun_of_accepted (h : t.Tries few batch key c)
    (rest : t.reactor.driver.AtRest batch key) (link : c.link = some l)
    (older : few → (t.reactor.driver.those batch .connectTimeout key).length < c.attempt.toNat
      ∧ ∀ token ∈ t.reactor.driver.those batch .connectTimeout key,
        token.attempt.toNat < c.attempt.toNat) {socket : Nat} {s : Turn σ}
    (accepted : t.submit (.ofChannel .connect key c.attempt.toUInt8)
      (.connect (some socket) c.remote) = (.ok (), s)) :
    let s₁ := s.modifyChannel key fun c =>
      { c with descriptor := some socket, connectInFlight := true }
    Begun few batch key c.attempt l t (s₁.submitTimer key
      (.ofChannel .connectTimeout key c.attempt.toUInt8) s₁.config.connectTimeout).2 := by
  intro s₁
  have remote : c.remote = l.endpoint := by
    obtain ⟨l', link', remote⟩ := h.link
    cases link.symm.trans link'
    exact remote
  have near := Near.submitted accepted
  obtain ⟨tries, pauses, limits⟩ := h.connect rest accepted socket
  obtain ⟨⟨refusal, log, none⟩, -⟩ := log_submit accepted
  cases none rfl
  have asked := mem_asked_of_log log
  rw [remote] at asked
  have near₁ : Near t s₁ := near.trans (.of_shared rfl (List.suffix_refl _) rfl rfl)
  obtain ⟨s₂, accepted', timed⟩ | ⟨failure, s₂, refused, timed⟩ := submitTimer_cases s₁ key
    (.ofChannel .connectTimeout key c.attempt.toUInt8) s₁.config.connectTimeout
  · rw [timed]
    have near₂ := Near.submitted accepted'
    obtain ⟨tries, pauses, limits'⟩ := tries.limit pauses (fun f => by
      obtain ⟨fewer, below⟩ := older f
      exact ⟨limits.length_eq.symm ▸ fewer,
        fun token mem => below token (limits.mem_iff.mp mem)⟩) accepted'
    obtain ⟨⟨refusal, log', none⟩, -⟩ := log_submit accepted'
    cases none rfl
    rw [near₁.config] at log'
    rw [← countTimer_driver s₂ key] at log'
    have later : s.reactor.driver.log <:+ (s₂.countTimer key).reactor.driver.log :=
      countTimer_driver s₂ key ▸ near₂.log
    obtain ⟨timers, same, -⟩ := Channel.exists_withTimer
      { c with descriptor := some socket, connectInFlight := true }
    rw [same] at tries
    refine .pending _ tries rfl link ⟨socket, mem_asked_trans near.log later asked⟩ pauses ?_
    intro token mem
    rcases List.mem_cons.mp (limits'.mem_iff.mp mem) with rfl | mem
    · exact .inr ⟨rfl, mem_asked_of_near near₁ (mem_asked_of_log log')⟩
    · exact .inl (limits.mem_iff.mp mem)
  · rw [timed]
    have near₂ := Near.submitted refused
    have same := sameWay_of_refused refused key batch
    refine .pending _ (tries.refused refused) rfl link
      ⟨socket, mem_asked_trans near.log near₂.log asked⟩
      (pauses ▸ same .retryTimer rfl (by decide)).eq_nil ?_
    exact fun token mem =>
      .inl (limits.mem_iff.mp ((same .connectTimeout rfl (by decide)).mem_iff.mp mem))

/-- The attempt is under way, with or without its limit, or it has failed. -/
theorem Tries.submitConnect (h : t.Tries few batch key c)
    (rest : t.reactor.driver.AtRest batch key) (going : t.reactor.stopping = false)
    (spans : t.config.Spans) (link : c.link = some l)
    (older : few → (t.reactor.driver.those batch .connectTimeout key).length < c.attempt.toNat
      ∧ ∀ token ∈ t.reactor.driver.those batch .connectTimeout key,
        token.attempt.toNat < c.attempt.toNat) (socket : Nat) :
    Begun few batch key c.attempt l t (t.submitConnect key c socket) := by
  simp only [Turn.submitConnect]
  split
  · rename_i refused
    exact h.begun_of_refused rest going spans link refused socket
  · rename_i accepted
    exact h.begun_of_accepted rest link older accepted

/-- An attempt is made with the next number. -/
theorem Tries.startConnect (h : t.Tries few batch key c)
    (rest : t.reactor.driver.AtRest batch key) (going : t.reactor.stopping = false)
    (spans : t.config.Spans) (link : c.link = some l) (number : n.toNat = c.attempt.toNat + 1)
    (small : few → n.toNat < 255) :
    Begun few batch key n l t (t.startConnect key) := by
  have next : c.attempt + 1 = n := by
    have bound := n.toNat_lt
    rw [← UInt32.toNat_inj, UInt32.toNat_add, number]
    exact Nat.mod_eq_of_lt (by simpa [number] using bound)
  have found := channel?_putChannel_self h.found { c with attempt := n, timedOut := false }
  have h₁ : (t.putChannel key { c with attempt := n, timedOut := false }).Tries few batch key
      { c with attempt := n, timedOut := false } := by
    refine ⟨found, h.connecting, h.link, h.idle, h.sends, h.alone, ?_, fun f => ?_⟩
    · rintro token (mem | mem)
      · exact absurd mem (rest.connects ▸ List.not_mem_nil)
      · exact absurd mem (rest.pauses ▸ List.not_mem_nil)
    · have old := h.timed f
      have more : c.attempt.toNat ≤ n.toNat := by omega
      exact ⟨old.count, old.once, Nat.le_trans old.most more,
        fun token mem => Nat.le_trans (old.below token mem) more, small f⟩
  have older (f : few) :
      (t.reactor.driver.those batch .connectTimeout key).length < n.toNat
      ∧ ∀ token ∈ t.reactor.driver.those batch .connectTimeout key,
        token.attempt.toNat < n.toNat := by
    have old := h.timed f
    exact ⟨by have most := old.most; omega,
      fun token mem => by have below := old.below token mem; omega⟩
  have spares (s : Turn σ) (reason : String) :
      s.reactor.driver.Spares .connect key (s.connectFailed key reason).reactor.driver :=
    spares_connectFailed s key reason rfl nofun nofun
  have left : c.attempt.toNat ≠ maxAttempts := by
    have bound := n.toNat_lt
    simp only [maxAttempts]
    omega
  simp only [Turn.startConnect, h.found, if_neg left, next]
  split
  · have near : Near t (t.putChannel key { c with attempt := n, timedOut := false }) :=
      .of_shared rfl (List.suffix_refl _) rfl rfl
    exact .failed ((h₁.connectFailed rest going spans link _).near near fun _ => id)
      (.of_spares (spares (t.putChannel key { c with attempt := n, timedOut := false }) _))
  · rename_i socket host _
    let s : Turn σ := { t.putChannel key { c with attempt := n, timedOut := false } with host }
    have near : Near t s := .of_shared rfl (List.suffix_refl _) rfl rfl
    have h₂ : s.Tries few batch key { c with attempt := n, timedOut := false } :=
      h₁.same found rfl rfl rfl rfl rfl rfl fun _ _ _ => .refl _
    exact (h₂.submitConnect rest going spans link older socket).near near rfl

end Turn

end PartitionEngine
