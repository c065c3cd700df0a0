import PartitionEngine.Proofs.Conveying
import PartitionEngine.Proofs.Rearming

/-!
# Attempts to connect

A channel that connects has at most one operation on its way for that: the connect of its
attempt, or the pause before the next one.  Both carry the number of the attempt, in eight
bits.  A channel that does not connect has none (`Turn.Tries`, `Turn.Calm`).  So whatever
comes back for an attempt is of the last one.

None of this depends on the count of timers, which has eight bits.  That a channel leaves
with no timer on its way does (`Timed`).  It is claimed as long as attempts can be told
apart by their eight bits.
-/

namespace PartitionEngine

/-! ## Operations on their way -/

namespace CompletionQueue

variable {q q' q'' : CompletionQueue} {batch batch' : List (IoCompletion Token)} {p : Purpose}
  {key : SlotKey} {token : Token}

/-- The operations of a channel for a purpose that were not handled. -/
def those (q : CompletionQueue) (batch : List (IoCompletion Token)) (p : Purpose) (key : SlotKey) :
    List Token :=
  (q.unhandled batch).filter (·.isOf p key)

theorem length_those : (q.those batch p key).length = q.outstanding batch p key :=
  List.countP_eq_length_filter.symm

theorem those_cons (c : IoCompletion Token) : q.those (c :: batch) p key
    = if c.token.isOf p key then c.token :: q.those batch p key else q.those batch p key :=
  List.filter_cons

theorem mem_those_cons (c : IoCompletion Token) (mem : token ∈ q.those batch p key) :
    token ∈ q.those (c :: batch) p key := by
  rw [those_cons]
  split
  · exact List.mem_cons_of_mem _ mem
  · exact mem

/-- What is handled is on its way no longer. -/
theorem those_handled {done : IoCompletion Token} {b : List (IoCompletion Token)}
    (own : done.token.isOf p key = true) (p' : Purpose) : q.those (done :: b) p' key
      = if p = p' then done.token :: q.those b p' key else q.those b p' key := by
  rw [those_cons, Token.isOf_of_isOf own]
  simp only [decide_eq_true_eq]

theorem isOf_of_mem_those (mem : token ∈ q.those batch p key) : token.isOf p key = true :=
  (List.mem_filter.mp mem).2

/-- Nothing is asked for a purpose, and what is on its way for it stays so. -/
structure Spares (p : Purpose) (key : SlotKey) (q q' : CompletionQueue) : Prop where
  way : ∀ batch, (q'.those batch p key).Perm (q.those batch p key)
  asks : ∃ events, q'.log = events ++ q.log
    ∧ ∀ s refusal, DriverEvent.submitted s refusal ∈ events → s.token.isOf p key = false

namespace Spares

theorem refl (q : CompletionQueue) : Spares p key q q := ⟨fun _ => .refl _, [], rfl, nofun⟩

theorem trans (h : Spares p key q q') (h' : Spares p key q' q'') : Spares p key q q'' := by
  obtain ⟨way, events, log, others⟩ := h
  obtain ⟨way', events', log', others'⟩ := h'
  refine ⟨fun batch => (way' batch).trans (way batch), events' ++ events, ?_, ?_⟩
  · rw [log', log, List.append_assoc]
  · intro s refusal mem
    exact (List.mem_append.mp mem).elim (others' s refusal) (others s refusal)

theorem submit (other : token.isOf p key = false) (op : IoOp) :
    Spares p key q (q.submit token op).2 where
  way batch := by
    cases result : (q.submit token op).1 with
    | error e =>
      rw [those, unhandled_submit_of_error result]
      exact .refl _
    | ok u =>
      have moved : ((q.submit token op).2.those batch p key).Perm
          ((token :: q.unhandled batch).filter (·.isOf p key)) := (perm_submit_of_ok result).filter _
      rwa [List.filter_cons, if_neg (by simp [other])] at moved
  asks := by
    refine ⟨[_], log_submit q token op, fun s refusal mem => ?_⟩
    cases List.mem_singleton.mp mem
    exact other

theorem cancelAll (tokens : List Token) : Spares p key q (tokens.foldl cancel q) where
  way _ := (perm_cancelAll tokens q).filter _
  asks := by
    obtain ⟨events, log, canceled⟩ := q.log_cancelAll tokens
    refine ⟨events, log, fun s refusal mem => ?_⟩
    obtain ⟨token, found, same⟩ := canceled _ mem
    cases same

end Spares

theorem those_submit_of_error {op : IoOp} {e : Failure} (refused : (q.submit token op).1 = .error e) :
    (q.submit token op).2.those batch p key = q.those batch p key := by
  rw [those, unhandled_submit_of_error refused]
  rfl

theorem those_submit_of_ok {op : IoOp} {u : Unit} (accepted : (q.submit token op).1 = .ok u)
    (own : token.isOf p key = true) (batch : List (IoCompletion Token)) :
    ((q.submit token op).2.those batch p key).Perm (token :: q.those batch p key) := by
  have moved : ((q.submit token op).2.those batch p key).Perm
      ((token :: q.unhandled batch).filter (·.isOf p key)) := (perm_submit_of_ok accepted).filter _
  rwa [List.filter_cons, if_pos own] at moved

/-- Nothing is on its way for an attempt. -/
structure AtRest (batch : List (IoCompletion Token)) (key : SlotKey) (q : CompletionQueue) :
    Prop where
  connects : q.those batch .connect key = []
  pauses : q.those batch .retryTimer key = []

/-- What is on its way for a channel, but for its receive, is the same as before. -/
def SameWay (key : SlotKey) (batch : List (IoCompletion Token)) (q : CompletionQueue)
    (batch' : List (IoCompletion Token)) (q' : CompletionQueue) : Prop :=
  ∀ p, p.isChannel = true → p ≠ .recv → (q'.those batch' p key).Perm (q.those batch p key)

theorem AtRest.same (rest : AtRest batch key q) (same : SameWay key batch q batch' q') :
    AtRest batch' key q' :=
  ⟨(rest.connects ▸ same .connect rfl nofun).eq_nil,
    (rest.pauses ▸ same .retryTimer rfl nofun).eq_nil⟩

end CompletionQueue

namespace Scope

/-- A handler that neither opens its channel nor sends, and makes no attempt. -/
def still : Scope := { opens := False, sends := False, connects := False }

theorem routes_still (count i : Nat) : still.Routes count i :=
  ⟨fun _ _ => trivial, fun _ _ => trivial⟩

/-- A handler that submits nothing for a purpose. -/
structure Bars (may : Scope) (p : Purpose) : Prop where
  sends : p = .send → ¬ may.sends
  reads : p = .recv → ¬ may.reads
  connects : p ≠ .send → p ≠ .recv → ¬ may.connects

theorem still_bars {p : Purpose} (other : p ≠ .recv) : still.Bars p :=
  ⟨fun _ => not_false, fun is => absurd is other, fun _ _ => not_false⟩

end Scope

/-! ## What a channel counts -/

/-- The timers that a channel counts are on their way.  Those of attempts carry numbers of
their own, up to that of the last attempt. -/
structure Timed (batch : List (IoCompletion Token)) (key : SlotKey) (q : CompletionQueue)
    (c : Channel) : Prop where
  count : c.timers.toNat
    = (q.those batch .connectTimeout key).length + (q.those batch .retryTimer key).length
  once : (q.those batch .connectTimeout key).Nodup
  most : (q.those batch .connectTimeout key).length ≤ c.attempt.toNat
  below : ∀ token ∈ q.those batch .connectTimeout key, token.attempt.toNat ≤ c.attempt.toNat
  few : c.attempt.toNat < 255

theorem Timed.same {batch batch' : List (IoCompletion Token)} {key : SlotKey}
    {q q' : CompletionQueue} {c c' : Channel} (h : Timed batch key q c)
    (limits : (q'.those batch' .connectTimeout key).Perm (q.those batch .connectTimeout key))
    (pauses : (q'.those batch' .retryTimer key).Perm (q.those batch .retryTimer key))
    (timers : c'.timers = c.timers) (attempt : c'.attempt = c.attempt) :
    Timed batch' key q' c' where
  count := by rw [timers, h.count, limits.length_eq, pauses.length_eq]
  once := limits.nodup_iff.mpr h.once
  most := by
    rw [attempt, limits.length_eq]
    exact h.most
  below token mem := attempt ▸ h.below token (limits.mem_iff.mp mem)
  few := attempt ▸ h.few

/-- A timer is handled, and counted no longer. -/
theorem Timed.timerDone {batch : List (IoCompletion Token)} {key : SlotKey}
    {q : CompletionQueue} {c : Channel} {done : IoCompletion Token} {p : Purpose}
    (h : Timed (done :: batch) key q c) (own : done.token.isOf p key = true)
    (timer : p = .connectTimeout ∨ p = .retryTimer) : Timed batch key q (Turn.timerDone c) := by
  have counted : c.timers.toNat
      = (q.those batch .connectTimeout key).length + (q.those batch .retryTimer key).length + 1 := by
    rw [h.count, CompletionQueue.those_handled own, CompletionQueue.those_handled own]
    rcases timer with rfl | rfl
    · simp
      omega
    · simp
      omega
  have limits : (q.those batch .connectTimeout key).Sublist
      (q.those (done :: batch) .connectTimeout key) := by
    rw [CompletionQueue.those_handled own]
    split
    · exact List.sublist_cons_self _ _
    · exact .refl _
  refine ⟨?_, h.once.sublist limits, Nat.le_trans limits.length_le h.most,
    fun token mem => h.below token (limits.subset mem), h.few⟩
  exact toNat_sub_min_one counted

namespace Turn

variable {σ : Type} {may : Scope} {few : Prop} {batch batch' : List (IoCompletion Token)}
  {key k : SlotKey} {t t' t'' : Turn σ} {c c' : Channel} {p : Purpose}

/-- No attempt is made for a key.  There may be a channel that does not connect. -/
structure Calm (few : Prop) (batch : List (IoCompletion Token)) (key : SlotKey) (t : Turn σ) :
    Prop where
  rest : t.reactor.driver.AtRest batch key
  still : ∀ c, t.channel? key = some c → c.state ≠ .connecting
  sends : ∀ c, t.channel? key = some c →
    (t.reactor.driver.those batch .send key).length ≤ c.writes.inFlight.toNat
  timed : few → ∀ c, t.channel? key = some c → Timed batch key t.reactor.driver c
  vacant : t.channel? key = none → t.reactor.driver.those batch .send key = []
    ∧ (few → t.reactor.driver.those batch .connectTimeout key = [])

/-- A channel connects for its link, and has at most the connect of its last attempt or
the pause after it on its way for that. -/
structure Tries (few : Prop) (batch : List (IoCompletion Token)) (key : SlotKey) (t : Turn σ)
    (c : Channel) : Prop where
  found : t.channel? key = some c
  connecting : c.state = .connecting
  link : ∃ l, c.link = some l ∧ c.remote = l.endpoint
  idle : c.writes.inFlight = false
  sends : t.reactor.driver.those batch .send key = []
  alone : (t.reactor.driver.those batch .connect key).length
    + (t.reactor.driver.those batch .retryTimer key).length ≤ 1
  tagged : ∀ token, token ∈ t.reactor.driver.those batch .connect key
    ∨ token ∈ t.reactor.driver.those batch .retryTimer key → token.attempt = c.attempt.toUInt8
  timed : few → Timed batch key t.reactor.driver c

theorem Calm.same (h : t.Calm few batch key) (channel : t'.channel? key = t.channel? key)
    (same : CompletionQueue.SameWay key batch t.reactor.driver batch' t'.reactor.driver) :
    t'.Calm few batch' key where
  rest := h.rest.same same
  still c found := h.still c (channel ▸ found)
  sends c found := (same .send rfl nofun).length_eq ▸ h.sends c (channel ▸ found)
  timed f c found := (h.timed f c (channel ▸ found)).same (same .connectTimeout rfl nofun)
    (same .retryTimer rfl nofun) rfl rfl
  vacant absent :=
    have old := h.vacant (channel ▸ absent)
    ⟨(old.1 ▸ same .send rfl nofun).eq_nil,
      fun f => (old.2 f ▸ same .connectTimeout rfl nofun).eq_nil⟩

theorem Calm.mono {few' : Prop} (h : t.Calm few batch key) (sub : few' → few) :
    t.Calm few' batch key :=
  { h with timed := fun f => h.timed (sub f), vacant := fun absent =>
      ⟨(h.vacant absent).1, fun f => (h.vacant absent).2 (sub f)⟩ }

theorem Tries.mono {few' : Prop} (h : t.Tries few batch key c) (sub : few' → few) :
    t.Tries few' batch key c :=
  { h with timed := fun f => h.timed (sub f) }

/-- A channel that goes on connecting. -/
theorem Tries.same (h : t.Tries few batch key c) (found : t'.channel? key = some c')
    (state : c'.state = c.state) (link : c'.link = c.link) (remote : c'.remote = c.remote)
    (writes : c'.writes.inFlight = c.writes.inFlight) (timers : c'.timers = c.timers)
    (attempt : c'.attempt = c.attempt)
    (same : CompletionQueue.SameWay key batch t.reactor.driver batch' t'.reactor.driver) :
    t'.Tries few batch' key c' where
  found := found
  connecting := state.trans h.connecting
  link := by
    rw [link, remote]
    exact h.link
  idle := writes.trans h.idle
  sends := (h.sends ▸ same .send rfl nofun).eq_nil
  alone := by
    rw [(same .connect rfl nofun).length_eq, (same .retryTimer rfl nofun).length_eq]
    exact h.alone
  tagged token mem := by
    rw [attempt]
    rw [(same .connect rfl nofun).mem_iff, (same .retryTimer rfl nofun).mem_iff] at mem
    exact h.tagged token mem
  timed f := (h.timed f).same (same .connectTimeout rfl nofun) (same .retryTimer rfl nofun)
    timers attempt

/-! ## Acts -/

/-- What a handler adds is of its channel, and of a purpose that it may submit for. -/
theorem Act.spares (act : Act may k t t') (own : p.isChannel = true)
    (bars : k ≠ key ∨ may.Bars p) :
    t.reactor.driver.Spares p key t'.reactor.driver := by
  cases act with
  | host | dispatch | mark | count | hand | complete | markOpen | tune | flag => exact .refl _
  | submit p' attempt op channel sends reads connects =>
    refine .submit ?_ op
    rcases bars with apart | bars
    · exact Token.isOf_of_ne apart
    · have other : p' ≠ p := by
        rintro rfl
        by_cases send : p' = .send
        · exact bars.sends send (sends send)
        · by_cases recv : p' = .recv
          · exact bars.reads recv (reads recv)
          · exact bars.connects send recv (connects send recv)
      simp [other]
  | submitPlain p' op plain =>
    exact .submit (Token.isOf_plain plain own key) op
  | cancel p' attempt => exact .cancelAll [.ofChannel p' k attempt]
  | cancelPlain p' => exact .cancelAll [.plain p']
  | shut c cause =>
    rw [driver_shut]
    exact .cancelAll _
  | release =>
    rw [driver_releaseIfDone]
    exact .refl _

theorem Acts.spares (acts : Acts may k t t') (own : p.isChannel = true)
    (bars : k ≠ key ∨ may.Bars p) : t.reactor.driver.Spares p key t'.reactor.driver := by
  induction acts with
  | refl => exact .refl _
  | tail _ act ih => exact ih.trans (act.spares own bars)

/-- A handler of another channel takes nothing away and adds nothing. -/
theorem Acts.sameWay (acts : Acts may k t t') (apart : k ≠ key)
    (batch : List (IoCompletion Token)) :
    CompletionQueue.SameWay key batch t.reactor.driver batch t'.reactor.driver :=
  fun _ own _ => (acts.spares own (.inl apart)).way batch

theorem Calm.elsewhere (h : t.Calm few batch key) (acts : Acts may k t t') (apart : k ≠ key) :
    t'.Calm few batch key :=
  h.same (acts.untouched (Ne.symm apart)).channel (acts.sameWay apart batch)

theorem Tries.elsewhere (h : t.Tries few batch key c) (acts : Acts may k t t') (apart : k ≠ key) :
    t'.Tries few batch key c :=
  h.same ((acts.untouched (Ne.symm apart)).channel.trans h.found) rfl rfl rfl rfl rfl rfl
    (acts.sameWay apart batch)

/-- What is counted stays counted when the channel is tuned. -/
theorem Calm.tune (h : t.Calm few batch key) {f : Channel → Channel}
    (tuned : ∀ c, t.channel? key = some c → c.Tuned .still (f c)) :
    (t.modifyChannel key f).Calm few batch key := by
  have evolved (c' : Channel) (found : (t.modifyChannel key f).channel? key = some c') :
      ∃ c, t.channel? key = some c ∧ c.Tuned .still c' := by
    obtain ⟨c, before, rfl⟩ := exists_of_channel?_modifyChannel found
    exact ⟨c, before, tuned c before⟩
  refine { h with still := ?_, sends := ?_, timed := ?_, vacant := ?_ }
  · intro c' found
    obtain ⟨c, before, tuned⟩ := evolved c' found
    rw [tuned.state.resolve_right fun opens => opens.1]
    exact h.still c before
  · intro c' found
    obtain ⟨c, before, tuned⟩ := evolved c' found
    rw [tuned.sends.resolve_right not_false]
    exact h.sends c before
  · intro f c' found
    obtain ⟨c, before, tuned⟩ := evolved c' found
    obtain ⟨attempt, timers⟩ := tuned.tries.resolve_right not_false
    exact (h.timed f c before).same (.refl _) (.refl _) timers attempt
  · intro absent
    rw [channel?_modifyChannel, if_pos rfl, Option.map_eq_none_iff] at absent
    exact h.vacant absent

/-- A channel that is closed goes on waiting for what it counts. -/
theorem Calm.shut (h : t.Calm few batch key) {c : Channel} (found : t.channel? key = some c)
    (cause : Failure)
    (same : CompletionQueue.SameWay key batch t.reactor.driver batch
      (t.shut key c cause).reactor.driver) :
    (t.shut key c cause).Calm few batch key := by
  have closed := channel?_shut found cause
  refine ⟨h.rest.same same, ?_, ?_, ?_, ?_⟩
  · intro c' found'
    cases closed.symm.trans found'
    nofun
  · intro c' found'
    cases closed.symm.trans found'
    exact (same .send rfl nofun).length_eq ▸ h.sends c found
  · intro f c' found'
    cases closed.symm.trans found'
    exact (h.timed f c found).same (same .connectTimeout rfl nofun) (same .retryTimer rfl nofun)
      rfl rfl
  · intro absent
    cases closed.symm.trans absent

/-- A channel is removed only if it counts nothing, and then nothing of it is under way. -/
theorem Calm.releaseIfDone (h : t.Calm few batch key) :
    (t.releaseIfDone key).Calm few batch key := by
  obtain stays | ⟨c, found, -, idle, gone, -⟩ := releaseIfDone_cases t key
  · rw [stays]
    exact h
  · have driver := driver_releaseIfDone t key
    simp only [Channel.opsInFlight, Nat.add_eq_zero_iff, Bool.toNat_eq_zero] at idle
    refine ⟨driver ▸ h.rest, ?_, ?_, ?_, ?_⟩
    · intro c' found'
      cases gone.symm.trans found'
    · intro c' found'
      cases gone.symm.trans found'
    · intro _ c' found'
      cases gone.symm.trans found'
    · intro _
      rw [driver]
      have sends := h.sends c found
      rw [idle.1.1.2] at sends
      refine ⟨List.eq_nil_of_length_eq_zero (Nat.le_zero.mp sends), fun f => ?_⟩
      have count := (h.timed f c found).count
      rw [idle.2, h.rest.pauses] at count
      exact List.eq_nil_of_length_eq_zero count.symm

/-- A channel that does not connect is tuned, closed or removed. -/
theorem Act.calm (act : Act .still key t t') (h : t.Calm few batch key) :
    t'.Calm few batch key := by
  have same : CompletionQueue.SameWay key batch t.reactor.driver batch t'.reactor.driver :=
    fun _ own other => (act.spares own (.inr (Scope.still_bars other))).way batch
  cases act with
  | host | dispatch | mark | count | hand | complete | markOpen | flag => exact h.same rfl same
  | submit | submitPlain | cancel | cancelPlain => exact h.same rfl same
  | tune f tuned => exact h.tune tuned
  | shut c cause found live => exact h.shut found cause same
  | release => exact h.releaseIfDone

theorem Acts.calm (acts : Acts .still key t t') (h : t.Calm few batch key) :
    t'.Calm few batch key := by
  induction acts with
  | refl => exact h
  | tail _ act ih => exact act.calm ih

/-! ## Sending -/

theorem Calm.close (h : t.Calm few batch key) (cause : Failure) :
    (t.close key cause).Calm few batch key :=
  Acts.calm (acts_close t key cause) h

/-- A channel that does not connect changes, and counts what it counted. -/
theorem Calm.modify (h : t.Calm few batch key) (found : t.channel? key = some c)
    {f : Channel → Channel} (state : (f c).state ≠ .connecting)
    (sends : (t.reactor.driver.those batch .send key).length ≤ (f c).writes.inFlight.toNat)
    (timers : (f c).timers = c.timers) (attempt : (f c).attempt = c.attempt) :
    (t.modifyChannel key f).Calm few batch key := by
  have modified := channel?_modifyChannel_self found f
  refine ⟨h.rest, ?_, ?_, ?_, ?_⟩
  · intro c' found'
    cases modified.symm.trans found'
    exact state
  · intro c' found'
    cases modified.symm.trans found'
    exact sends
  · intro few' c' found'
    cases modified.symm.trans found'
    exact (h.timed few' c found).same (.refl _) (.refl _) timers attempt
  · intro absent
    cases modified.symm.trans absent

/-- A send that is refused leaves everything on its way as it is. -/
theorem sameWay_of_refused {token : Token} {op : IoOp} {e : Failure}
    (refused : t.submit token op = (.error e, t')) (key : SlotKey)
    (batch : List (IoCompletion Token)) :
    CompletionQueue.SameWay key batch t.reactor.driver batch t'.reactor.driver := by
  intro p _ _
  have result := congrArg Prod.fst refused
  have after := congrArg Prod.snd refused
  subst after
  exact .of_eq (CompletionQueue.those_submit_of_error result)

/-- An operation for something else leaves what is on its way. -/
theorem spares_of_submit {token : Token} {op : IoOp} {result : Except Failure Unit}
    (submitted : t.submit token op = (result, t')) (p : Purpose) (key : SlotKey)
    (other : token.isOf p key = false) : t.reactor.driver.Spares p key t'.reactor.driver := by
  have after := congrArg Prod.snd submitted
  subst after
  exact .submit other op

/-- An operation that is accepted is on its way. -/
theorem those_of_accepted {token : Token} {op : IoOp} {u : Unit}
    (accepted : t.submit token op = (.ok u, t')) (p : Purpose) (key : SlotKey)
    (own : token.isOf p key = true) (batch : List (IoCompletion Token)) :
    (t'.reactor.driver.those batch p key).Perm (token :: t.reactor.driver.those batch p key) := by
  have result := congrArg Prod.fst accepted
  have after := congrArg Prod.snd accepted
  subst after
  exact CompletionQueue.those_submit_of_ok result own batch

/-- A channel that has no send on its way starts one, or it is closed. -/
theorem Calm.flush (h : t.Calm few batch key) : (t.flush key).Calm few batch key := by
  unfold Turn.flush
  split
  · exact h
  · rename_i c found
    split
    · exact h
    · split
      · exact h.same rfl fun _ _ _ => .refl _
      · rename_i writes next
        exact h.modify found (h.still c found)
          ((WriteQueue.nextSend_none next).1 ▸ h.sends c found) rfl rfl
      · rename_i bytes writes next
        obtain ⟨idle, flying⟩ := WriteQueue.nextSend_some next
        have sends := h.sends c found
        rw [idle] at sends
        have none := List.eq_nil_of_length_eq_zero (Nat.le_zero.mp sends)
        have put : (t.putChannel key { c with writes }).Calm few batch key :=
          h.modify found (h.still c found) (none ▸ Nat.zero_le _) rfl rfl
        have found' := channel?_putChannel_self found { c with writes }
        simp only
        split
        · rename_i t' accepted
          have channel := (log_submit accepted).2 key
          have posted := those_of_accepted accepted .send key (by simp) batch
          have spares (p : Purpose) (other : p ≠ .send) :=
            (spares_of_submit accepted p key (by simp [Ne.symm other])).way batch
          refine ⟨⟨(put.rest.connects ▸ spares .connect (by decide)).eq_nil,
            (put.rest.pauses ▸ spares .retryTimer (by decide)).eq_nil⟩,
            fun c' here => put.still c' (channel ▸ here), ?_, ?_, ?_⟩
          · intro c' here
            cases (channel.trans found').symm.trans here
            rw [posted.length_eq, List.length_cons]
            simpa [flying, putChannel, modifyChannel] using none
          · intro f c' here
            exact (put.timed f c' (channel ▸ here)).same (spares .connectTimeout (by decide))
              (spares .retryTimer (by decide)) rfl rfl
          · intro absent
            cases (channel.trans found').symm.trans absent
        · rename_i e t' refused
          have channel := (log_submit refused).2 key
          have kept := put.same channel (sameWay_of_refused refused key batch)
          have none' : t'.reactor.driver.those batch .send key = [] :=
            (none ▸ sameWay_of_refused refused key batch .send rfl (by decide)).eq_nil
          exact (kept.modify (channel.trans found') (h.still c found)
            (none' ▸ Nat.zero_le _) rfl rfl).close e

theorem Calm.write (h : t.Calm few batch key) (bytes : Bytes) :
    (t.write key bytes).Calm few batch key := by
  simp only [Turn.write]
  split
  · exact h
  · rename_i c found
    split
    · exact h
    · have flying := c.writes.inFlight_push bytes
      exact (h.modify found (h.still c found) (flying ▸ h.sends c found) rfl rfl).flush

/-! ## Serving -/

/-- Whatever a handler does that makes no attempt, a channel that does not connect stays one. -/
theorem Attends.calm (attends : Attends .still key t t') (h : t.Calm few batch key) :
    t'.Calm few batch key := by
  induction attends with
  | refl => exact h
  | tail _ attend ih =>
    cases attend with
    | act act => exact act.calm ih
    | respond => exact ih.write _

end Turn

end PartitionEngine
