import PartitionEngine.Proofs.Coherence
import PartitionEngine.Proofs.RemoteCalls
import PartitionEngine.Proofs.Sending

/-!
# The channel that leads to an endpoint

A reactor has one channel for an endpoint, the one that its entry names.  The frames of
requests for that endpoint are put into it, whole and in the order of the tasks that
carry them (`Turn.puts_onTask`).  Besides, the reactor puts whole responses into it, to
requests that came in there (`Turn.replies_onCompletion`).  When the channel is made
nothing was put into it but the request that it was made for (`Turn.Fit.accounts_made`).
-/

namespace PartitionEngine

/-- The bytes of a task that are to be sent to an endpoint. -/
def Task.bytesTo? (e : Endpoint) : Task → Option Bytes
  | .write l bytes _ => if l.endpoint = e then some bytes else none
  | _ => none

/-- How many bytes a send took that has come back on a channel, or its error. -/
def IoCompletion.sent? (c : IoCompletion Token) (key : SlotKey) : Option Int :=
  if c.token.purpose? = some .send ∧ c.token.key = key then some c.result else none

/-- What is on its way out of a channel when a completion is there. -/
def Outlet.handled (out : Outlet) (key : SlotKey) (c : IoCompletion Token) : Outlet :=
  (c.sent? key).elim out out.back

/-- Bytes are the frames of responses, one after the other. -/
def Responses (threshold : Nat) (bytes : Bytes) : Prop :=
  ∃ ms : List Frame, (∀ m ∈ ms, m.Plain ∧ m.isResponse = true)
    ∧ bytes = ms.flatMap fun m => m.encodeMessage threshold

namespace Responses

variable {threshold : Nat} {bytes bytes' : Bytes}

theorem nil (threshold : Nat) : Responses threshold [] := ⟨[], nofun, rfl⟩

theorem append (h : Responses threshold bytes) (h' : Responses threshold bytes') :
    Responses threshold (bytes ++ bytes') := by
  obtain ⟨ms, each, rfl⟩ := h
  obtain ⟨ms', each', rfl⟩ := h'
  exact ⟨ms ++ ms', fun m mem => (List.mem_append.mp mem).elim (each m) (each' m),
    List.flatMap_append.symm⟩

/-- What a response is encoded to. -/
theorem of_encodeResponse {σ : Type} (s : Shared σ) (opcode : UInt8) (id : UInt64)
    (p : Partition) (result : Except ErrorRecord Bytes) :
    Responses s.config.fragmentThreshold (s.encodeResponse opcode id p result).1 := by
  refine ⟨[Frame.response opcode id p result], fun m mem => ?_, (List.append_nil _).symm⟩
  rw [List.mem_singleton.mp mem]
  refine ⟨Frame.plain_response opcode id p result, ?_⟩
  have flagged : (Flag.response &&& Flag.response != 0) = true
      ∧ ((Flag.response ||| Flag.error) &&& Flag.response != 0) = true := by decide
  cases result with
  | ok => exact flagged.1
  | error => exact flagged.2

end Responses

namespace Turn

variable {σ : Type} {may : Scope} {K : Link → Prop} {key : SlotKey} {e : Endpoint}
  {t t' t'' : Turn σ}

/-! ## Serving -/

/-- A reactor puts responses into a channel, and nothing else. -/
structure Replies (key : SlotKey) (t t' : Turn σ) : Prop where
  config : t'.config = t.config
  puts : ∃ bytes, Responses t.config.fragmentThreshold bytes ∧ Puts key bytes t t'

namespace Replies

theorem of_acts (acts : Acts .silent key t t') : Replies key t t' :=
  ⟨acts.config, [], .nil _, acts.puts not_false⟩

theorem of_ne {k : SlotKey} (acts : Acts may k t t') (apart : k ≠ key) : Replies key t t' :=
  ⟨acts.config, [], .nil _, acts.puts_of_ne apart⟩

theorem refl (key : SlotKey) (t : Turn σ) : Replies key t t := of_acts (.refl t)

/-- A response is put into one channel. -/
theorem write {bytes : Bytes} (key k : SlotKey)
    (responses : Responses t.config.fragmentThreshold bytes) :
    Replies key t (t.write k bytes) := by
  have acts : Acts .all k t (t.write k bytes) := acts_write t k bytes trivial
  by_cases same : k = key
  · subst same
    exact ⟨acts.config, bytes, responses, puts_write t k bytes⟩
  · exact .of_ne acts same

theorem trans (h : Replies key t t') (h' : Replies key t' t'') : Replies key t t'' := by
  obtain ⟨config, bytes, responses, puts⟩ := h
  obtain ⟨config', bytes', responses', puts'⟩ := h'
  exact ⟨config'.trans config, bytes ++ bytes', responses.append (config ▸ responses'),
    puts.trans puts'⟩

end Replies

/-- The answer to a request that was run is put into a channel. -/
theorem replies_answer {f : Frame} {bytes : Bytes} (executed : t.execute f = (some bytes, t'))
    (key k : SlotKey) : Replies key t (t'.write k bytes) := by
  have ran : Acts .silent key t (t.execute f).2 := acts_execute t key f trivial
  obtain ⟨result, rfl⟩ := exists_response_of_execute executed
  rw [executed] at ran
  exact (Replies.of_acts ran).trans (.write key k (.of_encodeResponse t'.shared _ _ _ result))

/-- A reactor that attends to a channel puts responses into it, if it sends nothing else. -/
theorem Attends.replies (attends : Attends .silent key t t') : Replies key t t' := by
  induction attends with
  | refl => exact .refl key t
  | tail _ attend ih =>
    cases attend with
    | act act => exact ih.trans (.of_acts (.of_act act))
    | respond opcode id p result =>
      exact ih.trans (.write key key (.of_encodeResponse _ opcode id p result))

/-! ## Completions -/

/-- A channel that is made is none that was there. -/
theorem addChannel_ne (exact : t.reactor.channels.FreeExact)
    (room : t.reactor.channels.slots.length < Slab.maxSlots)
    (held : (t.channel? key).isSome = true) (c : Channel) : (t.addChannel c).1 ≠ key := by
  rintro rfl
  have fresh : t.channel? (t.addChannel c).1 = none := Slab.get?_alloc_key exact room c
  rw [fresh] at held
  cases held

/-- A connection that comes in gets a channel of its own. -/
theorem replies_adopt (exact : t.reactor.channels.FreeExact)
    (room : t.reactor.channels.slots.length < Slab.maxSlots)
    (held : (t.channel? key).isSome = true) (socket : Nat) (remote : Option Endpoint) :
    Replies key t (t.adopt socket remote) := by
  cases remote with
  | none => exact .of_acts (.of_act (.host t _))
  | some remote =>
    let c := Channel.accepted (some socket) remote t.config.maxMessageSize
    have apart := addChannel_ne exact room held c
    have added : Replies key t (t.addChannel c).2 := by
      refine ⟨rfl, [], .nil _, .of_untouched (List.nil_append _).symm nofun ?_⟩
      exact (channel?_addChannel exact room c key).trans (if_neg (Ne.symm apart))
    have acts : Acts .all (t.addChannel c).1 (t.addChannel c).2 (t.adopt socket (some remote)) :=
      acts_adopt t socket remote trivial
    exact added.trans (.of_ne acts apart)

/-- A completion that is not of a send puts nothing but responses into a channel. -/
theorem replies_onCompletion (exact : t.reactor.channels.FreeExact)
    (room : t.reactor.channels.slots.length < Slab.maxSlots)
    (held : (t.channel? key).isSome = true) {c : IoCompletion Token} (other : c.sent? key = none) :
    Replies key t (t.onCompletion c) := by
  by_cases accepts : c.token.purpose? = some .accept
  · have flagged : Acts .silent key t t.afresh := .of_act (.flag t false)
    have marked : Replies key t t.afresh.unarmed :=
      .of_acts (flagged.trans (acts_unarmed t.afresh key trivial))
    rw [onCompletion_of_accept t accepts]
    obtain acts | acts := onAccept_cases .silent t.afresh c.result c.remote trivial
    · exact .of_acts (flagged.trans (acts key))
    · have adopted := replies_adopt (t := t.afresh.unarmed) exact room held c.result.toNat c.remote
      exact (marked.trans adopted).trans (.of_acts (acts key))
  · by_cases own : c.token.key = key
    · subst own
      have released (t : Turn σ) :
          Replies c.token.key t (t.andThen (·.releaseIfDone c.token.key)) :=
        .of_acts (acts_release t c.token.key)
      have flagged : Replies c.token.key t t.afresh := .of_acts (.of_act (.flag t false))
      refine flagged.trans ?_
      simp only [onCompletion]
      generalize t.afresh = t
      cases kind : c.token.purpose? with
      | none => exact .refl _ t
      | some p =>
        cases p with
        | accept => exact absurd kind accepts
        | wakeup => exact .of_acts (acts_onWakeup t _ trivial)
        | drainTimer => exact .of_acts (acts_onDrainTimer t _ _ trivial)
        | recv =>
          exact (attends_onRecv t _ _ _ (Scope.routes_silent _ _) trivial trivial).replies.trans
            (released _)
        | send => simp [IoCompletion.sent?, kind] at other
        | connect =>
          have acts : Acts .all c.token.key t _ :=
            acts_onConnect trivial t c.token.key c.token.attempt c.result trivial trivial trivial
          have connected : Replies c.token.key t _ :=
            ⟨acts.config, [], .nil _, puts_onConnect t _ _ _⟩
          exact connected.trans (released _)
        | connectTimeout =>
          exact (Replies.of_acts (acts_onConnectTimeout t _ _ _ trivial)).trans (released _)
        | retryTimer => exact (Replies.of_acts (acts_onRetryTimer t _ _ trivial)).trans (released _)
    · have acts : Acts .all c.token.key t (t.onCompletion c) :=
        acts_all_onCompletion t c accepts
      exact .of_ne acts own

/-- What a completion does to the account of a channel.  A send that comes back took the
front of what it was offered. -/
theorem accounts_onCompletion {put : Bytes} {out : Outlet} (exact : t.reactor.channels.FreeExact)
    (room : t.reactor.channels.slots.length < Slab.maxSlots)
    (held : (t.channel? key).isSome = true) (h : t.Accounts key put out) (c : IoCompletion Token)
    (honest : ∀ result, c.sent? key = some result →
      ∃ offered, out.offered = some offered ∧ result.toNat ≤ offered.length) :
    ∃ bytes, Responses t.config.fragmentThreshold bytes
      ∧ (t.onCompletion c).Accounts key (put ++ bytes)
          ((t.asked (t.onCompletion c)).foldr (Outlet.note key) (out.handled key c)) := by
  cases sent : c.sent? key with
  | none =>
    obtain ⟨-, bytes, responses, puts⟩ := replies_onCompletion exact room held sent
    refine ⟨bytes, responses, ?_⟩
    rw [Outlet.handled, sent]
    exact puts.accounts put out h
  | some result =>
    have own := sent
    simp only [IoCompletion.sent?, Option.ite_none_right_eq_some] at own
    obtain ⟨⟨kind, rfl⟩, same⟩ := own
    cases same
    have h : t.afresh.Accounts c.token.key put out := h
    obtain ⟨log, accounts⟩ := accounts_onSend h (honest _ sent)
    have release : Acts .silent c.token.key (t.afresh.onSend c.token.key c.result) _ :=
      acts_release _ c.token.key
    refine ⟨[], .nil _, ?_⟩
    rw [Outlet.handled, sent]
    simp only [onCompletion, kind]
    exact (release.puts not_false).after log accounts

/-! ## Entries -/

/-- A handler makes no entry for an endpoint. -/
theorem Act.entry {k : SlotKey} (act : Act may k t t')
    (entry : t'.reactor.outbound.get? e = some key) : t.reactor.outbound.get? e = some key := by
  cases act with
  | shut c cause => exact (entry_shut entry).1
  | release =>
    rw [releaseIfDone_eq] at entry
    exact entry
  | _ => exact entry

theorem Acts.entry {k : SlotKey} (acts : Acts may k t t')
    (entry : t'.reactor.outbound.get? e = some key) : t.reactor.outbound.get? e = some key := by
  induction acts with
  | refl => exact entry
  | tail _ act ih => exact ih (act.entry entry)

theorem entry_adopt {socket : Nat} {remote : Option Endpoint}
    (entry : (t.adopt socket remote).reactor.outbound.get? e = some key) :
    t.reactor.outbound.get? e = some key := by
  cases remote with
  | none => exact entry
  | some remote =>
    have adopted : Acts .all _ _ (t.adopt socket (some remote)) :=
      acts_adopt t socket remote trivial
    exact adopted.entry entry

theorem entry_onCompletion {c : IoCompletion Token}
    (entry : (t.onCompletion c).reactor.outbound.get? e = some key) :
    t.reactor.outbound.get? e = some key := by
  by_cases accepts : c.token.purpose? = some .accept
  · rw [onCompletion_of_accept t accepts] at entry
    obtain acts | acts := onAccept_cases .all t.afresh c.result c.remote trivial
    · exact (acts key).entry (t := t.afresh) entry
    · exact entry_adopt (t := t.afresh.unarmed) ((acts key).entry entry)
  · have acts : Acts .all c.token.key t (t.onCompletion c) :=
      acts_all_onCompletion t c accepts
    exact acts.entry entry

/-- A channel is made for the endpoint of a link, and for no other. -/
theorem entry_outboundChannel {l : Link}
    (entry : (t.outboundChannel l).2.reactor.outbound.get? e = some key) :
    t.reactor.outbound.get? e = some key
      ∨ l.endpoint = e ∧ key = (t.makeChannel l).1
        ∧ (t.outboundChannel l).2 = (t.makeChannel l).2.startConnect (t.makeChannel l).1 := by
  rcases outboundChannel_cases t l with ⟨k, c, -, -, -, same⟩ | ⟨made, -⟩
  · rw [same] at entry
    exact .inl entry
  · rw [made] at entry
    have before : (t.reactor.outbound.insert l.endpoint (t.makeChannel l).1).get? e = some key :=
      (acts_startConnect _ _ trivial : Acts .all _ _ _).entry entry
    rw [Assoc.get?_insert] at before
    split at before
    · rename_i same
      cases before
      exact .inr ⟨same.symm, rfl, made⟩
    · exact .inl before

/-! ## Tasks -/

/-- The channel that the entry for an endpoint names is there. -/
theorem Fit.held (h : t.Fit K) (entry : t.reactor.outbound.get? e = some key) :
    (t.channel? key).isSome = true := by
  obtain ⟨l, ⟨c, found, -⟩, -⟩ := h.entry e key entry
  rw [found]
  rfl

theorem Fit.outboundChannel_of_entry (h : t.Fit K) {l : Link}
    (entry : t.reactor.outbound.get? l.endpoint = some key) :
    t.outboundChannel l = (some key, t) := by
  obtain ⟨-, ⟨c, found, usable, -⟩, -⟩ := h.entry l.endpoint key entry
  rcases usable with connecting | isOpen
  · simp [Turn.outboundChannel, entry, Option.filter, found, connecting]
  · simp [Turn.outboundChannel, entry, Option.filter, found, isOpen]

/-- What serves another endpoint is another channel than the one that an entry named. -/
theorem Fit.apart {k : SlotKey} {l : Link} (h : t.Fit K)
    (entry : t.reactor.outbound.get? e = some key) (same : t'.channel? key = t.channel? key)
    (serves : t'.Serves k l) (other : l.endpoint ≠ e) : k ≠ key := by
  rintro rfl
  obtain ⟨l', ⟨c, found, -, link⟩, endpoint⟩ := h.entry e k entry
  obtain ⟨c', found', -, link'⟩ := serves
  cases (same.trans found).symm.trans found'
  cases link.symm.trans link'
  exact other endpoint

/-- Whatever link a reactor connects, it leaves the channels alone that it has. -/
theorem replies_outboundChannel (h : t.Fit K)
    (room : t.reactor.channels.slots.length < Slab.maxSlots)
    (held : (t.channel? key).isSome = true) (l : Link) :
    Replies key t (t.outboundChannel l).2
      ∧ (t.outboundChannel l).2.channel? key = t.channel? key := by
  rcases outboundChannel_cases t l with ⟨k, c, -, -, -, same⟩ | ⟨made, -⟩
  · rw [same]
    exact ⟨.refl key t, rfl⟩
  · let c := Channel.outbound l t.config.maxMessageSize
    have apart : (t.makeChannel l).1 ≠ key := addChannel_ne h.exact room held c
    have channel : (t.makeChannel l).2.channel? key = t.channel? key :=
      (channel?_addChannel h.exact room c key).trans (if_neg (Ne.symm apart))
    have acts : Acts .all (t.makeChannel l).1 (t.makeChannel l).2 _ := acts_startConnect _ _ trivial
    have new : Replies key t (t.makeChannel l).2 :=
      ⟨rfl, [], .nil _, .of_untouched (List.nil_append _).symm nofun channel⟩
    rw [made]
    exact ⟨new.trans (.of_ne acts apart), (acts.untouched (Ne.symm apart)).channel.trans channel⟩

/-- A task that carries bytes for an endpoint puts them into its channel.  Any other puts
nothing but responses into it. -/
theorem puts_onTask (h : t.Fit K) (room : t.reactor.channels.slots.length < Slab.maxSlots)
    {task : Task} (known : ∀ l, task.link? = some l → K l)
    (entry : t.reactor.outbound.get? e = some key)
    (responds : ∀ channel bytes, task = .reply channel bytes →
      Responses t.config.fragmentThreshold bytes)
    (still : (t.onTask task).reactor.stopping = false) :
    ∃ bytes, Puts key bytes t (t.onTask task)
      ∧ (task.bytesTo? e = some bytes
        ∨ task.bytesTo? e = none ∧ Responses t.config.fragmentThreshold bytes) := by
  have held := h.held entry
  have going : t.reactor.stopping = false := by
    cases stopping : t.reactor.stopping with
    | false => rfl
    | true => exact ((h.onTask room task known).evolves.stopping stopping).symm.trans still
  have replies {t' : Turn σ} (h : Replies key t t') (nothing : task.bytesTo? e = none) :
      ∃ bytes, Puts key bytes t t' ∧ (task.bytesTo? e = some bytes
        ∨ task.bytesTo? e = none ∧ Responses t.config.fragmentThreshold bytes) := by
    obtain ⟨-, bytes, responses, puts⟩ := h
    exact ⟨bytes, puts, .inr ⟨nothing, responses⟩⟩
  have step := t.taskStep_onTask task
  generalize t.onTask task = t' at step still ⊢
  cases step with
  | rejected stopping => cases going.symm.trans stopping
  | executed r correlationId =>
    exact replies (.of_acts (acts_runLocal t key r correlationId trivial trivial)) rfl
  | connected l => exact replies (replies_outboundChannel h room held l).1 rfl
  | written l bytes correlationId k going ready =>
    by_cases here : l.endpoint = e
    · subst here
      rw [h.outboundChannel_of_entry entry] at ready ⊢
      cases ready
      exact ⟨bytes, puts_write t key bytes, .inl (if_pos rfl)⟩
    · obtain ⟨made, channel⟩ := replies_outboundChannel h room held l
      obtain ⟨-, serves, -⟩ := h.outboundChannel room (known l rfl)
      obtain ⟨l', serves, endpoint⟩ := serves k ready
      have apart : k ≠ key := h.apart entry channel serves fun same => here (endpoint ▸ same)
      have wrote : Acts .all k (t.outboundChannel l).2 _ := acts_write _ k bytes trivial
      exact replies (made.trans (.of_ne wrote apart)) (if_neg here)
  | unwritten l bytes correlationId going lost =>
    by_cases here : l.endpoint = e
    · subst here
      rw [h.outboundChannel_of_entry entry] at lost
      cases lost
    · exact replies (replies_outboundChannel h room held l).1 (if_neg here)
  | forwarded f replyTo =>
    refine replies ?_ rfl
    have ran : Acts .silent key t (t.execute f).2 := acts_execute t key f trivial
    obtain same | ⟨bytes, answered, same | same⟩ := runForwarded_cases t f replyTo
    · rw [same]
      exact .of_acts ran
    · rw [same]
      exact replies_answer (Prod.ext answered rfl) key replyTo.key
    · rw [same]
      exact .of_acts (ran.tail (.hand _ _ _ rfl trivial))
  | replied channel bytes => exact replies (.write key channel.key (responds channel bytes rfl)) rfl
  | stopped => cases still.symm.trans (stopping_beginStop t)

/-- A channel that is made for a link has the entry for its endpoint, and nothing was put
into it. -/
theorem Fit.entry_made (h : t.Fit K) (room : t.reactor.channels.slots.length < Slab.maxSlots)
    {l : Link} (known : K l) (absent : t.reactor.outbound.get? e = none)
    (entry : (t.outboundChannel l).2.reactor.outbound.get? e = some key) :
    l.endpoint = e ∧ (t.outboundChannel l).1 = some key
      ∧ (∃ events, (t.outboundChannel l).2.reactor.driver.log = events ++ t.reactor.driver.log)
      ∧ (t.outboundChannel l).2.Accounts key []
          ((t.asked (t.outboundChannel l).2).foldr (Outlet.note key) {}) := by
  obtain ⟨endpoint, rfl, made⟩ := (entry_outboundChannel entry).resolve_left fun there => by
    cases absent.symm.trans there
  obtain ⟨proceeds, fresh⟩ := h.makeChannel room known
  have acts (may : Scope) (connects : may.connects) : Acts may (t.makeChannel l).1
      (t.makeChannel l).2 (t.outboundChannel l).2 := made ▸ acts_startConnect _ _ connects
  have started : Puts (t.makeChannel l).1 [] (t.makeChannel l).2 (t.outboundChannel l).2 :=
    (acts .silent trivial).puts not_false
  have empty : (t.makeChannel l).2.Accounts (t.makeChannel l).1 [] {} := fun c found _ => by
    cases fresh.symm.trans found
    exact ⟨rfl, rfl, nofun⟩
  refine ⟨endpoint, ?_, started.log, started.accounts [] {} empty⟩
  cases first : (t.outboundChannel l).1 with
  | some k =>
    obtain ⟨k', c, there, -, -, same⟩ | ⟨-, some, -⟩ := outboundChannel_cases t l
    · rw [same] at entry
      cases absent.symm.trans entry
    · rw [(some k first).1]
  | none =>
    -- The entry names a channel that can be used, and this one connects no longer.
    obtain ⟨-, ⟨c, found, usable, -⟩, -⟩ := (proceeds.acts (acts .own trivial)).fit.entry e _ entry
    obtain ⟨k', c', there, -, -, same⟩ | ⟨-, -, none⟩ := outboundChannel_cases t l
    · rw [same] at first
      cases first
    · rcases ((acts .own trivial).channel fresh c found).2 with tuned | closed
      · rcases tuned.state with same | ⟨never, -⟩
        · exact absurd same (none first c found)
        · exact absurd never not_false
      · exact absurd usable (not_isUsable_of_isClosed closed)

/-- A task that makes the channel for an endpoint puts the bytes into it that it carries,
and nothing else. -/
theorem Fit.accounts_made (h : t.Fit K) (room : t.reactor.channels.slots.length < Slab.maxSlots)
    {task : Task} (known : ∀ l, task.link? = some l → K l)
    (absent : t.reactor.outbound.get? e = none)
    (entry : (t.onTask task).reactor.outbound.get? e = some key)
    (still : (t.onTask task).reactor.stopping = false) :
    (t.onTask task).Accounts key ((task.bytesTo? e).getD [])
      ((t.asked (t.onTask task)).foldr (Outlet.note key) {}) := by
  have never {k : SlotKey} {t' : Turn σ} (acts : Acts .all k t t')
      (entry : t'.reactor.outbound.get? e = some key) : False := by
    cases absent.symm.trans (acts.entry entry)
  cases stopping : t.reactor.stopping with
  | true =>
    simp only [Turn.onTask, stopping, if_true] at entry
    exact (never (acts_reject t key task trivial) entry).elim
  | false =>
    simp only [Turn.onTask, stopping, Bool.false_eq_true, if_false] at entry still ⊢
    cases task with
    | execute r correlationId =>
      exact (never (acts_runLocal t key r correlationId trivial trivial) entry).elim
    | connect l => exact (h.entry_made room (known l rfl) absent entry).2.2.2
    | write l bytes correlationId =>
      simp only at entry ⊢
      split at entry
      · rename_i k t' result
        have made (entry : (t.outboundChannel l).2.reactor.outbound.get? e = some key) :=
          h.entry_made room (known l rfl) absent entry
        rw [result] at made
        have acts : Acts .all k t' (t'.write k bytes) := acts_write t' k bytes trivial
        obtain ⟨rfl, same, log, accounts⟩ := made (acts.entry entry)
        cases same
        rw [Task.bytesTo?, if_pos rfl]
        exact (puts_write t' key bytes).after log accounts
      · rename_i t' result
        have made (entry : (t.outboundChannel l).2.reactor.outbound.get? e = some key) :=
          h.entry_made room (known l rfl) absent entry
        rw [result] at made
        cases (made entry).2.1
    | forward f replyTo =>
      exact (never (acts_runForwarded t f replyTo (Scope.serving_all _ _) trivial) entry).elim
    | reply channel bytes => exact (never (acts_write t channel.key bytes trivial) entry).elim
    | stop => cases still.symm.trans (stopping_beginStop t)

end Turn

end PartitionEngine
