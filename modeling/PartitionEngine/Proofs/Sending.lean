import PartitionEngine.Proofs.Evolving
import PartitionEngine.Proofs.WriteQueues

/-!
# Bytes on their way out

Of the bytes that were put into a channel, a driver has taken the front, and the rest
waits (`Channel.Keeps`).  What the driver was offered and took is read off what was asked
of it (`Outlet`).  A reactor puts bytes into a channel with `Turn.write` alone
(`puts_write`).  Whatever else it does, it merges the chunks that wait and offers them,
and keeps their order (`Acts.puts`, `puts_flush`).  A send that comes back with a part of
what it was offered leaves the rest in front (`accounts_onSend`).
-/

namespace PartitionEngine

/-! ## What is asked of a driver -/

namespace CompletionQueue

theorem log_submit (q : CompletionQueue) (token : Token) (op : IoOp) :
    (q.submit token op).2.log = .submitted { token, op } (q.refusal? op.kind) :: q.log := by
  simp only [submit]
  split
  · rename_i refused
    rw [refused]
    rfl
  · rename_i accepted
    rw [accepted]
    split <;> rfl

theorem refusal?_of_submit_ok {q q' : CompletionQueue} {token : Token} {op : IoOp}
    (accepted : q.submit token op = (.ok (), q')) : q.refusal? op.kind = none := by
  simp only [submit] at accepted
  split at accepted
  · cases accepted
  · assumption

theorem refusal?_of_submit_error {q q' : CompletionQueue} {token : Token} {op : IoOp} {e : Failure}
    (refused : q.submit token op = (.error e, q')) : ∃ errno, q.refusal? op.kind = some errno := by
  simp only [submit] at refused
  split at refused
  · rename_i errno refusal
    exact ⟨errno, refusal⟩
  · split at refused <;> cases refused

end CompletionQueue

/-- The bytes that a driver took over to send on a channel. -/
def DriverEvent.offer? (key : SlotKey) : DriverEvent → Option Bytes
  | .submitted ⟨token, .send _ bytes⟩ none =>
    if token = .ofChannel .send key then some bytes else none
  | _ => none

theorem DriverEvent.offer?_of_token {key : SlotKey} {token : Token} (op : IoOp)
    (refusal : Option Int) (other : token ≠ .ofChannel .send key) :
    (submitted { token, op } refusal).offer? key = none := by
  cases op <;> cases refusal <;> simp [offer?, other]

theorem Token.ofChannel_ne {p : Purpose} {key k : SlotKey} (attempt : UInt8)
    (other : p ≠ .send ∨ k ≠ key) : ofChannel p k attempt ≠ ofChannel .send key := by
  intro same
  rcases other with apart | apart
  · exact apart (Purpose.byte_inj.mp (congrArg Token.kind same))
  · exact apart (congrArg Token.key same)

theorem Token.plain_ne {p : Purpose} (key : SlotKey) (own : p.isChannel = false) :
    plain p ≠ ofChannel .send key := by
  intro same
  have kinds : p.byte = Purpose.send.byte := congrArg Token.kind same
  rw [Purpose.byte_inj.mp kinds] at own
  cases own

/-- What went out of a channel. -/
structure Outlet where
  /-- The bytes that the driver took. -/
  taken : Bytes := []
  /-- The bytes that the send under way was offered. -/
  offered : Option Bytes := none

namespace Outlet

/-- Notes what was asked of a driver. -/
def note (key : SlotKey) (event : DriverEvent) (out : Outlet) : Outlet :=
  match event.offer? key with
  | some bytes => { out with offered := some bytes }
  | none => out

/-- A send has come back with the number of bytes it took. -/
def back (out : Outlet) (result : Int) : Outlet where
  taken := out.taken ++ (out.offered.getD []).take result.toNat

theorem foldr_note_of_silent {key : SlotKey} {events : List DriverEvent}
    (silent : ∀ event ∈ events, event.offer? key = none) (out : Outlet) :
    events.foldr (note key) out = out := by
  induction events with
  | nil => rfl
  | cons event rest ih =>
    rw [List.foldr_cons, ih fun event mem => silent event (List.mem_cons_of_mem _ mem), note,
      silent event List.mem_cons_self]

end Outlet

/-! ## What waits -/

/-- Of the bytes that were put into a channel, those that were not taken wait.  The send
under way was offered the front of them. -/
structure Channel.Keeps (c : Channel) (put : Bytes) (out : Outlet) : Prop where
  bytes : put = out.taken ++ c.writes.bytes
  sending : c.writes.inFlight = out.offered.isSome
  front : ∀ offered, out.offered = some offered →
    ∃ first rest, c.writes.chunks.toList = first :: rest ∧ offered = first.take maxSend

namespace Channel.Keeps

variable {c c' : Channel} {put : Bytes} {out : Outlet}

theorem of_writes (h : c.Keeps put out) (same : c'.writes = c.writes) : c'.Keeps put out :=
  ⟨same ▸ h.bytes, same ▸ h.sending, same ▸ h.front⟩

/-- More bytes wait behind the others. -/
theorem push (h : c.Keeps put out) (chunk : Bytes) (same : c'.writes = c.writes.push chunk) :
    c'.Keeps (put ++ chunk) out where
  bytes := by rw [same, WriteQueue.bytes_push, h.bytes, List.append_assoc]
  sending := by rw [same, WriteQueue.inFlight_push, h.sending]
  front offered sent := by
    obtain ⟨first, rest, chunks, whole⟩ := h.front offered sent
    rw [same]
    simp only [WriteQueue.push]
    split
    · exact ⟨first, rest, chunks, whole⟩
    · exact ⟨first, rest ++ [chunk], by simp [chunks], whole⟩

/-- A send comes back. -/
theorem consume (h : c.Keeps put out) {offered : Bytes} (sent : out.offered = some offered)
    {result : Int} (most : result.toNat ≤ offered.length)
    (same : c'.writes = c.writes.consume result.toNat) : c'.Keeps put (out.back result) where
  bytes := by
    obtain ⟨first, rest, chunks, rfl⟩ := h.front offered sent
    have short : result.toNat ≤ maxSend := by
      rw [List.length_take] at most
      exact Nat.le_trans most (Nat.min_le_left ..)
    have part : (first.take maxSend).take result.toNat = first.take result.toNat := by
      rw [List.take_take, Nat.min_eq_left short]
    rw [h.bytes, WriteQueue.bytes_consume chunks result.toNat, same, Outlet.back, sent,
      Option.getD_some, part, List.append_assoc]
  sending := by
    rw [same, WriteQueue.inFlight_consume]
    rfl
  front _ sent := by cases sent

end Channel.Keeps

/-- A handler that sends nothing. -/
def Scope.silent : Scope := { sends := False }

theorem Scope.routes_silent (count i : Nat) : silent.Routes count i :=
  ⟨fun _ _ => trivial, fun _ _ => trivial⟩

namespace Turn

variable {σ : Type} {may : Scope} {key k : SlotKey} {t t' t'' : Turn σ} {bytes bytes' put : Bytes}
  {out : Outlet}

/-- Of the bytes that were put into a channel, those that were not taken wait, unless the
channel was closed. -/
def Accounts (t : Turn σ) (key : SlotKey) (put : Bytes) (out : Outlet) : Prop :=
  ∀ c, t.channel? key = some c → c.state.isClosed = false → c.Keeps put out

/-- A channel that is gone or was closed has no account. -/
theorem accounts_of_closed
    (closed : ∀ c, t.channel? key = some c → c.state.isClosed = true) : t.Accounts key put out := by
  intro c found live
  cases (closed c found).symm.trans live

/-- What a reactor asked of its driver, the last first. -/
def asked (t t' : Turn σ) : List DriverEvent :=
  t'.reactor.driver.log.take (t'.reactor.driver.log.length - t.reactor.driver.log.length)

theorem asked_eq {events : List DriverEvent}
    (log : t'.reactor.driver.log = events ++ t.reactor.driver.log) : t.asked t' = events := by
  rw [asked, log, List.length_append, Nat.add_sub_cancel, List.take_left]

/-- A reactor puts bytes into a channel.  What it asks of its driver tells what was
offered. -/
structure Puts (key : SlotKey) (bytes : Bytes) (t t' : Turn σ) : Prop where
  log : ∃ events, t'.reactor.driver.log = events ++ t.reactor.driver.log
  accounts : ∀ put out, t.Accounts key put out →
    t'.Accounts key (put ++ bytes) ((t.asked t').foldr (Outlet.note key) out)

namespace Puts

/-- What asks for no send on the channel. -/
theorem of_silent {events : List DriverEvent}
    (log : t'.reactor.driver.log = events ++ t.reactor.driver.log)
    (silent : ∀ event ∈ events, event.offer? key = none)
    (accounts : ∀ put out, t.Accounts key put out → t'.Accounts key (put ++ bytes) out) :
    Puts key bytes t t' where
  log := ⟨events, log⟩
  accounts put out h := by
    rw [asked_eq log, Outlet.foldr_note_of_silent silent]
    exact accounts put out h

/-- What leaves the channel alone and asks for no send on it. -/
theorem of_untouched {events : List DriverEvent}
    (log : t'.reactor.driver.log = events ++ t.reactor.driver.log)
    (silent : ∀ event ∈ events, event.offer? key = none)
    (channel : t'.channel? key = t.channel? key) : Puts key [] t t' :=
  of_silent log silent fun put out h c found live => by
    rw [List.append_nil]
    exact h c (channel ▸ found) live

theorem refl (key : SlotKey) (t : Turn σ) : Puts key [] t t :=
  @of_untouched _ key t t [] rfl nofun rfl

theorem log_trans (log : ∃ events, t'.reactor.driver.log = events ++ t.reactor.driver.log)
    (log' : ∃ events, t''.reactor.driver.log = events ++ t'.reactor.driver.log) :
    (∃ events, t''.reactor.driver.log = events ++ t.reactor.driver.log)
      ∧ t.asked t'' = t'.asked t'' ++ t.asked t' := by
  obtain ⟨events, log⟩ := log
  obtain ⟨events', log'⟩ := log'
  have both : t''.reactor.driver.log = (events' ++ events) ++ t.reactor.driver.log := by
    rw [log', log, List.append_assoc]
  exact ⟨⟨_, both⟩, by rw [asked_eq both, asked_eq log, asked_eq log']⟩

/-- More bytes are put into a channel that has an account. -/
theorem after (h : Puts key bytes t' t'')
    (log : ∃ events, t'.reactor.driver.log = events ++ t.reactor.driver.log)
    (accounts : t'.Accounts key put ((t.asked t').foldr (Outlet.note key) out)) :
    t''.Accounts key (put ++ bytes) ((t.asked t'').foldr (Outlet.note key) out) := by
  rw [(log_trans log h.log).2, List.foldr_append]
  exact h.accounts put _ accounts

theorem trans (h : Puts key bytes t t') (h' : Puts key bytes' t' t'') :
    Puts key (bytes ++ bytes') t t'' where
  log := (log_trans h.log h'.log).1
  accounts put out accounts :=
    List.append_assoc .. ▸ h'.after h.log (h.accounts put out accounts)

theorem then_silent (h : Puts key bytes t t') (h' : Puts key [] t' t'') : Puts key bytes t t'' :=
  List.append_nil bytes ▸ h.trans h'

theorem andThen {rest : Turn σ → Turn σ} (h : Puts key bytes t t')
    (next : Puts key [] t' (rest t')) : Puts key bytes t (t'.andThen rest) :=
  andThen_cases t' h (h.then_silent next)

/-- Any number of bytes were put into a channel that has no account in the end. -/
theorem of_closed {events : List DriverEvent}
    (log : t'.reactor.driver.log = events ++ t.reactor.driver.log)
    (closed : ∀ c, t'.channel? key = some c → c.state.isClosed = true) : Puts key bytes t t' :=
  ⟨⟨events, log⟩, fun _ _ _ => accounts_of_closed closed⟩

end Puts

/-! ## Acts -/

theorem silent_cancelAll (tokens : List Token) (q : CompletionQueue) :
    ∃ events, (tokens.foldl .cancel q).log = events ++ q.log
      ∧ ∀ event ∈ events, event.offer? key = none := by
  obtain ⟨events, log, canceled⟩ := q.log_cancelAll tokens
  refine ⟨events, log, fun event mem => ?_⟩
  obtain ⟨token, found, rfl⟩ := canceled event mem
  rfl

/-- What a handler asks of the driver, if it may not send or works for another
channel. -/
theorem Act.log (act : Act may k t t') (silent : ¬ may.sends ∨ k ≠ key) :
    ∃ events, t'.reactor.driver.log = events ++ t.reactor.driver.log
      ∧ ∀ event ∈ events, event.offer? key = none := by
  cases act with
  | host | dispatch | mark | count | hand | complete | markOpen | tune | flag =>
    exact ⟨[], rfl, nofun⟩
  | submit p attempt op own sends =>
    refine ⟨[_], t.reactor.driver.log_submit _ op, fun event mem => ?_⟩
    rw [List.mem_singleton.mp mem]
    refine DriverEvent.offer?_of_token op _ (Token.ofChannel_ne attempt ?_)
    exact silent.imp (fun silent is => silent (sends is)) id
  | submitPlain p op plain =>
    refine ⟨[_], t.reactor.driver.log_submit _ op, fun event mem => ?_⟩
    rw [List.mem_singleton.mp mem]
    exact DriverEvent.offer?_of_token op _ (Token.plain_ne key plain)
  | cancel p attempt => exact silent_cancelAll [.ofChannel p k attempt] t.reactor.driver
  | cancelPlain p => exact silent_cancelAll [.plain p] t.reactor.driver
  | shut c cause =>
    rw [driver_shut]
    exact silent_cancelAll _ _
  | release =>
    refine ⟨[], ?_, nofun⟩
    rw [releaseIfDone_eq]
    rfl

/-- A handler for another channel puts nothing into this one. -/
theorem Acts.puts_of_ne (acts : Acts may k t t') (apart : k ≠ key) : Puts key [] t t' := by
  induction acts with
  | refl => exact .refl key t
  | tail _ act ih =>
    obtain ⟨events, log, silent⟩ := act.log (.inr apart)
    exact ih.then_silent (.of_untouched log silent (act.untouched (Ne.symm apart)).channel)

/-- A handler that does not send puts nothing into its channel. -/
theorem Act.puts (act : Act may key t t') (silent : ¬ may.sends) : Puts key [] t t' := by
  obtain ⟨events, log, quiet⟩ : ∃ events, t'.reactor.driver.log = events ++ t.reactor.driver.log
      ∧ ∀ event ∈ events, event.offer? key = none := act.log (.inl silent)
  cases act with
  | host | dispatch | mark | count | hand | complete | markOpen | flag =>
    exact .of_untouched log quiet rfl
  | submit | submitPlain | cancel | cancelPlain => exact .of_untouched log quiet rfl
  | tune f tuned =>
    refine .of_silent log quiet fun put out h c' found live => ?_
    rw [List.append_nil]
    obtain ⟨c, before, rfl⟩ := exists_of_channel?_modifyChannel found
    have tuned := tuned c before
    exact (h c before (live_of_tuned tuned live)).of_writes (tuned.sends.resolve_right silent)
  | shut c cause found live =>
    refine .of_closed log fun c' found' => ?_
    cases (channel?_shut found cause).symm.trans found'
    rfl
  | release =>
    refine .of_silent log quiet fun put out h c found live => ?_
    rw [List.append_nil]
    exact h c (channel?_of_releaseIfDone found) live

theorem Acts.puts (acts : Acts may key t t') (silent : ¬ may.sends) : Puts key [] t t' := by
  induction acts with
  | refl => exact .refl key t
  | tail _ act ih => exact ih.then_silent (act.puts silent)

/-! ## Sending -/

/-- A channel that was closed is closed or gone. -/
theorem closed_close (t : Turn σ) (key : SlotKey) (cause : Failure) (c : Channel)
    (found : (t.close key cause).channel? key = some c) : c.state.isClosed = true := by
  cases before : t.channel? key with
  | none =>
    rw [close_of_none before] at found
    cases before.symm.trans found
  | some c' =>
    cases live : c'.state.isClosed with
    | true =>
      rw [close_of_isClosed before live] at found
      cases before.symm.trans found
      exact live
    | false =>
      rw [close_of_live before live] at found
      have shut := channel?_shut before cause
      simp only [releaseIfDone, shut] at found
      split at found
      · have gone := Slab.get?_remove_of_get? shut key
        rw [if_pos rfl] at gone
        cases gone.symm.trans found
      · cases shut.symm.trans found
        rfl

/-- What is asked of the driver when a channel is closed. -/
theorem log_close (t : Turn σ) (key : SlotKey) (cause : Failure) :
    ∃ events, (t.close key cause).reactor.driver.log = events ++ t.reactor.driver.log :=
  ((acts_close t key cause : Acts .silent key _ _).puts not_false).log

/-- An operation that was submitted is in the log, with the refusal if there was one. -/
theorem log_submit {token : Token} {op : IoOp} {result : Except Failure Unit}
    (submitted : t.submit token op = (result, t')) :
    (∃ refusal, t'.reactor.driver.log = .submitted { token, op } refusal :: t.reactor.driver.log
      ∧ (result = .ok () → refusal = none)) ∧ ∀ k, t'.channel? k = t.channel? k := by
  have log := t.reactor.driver.log_submit token op
  simp only [submit] at submitted
  cases done : t.reactor.driver.submit token op with
  | mk result' driver =>
    rw [done] at submitted log
    cases submitted
    refine ⟨⟨_, log, fun accepted => ?_⟩, fun _ => rfl⟩
    cases accepted
    exact CompletionQueue.refusal?_of_submit_ok done

/-- A flush offers the front of what waits, or closes the channel. -/
theorem puts_flush (t : Turn σ) (key : SlotKey) : Puts key [] t (t.flush key) := by
  unfold flush
  split
  · exact .refl key t
  · rename_i c found
    split
    · exact .refl key t
    · split
      · exact .of_untouched (List.nil_append _).symm nofun rfl
      · rename_i writes next
        obtain ⟨sending, bytes, same⟩ := WriteQueue.nextSend_none next
        refine .of_silent (List.nil_append _).symm nofun fun put out h c' found' live => ?_
        cases (channel?_putChannel_self found _).symm.trans found'
        have kept := h c found live
        rw [List.append_nil]
        refine ⟨bytes ▸ kept.bytes, sending.trans kept.sending, fun offered sent => ?_⟩
        have flying : c.writes.inFlight = true := by rw [kept.sending, sent]; rfl
        exact (same flying).symm ▸ kept.front offered sent
      · rename_i bytes writes next
        obtain ⟨idle, flying, whole, first, rest, chunks, front⟩ := WriteQueue.nextSend_some next
        have put := channel?_putChannel_self found { c with writes }
        simp only
        split
        · rename_i t' submitted
          obtain ⟨⟨refusal, log, accepted⟩, channels⟩ := log_submit submitted
          cases accepted rfl
          have log : t'.reactor.driver.log = [_] ++ t.reactor.driver.log := log
          refine ⟨⟨_, log⟩, fun put' out h c' found' live => ?_⟩
          cases ((channels key).trans put).symm.trans found'
          have kept := h c found live
          rw [asked_eq log, List.append_nil]
          simp only [List.foldr_cons, List.foldr_nil, Outlet.note, DriverEvent.offer?, if_true]
          refine ⟨whole ▸ kept.bytes, flying, fun offered sent => ?_⟩
          cases sent
          exact ⟨first, rest, chunks, front⟩
        · rename_i e t' submitted
          obtain ⟨⟨refusal, log, -⟩, -⟩ := log_submit submitted
          obtain ⟨events, closing⟩ := log_close
            (t'.modifyChannel key fun c => { c with writes := c.writes.abortSend }) key e
          have both := closing.trans (congrArg (events ++ ·) log)
          rw [← List.singleton_append, ← List.append_assoc] at both
          exact .of_closed both (closed_close _ key e)

/-- Bytes that are written wait behind the others.  A channel that was closed drops them. -/
theorem puts_write (t : Turn σ) (key : SlotKey) (bytes : Bytes) :
    Puts key bytes t (t.write key bytes) := by
  simp only [write]
  split
  · rename_i absent
    exact .of_closed (List.nil_append _).symm fun c found => by cases absent.symm.trans found
  · rename_i c found
    split
    · rename_i closed
      exact .of_closed (List.nil_append _).symm fun c' found' => by
        cases found.symm.trans found'
        exact closed
    · have pushed : Puts key bytes t (t.putChannel key { c with writes := c.writes.push bytes }) :=
        .of_silent (List.nil_append _).symm (List.forall_mem_nil _)
          fun put out h c' found' live => by
            cases (channel?_putChannel_self found _).symm.trans found'
            exact (h c found live).push bytes rfl
      exact pushed.then_silent (puts_flush _ key)

/-- A send that comes back took the front of what it was offered. -/
theorem accounts_onSend {result : Int} (h : t.Accounts key put out)
    (honest : ∃ offered, out.offered = some offered ∧ result.toNat ≤ offered.length) :
    (∃ events, (t.onSend key result).reactor.driver.log = events ++ t.reactor.driver.log)
    ∧ (t.onSend key result).Accounts key put
        ((t.asked (t.onSend key result)).foldr (Outlet.note key) (out.back result)) := by
  obtain ⟨offered, sent, most⟩ := honest
  simp only [onSend]
  split
  · rename_i absent
    exact ⟨⟨[], rfl⟩, accounts_of_closed fun c found => by cases absent.symm.trans found⟩
  · rename_i c found
    split
    · exact ⟨log_close _ key _, accounts_of_closed (closed_close _ key _)⟩
    · have flushed := puts_flush
        (t.putChannel key { c with writes := c.writes.consume result.toNat }) key
      refine ⟨flushed.log, ?_⟩
      have later := flushed.accounts put (out.back result) fun c' found' live => by
        cases (channel?_putChannel_self found _).symm.trans found'
        exact (h c found live).consume sent most rfl
      rw [List.append_nil] at later
      exact later

theorem puts_onConnect (t : Turn σ) (key : SlotKey) (attempt : UInt8) (result : Int) :
    Puts key [] t (t.onConnect key attempt result) := by
  obtain acts | ⟨s, c, acts, found, connecting, same⟩ :=
    (onConnect_cases t key attempt result trivial : Acts .silent key _ _ ∨ _)
  · exact acts.puts not_false
  · have opened : Acts .silent key s (s.putChannel key { c with state := .open }) :=
      .of_act (act_put found
        ⟨rfl, .inr ⟨trivial, connecting, rfl⟩, .inl rfl, .inl ⟨rfl, rfl, rfl⟩, .inl ⟨rfl, rfl⟩⟩)
    have started (t : Turn σ) : Puts key [] t ((t.postRecv key).andThen (·.flush key)) :=
      ((acts_postRecv t key trivial : Acts .silent key _ _).puts not_false).andThen
        (puts_flush _ key)
    rw [same, openChannel]
    refine (acts.puts not_false).then_silent ((opened.puts not_false).then_silent ?_)
    split
    · have marked (t : Turn σ) (l : Link) :
          Acts .silent key t (t.modifyLinks fun links => links.markOpen l) :=
        .of_act (.markOpen t l trivial)
      exact ((marked _ _).puts not_false).then_silent (started _)
    · exact started _

end Turn

end PartitionEngine
