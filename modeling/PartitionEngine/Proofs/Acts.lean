import PartitionEngine.Proofs.Confinement
import PartitionEngine.Proofs.Outstanding
import PartitionEngine.Proofs.Slots
import PartitionEngine.Reactor.Loop
import Mathlib.Logic.Relation

/-!
# What handlers do

A handler works for one channel.  It calls others, which may fail in the middle
and close the channel under it.  Whatever the path, it is a sequence of a few
kinds of acts: it changes its channel, submits and cancels operations of its
channel, closes it, or does something that channels do not see.  `Acts may key` is
the relation of such sequences, and each handler is shown to be one
(`acts_onRecv` and so on).  A property that every act keeps is then kept by every
handler.

The first such property is that a handler leaves every other channel alone
(`Acts.untouched`).

A handler of what is received writes responses, and apart from that it may send nothing.
`Attends may key` tells the two apart, and `attends_onRecv` is where it is shown.
-/

namespace PartitionEngine

/-- Whether a task passes a request or a response on to another reactor. -/
def Task.isRelay : Task → Bool
  | .forward .. | .reply .. => true
  | _ => false

/-- What a handler is free to do. -/
structure Scope where
  /-- It may open its channel, and note that the link is open. -/
  opens : Prop := True
  /-- It may change what waits to be sent, and send. -/
  sends : Prop := True
  /-- It may change what was received, and receive. -/
  reads : Prop := True
  /-- It may make attempts to connect, and time them. -/
  connects : Prop := True
  /-- It may do what is of no channel. -/
  arms : Prop := True
  /-- It may complete invocations. -/
  settles : Prop := True
  /-- The partitions that it may run requests for. -/
  runs : Partition → Prop := fun _ => True
  /-- The tasks that it may pass on, and the reactors that they go to. -/
  relays : Nat → Task → Prop := fun _ _ => True

namespace Scope

/-- A handler that may do everything. -/
def all : Scope := {}

/-- A handler that opens nothing. -/
def unopening : Scope := { opens := False }

/-- A handler that opens nothing and passes nothing on. -/
def own : Scope := { opens := False, relays := fun _ _ => False }

/-- A handler that may serve requests on reactor `i` of `count`: it runs those for its
own partitions, passes the others on to their reactors, and hands responses back. -/
structure Serving (may : Scope) (count i : Nat) : Prop where
  sends : may.sends
  runs : ∀ p, reactorIndex p count = i → may.runs p
  forwards : ∀ f origin, may.relays (reactorIndex f.partition count) (.forward f origin)
  replies : ∀ origin bytes, may.relays origin.reactor (.reply origin bytes)

/-- A handler that may run and pass on the requests that come in on reactor `i` of `count`. -/
structure Routes (may : Scope) (count i : Nat) : Prop where
  runs : ∀ p, reactorIndex p count = i → may.runs p
  forwards : ∀ f origin, may.relays (reactorIndex f.partition count) (.forward f origin)

theorem Serving.routes {may : Scope} {count i : Nat} (h : may.Serving count i) :
    may.Routes count i := ⟨h.runs, h.forwards⟩

theorem serving_all (count i : Nat) : all.Serving count i :=
  ⟨trivial, fun _ _ => trivial, fun _ _ => trivial, fun _ _ => trivial⟩

theorem serving_unopening (count i : Nat) : unopening.Serving count i :=
  ⟨trivial, fun _ _ => trivial, fun _ _ => trivial, fun _ _ => trivial⟩

end Scope

/-- What a handler may make of its channel.  The link stays, and the state, except that
a connection that was being made may be there. -/
structure Channel.Tuned (may : Scope) (c c' : Channel) : Prop where
  link : c'.link = c.link
  state : c'.state = c.state ∨ may.opens ∧ c.state = .connecting ∧ c'.state = .open
  sends : c'.writes = c.writes ∨ may.sends
  reads : (c'.unread = c.unread ∧ c'.assembler = c.assembler
    ∧ c'.recvInFlight = c.recvInFlight) ∨ may.reads
  tries : (c'.attempt = c.attempt ∧ c'.timers = c.timers) ∨ may.connects

namespace Channel.Tuned

variable {may : Scope} {c c' c'' : Channel}

/-- What only concerns the attempts of a channel. -/
theorem of_connects (connects : may.connects) (link : c'.link = c.link)
    (state : c'.state = c.state) (writes : c'.writes = c.writes) (unread : c'.unread = c.unread)
    (assembler : c'.assembler = c.assembler) (recv : c'.recvInFlight = c.recvInFlight) :
    c.Tuned may c' :=
  ⟨link, .inl state, .inl writes, .inl ⟨unread, assembler, recv⟩, .inr connects⟩

theorem of_sends (writes : WriteQueue) (sends : may.sends) : c.Tuned may { c with writes } :=
  ⟨rfl, .inl rfl, .inr sends, .inl ⟨rfl, rfl, rfl⟩, .inl ⟨rfl, rfl⟩⟩

/-- What only concerns what a channel receives. -/
theorem of_reads (reads : may.reads) (link : c'.link = c.link) (state : c'.state = c.state)
    (writes : c'.writes = c.writes) (attempt : c'.attempt = c.attempt)
    (timers : c'.timers = c.timers) : c.Tuned may c' :=
  ⟨link, .inl state, .inl writes, .inr reads, .inl ⟨attempt, timers⟩⟩

theorem refl (c : Channel) : c.Tuned may c :=
  ⟨rfl, .inl rfl, .inl rfl, .inl ⟨rfl, rfl, rfl⟩, .inl ⟨rfl, rfl⟩⟩

theorem trans (h : c.Tuned may c') (h' : c'.Tuned may c'') : c.Tuned may c'' where
  link := h'.link.trans h.link
  state := by
    rcases h'.state with same | ⟨opens, connecting, isOpen⟩
    · exact same ▸ h.state
    · refine .inr ⟨opens, ?_, isOpen⟩
      rcases h.state with same | ⟨-, connecting, -⟩
      · exact same ▸ connecting
      · exact connecting
  sends := h'.sends.elim (fun same => same ▸ h.sends) .inr
  reads := by
    obtain ⟨unread, assembler, recv⟩ | reads := h'.reads
    · rw [unread, assembler, recv]
      exact h.reads
    · exact .inr reads
  tries := by
    obtain ⟨attempt, timers⟩ | connects := h'.tries
    · rw [attempt, timers]
      exact h.tries
    · exact .inr connects

end Channel.Tuned

namespace Turn

variable {σ : Type} {may : Scope}

/-! ## Closing -/

theorem close_of_live {t : Turn σ} {key : SlotKey} {c : Channel} (found : t.channel? key = some c)
    (live : c.state.isClosed = false) (cause : Failure) :
    t.close key cause = (t.shut key c cause).releaseIfDone key := by
  simp only [close]
  rw [found]
  simp only [live]
  rfl

theorem close_of_isClosed {t : Turn σ} {key : SlotKey} {c : Channel}
    (found : t.channel? key = some c) (closed : c.state.isClosed = true) (cause : Failure) :
    t.close key cause = t := by
  simp only [close]
  rw [found]
  simp only [closed]
  rfl

theorem close_of_none {t : Turn σ} {key : SlotKey} (absent : t.channel? key = none)
    (cause : Failure) : t.close key cause = t := by
  simp only [close]
  rw [absent]

/-! ## Acts -/

/-- One thing a handler for a channel does. -/
inductive Act (may : Scope) (key : SlotKey) : Turn σ → Turn σ → Prop where
  | host (t : Turn σ) (host : Host) : Act may key t { t with host }
  | dispatch (t : Turn σ) (opcode : UInt8) (partition : Partition) (correlationId : UInt64)
      (input : Bytes) (runs : may.runs partition) :
      Act may key t { t with reactor := { t.reactor with
        dispatcher := (t.reactor.dispatcher.dispatch opcode partition correlationId input).2 } }
  | mark (t : Turn σ) (wakeArmed acceptArmed drainExpired : Bool) (arms : may.arms) :
      Act may key t { t with reactor := { t.reactor with wakeArmed, acceptArmed, drainExpired } }
  | count (t : Turn σ) (f : ReactorStats → ReactorStats) : Act may key t (t.count f)
  | hand (t : Turn σ) (index : Nat) (task : Task) (relay : task.isRelay = true)
      (relays : may.relays index task) :
      Act may key t (t.submitTask index task).2
  | complete (t : Turn σ) (peer : Address) (correlationId : UInt64) (result : Outcome)
      (settles : may.settles := by trivial) :
      Act may key t (t.modifyInvocations fun table => (table.complete peer correlationId result).2)
  | markOpen (t : Turn σ) (l : Link) (opens : may.opens) :
      Act may key t (t.modifyLinks fun links => links.markOpen l)
  | tune (t : Turn σ) (f : Channel → Channel)
      (tuned : ∀ c, t.channel? key = some c → c.Tuned may (f c)) :
      Act may key t (t.modifyChannel key f)
  | submit (t : Turn σ) (p : Purpose) (attempt : UInt8) (op : IoOp) (own : p.isChannel = true)
      (sends : p = .send → may.sends) (reads : p = .recv → may.reads)
      (connects : p ≠ .send → p ≠ .recv → may.connects) :
      Act may key t (t.submit (.ofChannel p key attempt) op).2
  | submitPlain (t : Turn σ) (p : Purpose) (op : IoOp) (plain : p.isChannel = false)
      (arms : may.arms) :
      Act may key t (t.submit (.plain p) op).2
  | cancel (t : Turn σ) (p : Purpose) (attempt : UInt8) (own : p.isChannel = true)
      (sends : p ≠ .send) (reads : p ≠ .recv) :
      Act may key t (t.cancel (.ofChannel p key attempt))
  | cancelPlain (t : Turn σ) (p : Purpose) (plain : p.isChannel = false) (arms : may.arms) :
      Act may key t (t.cancel (.plain p))
  | shut (t : Turn σ) (c : Channel) (cause : Failure) (found : t.channel? key = some c)
      (live : c.state.isClosed = false) : Act may key t (t.shut key c cause)
  | release (t : Turn σ) : Act may key t (t.releaseIfDone key)
  | flag (t : Turn σ) (panicked : Bool) :
      Act may key t { t with reactor := { t.reactor with panicked } }

/-- A handler goes on, or it has panicked. -/
@[elab_as_elim]
theorem andThen_cases {motive : Turn σ → Prop} {rest : Turn σ → Turn σ} (t : Turn σ)
    (panicked : motive t) (going : motive (rest t)) : motive (t.andThen rest) := by
  simp only [andThen]
  split
  · exact panicked
  · exact going

theorem andThen_of_going {rest : Turn σ → Turn σ} {t : Turn σ} (going : t.panicked = false) :
    t.andThen rest = rest t := if_neg (Bool.eq_false_iff.mp going)

/-- What a handler for a channel does. -/
def Acts (may : Scope) (key : SlotKey) : Turn σ → Turn σ → Prop :=
  Relation.ReflTransGen (Act may key)

namespace Acts

variable {key : SlotKey} {t t' t'' : Turn σ}

theorem refl (t : Turn σ) : Acts may key t t := Relation.ReflTransGen.refl

theorem of_act (h : Act may key t t') : Acts may key t t' := Relation.ReflTransGen.single h

theorem trans (h : Acts may key t t') (h' : Acts may key t' t'') : Acts may key t t'' :=
  Relation.ReflTransGen.trans h h'

theorem tail (h : Acts may key t t') (h' : Act may key t' t'') : Acts may key t t'' :=
  Relation.ReflTransGen.tail h h'

/-- A handler that panics does no more. -/
theorem andThen {rest : Turn σ → Turn σ} (h : Acts may key t t')
    (next : Acts may key t' (rest t')) : Acts may key t (t'.andThen rest) :=
  andThen_cases t' h (h.trans next)

end Acts

theorem acts_andThen {key : SlotKey} {rest : Turn σ → Turn σ} (t : Turn σ)
    (next : Acts may key t (rest t)) : Acts may key t (t.andThen rest) :=
  (Acts.refl t).andThen next

/-- A handler releases its channel at the end, unless it has panicked. -/
theorem acts_release (t : Turn σ) (key : SlotKey) :
    Acts may key t (t.andThen (·.releaseIfDone key)) :=
  acts_andThen t (.of_act (.release t))

/-- A channel is removed only if it closes and waits for nothing. -/
theorem releaseIfDone_cases (t : Turn σ) (key : SlotKey) :
    t.releaseIfDone key = t ∨ ∃ c, t.channel? key = some c ∧ c.state = .closing
      ∧ c.opsInFlight = 0 ∧ (t.releaseIfDone key).channel? key = none
      ∧ t.releaseIfDone key = { t with
        host := t.host.close c.descriptor
        reactor := { t.reactor with channels := (t.reactor.channels.remove key.slot).2 } } := by
  simp only [releaseIfDone]
  split
  · exact .inl rfl
  · rename_i c found
    split
    · rename_i done
      have gone := Slab.get?_remove_of_get? found key
      rw [if_pos rfl] at gone
      exact .inr ⟨c, found, done.1, done.2, gone, rfl⟩
    · exact .inl rfl

/-- What a release changes are the sockets and the channels. -/
theorem releaseIfDone_eq (t : Turn σ) (key : SlotKey) :
    t.releaseIfDone key = { t with
      host := (t.releaseIfDone key).host
      reactor := { t.reactor with channels := (t.releaseIfDone key).reactor.channels } } := by
  obtain same | ⟨c, -, -, -, -, same⟩ := releaseIfDone_cases t key
  · rw [same]
  · rw [same]

/-- What is done for a channel that is shut.  Its link changes invocations, links and entries,
and nothing else. -/
theorem shut_eq (t : Turn σ) (key : SlotKey) (c : Channel) (cause : Failure) :
    t.shut key c cause = { t with
      host := t.host.shutdown c.descriptor
      shared := { (t.count fun s => { s with closed := s.closed + 1 }).shared with
        invocations := (t.shut key c cause).shared.invocations
        links := (t.shut key c cause).shared.links }
      reactor := { t.reactor with
        channels := t.reactor.channels.modify key fun _ => c.beginClose
        driver := (c.cancelTokens key).foldl .cancel t.reactor.driver
        outbound := (t.shut key c cause).reactor.outbound } } := by
  simp only [shut]
  split <;> rfl

theorem driver_releaseIfDone (t : Turn σ) (key : SlotKey) :
    (t.releaseIfDone key).reactor.driver = t.reactor.driver := by
  rw [releaseIfDone_eq]

theorem driver_shut (t : Turn σ) (key : SlotKey) (c : Channel) (cause : Failure) :
    (t.shut key c cause).reactor.driver = (c.cancelTokens key).foldl .cancel t.reactor.driver := by
  rw [shut_eq]

/-- A reactor keeps its index, and stays one of as many. -/
theorem Act.stays {key : SlotKey} {t t' : Turn σ} (h : Act may key t t') :
    t'.reactor.index = t.reactor.index
      ∧ t'.shared.reactors.length = t.shared.reactors.length := by
  cases h with
  | count => exact ⟨rfl, List.length_modify ..⟩
  | hand index task =>
    refine ⟨rfl, ?_⟩
    simp only [submitTask, Shared.submit]
    split
    · rfl
    · exact List.length_modify ..
  | shut c =>
    rw [shut_eq]
    exact ⟨rfl, List.length_modify ..⟩
  | release =>
    rw [releaseIfDone_eq]
    exact ⟨rfl, rfl⟩
  | _ => exact ⟨rfl, rfl⟩

theorem Acts.stays {key : SlotKey} {t t' : Turn σ} (h : Acts may key t t') :
    t'.reactor.index = t.reactor.index
      ∧ t'.shared.reactors.length = t.shared.reactors.length := by
  induction h with
  | refl => exact ⟨rfl, rfl⟩
  | tail _ act ih => exact ⟨act.stays.1.trans ih.1, act.stays.2.trans ih.2⟩

/-- A handler keeps the settings. -/
theorem Act.config {key : SlotKey} {t t' : Turn σ} (h : Act may key t t') :
    t'.config = t.config := by
  cases h with
  | hand index task =>
    simp only [Turn.config, submitTask, Shared.submit]
    split <;> rfl
  | shut c =>
    rw [shut_eq]
    rfl
  | release =>
    rw [releaseIfDone_eq]
    rfl
  | _ => rfl

theorem Acts.config {key : SlotKey} {t t' : Turn σ} (h : Acts may key t t') :
    t'.config = t.config := by
  induction h with
  | refl => rfl
  | tail _ act ih => exact act.config.trans ih

/-! ## Channels seen through the acts -/

theorem channel?_modifyChannel (t : Turn σ) (key k : SlotKey) (f : Channel → Channel) :
    (t.modifyChannel key f).channel? k
      = if k = key then (t.channel? key).map f else t.channel? k :=
  Slab.get?_modify _ _ _ _

theorem channel?_modifyChannel_self {t : Turn σ} {key : SlotKey} {c : Channel}
    (found : t.channel? key = some c) (f : Channel → Channel) :
    (t.modifyChannel key f).channel? key = some (f c) := by
  simp [channel?_modifyChannel, found]

theorem channel?_putChannel_self {t : Turn σ} {key : SlotKey} {c : Channel}
    (found : t.channel? key = some c) (c' : Channel) :
    (t.putChannel key c').channel? key = some c' :=
  channel?_modifyChannel_self found _

/-- A channel that is there after a change is what the change made of it. -/
theorem exists_of_channel?_modifyChannel {t : Turn σ} {key : SlotKey} {f : Channel → Channel}
    {c' : Channel} (found : (t.modifyChannel key f).channel? key = some c') :
    ∃ c, t.channel? key = some c ∧ f c = c' := by
  rw [channel?_modifyChannel, if_pos rfl] at found
  exact Option.map_eq_some_iff.mp found

/-- A channel that is there after a release was there before. -/
theorem channel?_of_releaseIfDone {t : Turn σ} {key k : SlotKey} {c : Channel}
    (found : (t.releaseIfDone key).channel? k = some c) : t.channel? k = some c := by
  obtain same | ⟨c', held, -, -, -, removed⟩ := releaseIfDone_cases t key
  · exact same ▸ found
  · rw [removed] at found
    have lookup : (t.reactor.channels.remove key.slot).2.get? k = some c := found
    rw [Slab.get?_remove_of_get? held] at lookup
    split at lookup
    · cases lookup
    · exact lookup

theorem channel?_shut {t : Turn σ} {key : SlotKey} {c : Channel} (found : t.channel? key = some c)
    (cause : Failure) : (t.shut key c cause).channel? key = some c.beginClose := by
  rw [shut_eq]
  exact channel?_putChannel_self found c.beginClose

@[simp] theorem channel?_submit (t : Turn σ) (token : Token) (op : IoOp) (k : SlotKey) :
    (t.submit token op).2.channel? k = t.channel? k := rfl

theorem act_put {t : Turn σ} {key : SlotKey} {c c' : Channel} (found : t.channel? key = some c)
    (tuned : c.Tuned may c') : Act may key t (t.putChannel key c') := by
  refine .tune t _ ?_
  intro old h
  rw [found] at h
  cases h
  exact tuned

/-- What is done after a change to the channel. -/
theorem Acts.after_put {t t' : Turn σ} {key : SlotKey} {c : Channel} (c' : Channel)
    (rest : Acts may key (t.putChannel key c') t') (found : t.channel? key = some c)
    (tuned : c.Tuned may c') : Acts may key t t' :=
  (Acts.of_act (act_put found tuned)).trans rest

/-! ## The handlers of a channel -/

/-- Closing a channel that is live is one act, and its release another. -/
theorem acts_close (t : Turn σ) (key : SlotKey) (cause : Failure) :
    Acts may key t (t.close key cause) := by
  cases found : t.channel? key with
  | none =>
    rw [close_of_none found]
    exact .refl t
  | some c =>
    cases live : c.state.isClosed with
    | true =>
      rw [close_of_isClosed found live]
      exact .refl t
    | false =>
      rw [close_of_live found live]
      exact (Acts.of_act (.shut t c cause found live)).tail (.release _)

/-- A send that is refused closes the channel. -/
theorem acts_flush (t : Turn σ) (key : SlotKey) (sends : may.sends) :
    Acts may key t (t.flush key) := by
  unfold flush
  split
  · exact .refl t
  · rename_i c found
    split
    · exact .refl t
    · split
      · exact .of_act (.flag t true)
      · exact .of_act (act_put found (.of_sends _ sends))
      · rename_i bytes writes next
        have put : Acts may key t (t.putChannel key { c with writes }) :=
          .of_act (act_put found (.of_sends _ sends))
        have sent := put.tail
          (.submit _ .send 0 (.send c.descriptor bytes) rfl (fun _ => sends) nofun
            fun other => absurd rfl other)
        simp only
        split
        · rename_i submitted
          rw [submitted] at sent
          exact sent
        · rename_i e t' submitted
          rw [submitted] at sent
          have aborted := sent.tail (.tune t'
            (fun c => { c with writes := c.writes.abortSend }) fun _ _ => .of_sends _ sends)
          exact aborted.trans (acts_close _ key e)

theorem acts_write (t : Turn σ) (key : SlotKey) (bytes : Bytes) (sends : may.sends) :
    Acts may key t (t.write key bytes) := by
  simp only [write]
  split
  · exact .refl t
  · rename_i c found
    split
    · exact .refl t
    · exact (acts_flush _ key sends).after_put _ found (.of_sends _ sends)

theorem acts_onSend (t : Turn σ) (key : SlotKey) (result : Int)
    (sends : may.sends) : Acts may key t (t.onSend key result) := by
  simp only [onSend]
  split
  · exact .refl t
  · rename_i c found
    split
    · exact (acts_close _ key _).after_put _ found (.of_sends _ sends)
    · exact (acts_flush _ key sends).after_put _ found (.of_sends _ sends)

/-! ## Serving -/

/-- A handler attends to its channel.  It does what it may, or it writes a response. -/
inductive Attend (may : Scope) (key : SlotKey) : Turn σ → Turn σ → Prop where
  | act {t t' : Turn σ} (act : Act may key t t') : Attend may key t t'
  | respond (t : Turn σ) (opcode : UInt8) (id : UInt64) (p : Partition)
      (result : Except ErrorRecord Bytes) :
      Attend may key t (t.write key (t.shared.encodeResponse opcode id p result).1)

def Attends (may : Scope) (key : SlotKey) : Turn σ → Turn σ → Prop :=
  Relation.ReflTransGen (Attend may key)

namespace Attends

variable {key : SlotKey} {t t' t'' : Turn σ}

theorem refl (t : Turn σ) : Attends may key t t := Relation.ReflTransGen.refl

theorem of_acts (acts : Acts may key t t') : Attends may key t t' := by
  induction acts with
  | refl => exact .refl t
  | tail _ act ih => exact ih.tail (.act act)

theorem trans (h : Attends may key t t') (h' : Attends may key t' t'') : Attends may key t t'' :=
  Relation.ReflTransGen.trans h h'

theorem andThen {rest : Turn σ → Turn σ} (h : Attends may key t t')
    (next : Attends may key t' (rest t')) : Attends may key t (t'.andThen rest) :=
  andThen_cases t' h (h.trans next)

/-- To write a response is an act of a handler that may send. -/
theorem acts (h : Attends may key t t') (sends : may.sends) : Acts may key t t' := by
  induction h with
  | refl => exact .refl t
  | tail _ attend ih =>
    cases attend with
    | act act => exact ih.tail act
    | respond => exact ih.trans (acts_write _ key _ sends)

theorem stays (h : Attends may key t t') : t'.reactor.index = t.reactor.index
    ∧ t'.shared.reactors.length = t.shared.reactors.length := by
  induction h with
  | refl => exact ⟨rfl, rfl⟩
  | @tail t₁ _ _ attend ih =>
    cases attend with
    | act act => exact ⟨act.stays.1.trans ih.1, act.stays.2.trans ih.2⟩
    | respond opcode id p result =>
      have wrote : Acts .all key t₁ _ :=
        acts_write t₁ key (t₁.shared.encodeResponse opcode id p result).1 trivial
      exact ⟨wrote.stays.1.trans ih.1, wrote.stays.2.trans ih.2⟩

end Attends

theorem acts_execute (t : Turn σ) (key : SlotKey) (f : Frame)
    (runs : may.runs f.partition) : Acts may key t (t.execute f).2 := by
  simp only [execute]
  split
  · exact .of_act (.dispatch t _ _ _ _ runs)
  · exact (Acts.of_act (.dispatch t _ _ _ _ runs)).tail (.count _ _)

/-- The answer to a request that was run is a response. -/
theorem exists_response_of_execute {t t' : Turn σ} {f : Frame} {bytes : Bytes}
    (executed : t.execute f = (some bytes, t')) : ∃ result,
      bytes = (t'.shared.encodeResponse f.opcode f.correlationId f.partition result).1 := by
  simp only [execute] at executed
  split at executed
  · cases executed
  · cases executed
    exact ⟨_, rfl⟩

theorem attends_onRequest (t : Turn σ) (key : SlotKey) (f : Frame)
    (routes : may.Routes t.shared.reactors.length t.reactor.index) :
    Attends may key t (t.onRequest key f) := by
  simp only [onRequest]
  split
  · rename_i own
    have ran : Acts may key t _ := acts_execute t key f (routes.runs _ own)
    split
    · rename_i bytes t' executed
      rw [executed] at ran
      obtain ⟨result, rfl⟩ := exists_response_of_execute executed
      exact (Attends.of_acts ran).tail (.respond t' _ _ _ result)
    · rename_i t' executed
      rw [executed] at ran
      exact .of_acts ran
  · have handed : Acts may key t (t.submitTask _ _).2 := .of_act
      (.hand t (t.shared.reactorOf f.partition) (.forward f { reactor := t.reactor.index, key }) rfl
        (routes.forwards f _))
    split
    · rename_i t' submitted
      rw [submitted] at handed
      exact .of_acts handed
    · rename_i e t' submitted
      rw [submitted] at handed
      split
      · exact .of_acts handed
      · exact (Attends.of_acts (handed.tail (.count _ _))).tail (.respond _ _ _ _ _)

theorem acts_onRequest (t : Turn σ) (key : SlotKey) (f : Frame)
    (serving : may.Serving t.shared.reactors.length t.reactor.index) :
    Acts may key t (t.onRequest key f) :=
  (attends_onRequest t key f serving.routes).acts serving.sends

theorem acts_onResponse (t : Turn σ) (key : SlotKey) (f : Frame) (settles : may.settles) :
    Acts may key t (t.onResponse key f) := by
  simp only [onResponse]
  split
  · exact .refl t
  · split
    · exact .refl t
    · exact .of_act (.complete t _ _ _ settles)

theorem attends_onFrame (t : Turn σ) (key : SlotKey) (f : Frame)
    (routes : may.Routes t.shared.reactors.length t.reactor.index) (settles : may.settles) :
    Attends may key t (t.onFrame key f) := by
  simp only [onFrame]
  split
  · exact .of_acts (acts_onResponse t key f settles)
  · exact attends_onRequest t key f routes

theorem acts_all_onFrame (t : Turn σ) (key : SlotKey) (f : Frame) :
    Acts .all key t (t.onFrame key f) :=
  (attends_onFrame t key f (Scope.serving_all _ _).routes trivial).acts trivial

/-- A receive that is refused closes the channel. -/
theorem acts_postRecv (t : Turn σ) (key : SlotKey) (reads : may.reads) :
    Acts may key t (t.postRecv key) := by
  simp only [postRecv]
  split
  · exact .refl t
  · rename_i c found
    split
    · exact .refl t
    · split
      · exact .of_act (.flag t true)
      · have submitted : Acts may key t (t.submit (.ofChannel .recv key) _).2 :=
          .of_act (.submit t .recv 0 (.recv c.descriptor t.config.readBufferSize) rfl nofun
            (fun _ => reads) fun _ other => absurd rfl other)
        split
        · rename_i t' result
          rw [result] at submitted
          exact submitted.tail (.tune t' _ fun _ _ => .of_reads reads rfl rfl rfl rfl rfl)
        · rename_i e t' result
          rw [result] at submitted
          exact submitted.trans (acts_close t' key e)

/-- A connection that comes in gets a channel, and the rest is about that channel. -/
theorem acts_adopt (t : Turn σ) (socket : Nat) (remote : Endpoint) (reads : may.reads) :
    Acts may (t.addChannel (.accepted (some socket) remote t.config.maxMessageSize)).1
      (t.addChannel (.accepted (some socket) remote t.config.maxMessageSize)).2
      (t.adopt socket (some remote)) :=
  (Acts.of_act (.count _ fun s => { s with accepted := s.accepted + 1 })).trans
    (acts_postRecv _ _ reads)

theorem tuned_nextMessage {c c' : Channel} {maxPayload : Nat}
    {result : Except FrameError (Option Frame)}
    (asked : c.nextMessage maxPayload = (result, c')) (reads : may.reads) : c.Tuned may c' := by
  cases asked
  exact .of_reads reads rfl rfl rfl rfl rfl

theorem state_nextMessage {c c' : Channel} {maxPayload : Nat}
    {result : Except FrameError (Option Frame)}
    (asked : c.nextMessage maxPayload = (result, c')) : c'.state = c.state := by
  cases asked
  rfl

/-- The messages that are taken off a channel. -/
def takenFrames : (bound : Nat) → SlotKey → Turn σ → List Frame
  | 0, _, _ => []
  | bound + 1, key, t =>
    match t.channel? key with
    | none => []
    | some c =>
      if c.state ≠ .open then []
      else match c.nextMessage t.config.maxFramePayload with
        | (.ok none, _) => []
        | (.ok (some f), c) =>
          let t := (t.putChannel key c).count fun s => { s with messagesIn := s.messagesIn + 1 }
          let t := t.onFrame key f
          f :: if t.panicked then [] else takenFrames bound key t
        | (.error e, c) =>
          if e.corruptsStream then [] else takenFrames bound key (t.putChannel key c)

/-- A message has been taken off a channel, which is `c` without it. -/
def taking (t : Turn σ) (key : SlotKey) (c : Channel) : Turn σ :=
  (t.putChannel key c).count fun s => { s with messagesIn := s.messagesIn + 1 }

/-- One message after another is taken off a channel and handled, until there is none, a handler
panics or the stream is lost. -/
inductive Drains (key : SlotKey) : Turn σ → List Frame → Turn σ → Prop
  | refl (t : Turn σ) : Drains key t [] t
  | starved {t : Turn σ} {c c' : Channel} (found : t.channel? key = some c)
      (isOpen : c.state = .open)
      (asked : c.nextMessage t.config.maxFramePayload = (.ok none, c')) :
      Drains key t [] (t.putChannel key c')
  | last {t : Turn σ} {c c' : Channel} {f : Frame} (found : t.channel? key = some c)
      (isOpen : c.state = .open)
      (asked : c.nextMessage t.config.maxFramePayload = (.ok (some f), c')) :
      Drains key t [f] ((t.taking key c').onFrame key f)
  | handled {t t' : Turn σ} {c c' : Channel} {f : Frame} {fs : List Frame}
      (found : t.channel? key = some c) (isOpen : c.state = .open)
      (asked : c.nextMessage t.config.maxFramePayload = (.ok (some f), c'))
      (going : ((t.taking key c').onFrame key f).panicked = false)
      (later : Drains key ((t.taking key c').onFrame key f) fs t') : Drains key t (f :: fs) t'
  | lost {t : Turn σ} {c c' : Channel} {e : FrameError} (found : t.channel? key = some c)
      (isOpen : c.state = .open)
      (asked : c.nextMessage t.config.maxFramePayload = (.error e, c')) :
      Drains key t [] ((t.putChannel key c').close key (.ofFrameError e))
  | skipped {t t' : Turn σ} {c c' : Channel} {e : FrameError} {fs : List Frame}
      (found : t.channel? key = some c) (isOpen : c.state = .open)
      (asked : c.nextMessage t.config.maxFramePayload = (.error e, c'))
      (kept : e.corruptsStream = false) (later : Drains key (t.putChannel key c') fs t') :
      Drains key t fs t'

theorem drains_drainFrames (bound : Nat) (key : SlotKey) (t : Turn σ) :
    Drains key t (takenFrames bound key t) (drainFrames bound key t) := by
  induction bound generalizing t with
  | zero => exact .refl t
  | succ bound ih =>
    simp only [drainFrames, takenFrames]
    cases found : t.channel? key with
    | none => exact .refl t
    | some c =>
      simp only
      split
      · exact .refl t
      · rename_i isOpen
        rw [not_not] at isOpen
        rcases asked : c.nextMessage t.config.maxFramePayload with ⟨_ | _ | f, c'⟩
        · simp only
          split
          · exact .lost found isOpen asked
          · rename_i kept
            exact .skipped found isOpen asked (Bool.eq_false_iff.mpr kept) (ih _)
        · exact .starved found isOpen asked
        · simp only [Turn.andThen]
          split
          · exact .last found isOpen asked
          · rename_i going
            exact .handled found isOpen asked (Bool.eq_false_iff.mpr going) (ih _)

/-- Each message is taken off the channel and handled before the next. -/
theorem Drains.attends {key : SlotKey} {t t' : Turn σ} {fs : List Frame}
    (drains : Drains key t fs t')
    (routes : may.Routes t.shared.reactors.length t.reactor.index) (reads : may.reads)
    (settles : may.settles) : Attends may key t t' := by
  have taken {t : Turn σ} {c c' : Channel} {f : Frame}
      (routes : may.Routes t.shared.reactors.length t.reactor.index)
      (found : t.channel? key = some c)
      (asked : c.nextMessage t.config.maxFramePayload = (.ok (some f), c')) :
      Attends may key t ((t.taking key c').onFrame key f) := by
    have counted : Acts may key t (t.taking key c') :=
      (Acts.of_act (act_put found (tuned_nextMessage asked reads))).tail (.count _ _)
    exact (Attends.of_acts counted).trans (attends_onFrame _ key f
      (by rw [counted.stays.1, counted.stays.2]; exact routes) settles)
  induction drains with
  | refl t => exact .refl t
  | starved found isOpen asked =>
    exact .of_acts (.of_act (act_put found (tuned_nextMessage asked reads)))
  | last found isOpen asked => exact taken routes found asked
  | handled found isOpen asked going later ih =>
    have framed := taken routes found asked
    exact framed.trans (ih (by rw [framed.stays.1, framed.stays.2]; exact routes))
  | lost found isOpen asked =>
    exact .of_acts ((Acts.of_act (act_put found (tuned_nextMessage asked reads))).trans
      (acts_close _ key _))
  | skipped found isOpen asked kept later ih =>
    exact (Attends.of_acts (.of_act (act_put found (tuned_nextMessage asked reads)))).trans
      (ih (by exact routes))

theorem acts_all_drainFrames (bound : Nat) (key : SlotKey) (t : Turn σ) :
    Acts .all key t (drainFrames bound key t) :=
  ((drains_drainFrames bound key t).attends (Scope.serving_all _ _).routes trivial
    trivial).acts trivial

theorem attends_onRecv (t : Turn σ) (key : SlotKey) (result : Int) (received : Bytes)
    (routes : may.Routes t.shared.reactors.length t.reactor.index) (reads : may.reads)
    (settles : may.settles) :
    Attends may key t (t.onRecv key result received) := by
  unfold onRecv
  split
  · exact .refl t
  · rename_i c found
    have marked : Acts may key t (t.putChannel key { c with recvInFlight := false }) :=
      .of_act (act_put found (.of_reads reads rfl rfl rfl rfl rfl))
    have here := channel?_putChannel_self found { c with recvInFlight := false }
    simp only
    split
    · exact .of_acts marked
    · split
      · exact .of_acts (marked.trans (acts_close _ key _))
      · split
        · exact .of_acts (marked.trans (acts_close _ key _))
        · have got : Acts may key _ (Turn.putChannel _ key
              (Channel.received { c with recvInFlight := false } received)) :=
            .of_act (act_put here (.of_reads reads rfl rfl rfl rfl rfl))
          exact ((Attends.of_acts (marked.trans got)).trans
            ((drains_drainFrames _ key _).attends (by exact routes) reads settles)).andThen
              (.of_acts (acts_postRecv _ key reads))

theorem acts_onRecv (t : Turn σ) (key : SlotKey) (result : Int) (received : Bytes)
    (serving : may.Serving t.shared.reactors.length t.reactor.index)
    (reads : may.reads) (settles : may.settles) :
    Acts may key t (t.onRecv key result received) :=
  (attends_onRecv t key result received serving.routes reads settles).acts serving.sends

theorem acts_countTimer (t : Turn σ) (key : SlotKey) (connects : may.connects) :
    Acts may key t (t.countTimer key) := by
  simp only [countTimer]
  split
  · exact .refl t
  · rename_i c found
    split
    · exact .of_act (.flag t true)
    · exact .of_act (act_put found (.of_connects connects rfl rfl rfl rfl rfl rfl))

theorem acts_submitTimer (t : Turn σ) (key : SlotKey) (p : Purpose) (attempt : UInt8) (after : Nat)
    (own : p.isChannel = true) (timer : p ≠ .send ∧ p ≠ .recv)
    (connects : may.connects) :
    Acts may key t (t.submitTimer key (.ofChannel p key attempt) after).2 := by
  have submitted : Acts may key t (t.submit (.ofChannel p key attempt) _).2 :=
    .of_act (.submit t p attempt (.timeout after) own (fun is => absurd is timer.1)
      (fun is => absurd is timer.2) fun _ _ => connects)
  simp only [submitTimer]
  split
  · rename_i t' result
    rw [result] at submitted
    exact submitted.trans (acts_countTimer t' key connects)
  · rename_i e t' result
    rw [result] at submitted
    exact submitted

/-- The pause before the next attempt is submitted, or the channel is closed. -/
theorem acts_connectFailed (t : Turn σ) (key : SlotKey) (reason : String)
    (connects : may.connects) :
    Acts may key t (t.connectFailed key reason) := by
  unfold connectFailed
  split
  · exact .refl t
  · rename_i c found
    simp only
    split
    · split
      · exact .of_act (.flag t true)
      · rename_i pause _
        have timed : Acts may key t _ := acts_submitTimer t key .retryTimer c.attempt.toUInt8
          pause rfl ⟨nofun, nofun⟩ connects
        split
        · rename_i t' result
          rw [result] at timed
          exact timed
        · rename_i e t' result
          rw [result] at timed
          exact timed.trans (acts_close t' key _)
    · exact acts_close t key _

theorem acts_submitConnect (t : Turn σ) (key : SlotKey) (c : Channel) (socket : Nat)
    (connects : may.connects) :
    Acts may key t (t.submitConnect key c socket) := by
  have submitted : Acts may key t (t.submit (.ofChannel .connect key c.attempt.toUInt8) _).2 :=
    .of_act (.submit t .connect c.attempt.toUInt8 (.connect (some socket) c.remote) rfl nofun
      nofun fun _ _ => connects)
  simp only [submitConnect]
  split
  · rename_i e t' result
    rw [result] at submitted
    exact (submitted.tail (.host t' _)).trans (acts_connectFailed _ key _ connects)
  · rename_i t' result
    rw [result] at submitted
    refine (submitted.tail (.tune t' _ ?_)).trans (acts_submitTimer _ key .connectTimeout _ _ rfl
      ⟨nofun, nofun⟩ connects)
    exact fun _ _ => .of_connects connects rfl rfl rfl rfl rfl rfl

theorem acts_startConnect (t : Turn σ) (key : SlotKey) (connects : may.connects) :
    Acts may key t (t.startConnect key) := by
  unfold startConnect
  split
  · exact .refl t
  · rename_i c found
    split
    · exact .of_act (.flag t true)
    · simp only
      refine Acts.after_put { c with attempt := c.attempt + 1, timedOut := false } ?_ found
        (.of_connects connects rfl rfl rfl rfl rfl rfl)
      split
      · exact acts_connectFailed _ key _ connects
      · rename_i socket host _
        exact (Acts.of_act (.host _ host)).trans (acts_submitConnect _ key _ socket connects)

/-- Only here does a channel open. -/
theorem acts_openChannel (opens : may.opens) (t : Turn σ) (key : SlotKey) (c : Channel)
    (found : t.channel? key = some c) (connecting : c.state = .connecting)
    (sends : may.sends) (reads : may.reads) :
    Acts may key t (t.openChannel key c) := by
  simp only [openChannel]
  refine Acts.after_put { c with state := .open } ?_ found
    ⟨rfl, .inr ⟨opens, connecting, rfl⟩, .inl rfl, .inl ⟨rfl, rfl, rfl⟩, .inl ⟨rfl, rfl⟩⟩
  have started (t : Turn σ) : Acts may key t ((t.postRecv key).andThen (·.flush key)) :=
    (acts_postRecv t key reads).andThen (acts_flush _ key sends)
  split
  · exact (Acts.of_act (.markOpen _ _ opens)).trans (started _)
  · exact started _

theorem channel?_cancelTimer (t : Turn σ) (key : SlotKey) (c : Channel) (attempt : UInt8)
    (k : SlotKey) : (t.cancelTimer key c attempt).channel? k = t.channel? k := by
  simp only [cancelTimer]
  split
  · rfl
  · rfl

theorem acts_cancelTimer (t : Turn σ) (key : SlotKey) (c : Channel) (attempt : UInt8) :
    Acts may key t (t.cancelTimer key c attempt) := by
  simp only [cancelTimer]
  split
  · exact .of_act (.cancel t .connectTimeout attempt rfl nofun nofun)
  · exact .refl t

/-- A connect that comes back opens the channel, or opens nothing. -/
theorem onConnect_cases (t : Turn σ) (key : SlotKey) (attempt : UInt8) (result : Int)
    (connects : may.connects) :
    Acts may key t (t.onConnect key attempt result)
    ∨ ∃ s c, Acts may key t s ∧ s.channel? key = some c ∧ c.state = .connecting
      ∧ t.onConnect key attempt result = s.openChannel key c := by
  unfold onConnect
  split
  · exact .inl (.refl t)
  · rename_i c found
    simp only
    have put : Acts may key t (t.putChannel key { c with connectInFlight := false }) :=
      .of_act (act_put found (.of_connects connects rfl rfl rfl rfl rfl rfl))
    have here := channel?_putChannel_self found { c with connectInFlight := false }
    generalize t.putChannel key { c with connectInFlight := false } = s at put here ⊢
    split
    · exact .inl put
    · rename_i connecting
      rw [not_not] at connecting
      have canceled : Acts may key t _ :=
        put.trans (acts_cancelTimer s key { c with connectInFlight := false } attempt)
      rw [← channel?_cancelTimer s key { c with connectInFlight := false } attempt] at here
      split
      · exact .inr ⟨_, _, canceled, here, connecting, rfl⟩
      · refine .inl (canceled.trans ?_)
        exact (Acts.of_act (.host _ _)).trans
          ((acts_connectFailed _ key _ connects).after_put _ here
            (.of_connects connects rfl rfl rfl rfl rfl rfl))

theorem acts_onConnect (opens : may.opens) (t : Turn σ) (key : SlotKey) (attempt : UInt8)
    (result : Int) (sends : may.sends) (reads : may.reads)
    (connects : may.connects) :
    Acts may key t (t.onConnect key attempt result) := by
  obtain acts | ⟨s, c, acts, found, connecting, same⟩ :=
    onConnect_cases t key attempt result connects
  · exact acts
  · rw [same]
    exact acts.trans (acts_openChannel opens s key c found connecting sends reads)

theorem acts_onConnectTimeout (t : Turn σ) (key : SlotKey) (attempt : UInt8) (result : Int)
    (connects : may.connects) :
    Acts may key t (t.onConnectTimeout key attempt result) := by
  unfold onConnectTimeout
  split
  · exact .refl t
  · rename_i c found
    simp only
    refine Acts.after_put (timerDone c) ?_ found (.of_connects connects rfl rfl rfl rfl rfl rfl)
    split
    · exact .refl _
    · refine Acts.after_put { timerDone c with timedOut := true } ?_
        (channel?_putChannel_self found (timerDone c))
        (.of_connects connects rfl rfl rfl rfl rfl rfl)
      exact .of_act (.cancel _ .connect attempt rfl nofun nofun)

theorem acts_onRetryTimer (t : Turn σ) (key : SlotKey) (result : Int)
    (connects : may.connects) :
    Acts may key t (t.onRetryTimer key result) := by
  unfold onRetryTimer
  split
  · exact .refl t
  · rename_i c found
    simp only
    refine Acts.after_put (timerDone c) ?_ found (.of_connects connects rfl rfl rfl rfl rfl rfl)
    split
    · exact .refl _
    · exact acts_startConnect _ key connects

/-! ## What concerns no channel -/

theorem acts_armWakeup (t : Turn σ) (key : SlotKey) (arms : may.arms) :
    Acts may key t t.armWakeup := by
  have submitted : Acts may key t (t.submit (.plain .wakeup) _).2 :=
    .of_act (.submitPlain t .wakeup (.read none 8) rfl arms)
  simp only [armWakeup]
  split
  · rename_i t' result
    rw [result] at submitted
    exact submitted.tail (.mark t' true t'.reactor.acceptArmed t'.reactor.drainExpired arms)
  · rename_i e t' result
    rw [result] at submitted
    exact submitted

theorem acts_onWakeup (t : Turn σ) (key : SlotKey) (arms : may.arms) :
    Acts may key t t.onWakeup := by
  have marked : Acts may key t { t with reactor := { t.reactor with wakeArmed := false } } :=
    .of_act (.mark t false t.reactor.acceptArmed t.reactor.drainExpired arms)
  simp only [onWakeup]
  split
  · exact marked
  · exact marked.trans (acts_armWakeup _ key arms)

theorem acts_armAccept (t : Turn σ) (key : SlotKey) (arms : may.arms) :
    Acts may key t t.armAccept := by
  simp only [armAccept]
  split
  · exact .refl t
  · have submitted : Acts may key t (t.submit (.plain .accept) _).2 :=
      .of_act (.submitPlain t .accept (.accept t.reactor.listener) rfl arms)
    split
    · rename_i t' result
      rw [result] at submitted
      exact submitted.tail (.mark t' t'.reactor.wakeArmed true t'.reactor.drainExpired arms)
    · rename_i e t' result
      rw [result] at submitted
      exact submitted

theorem acts_onDrainTimer (t : Turn σ) (key : SlotKey) (result : Int)
    (arms : may.arms) : Acts may key t (t.onDrainTimer result) := by
  simp only [onDrainTimer]
  split
  · exact .of_act (.mark t t.reactor.wakeArmed t.reactor.acceptArmed true arms)
  · exact .refl t

theorem acts_runLocal (t : Turn σ) (key : SlotKey) (r : Request) (correlationId : Option UInt64)
    (runs : may.runs r.partition) (settles : may.settles) :
    Acts may key t (t.runLocal r correlationId) := by
  have ran : Acts may key t { t with reactor := { t.reactor with dispatcher := _ } } :=
    .of_act (.dispatch t r.opcode r.partition (correlationId.getD 0) r.payload runs)
  simp only [runLocal]
  cases correlationId with
  | none => exact ran
  | some id => exact ran.tail (.complete _ _ _ _ settles)

/-- A forwarded request is run, and its response goes to its channel or to the reactor of that. -/
theorem runForwarded_cases (t : Turn σ) (f : Frame) (replyTo : ChannelKey) :
    t.runForwarded f replyTo = (t.execute f).2
    ∨ ∃ bytes, (t.execute f).1 = some bytes
      ∧ (t.runForwarded f replyTo = (t.execute f).2.write replyTo.key bytes
        ∨ t.runForwarded f replyTo
          = ((t.execute f).2.submitTask replyTo.reactor (.reply replyTo bytes)).2) := by
  simp only [runForwarded]
  cases t.execute f with
  | mk answer t' =>
    cases answer with
    | none => exact .inl rfl
    | some bytes =>
      refine .inr ⟨bytes, rfl, ?_⟩
      simp only
      split
      · exact .inl rfl
      · exact .inr rfl

/-- A request of another reactor is answered on a channel of this one only if that
reactor is this one. -/
theorem acts_runForwarded (t : Turn σ) (f : Frame) (replyTo : ChannelKey)
    (serving : may.Serving t.shared.reactors.length t.reactor.index)
    (runs : may.runs f.partition) :
    Acts may replyTo.key t (t.runForwarded f replyTo) := by
  have run : Acts may replyTo.key t (t.execute f).2 := acts_execute t replyTo.key f runs
  obtain same | ⟨bytes, -, same | same⟩ := runForwarded_cases t f replyTo
  · rw [same]
    exact run
  · rw [same]
    exact run.trans (acts_write _ _ bytes serving.sends)
  · rw [same]
    exact run.tail (.hand _ _ _ rfl (serving.replies _ _))

theorem acts_reject (t : Turn σ) (key : SlotKey) (task : Task)
    (settles : may.settles) : Acts may key t (t.reject task) := by
  cases task with
  | execute r correlationId =>
    cases correlationId with
    | none => exact .refl t
    | some id => exact .of_act (.complete t _ id _ settles)
  | write l bytes correlationId =>
    cases correlationId with
    | none => exact .refl t
    | some id => exact .of_act (.complete t _ id _ settles)
  | connect | forward | reply | stop => exact .refl t

/-! ## The channel of a link -/

/-- Whether a channel is connecting or open. -/
def isUsable (c : Channel) : Prop := c.state = .connecting ∨ c.state = .open

/-- The channel of a link is there and usable, or it is made. -/
theorem outboundChannel_cases (t : Turn σ) (l : Link) :
    (∃ key c, t.reactor.outbound.get? l.endpoint = some key ∧ t.channel? key = some c
      ∧ isUsable c ∧ t.outboundChannel l = (some key, t))
    ∨ (t.outboundChannel l).2 = (t.makeChannel l).2.startConnect (t.makeChannel l).1
      ∧ (∀ key, (t.outboundChannel l).1 = some key → key = (t.makeChannel l).1
        ∧ ∃ c, (t.outboundChannel l).2.channel? key = some c ∧ isUsable c)
      ∧ ((t.outboundChannel l).1 = none →
        ∀ c, (t.outboundChannel l).2.channel? (t.makeChannel l).1 = some c →
          c.state ≠ .connecting) := by
  simp only [outboundChannel]
  split
  · rename_i key usable
    obtain ⟨entry, keep⟩ := Option.filter_eq_some_iff.mp usable
    refine .inl ⟨key, ?_⟩
    cases found : t.channel? key with
    | none => simp [found] at keep
    | some c => exact ⟨c, entry, rfl, by simpa [found, isUsable] using keep, rfl⟩
  · refine .inr ?_
    split
    · rename_i c found
      refine ⟨rfl, ?_, ?_⟩
      · intro key here
        split at here
        · rename_i connecting
          cases here
          exact ⟨rfl, c, found, .inl connecting⟩
        · cases here
      · intro none c' found' connecting
        cases found.symm.trans found'
        rw [if_pos connecting] at none
        cases none
    · rename_i absent
      refine ⟨rfl, ?_, ?_⟩
      · intro key here
        cases here
      · intro _ c found
        cases absent.symm.trans found

/-! ## Tasks -/

/-- Bytes for a link are written to its channel. -/
theorem onTask_write {t : Turn σ} {l : Link} {key : SlotKey}
    (going : t.reactor.stopping = false) (ready : (t.outboundChannel l).1 = some key)
    (bytes : Bytes) (correlationId : Option UInt64) :
    t.onTask (.write l bytes correlationId) = (t.outboundChannel l).2.write key bytes := by
  simp only [onTask, going]
  cases made : t.outboundChannel l with
  | mk first t' =>
    rw [made] at ready
    cases ready
    rfl

/-- Bytes for a link that gets no channel are dropped. -/
theorem onTask_write_none {t : Turn σ} {l : Link} (going : t.reactor.stopping = false)
    (lost : (t.outboundChannel l).1 = none) (bytes : Bytes) (correlationId : Option UInt64) :
    t.onTask (.write l bytes correlationId) = (t.outboundChannel l).2 := by
  simp only [onTask, going]
  cases made : t.outboundChannel l with
  | mk first t' =>
    rw [made] at lost
    cases lost
    rfl

/-- What it comes to when a reactor runs a task. -/
inductive TaskStep (t : Turn σ) : Task → Turn σ → Prop where
  | rejected {task : Task} (stopping : t.reactor.stopping = true) : TaskStep t task (t.reject task)
  | executed (r : Request) (correlationId : Option UInt64) (going : t.reactor.stopping = false) :
      TaskStep t (.execute r correlationId) (t.runLocal r correlationId)
  | connected (l : Link) (going : t.reactor.stopping = false) :
      TaskStep t (.connect l) (t.outboundChannel l).2
  | written (l : Link) (bytes : Bytes) (correlationId : Option UInt64) (key : SlotKey)
      (going : t.reactor.stopping = false) (ready : (t.outboundChannel l).1 = some key) :
      TaskStep t (.write l bytes correlationId) ((t.outboundChannel l).2.write key bytes)
  | unwritten (l : Link) (bytes : Bytes) (correlationId : Option UInt64)
      (going : t.reactor.stopping = false) (lost : (t.outboundChannel l).1 = none) :
      TaskStep t (.write l bytes correlationId) (t.outboundChannel l).2
  | forwarded (f : Frame) (replyTo : ChannelKey) (going : t.reactor.stopping = false) :
      TaskStep t (.forward f replyTo) (t.runForwarded f replyTo)
  | replied (channel : ChannelKey) (bytes : Bytes) (going : t.reactor.stopping = false) :
      TaskStep t (.reply channel bytes) (t.write channel.key bytes)
  | stopped (going : t.reactor.stopping = false) : TaskStep t .stop t.beginStop

theorem taskStep_onTask (t : Turn σ) (task : Task) : t.TaskStep task (t.onTask task) := by
  cases stopping : t.reactor.stopping with
  | true =>
    have rejects : t.onTask task = t.reject task := if_pos stopping
    rw [rejects]
    exact .rejected stopping
  | false =>
    have going : ¬ t.reactor.stopping = true := Bool.eq_false_iff.mp stopping
    cases task with
    | write l bytes correlationId =>
      cases ready : (t.outboundChannel l).1 with
      | some key =>
        rw [onTask_write stopping ready]
        exact .written l bytes correlationId key stopping ready
      | none =>
        rw [onTask_write_none stopping ready]
        exact .unwritten l bytes correlationId stopping ready
    | execute r correlationId =>
      rw [onTask, if_neg going]
      exact .executed r correlationId stopping
    | connect l =>
      rw [onTask, if_neg going]
      exact .connected l stopping
    | forward f replyTo =>
      rw [onTask, if_neg going]
      exact .forwarded f replyTo stopping
    | reply channel bytes =>
      rw [onTask, if_neg going]
      exact .replied channel bytes stopping
    | stop =>
      rw [onTask, if_neg going]
      exact .stopped stopping

/-! ## Whole steps -/

/-- The accept is no longer under way. -/
def unarmed (t : Turn σ) : Turn σ := { t with reactor := { t.reactor with acceptArmed := false } }

theorem acts_unarmed (t : Turn σ) (key : SlotKey) (arms : may.arms) : Acts may key t t.unarmed :=
  .of_act (.mark t t.reactor.wakeArmed false t.reactor.drainExpired arms)

/-- When an accept comes back, a connection may be adopted.  The rest is of no channel. -/
theorem onAccept_cases (may : Scope) (t : Turn σ) (result : Int) (remote : Option Endpoint)
    (arms : may.arms) :
    (∀ key, Acts may key t (t.onAccept result remote))
    ∨ ∀ key, Acts may key (t.unarmed.adopt result.toNat remote) (t.onAccept result remote) := by
  simp only [onAccept]
  split
  · exact .inl fun key => (acts_unarmed t key arms).trans (acts_armAccept _ key arms)
  · split
    · exact .inl fun key => (acts_unarmed t key arms).tail (.host _ _)
    · exact .inr fun key => acts_andThen _ (acts_armAccept _ key arms)

theorem onCompletion_of_accept {c : IoCompletion Token} (t : Turn σ)
    (accepts : c.token.purpose? = some .accept) :
    t.onCompletion c = t.afresh.onAccept c.result c.remote := by
  simp only [onCompletion, accepts]

/-- A reactor that winds down is not told again. -/
theorem beginStop_of_stopping {t : Turn σ} (stopping : t.reactor.stopping = true) :
    t.beginStop = t :=
  if_pos stopping

/-- What winding down does after the channels were closed. -/
theorem acts_beginStop {t : Turn σ} (going : t.reactor.stopping = false) (key : SlotKey)
    (arms : may.arms) :
    Acts may key (t.reactor.channels.keys.foldl (fun t key => t.close key .shuttingDown)
      { t with reactor := { t.reactor with stopping := true } }) t.beginStop := by
  unfold beginStop
  rw [if_neg (by simp [going])]
  simp only
  generalize List.foldl _ _ _ = s
  have unaccepted : Acts may key s
      (if s.reactor.acceptArmed then s.cancel (.plain .accept) else s) := by
    split
    · exact .of_act (.cancelPlain s .accept rfl arms)
    · exact .refl s
  generalize (if s.reactor.acceptArmed then s.cancel (.plain .accept) else s) = s' at unaccepted ⊢
  have unwoken : Acts may key s
      (if s'.reactor.wakeArmed then s'.cancel (.plain .wakeup) else s') := by
    split
    · exact unaccepted.tail (.cancelPlain s' .wakeup rfl arms)
    · exact unaccepted
  generalize (if s'.reactor.wakeArmed then s'.cancel (.plain .wakeup) else s') = s' at unwoken ⊢
  have timed := unwoken.tail
    (.submitPlain s' .drainTimer (.timeout s'.config.terminationTimeout) rfl arms)
  split
  · rename_i s' result
    rw [result] at timed
    exact timed
  · rename_i e s' result
    rw [result] at timed
    exact timed.tail (.mark s' s'.reactor.wakeArmed s'.reactor.acceptArmed true arms)

/-- A completion is handled for the channel it is of, unless a connection comes
with it. -/
theorem acts_onCompletion (t : Turn σ) (c : IoCompletion Token)
    (other : c.token.purpose? ≠ some .accept)
    (opens : c.token.purpose? = some .connect → may.opens)
    (serving : c.token.purpose? = some .recv →
      may.Serving t.shared.reactors.length t.reactor.index)
    (sends : may.sends) (reads : may.reads)
    (arms : (∀ p, c.token.purpose? = some p → p.isChannel = false) → may.arms)
    (settles : may.settles) (connects : may.connects) :
    Acts may c.token.key t (t.onCompletion c) := by
  have ofReactor {p : Purpose} (kind : c.token.purpose? = some p) (own : p.isChannel = false) :
      may.arms := arms fun q kind' => Option.some.inj (kind.symm.trans kind') ▸ own
  have released (t : Turn σ) : Acts may c.token.key t (t.releaseIfDone c.token.key) :=
    .of_act (.release t)
  refine (Acts.of_act (.flag t false)).trans ?_
  simp only [onCompletion]
  cases kind : c.token.purpose? with
  | none => exact .refl _
  | some p =>
    cases p with
    | accept => exact absurd kind other
    | wakeup => exact acts_onWakeup _ _ (ofReactor kind rfl)
    | drainTimer => exact acts_onDrainTimer _ _ _ (ofReactor kind rfl)
    | recv =>
      exact (acts_onRecv t.afresh _ _ _ (by exact serving kind) reads settles).andThen (released _)
    | send => exact (acts_onSend _ _ _ sends).andThen (released _)
    | connect =>
      exact (acts_onConnect (opens kind) _ _ _ _ sends reads connects).andThen (released _)
    | connectTimeout => exact (acts_onConnectTimeout _ _ _ _ connects).andThen (released _)
    | retryTimer => exact (acts_onRetryTimer _ _ _ connects).andThen (released _)

/-- A handler that may do everything may handle any completion. -/
theorem acts_all_onCompletion (t : Turn σ) (c : IoCompletion Token)
    (other : c.token.purpose? ≠ some .accept) : Acts .all c.token.key t (t.onCompletion c) :=
  acts_onCompletion t c other (fun _ => trivial) (fun _ => Scope.serving_all _ _) trivial trivial
    (fun _ => trivial) trivial trivial

/-! ## Other channels are left alone -/

/-- A channel and its operations stand as they stood. -/
structure Untouched (key : SlotKey) (t t' : Turn σ) : Prop where
  channel : t'.channel? key = t.channel? key
  driver : t.reactor.driver.Untouched key t'.reactor.driver

namespace Untouched

variable {key : SlotKey}

theorem of_eq {t t' : Turn σ} (channels : t'.reactor.channels = t.reactor.channels)
    (driver : t'.reactor.driver = t.reactor.driver) : Untouched key t t' where
  channel := by rw [channel?, channels, channel?]
  driver := driver ▸ .refl _

theorem refl (t : Turn σ) : Untouched key t t := of_eq rfl rfl

theorem trans {t t' t'' : Turn σ} (h : Untouched key t t') (h' : Untouched key t' t'') :
    Untouched key t t'' :=
  ⟨h'.channel.trans h.channel, h.driver.trans h'.driver⟩

theorem modify (t : Turn σ) {k : SlotKey} (apart : key ≠ k) (f : Channel → Channel) :
    Untouched key t (t.modifyChannel k f) where
  channel := by rw [channel?_modifyChannel, if_neg apart]
  driver := .refl _

theorem release (t : Turn σ) {k : SlotKey} (apart : key ≠ k) :
    Untouched key t (t.releaseIfDone k) := by
  obtain same | ⟨c, found, -, -, -, removed⟩ := releaseIfDone_cases t k
  · rw [same]
    exact refl t
  · rw [removed]
    exact ⟨(Slab.get?_remove_of_get? found key).trans (if_neg apart), .refl _⟩

end Untouched

/-- Closing a channel cancels its own operations. -/
theorem key_of_mem_cancelTokens {c : Channel} {key : SlotKey} {token : Token}
    (mem : token ∈ c.cancelTokens key) : token.key = key := by
  simp only [Channel.cancelTokens, List.mem_append, List.mem_ite_nil_right, List.mem_cons,
    List.not_mem_nil, or_false] at mem
  rcases mem with ((⟨-, rfl⟩ | ⟨-, rfl⟩) | ⟨-, rfl⟩) | ⟨-, rfl | rfl⟩
  all_goals rfl

theorem Untouched.shut (t : Turn σ) {k key : SlotKey} (apart : key ≠ k) (c : Channel)
    (cause : Failure) : Untouched key t (t.shut k c cause) := by
  have put := Untouched.modify t apart fun _ => c.beginClose
  have canceled : t.reactor.driver.Untouched key
      ((c.cancelTokens k).foldl .cancel t.reactor.driver) :=
    .cancelAll _ fun _ mem _ _ => Token.isOf_of_ne (key_of_mem_cancelTokens mem ▸ Ne.symm apart)
  rw [shut_eq]
  exact ⟨put.channel, canceled⟩

theorem Act.untouched {key k : SlotKey} {t t' : Turn σ} (h : Act may key t t') (apart : k ≠ key) :
    Untouched k t t' := by
  cases h with
  | host | dispatch | mark | count | complete | markOpen | flag => exact .of_eq rfl rfl
  | hand => exact .of_eq rfl rfl
  | tune f _ => exact .modify t apart f
  | submit p attempt op =>
    exact ⟨rfl, .submit _ (fun _ _ => Token.isOf_of_ne (Ne.symm apart)) op⟩
  | submitPlain p op plain =>
    exact ⟨rfl, .submit _ (fun _ own => Token.isOf_plain plain own k) op⟩
  | cancel p attempt => exact ⟨rfl, .cancel _ fun _ _ => Token.isOf_of_ne (Ne.symm apart)⟩
  | cancelPlain p plain => exact ⟨rfl, .cancel _ fun _ own => Token.isOf_plain plain own k⟩
  | shut c cause _ _ => exact .shut t apart c cause
  | release => exact .release t apart

/-- A handler leaves every other channel alone. -/
theorem Acts.untouched {key k : SlotKey} {t t' : Turn σ} (h : Acts may key t t') (apart : k ≠ key) :
    Untouched k t t' := by
  induction h with
  | refl => exact .refl t
  | tail _ act ih => exact ih.trans (act.untouched apart)

/-- What a handler of any channel could have done leaves every channel alone. -/
theorem untouched_of_forall {t t' : Turn σ} (h : ∀ key, Acts .all key t t') (k : SlotKey) :
    Untouched k t t' := by
  have apart : k ≠ { k with generation := k.generation + 1 } := by
    intro same
    have next := congrArg SlotKey.generation same
    simp at next
  exact (h _).untouched apart

/-! ## The list of empty slots -/

theorem Act.freeExact {key : SlotKey} {t t' : Turn σ} (h : Act may key t t')
    (exact : t.reactor.channels.FreeExact) : t'.reactor.channels.FreeExact := by
  cases h with
  | host | dispatch | mark | count | hand | complete | markOpen | flag => exact exact
  | submit | submitPlain | cancel | cancelPlain => exact exact
  | tune f _ => exact exact.modify key f
  | shut c cause _ _ =>
    rw [shut_eq]
    exact exact.modify key fun _ => c.beginClose
  | release =>
    obtain same | ⟨c, -, -, -, -, removed⟩ := releaseIfDone_cases t key
    · rw [same]
      exact exact
    · rw [removed]
      exact exact.remove key.slot

theorem Acts.freeExact {key : SlotKey} {t t' : Turn σ} (h : Acts may key t t')
    (exact : t.reactor.channels.FreeExact) : t'.reactor.channels.FreeExact := by
  induction h with
  | refl => exact exact
  | tail _ act ih => exact act.freeExact ih

end Turn

end PartitionEngine
