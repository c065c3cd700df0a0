import PartitionEngine.Proofs.Arrivals
import PartitionEngine.Proofs.Connections
import PartitionEngine.Proofs.PeerTables
import PartitionEngine.Proofs.Shutdown

/-!
# Peers are kept apart

What is received on a channel concerns its own link at most.  Three things are shared by
the channels of a reactor: the invocations, the states of the links, and the channels by
endpoint (`Commons`).  A channel that was accepted has no link, and whatever comes in on
it leaves them alone.  On the channel of a link, responses complete invocations of its
peer, and if it is closed, the invocations of the peer that go through it fail
(`Turn.Touches`).

Handlers that open nothing and complete nothing touch the commons only by closing their
channel (`Turn.Act.touches`), so only responses have to be looked at.
-/

namespace PartitionEngine

/-- The responses among messages. -/
def responsesOf (ms : List Frame) : List Frame := ms.filter Frame.isResponse

theorem responsesOf_messagesOf_append (rs rs' : List (Except FrameError Frame)) :
    responsesOf (messagesOf (rs ++ rs'))
      = responsesOf (messagesOf rs) ++ responsesOf (messagesOf rs') := by
  rw [messagesOf, List.filterMap_append, responsesOf, List.filter_append]
  rfl

/-- A handler that opens nothing and completes nothing. -/
def Scope.aloof : Scope := { opens := False, settles := False }

theorem Scope.serving_aloof (count i : Nat) : aloof.Serving count i :=
  ⟨trivial, fun _ _ => trivial, fun _ _ => trivial, fun _ _ => trivial⟩

/-- What the channels of a reactor share. -/
structure Commons where
  invocations : InvocationTable
  links : Links
  /-- The channel to each endpoint. -/
  outbound : Assoc Endpoint SlotKey

namespace Commons

/-- Responses came in on a channel.  On one without a link they belong to nothing. -/
def answer (s : Commons) (link? : Option Link) (fs : List Frame) : Commons :=
  match link? with
  | some l => { s with invocations := s.invocations.answer l.peer fs }
  | none => s

/-- The channel of a link was closed.  One without a link leaves nothing behind. -/
def abandon (s : Commons) (key : SlotKey) (link? : Option Link) (cause : Failure) : Commons :=
  match link? with
  | some l => {
      invocations := (s.invocations.failRouted l.peer l.index cause).2
      links := s.links.reset l
      outbound :=
        if s.outbound.get? l.endpoint = some key then s.outbound.erase l.endpoint
        else s.outbound }
  | none => s

@[simp] theorem answer_nil (s : Commons) (link? : Option Link) : s.answer link? [] = s := by
  cases link? <;> rfl

theorem answer_append (s : Commons) (link? : Option Link) (fs fs' : List Frame) :
    s.answer link? (fs ++ fs') = (s.answer link? fs).answer link? fs' := by
  cases link? with
  | none => rfl
  | some l => simp only [answer, InvocationTable.answer_append]

end Commons

namespace Turn

variable {σ : Type} {key : SlotKey} {link? : Option Link} {t t' t'' : Turn σ}
  {fs fs' : List Frame}

def commons (t : Turn σ) : Commons :=
  { invocations := t.shared.invocations, links := t.shared.links, outbound := t.reactor.outbound }

/-! ## What handling a channel touches -/

/-- What became of the commons while responses came in on a channel with this link. -/
inductive Bears (key : SlotKey) (link? : Option Link) (fs : List Frame) (t t' : Turn σ) : Prop
  /-- The channel is as live as it was. -/
  | stays (live : t'.isLive key = t.isLive key) (answers : fs ≠ [] → t.isLive key = true)
      (commons : t'.commons = t.commons.answer link? fs)
  | closes (cause : Failure) (live : t.isLive key = true) (gone : t'.isLive key = false)
      (commons : t'.commons = (t.commons.answer link? fs).abandon key link? cause)

/-- What handling a channel with this link does, while responses come in on it. -/
structure Touches (key : SlotKey) (link? : Option Link) (fs : List Frame) (t t' : Turn σ) :
    Prop where
  config : t'.config = t.config
  shuttingDown : t'.shared.shuttingDown = t.shared.shuttingDown
  linked : ∀ c, t'.channel? key = some c → c.link = link?
  bears : Bears key link? fs t t'

theorem isLive_of_found {c : Channel} (found : t.channel? key = some c) :
    t.isLive key = !c.state.isClosed := by
  rw [isLive, found, Option.any_some]

theorem link_of_found {c c' : Channel} (found : t.channel? key = some c)
    (found' : t.channel? key = some c') : c'.link = c.link := by
  cases found.symm.trans found'
  rfl

theorem isLive_of_none (absent : t.channel? key = none) : t.isLive key = false := by
  rw [isLive, absent, Option.any_none]

namespace Touches

theorem of_same (config : t'.config = t.config)
    (shuttingDown : t'.shared.shuttingDown = t.shared.shuttingDown)
    (channel : t'.channel? key = t.channel? key) (commons : t'.commons = t.commons)
    (linked : ∀ c, t.channel? key = some c → c.link = link?) : Touches key link? [] t t' where
  config := config
  shuttingDown := shuttingDown
  linked c found := linked c (channel ▸ found)
  bears :=
    .stays (by rw [isLive, channel, isLive]) (absurd rfl) (by rw [commons, Commons.answer_nil])

theorem refl (linked : ∀ c, t.channel? key = some c → c.link = link?) :
    Touches key link? [] t t :=
  of_same rfl rfl rfl rfl linked

theorem trans (h : Touches key link? fs t t') (h' : Touches key link? fs' t' t'') :
    Touches key link? (fs ++ fs') t t'' where
  config := h'.config.trans h.config
  shuttingDown := h'.shuttingDown.trans h.shuttingDown
  linked := h'.linked
  bears := by
    cases h.bears with
    | stays live answers commons =>
      cases h'.bears with
      | stays live' answers' commons' =>
        refine .stays (live'.trans live) (fun some => ?_) ?_
        · cases fs with
          | nil => exact live ▸ answers' (by simpa using some)
          | cons f rest => exact answers (by simp)
        · rw [commons', commons, Commons.answer_append]
      | closes cause live' gone commons' =>
        refine .closes cause (live ▸ live') gone ?_
        rw [commons', commons, Commons.answer_append]
    | closes cause live gone commons =>
      cases h'.bears with
      | stays live' answers' commons' =>
        -- Responses are handled only on a channel that is live.
        obtain rfl : fs' = [] := by
          by_contra some
          cases gone.symm.trans (answers' some)
        refine .closes cause live (live'.trans gone) ?_
        rw [commons', commons, Commons.answer_nil, List.append_nil]
      | closes _ live' => cases gone.symm.trans live'

end Touches

/-! ## Handlers that complete nothing -/

theorem commons_submitTask (t : Turn σ) (index : Nat) (task : Task) :
    (t.submitTask index task).2.commons = t.commons := by
  simp only [submitTask, Shared.submit]
  split
  · rfl
  · rfl

theorem commons_shut (t : Turn σ) (key : SlotKey) (c : Channel) (cause : Failure) :
    (t.shut key c cause).commons = t.commons.abandon key c.link cause := by
  simp only [shut]
  cases c.link with
  | none => rfl
  | some l => rfl

/-- A channel that is released was closed before. -/
theorem release_cases (t : Turn σ) (key : SlotKey) :
    t.releaseIfDone key = t
      ∨ t.isLive key = false ∧ (t.releaseIfDone key).channel? key = none
        ∧ (t.releaseIfDone key).commons = t.commons := by
  obtain same | ⟨c, found, closing, -, gone, -⟩ := releaseIfDone_cases t key
  · exact .inl same
  · refine .inr ⟨?_, gone, ?_⟩
    · rw [isLive_of_found found, closing]
      rfl
    · rw [releaseIfDone_eq]
      rfl

theorem isLive_releaseIfDone (t : Turn σ) (key : SlotKey) :
    (t.releaseIfDone key).isLive key = t.isLive key := by
  rcases release_cases t key with same | ⟨closed, gone, -⟩
  · rw [same]
  · rw [isLive_of_none gone, closed]

theorem isLive_close (t : Turn σ) (key : SlotKey) (cause : Failure) :
    (t.close key cause).isLive key = false := by
  cases found : (t.close key cause).channel? key with
  | none => exact isLive_of_none found
  | some c => rw [isLive_of_found found, closed_close t key cause c found, Bool.not_true]

/-- A handler that opens nothing and completes nothing only closes its channel. -/
theorem Act.touches (act : Act .aloof key t t')
    (linked : ∀ c, t.channel? key = some c → c.link = link?) : Touches key link? [] t t' := by
  have config : t'.config = t.config := (Acts.of_act act).config
  have shuttingDown := act.settles.shuttingDown
  cases act with
  | host | dispatch | mark | count => exact .of_same config shuttingDown rfl rfl linked
  | submit | submitPlain | cancel | cancelPlain | flag =>
    exact .of_same config shuttingDown rfl rfl linked
  | hand index task =>
    exact .of_same config shuttingDown rfl (commons_submitTask t index task) linked
  | complete peer id result settles => exact settles.elim
  | markOpen l opens => exact opens.elim
  | tune f tuned =>
    cases found : t.channel? key with
    | none =>
      refine .of_same config shuttingDown ?_ rfl linked
      rw [channel?_modifyChannel, if_pos rfl, found, Option.map_none]
    | some c =>
      have here := channel?_modifyChannel_self found f
      have tuned := tuned c found
      have state : (f c).state = c.state := tuned.state.resolve_right fun opened => opened.1
      refine ⟨config, shuttingDown, fun c' found' => ?_,
        .stays ?_ (absurd rfl) (Commons.answer_nil _ _).symm⟩
      · cases here.symm.trans found'
        exact tuned.link.trans (linked c found)
      · rw [isLive_of_found here, isLive_of_found found, state]
  | shut c cause found live =>
    have here := channel?_shut found cause
    refine ⟨config, shuttingDown, fun c' found' => ?_, .closes cause ?_ ?_ ?_⟩
    · cases here.symm.trans found'
      exact linked c found
    · rw [isLive_of_found found, live]
      rfl
    · rw [isLive_of_found here]
      rfl
    · rw [commons_shut, linked c found, Commons.answer_nil]
  | release =>
    have live := isLive_releaseIfDone t key
    rcases release_cases t key with same | ⟨-, gone, commons⟩
    · rw [same]
      exact .refl linked
    · refine ⟨config, shuttingDown, fun c' found' => ?_, .stays live (absurd rfl) ?_⟩
      · cases gone.symm.trans found'
      · rw [commons, Commons.answer_nil]

theorem Acts.touches (acts : Acts .aloof key t t')
    (linked : ∀ c, t.channel? key = some c → c.link = link?) : Touches key link? [] t t' := by
  induction acts with
  | refl => exact .refl linked
  | tail _ act ih => exact ih.trans (act.touches ih.linked)

/-! ## Messages -/

/-- A response completes an invocation of the peer of the link. -/
theorem touches_onResponse (going : t.shared.shuttingDown = false) (live : t.isLive key = true)
    (linked : ∀ c, t.channel? key = some c → c.link = link?) (f : Frame) :
    Touches key link? [f] t (t.onResponse key f) := by
  cases found : t.channel? key with
  | none => cases (isLive_of_none found).symm.trans live
  | some c =>
    have link := linked c found
    simp only [onResponse, found, Option.bind_some, link]
    cases link? with
    | none => exact ⟨rfl, rfl, linked, .stays rfl (fun _ => live) rfl⟩
    | some l =>
      simp only [going, Bool.false_eq_true, if_false]
      exact ⟨rfl, rfl, linked, .stays rfl (fun _ => live) rfl⟩

theorem touches_onFrame (going : t.shared.shuttingDown = false) (live : t.isLive key = true)
    (linked : ∀ c, t.channel? key = some c → c.link = link?) (f : Frame) :
    Touches key link? (responsesOf [f]) t (t.onFrame key f) := by
  simp only [onFrame]
  cases response : f.isResponse with
  | true =>
    rw [responsesOf, List.filter_cons_of_pos response]
    exact touches_onResponse going live linked f
  | false =>
    rw [responsesOf, List.filter_cons_of_neg (by simp [response])]
    exact Acts.touches (acts_onRequest t key f (Scope.serving_aloof _ _)) linked

/-- A message is taken off an open channel. -/
theorem touches_taken {c c' : Channel} (going : t.shared.shuttingDown = false)
    (found : t.channel? key = some c) (tuned : c.Tuned .aloof c') (isOpen : c'.state = .open)
    (linked : ∀ c, t.channel? key = some c → c.link = link?) (f : Frame) :
    Touches key link? (responsesOf [f]) t ((t.taking key c').onFrame key f) := by
  have put : Acts .aloof key t (t.taking key c') := (Acts.of_act (act_put found tuned)).tail
    (.count _ fun s => { s with messagesIn := s.messagesIn + 1 })
  have here : (t.taking key c').channel? key = some c' := channel?_putChannel_self found c'
  have live := isLive_of_found here
  rw [isOpen] at live
  have before := put.touches linked
  exact before.trans (touches_onFrame (before.shuttingDown.trans going) live before.linked f)

theorem responsesOf_cons (f : Frame) (fs : List Frame) :
    responsesOf (f :: fs) = responsesOf [f] ++ responsesOf fs := List.filter_append [f] fs

theorem Drains.touches {t t' : Turn σ} {fs : List Frame} (drains : Drains key t fs t')
    (going : t.shared.shuttingDown = false)
    (linked : ∀ c, t.channel? key = some c → c.link = link?) :
    Touches key link? (responsesOf fs) t t' := by
  have tuned {t : Turn σ} {c c' : Channel} {result : Except FrameError (Option Frame)}
      (asked : c.nextMessage t.config.maxFramePayload = (result, c')) : c.Tuned .aloof c' :=
    tuned_nextMessage asked trivial
  induction drains with
  | refl t => exact .refl linked
  | starved found isOpen asked =>
    exact Acts.touches (.of_act (act_put found (tuned asked))) linked
  | last found isOpen asked =>
    exact touches_taken going found (tuned asked) ((state_nextMessage asked).trans isOpen) linked _
  | @handled t t' c c' f fs found isOpen asked goes later ih =>
    have first := touches_taken going found (tuned asked) ((state_nextMessage asked).trans isOpen)
      linked f
    rw [responsesOf_cons]
    exact first.trans (ih (first.shuttingDown.trans going) first.linked)
  | lost found isOpen asked =>
    exact ((Acts.of_act (act_put found (tuned asked))).trans (acts_close _ key _)).touches linked
  | skipped found isOpen asked kept later ih =>
    have put := Acts.touches (.of_act (act_put found (tuned asked))) linked
    exact put.trans (ih (put.shuttingDown.trans going) put.linked)

/-! ## Receiving -/

/-- The bytes that a receive brings. -/
def bytesOf (chunk : Int × Bytes) : Bytes := if 0 < chunk.1 then chunk.2 else []

/-- Receives on a channel come back, one after another, each with its result and its bytes. -/
def receive (t : Turn σ) (key : SlotKey) (chunks : List (Int × Bytes)) : Turn σ :=
  chunks.foldl (fun t chunk => t.onCompletion
    { token := .ofChannel .recv key, result := chunk.1, received := chunk.2 }) t

@[simp] theorem receive_nil (t : Turn σ) (key : SlotKey) : t.receive key [] = t := rfl

theorem receive_cons (t : Turn σ) (key : SlotKey) (chunk : Int × Bytes)
    (chunks : List (Int × Bytes)) :
    t.receive key (chunk :: chunks)
      = ((t.afresh.onRecv key chunk.1 chunk.2).andThen (·.releaseIfDone key)).receive key chunks :=
  rfl

/-- The channel that a receive is over for is released if it was closed. -/
theorem touches_recv {result : Int} {received : Bytes}
    (linked : ∀ c, t.channel? key = some c → c.link = link?)
    (h : Touches key link? fs t.afresh (t.afresh.onRecv key result received)) :
    Touches key link? fs t ((t.afresh.onRecv key result received).andThen (·.releaseIfDone key)) := by
  have flagged : Touches key link? [] t t.afresh := .of_same rfl rfl rfl rfl linked
  have released : Acts .aloof key (t.afresh.onRecv key result received) _ := acts_release _ key
  have all := (flagged.trans h).trans (released.touches h.linked)
  rw [List.append_nil] at all
  exact all

/-- A receive that fails or that finds the end closes the channel. -/
theorem isLive_recv_of_lost {c : Channel} (found : t.channel? key = some c)
    (isOpen : c.state = .open) {result : Int} (lost : result ≤ 0) (received : Bytes) :
    ((t.afresh.onRecv key result received).andThen (·.releaseIfDone key)).isLive key = false := by
  have closed : (t.afresh.onRecv key result received).isLive key = false := by
    rw [onRecv, show t.afresh.channel? key = some c from found]
    simp only [isOpen, ne_eq, not_true_eq_false, if_false]
    split
    · exact isLive_close _ key _
    · rw [if_pos (by omega)]
      exact isLive_close _ key _
  exact andThen_cases (motive := fun s => s.isLive key = false) _ closed
    ((isLive_releaseIfDone _ key).trans closed)

/-- A channel that is not open receives nothing. -/
theorem touches_onRecv_of_not_open (linked : ∀ c, t.channel? key = some c → c.link = link?)
    (never : ∀ c, t.channel? key = some c → c.state ≠ .open) (result : Int) (received : Bytes) :
    Touches key link? [] t (t.onRecv key result received)
      ∧ ∀ c, (t.onRecv key result received).channel? key = some c → c.state ≠ .open := by
  unfold onRecv
  split
  · exact ⟨.refl linked, never⟩
  · rename_i c found
    have idle : Acts .aloof key t (t.putChannel key { c with recvInFlight := false }) :=
      .of_act (act_put found (.of_reads trivial rfl rfl rfl rfl rfl))
    simp only [if_pos (never c found)]
    refine ⟨idle.touches linked, fun c' found' => ?_⟩
    cases (channel?_putChannel_self found _).symm.trans found'
    exact never c found

theorem touches_receive_of_not_open (linked : ∀ c, t.channel? key = some c → c.link = link?)
    (never : ∀ c, t.channel? key = some c → c.state ≠ .open) (chunks : List (Int × Bytes)) :
    Touches key link? [] t (t.receive key chunks) := by
  induction chunks generalizing t with
  | nil => exact .refl linked
  | cons chunk chunks ih =>
    obtain ⟨touches, still⟩ := touches_onRecv_of_not_open (t := t.afresh) linked never chunk.1 chunk.2
    have first := touches_recv linked touches
    rw [receive_cons]
    refine first.trans (ih first.linked fun c found => ?_)
    let s := t.afresh.onRecv key chunk.1 chunk.2
    have before : s.channel? key = some c :=
      andThen_cases (motive := fun s' => s'.channel? key = some c → s.channel? key = some c) s
        id channel?_of_releaseIfDone found
    exact still c before

section

variable {maxPayload : Nat} {a : Assembler} {bytes : Bytes} {all : List Frame}

/-- What comes in on a channel is read behind what came in before.  The responses that are
handled are those among the messages that are taken off. -/
theorem touches_onRecv (going : t.shared.shuttingDown = false)
    (linked : ∀ c, t.channel? key = some c → c.link = link?)
    (payload : t.config.maxFramePayload = maxPayload) (h : t.Heard key maxPayload a bytes all)
    (result : Int) (received : Bytes) :
    ∃ later, Touches key link? (responsesOf later) t (t.onRecv key result received)
      ∧ (t.onRecv key result received).Heard key maxPayload a (bytes ++ bytesOf (result, received))
        (all ++ later) := by
  -- A channel that takes nothing off is gone or is closed.
  have nothing {t' : Turn σ} (touches : Touches key link? [] t t')
      (closed : ∀ c, t'.channel? key = some c → c.state.isClosed = true) :
      ∃ later, Touches key link? (responsesOf later) t t'
        ∧ t'.Heard key maxPayload a (bytes ++ bytesOf (result, received)) (all ++ later) :=
    ⟨[], touches, (List.append_nil all).symm ▸ h.of_closed closed _⟩
  unfold onRecv
  split
  · rename_i absent
    exact nothing (.refl linked) fun c found => by cases absent.symm.trans found
  · rename_i c found
    have put : Acts .aloof key t (t.putChannel key { c with recvInFlight := false }) :=
      .of_act (act_put found (.of_reads trivial rfl rfl rfl rfl rfl))
    have here := channel?_putChannel_self found { c with recvInFlight := false }
    have idle : Leaves key t (t.putChannel key { c with recvInFlight := false }) :=
      .of_modify found rfl rfl rfl
    have touches := put.touches linked
    have heard := h.leaves idle
    simp only
    generalize t.putChannel key { c with recvInFlight := false } = t₁ at here put idle touches heard ⊢
    have closes (cause : Failure) :=
      nothing ((put.trans (acts_close t₁ key cause)).touches linked) (closed_close t₁ key cause)
    split
    · rename_i shut
      refine nothing touches fun c' found' => ?_
      cases here.symm.trans found'
      cases live : c.state.isClosed with
      | true => rfl
      | false =>
        obtain ⟨rs, a', left, -, -, rest⟩ := h
        exact absurd (rest c found live).1 shut
    · rename_i isOpen
      rw [not_not] at isOpen
      split
      · exact closes _
      · split
        · exact closes _
        · rw [show bytesOf (result, received) = received from if_pos (by omega)]
          have put : Acts .aloof key t₁ (t₁.putChannel key
              (Channel.received { c with recvInFlight := false } received)) :=
            .of_act (act_put here (.of_reads trivial rfl rfl rfl rfl rfl))
          have filled := heard.received here isOpen received
          have touches := touches.trans (put.touches touches.linked)
          generalize t₁.putChannel key _ = t₂ at touches filled ⊢
          have drains := drains_drainFrames ((c.unread ++ received).length + 1) key t₂
          have drained := drains.touches (touches.shuttingDown.trans going) touches.linked
          have posted (s : Turn σ) : Acts .aloof key s (s.andThen (·.postRecv key)) :=
            acts_andThen s (acts_postRecv s key trivial)
          have whole := (touches.trans drained).trans ((posted _).touches drained.linked)
          rw [List.append_nil] at whole
          exact ⟨_, whole, (filled.drains drains ((congrArg _ touches.config).trans payload)).leaves
            (leaves_andThen _ (leaves_postRecv _ key))⟩

theorem touches_receive_of_heard (going : t.shared.shuttingDown = false)
    (linked : ∀ c, t.channel? key = some c → c.link = link?)
    (payload : t.config.maxFramePayload = maxPayload) (h : t.Heard key maxPayload a bytes all)
    (chunks : List (Int × Bytes)) :
    ∃ later, Touches key link? (responsesOf later) t (t.receive key chunks)
      ∧ (t.receive key chunks).Heard key maxPayload a (bytes ++ chunks.flatMap bytesOf)
        (all ++ later) := by
  induction chunks generalizing t bytes all with
  | nil =>
    refine ⟨[], .refl linked, ?_⟩
    rw [List.flatMap_nil, List.append_nil, List.append_nil]
    exact h
  | cons chunk chunks ih =>
    obtain ⟨now, touches, heard⟩ :=
      touches_onRecv (t := t.afresh) going linked payload h chunk.1 chunk.2
    have first := touches_recv linked touches
    have heard := heard.leaves (leaves_release _ key)
    obtain ⟨later, rest, heard'⟩ := ih (first.shuttingDown.trans going) first.linked
      ((congrArg _ first.config).trans payload) heard
    refine ⟨now ++ later, ?_, ?_⟩
    · rw [receive_cons, responsesOf, List.filter_append]
      exact first.trans rest
    · rw [receive_cons, List.flatMap_cons, ← List.append_assoc, ← List.append_assoc]
      exact heard'

end

/-- Whatever comes in on a channel, the responses that are handled are the first of those in
it. -/
theorem touches_receive {c : Channel} (going : t.shared.shuttingDown = false)
    (found : t.channel? key = some c) (chunks : List (Int × Bytes)) :
    ∃ fs rs lost a left, Touches key c.link fs t (t.receive key chunks)
      ∧ Reads t.config.maxFramePayload c.assembler (c.unread ++ chunks.flatMap bytesOf) rs lost
        a left
      ∧ fs <+: responsesOf (messagesOf rs) := by
  have linked (c' : Channel) (found' : t.channel? key = some c') : c'.link = c.link :=
    link_of_found found found'
  by_cases isOpen : c.state = .open
  · obtain ⟨later, touches, ⟨rs, a, left, begins, same, -⟩⟩ :=
      touches_receive_of_heard going linked rfl (.start found isOpen) chunks
    obtain ⟨rs', lost, a', left', reads⟩ := begins.exists_reads
    refine ⟨_, _, lost, a', left', touches, reads, ?_⟩
    rw [responsesOf_messagesOf_append, same]
    exact List.prefix_append ..
  · obtain ⟨rs, lost, a, left, reads⟩ := Reads.exists_reads t.config.maxFramePayload c.assembler
      (c.unread ++ chunks.flatMap bytesOf)
    have never (c' : Channel) (found' : t.channel? key = some c') : c'.state ≠ .open := by
      cases found.symm.trans found'
      exact isOpen
    exact ⟨[], rs, lost, a, left, touches_receive_of_not_open linked never chunks, reads,
      List.nil_prefix⟩

/-- What becomes of the commons on a channel without a link, and on that of a link. -/
theorem Touches.commons (h : Touches key link? fs t t') (minded : t.shared.invocations.Minded) :
    (link? = none → t'.commons = t.commons)
    ∧ ∀ l, link? = some l → ∃ answered,
      t.shared.invocations.SettlesOf l.peer (fun id _ => InvocationTable.answerTo fs id) answered
      ∧ (t'.isLive key = t.isLive key ∧ t'.commons = { t.commons with invocations := answered }
        ∨ t.isLive key = true ∧ t'.isLive key = false ∧ ∃ cause,
          answered.SettlesOf l.peer
            (fun _ i => if i.reactor = l.index then some (.error cause) else none)
            t'.commons.invocations
          ∧ t'.commons.links = t.commons.links.reset l
          ∧ t'.commons.outbound = if t.commons.outbound.get? l.endpoint = some key
            then t.commons.outbound.erase l.endpoint else t.commons.outbound) := by
  constructor
  · rintro rfl
    cases h.bears with
    | stays _ _ commons => exact commons
    | closes _ _ _ commons => exact commons
  · rintro l rfl
    have answered := InvocationTable.settlesOf_answer minded l.peer fs
    refine ⟨_, answered, ?_⟩
    cases h.bears with
    | stays live _ commons => exact .inl ⟨live, commons⟩
    | closes cause live gone commons =>
      refine .inr ⟨live, gone, cause, ?_⟩
      rw [commons]
      have failed := InvocationTable.settlesOf_failWhere answered.minded l.peer cause
        fun i => i.reactor = l.index
      simp only [decide_eq_true_eq] at failed
      exact ⟨failed, rfl, rfl⟩

end Turn

namespace World

variable {σ : Type} {w : World σ}

/-- In whatever state an engine is that does not shut down, and whatever comes in on a
channel in however many pieces: if the channel was accepted, no invocation is completed
or failed, and the links and the channels by endpoint are as they were.  If it is the
channel of a link, responses among what was read complete invocations of the peer of the
link, and no other.  If the channel is closed in the course of it, exactly those fail that
are left then of this peer and go through this link, and the link is idle again.
Invocations of other peers wait as they did. -/
theorem peers_apart {host₀ host : Host} {config : Config} {registry : Registry σ} {e : Engine σ}
    (made : Engine.new host₀ config registry = .ok e) (life : Life (ofEngine host e) w)
    (going : w.engine.shared.shuttingDown = false) (seat : Seat σ) (key : SlotKey) {c : Channel}
    (found : (w.turn seat).channel? key = some c) (chunks : List (Int × Bytes)) :
    (c.link = none → ((w.turn seat).receive key chunks).commons = (w.turn seat).commons)
    ∧ ∀ l, c.link = some l → ∃ rs lost a left answers answered,
      Reads w.engine.shared.config.maxFramePayload c.assembler
        (c.unread ++ chunks.flatMap Turn.bytesOf) rs lost a left
      ∧ answers <+: responsesOf (messagesOf rs)
      ∧ w.table.SettlesOf l.peer (fun id _ => InvocationTable.answerTo answers id) answered
      ∧ (((w.turn seat).receive key chunks).isLive key = (w.turn seat).isLive key
          ∧ ((w.turn seat).receive key chunks).commons
            = { (w.turn seat).commons with invocations := answered }
        ∨ (w.turn seat).isLive key = true ∧ ((w.turn seat).receive key chunks).isLive key = false
          ∧ ∃ cause, answered.SettlesOf l.peer
              (fun _ i => if i.reactor = l.index then some (.error cause) else none)
              ((w.turn seat).receive key chunks).shared.invocations
            ∧ ((w.turn seat).receive key chunks).shared.links = w.engine.shared.links.reset l
            ∧ ((w.turn seat).receive key chunks).reactor.outbound
              = if seat.reactor.outbound.get? l.endpoint = some key
                then seat.reactor.outbound.erase l.endpoint else seat.reactor.outbound)
      ∧ ∀ peer id i, peer ≠ l.peer → w.table.Waits peer id i →
        ((w.turn seat).receive key chunks).shared.invocations.Waits peer id i
        ∧ ((w.turn seat).receive key chunks).shared.invocations.standing i.future = some none := by
  obtain ⟨reactors, -, rfl⟩ := Engine.eq_of_new made
  have minded : w.table.Minded := (Life.retains life).minded InvocationTable.minded_empty
  obtain ⟨fs, rs, lost, a, left, touches, reads, front⟩ :=
    Turn.touches_receive (t := w.turn seat) going found chunks
  obtain ⟨accepted, linked⟩ := touches.commons minded
  refine ⟨accepted, fun l link => ?_⟩
  obtain ⟨answered, settles, outcome⟩ := linked l link
  refine ⟨rs, lost, a, left, fs, answered, reads, front, settles, outcome, ?_⟩
  intro peer id i other waits
  have waits := (settles.undone waits fun same => absurd same other)
  rcases outcome with ⟨-, commons⟩ | ⟨-, -, cause, failed, -⟩
  · have same : ((w.turn seat).receive key chunks).shared.invocations = answered :=
      congrArg Commons.invocations commons
    rw [same]
    exact waits
  · exact failed.undone waits.1 fun same => absurd same other

/-- The channel of the link when it is connected. -/
def joined : Channel :=
  { Channel.outbound outward (64 * 1024 * 1024) with
    descriptor := some 16, state := .open, recvInFlight := true, timers := 1, attempt := 1 }

/-- The call that waits for its answer. -/
def asked : Invocation := { correlationId := 501, partition := 7, reactor := 0, future := 0 }

/-- The channel of a call is connected, and the other engine closes it.  The call, which waits
for its answer, fails. -/
theorem peers_apart_of_loss : ∃ (w : World Builtin.Item) (seat : Seat Builtin.Item) (cause : Failure),
    Engine.new {} { reactorCount := 1 } .builtin = .ok unstarted.engine ∧ Life unstarted w
    ∧ w.engine.shared.shuttingDown = false ∧ w.seat? 0 = some seat
    ∧ (w.turn seat).channel? ⟨0, 0⟩ = some joined ∧ w.table.Waits away 501 asked
    ∧ ((w.turn seat).receive ⟨0, 0⟩ [(0, [])]).shared.invocations.standing 0
      = some (some (.error cause)) := by
  have made : Engine.new {} { reactorCount := 1 } .builtin = .ok unstarted.engine := rfl
  have started : Life unstarted entrusted :=
    .tail (.single (.launch _ {} _ _ rfl rfl rfl)) (.step (.change _ {} (.allTo away)))
  have called : Life unstarted awaiting := started.tail (.step (.call entrusted request))
  have dialed : Life unstarted (awaiting.runTask 0) :=
    called.tail (.step (.move awaiting 0 _ _ _ rfl rfl (.run _ _ _ rfl)))
  have connected : Life unstarted _ := dialed.tail (.step (.drive _ 0 _
    { ready := [{ token := .ofChannel .connect ⟨0, 0⟩ 1, result := 0 }] } rfl rfl))
  have taken : Life unstarted _ :=
    connected.tail (.step (.move _ 0 _ _ _ rfl rfl (.take _ 1)))
  have opened : Life unstarted _ :=
    taken.tail (.step (.move _ 0 _ _ _ rfl rfl (.handle _ _ _)))
  obtain ⟨w, opened, seat, seated, found, going, waits⟩ : ∃ w, Life unstarted w
      ∧ ∃ seat, w.seat? 0 = some seat ∧ (w.turn seat).channel? ⟨0, 0⟩ = some joined
      ∧ w.engine.shared.shuttingDown = false ∧ w.table.Waits away 501 asked :=
    ⟨_, opened, _, rfl, rfl, rfl, _, rfl, List.mem_singleton_self _⟩
  obtain ⟨-, linked⟩ := peers_apart made opened going seat ⟨0, 0⟩ found [(0, [])]
  obtain ⟨rs, lost, a, left, answers, answered, reads, front, settles, outcome, -⟩ :=
    linked outward rfl
  -- Nothing came in, so nothing was answered.
  obtain ⟨rfl, -⟩ := reads.unique (.starved rfl)
  obtain rfl : answers = [] := List.prefix_nil.mp front
  have waits' := (settles.waits 501 asked).mpr ⟨waits, rfl⟩
  rcases outcome with ⟨live, -⟩ | ⟨-, -, cause, failed, -⟩
  · rw [Turn.receive_cons, Turn.receive_nil, Turn.isLive_recv_of_lost found rfl (Int.le_refl 0),
      Turn.isLive_of_found found] at live
    cases live
  · exact ⟨w, seat, cause, made, opened, going, seated, found, waits,
      failed.settled 501 asked _ waits' rfl⟩

end World

end PartitionEngine
