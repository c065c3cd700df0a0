import PartitionEngine.Proofs.Lines

/-!
# What arrives on a channel

The bytes that were received on a channel say which messages a reactor takes off it.  It
takes the first of those that are there, and as long as the channel is open what was not
read of the bytes waits in it (`Begins`).  The reactor may stop in the middle, for the
handler of a message may panic; it goes on there with the next receive.  Once the channel is
closed nothing more is taken off (`Turn.Hears`).  Only a receive changes that
(`Turn.Hears.followRecv`): whatever else a reactor does leaves what waits unread as it is
(`Turn.Leaves`).
-/

namespace PartitionEngine

/-- The messages among what was read. -/
def messagesOf (rs : List (Except FrameError Frame)) : List Frame := rs.filterMap Except.toOption

/-- What taking some frames off a byte string gives: messages and errors of single frames, the
assembler afterwards, and the bytes that are left. -/
inductive Begins (maxPayload : Nat) :
    Assembler → Bytes → List (Except FrameError Frame) → Assembler → Bytes → Prop where
  | refl (a bytes) : Begins maxPayload a bytes [] a bytes
  | part {a a' a'' bytes rest left f ms} :
    decode maxPayload bytes = .ok (some (f, rest)) →
    a.accept f = (.ok none, a') →
    Begins maxPayload a' rest ms a'' left →
    Begins maxPayload a bytes ms a'' left
  | message {a a' a'' bytes rest left f m ms} :
    decode maxPayload bytes = .ok (some (f, rest)) →
    a.accept f = (.ok (some m), a') →
    Begins maxPayload a' rest ms a'' left →
    Begins maxPayload a bytes (.ok m :: ms) a'' left
  | refused {a a' a'' bytes rest left f e ms} :
    decode maxPayload bytes = .ok (some (f, rest)) →
    a.accept f = (.error e, a') →
    e.corruptsStream = false →
    Begins maxPayload a' rest ms a'' left →
    Begins maxPayload a bytes (.error e :: ms) a'' left

namespace Begins

variable {maxPayload : Nat} {a a' a'' : Assembler} {bytes left left' : Bytes}
  {rs rs' : List (Except FrameError Frame)}

theorem trans (h : Begins maxPayload a bytes rs a' left)
    (h' : Begins maxPayload a' left rs' a'' left') :
    Begins maxPayload a bytes (rs ++ rs') a'' left' := by
  induction h with
  | refl => exact h'
  | part taken accepted _ ih => exact .part taken accepted (ih h')
  | message taken accepted _ ih => exact .message taken accepted (ih h')
  | refused taken accepted kept _ ih => exact .refused taken accepted kept (ih h')

/-- What comes in later is left. -/
theorem append (h : Begins maxPayload a bytes rs a' left) (more : Bytes) :
    Begins maxPayload a (bytes ++ more) rs a' (left ++ more) := by
  induction h with
  | refl => exact .refl _ _
  | part taken accepted _ ih => exact .part (decode_append taken more) accepted ih
  | message taken accepted _ ih => exact .message (decode_append taken more) accepted ih
  | refused taken accepted kept _ ih => exact .refused (decode_append taken more) accepted kept ih

/-- The rest is read. -/
theorem finish {lost : Bool} (h : Begins maxPayload a bytes rs a' left)
    (h' : Reads maxPayload a' left rs' lost a'' left') :
    Reads maxPayload a bytes (rs ++ rs') lost a'' left' := by
  induction h with
  | refl => exact h'
  | part taken accepted _ ih => exact .part taken accepted (ih h')
  | message taken accepted _ ih => exact .message taken accepted (ih h')
  | refused taken accepted kept _ ih => exact .refused taken accepted kept (ih h')

/-- What was taken off comes first in what there is to read. -/
theorem exists_reads (h : Begins maxPayload a bytes rs a' left) :
    ∃ rs' lost a'' left', Reads maxPayload a bytes (rs ++ rs') lost a'' left' := by
  obtain ⟨rs', lost, a'', left', rest⟩ := Reads.exists_reads maxPayload a' left
  exact ⟨rs', lost, a'', left', h.finish rest⟩

end Begins

/-- What a channel was asked for last. -/
def readOf : Except FrameError (Option Frame) → List (Except FrameError Frame)
  | .ok none => []
  | .ok (some m) => [.ok m]
  | .error e => [.error e]

theorem begins_readMessage {maxPayload : Nat} (bound : Nat) (a : Assembler) (bytes : Bytes)
    (kept : ∀ e, (Channel.readMessage maxPayload bound a bytes).1 = .error e →
      e.corruptsStream = false) :
    Begins maxPayload a bytes (readOf (Channel.readMessage maxPayload bound a bytes).1)
      (Channel.readMessage maxPayload bound a bytes).2.1
      (Channel.readMessage maxPayload bound a bytes).2.2 := by
  induction bound generalizing a bytes with
  | zero => exact .refl a bytes
  | succ bound ih =>
    rw [Channel.readMessage] at kept ⊢
    cases taken : decode maxPayload bytes with
    | error e =>
      rw [taken] at kept
      cases (corruptsStream_of_decode taken).symm.trans (kept e rfl)
    | ok got =>
      rw [taken] at kept
      cases got with
      | none => exact .refl a bytes
      | some got =>
        obtain ⟨f, rest⟩ := got
        simp only at kept ⊢
        rcases accepted : a.accept f with ⟨result, a'⟩
        rw [accepted] at kept
        cases result with
        | error e => exact .refused taken accepted (kept e rfl) (.refl a' rest)
        | ok message =>
          cases message with
          | none => exact .part taken accepted (ih a' rest kept)
          | some m => exact .message taken accepted (.refl a' rest)

theorem begins_nextMessage {maxPayload : Nat} {c c' : Channel}
    {result : Except FrameError (Option Frame)} (next : c.nextMessage maxPayload = (result, c'))
    (kept : ∀ e, result = .error e → e.corruptsStream = false) :
    Begins maxPayload c.assembler c.unread (readOf result) c'.assembler c'.unread := by
  simp only [Channel.nextMessage] at next
  cases next
  exact begins_readMessage _ c.assembler c.unread kept

/-- A handler that receives nothing. -/
def Scope.deaf : Scope := { reads := False }

theorem Scope.serving_deaf (count i : Nat) : deaf.Serving count i :=
  ⟨trivial, fun _ _ => trivial, fun _ _ => trivial, fun _ _ => trivial⟩

namespace Turn

variable {σ : Type} {may : Scope} {key k : SlotKey} {t t' t'' : Turn σ}

/-- What waits unread in a channel stays, unless the channel is closed. -/
structure Leaves (key : SlotKey) (t t' : Turn σ) : Prop where
  config : t'.config = t.config
  channel : ∀ c', t'.channel? key = some c' → c'.state.isClosed = false →
    ∃ c, t.channel? key = some c ∧ c.state.isClosed = false ∧ c'.assembler = c.assembler
      ∧ c'.unread = c.unread ∧ (c.state = .open → c'.state = .open)

namespace Leaves

theorem of_eq (config : t'.config = t.config) (channel : t'.channel? key = t.channel? key) :
    Leaves key t t' where
  config := config
  channel c found live := ⟨c, channel ▸ found, live, rfl, rfl, id⟩

theorem refl (key : SlotKey) (t : Turn σ) : Leaves key t t := of_eq rfl rfl

theorem trans (h : Leaves key t t') (h' : Leaves key t' t'') : Leaves key t t'' where
  config := h'.config.trans h.config
  channel c'' found'' live'' := by
    obtain ⟨c', found', live', assembler', unread', opened'⟩ := h'.channel c'' found'' live''
    obtain ⟨c, found, live, assembler, unread, opened⟩ := h.channel c' found' live'
    exact ⟨c, found, live, assembler'.trans assembler, unread'.trans unread, opened' ∘ opened⟩

/-- Nothing waits in a channel that was closed. -/
theorem of_closed (config : t'.config = t.config)
    (closed : ∀ c, t'.channel? key = some c → c.state.isClosed = true) : Leaves key t t' where
  config := config
  channel c found live := by cases (closed c found).symm.trans live

/-- A channel changes, and its state and what waits unread in it stay. -/
theorem of_modify {c : Channel} {f : Channel → Channel} (found : t.channel? key = some c)
    (state : (f c).state = c.state) (assembler : (f c).assembler = c.assembler)
    (unread : (f c).unread = c.unread) : Leaves key t (t.modifyChannel key f) where
  config := rfl
  channel c' found' live := by
    cases (channel?_modifyChannel_self found f).symm.trans found'
    exact ⟨c, found, state ▸ live, assembler, unread, fun isOpen => state.trans isOpen⟩

end Leaves

/-- A handler that receives nothing leaves what waits unread. -/
theorem Act.leaves (act : Act may key t t') (deaf : ¬ may.reads) : Leaves key t t' := by
  have config : t'.config = t.config := (Acts.of_act act).config
  cases act with
  | host | dispatch | mark | count | hand | complete | markOpen => exact .of_eq config rfl
  | submit | submitPlain | cancel | cancelPlain | flag => exact .of_eq config rfl
  | tune f tuned =>
    refine ⟨config, fun c' found live => ?_⟩
    obtain ⟨c, before, rfl⟩ := exists_of_channel?_modifyChannel found
    have tuned := tuned c before
    obtain ⟨unread, assembler, -⟩ := tuned.reads.resolve_right deaf
    refine ⟨c, before, live_of_tuned tuned live, assembler, unread, fun isOpen => ?_⟩
    rcases tuned.state with same | ⟨-, -, opened⟩
    · exact same.trans isOpen
    · exact opened
  | shut c cause found live =>
    refine .of_closed config fun c' found' => ?_
    cases (channel?_shut found cause).symm.trans found'
    rfl
  | release =>
    exact ⟨config, fun c found live =>
      ⟨c, channel?_of_releaseIfDone found, live, rfl, rfl, id⟩⟩

theorem Acts.leaves (acts : Acts may key t t') (deaf : ¬ may.reads) : Leaves key t t' := by
  induction acts with
  | refl => exact .refl key t
  | tail _ act ih => exact ih.trans (act.leaves deaf)

/-- A handler for another channel leaves this one as it is. -/
theorem Acts.leaves_of_ne (acts : Acts may k t t') (apart : k ≠ key) : Leaves key t t' :=
  .of_eq acts.config (acts.untouched (Ne.symm apart)).channel

theorem Leaves.of_acts (acts : Acts .deaf k t t') : Leaves key t t' := by
  by_cases same : k = key
  · subst same
    exact acts.leaves not_false
  · exact acts.leaves_of_ne same

/-- A receive that starts leaves what waits unread. -/
theorem leaves_postRecv (t : Turn σ) (key : SlotKey) : Leaves key t (t.postRecv key) := by
  simp only [postRecv]
  split
  · exact .refl key t
  · rename_i c found
    split
    · exact .refl key t
    · split
      · exact .of_eq rfl rfl
      · have posted : Leaves key t (t.submit (.ofChannel .recv key)
            (.recv c.descriptor t.config.readBufferSize)).2 := .of_eq rfl (channel?_submit ..)
        split
        · rename_i t' submitted
          have there := channel?_submit t (.ofChannel .recv key)
            (.recv c.descriptor t.config.readBufferSize) key
          rw [submitted] at posted there
          exact posted.trans (.of_modify (there.trans found) rfl rfl rfl)
        · rename_i e t' submitted
          rw [submitted] at posted
          exact posted.trans (.of_acts (acts_close t' key e))

theorem leaves_andThen {rest : Turn σ → Turn σ} (t : Turn σ) (next : Leaves key t (rest t)) :
    Leaves key t (t.andThen rest) :=
  andThen_cases t (.refl key t) next

theorem leaves_release (t : Turn σ) (key : SlotKey) :
    Leaves key t (t.andThen (·.releaseIfDone key)) := .of_acts (acts_release t key)

/-! ## Reading -/

/-- Of bytes that came in on a channel messages were taken off.  As long as the channel is
open it holds what is left. -/
def Heard (t : Turn σ) (key : SlotKey) (maxPayload : Nat) (a : Assembler) (bytes : Bytes)
    (arrived : List Frame) : Prop :=
  ∃ rs a' left, Begins maxPayload a bytes rs a' left ∧ messagesOf rs = arrived
    ∧ ∀ c, t.channel? key = some c → c.state.isClosed = false →
      c.state = .open ∧ c.assembler = a' ∧ c.unread = left

namespace Heard

variable {arrived : List Frame} {maxPayload : Nat} {a : Assembler} {bytes : Bytes} {c : Channel}

/-- Nothing was taken off an open channel. -/
theorem start (found : t.channel? key = some c) (isOpen : c.state = .open) :
    t.Heard key maxPayload c.assembler c.unread [] :=
  ⟨[], c.assembler, c.unread, .refl .., rfl, fun c' found' _ => by
    cases found.symm.trans found'
    exact ⟨isOpen, rfl, rfl⟩⟩

theorem leaves (h : t.Heard key maxPayload a bytes arrived) (leaves : Leaves key t t') :
    t'.Heard key maxPayload a bytes arrived := by
  obtain ⟨rs, a', left, begins, same, rest⟩ := h
  refine ⟨rs, a', left, begins, same, fun c' found' live' => ?_⟩
  obtain ⟨c, found, live, assembler, unread, opened⟩ := leaves.channel c' found' live'
  obtain ⟨isOpen, holds, waits⟩ := rest c found live
  exact ⟨opened isOpen, assembler.trans holds, unread.trans waits⟩

/-- What comes in on a channel that was closed is not looked at. -/
theorem of_closed (h : t.Heard key maxPayload a bytes arrived)
    (closed : ∀ c, t'.channel? key = some c → c.state.isClosed = true) (more : Bytes) :
    t'.Heard key maxPayload a (bytes ++ more) arrived := by
  obtain ⟨rs, a', left, begins, same, -⟩ := h
  refine ⟨rs, a', left ++ more, begins.append more, same, fun c found live => ?_⟩
  cases (closed c found).symm.trans live

/-- What comes in on an open channel waits behind what is left. -/
theorem received (h : t.Heard key maxPayload a bytes arrived) (found : t.channel? key = some c)
    (isOpen : c.state = .open) (more : Bytes) :
    (t.putChannel key (c.received more)).Heard key maxPayload a (bytes ++ more) arrived := by
  obtain ⟨rs, a', left, begins, same, rest⟩ := h
  obtain ⟨-, rfl, rfl⟩ := rest c found (by rw [isOpen]; rfl)
  refine ⟨rs, c.assembler, c.unread ++ more, begins.append more, same, fun c' found' _ => ?_⟩
  cases (channel?_putChannel_self found _).symm.trans found'
  exact ⟨isOpen, rfl, rfl⟩

/-- The channel is asked for a message. -/
theorem next (h : t.Heard key maxPayload a bytes arrived) (found : t.channel? key = some c)
    (isOpen : c.state = .open) {result : Except FrameError (Option Frame)} {c' : Channel}
    (asked : c.nextMessage maxPayload = (result, c'))
    (kept : ∀ e, result = .error e → e.corruptsStream = false) :
    (t.putChannel key c').Heard key maxPayload a bytes (arrived ++ messagesOf (readOf result)) := by
  obtain ⟨rs, a', left, begins, rfl, rest⟩ := h
  obtain ⟨-, rfl, rfl⟩ := rest c found (by rw [isOpen]; rfl)
  refine ⟨rs ++ readOf result, c'.assembler, c'.unread,
    begins.trans (begins_nextMessage asked kept), ?_, fun c'' found'' _ => ?_⟩
  · rw [messagesOf, List.filterMap_append]
    rfl
  · cases (channel?_putChannel_self found c').symm.trans found''
    cases asked
    exact ⟨isOpen, rfl, rfl⟩

end Heard

/-- The requests among the messages that are taken off a channel are those that are followed. -/
theorem map_fst_followFrames (bound : Nat) (key : SlotKey) (t : Turn σ) :
    (followFrames bound key t).1.map Prod.fst = requestsOf (takenFrames bound key t) := by
  induction bound generalizing t with
  | zero => rfl
  | succ bound ih =>
    have goes (t : Turn σ) : (t.andFollow (followFrames bound key)).1.map Prod.fst
        = requestsOf (if t.panicked then [] else takenFrames bound key t) := by
      simp only [andFollow]
      split
      · rfl
      · exact ih t
    simp only [followFrames, takenFrames, onFrame]
    cases t.channel? key with
    | none => rfl
    | some c =>
      simp only
      split
      · rfl
      · cases c.nextMessage t.config.maxFramePayload with
        | mk result c' =>
          cases result with
          | error e =>
            simp only
            split
            · rfl
            · exact ih _
          | ok got =>
            cases got with
            | none => rfl
            | some f =>
              cases response : f.isResponse with
              | true =>
                simp only [response, if_true]
                rw [goes, requestsOf, requestsOf, List.filter_cons_of_neg (by simp [response])]
              | false =>
                simp only [response, Bool.false_eq_true, if_false, snd_followRequest]
                rw [List.map_cons, goes, requestsOf, requestsOf,
                  List.filter_cons_of_pos (by simp [response])]

/-- A response is not passed on, and leaves the channel as it is. -/
theorem leaves_onResponse (t : Turn σ) (key : SlotKey) (f : Frame) :
    Leaves key t (t.onResponse key f) :=
  .of_acts (acts_onResponse t key f trivial)

theorem leaves_onFrame (t : Turn σ) (key : SlotKey) (f : Frame) :
    Leaves key t (t.onFrame key f) := by
  simp only [onFrame]
  split
  · exact leaves_onResponse t key f
  · exact .of_acts (acts_onRequest t key f (Scope.serving_deaf _ _))

/-- The messages that a reactor takes off a channel are the next of those in the bytes that
wait there. -/
theorem Heard.drains {maxPayload : Nat} {a : Assembler} {bytes : Bytes} {arrived fs : List Frame}
    {t t' : Turn σ} (drains : Drains key t fs t') (payload : t.config.maxFramePayload = maxPayload)
    (h : t.Heard key maxPayload a bytes arrived) :
    t'.Heard key maxPayload a bytes (arrived ++ fs) := by
  have taken {t : Turn σ} {c c' : Channel} {f : Frame} {arrived : List Frame}
      (payload : t.config.maxFramePayload = maxPayload)
      (h : t.Heard key maxPayload a bytes arrived) (found : t.channel? key = some c)
      (isOpen : c.state = .open)
      (asked : c.nextMessage t.config.maxFramePayload = (.ok (some f), c')) :
      Heard ((t.taking key c').onFrame key f) key maxPayload a bytes (arrived ++ [f]) := by
    have next := h.next found isOpen (payload ▸ asked) fun e same => by cases same
    have counted : Heard (t.taking key c') key maxPayload a bytes (arrived ++ [f]) := next
    exact counted.leaves (leaves_onFrame (t.taking key c') key f)
  induction drains generalizing arrived with
  | refl t => exact (List.append_nil arrived).symm ▸ h
  | starved found isOpen asked =>
    exact h.next found isOpen (payload ▸ asked) fun e same => by cases same
  | last found isOpen asked => exact taken payload h found isOpen asked
  | @handled t t' c c' f fs found isOpen asked going later ih =>
    have leaves := leaves_onFrame (t.taking key c') key f
    rw [List.append_cons]
    exact ih ((congrArg Config.maxFramePayload leaves.config).trans payload)
      (taken payload h found isOpen asked)
  | @lost t c c' e found isOpen asked =>
    have closed := h.of_closed (closed_close (t.putChannel key c') key (.ofFrameError e)) []
    rw [List.append_nil] at closed ⊢
    exact closed
  | skipped found isOpen asked kept later ih =>
    have refused := h.next found isOpen (payload ▸ asked) fun e' same => by
      cases same
      exact kept
    rw [show messagesOf (readOf (.error _)) = [] from rfl, List.append_nil] at refused
    exact ih payload refused

end Turn

/-- Reading goes on, or stays where the stream was lost. -/
theorem Reads.exists_more {maxPayload : Nat} {a a' : Assembler} {bytes left : Bytes}
    {lost : Bool} {rs : List (Except FrameError Frame)}
    (h : Reads maxPayload a bytes rs lost a' left) (more : Bytes) :
    ∃ rs' lost' a'' left', Reads maxPayload a (bytes ++ more) (rs ++ rs') lost' a'' left' := by
  cases lost with
  | true => exact ⟨[], true, a', left ++ more, (List.append_nil rs).symm ▸ h.append_lost more⟩
  | false =>
    obtain ⟨rs', lost', a'', left', later⟩ := exists_reads maxPayload a' (left ++ more)
    exact ⟨rs', lost', a'', left', h.append later⟩

theorem requestsOf_messagesOf_append (rs rs' : List (Except FrameError Frame)) :
    requestsOf (messagesOf (rs ++ rs'))
      = requestsOf (messagesOf rs) ++ requestsOf (messagesOf rs') := by
  rw [messagesOf, List.filterMap_append, requestsOf_append]
  rfl

/-- The bytes that a completion brings on a channel. -/
def IoCompletion.bytesOn (c : IoCompletion Token) (key : SlotKey) : Bytes :=
  if c.token.purpose? = some .recv ∧ c.token.key = key ∧ 0 < c.result then c.received else []

namespace Turn

variable {σ : Type} {K : Link → Prop} {key : SlotKey} {t t' : Turn σ} {received : Bytes}
  {arrived : List Frame}

/-- Of the bytes that were received on a channel, messages were taken off, and `arrived`
are the requests among them. -/
def Hears (t : Turn σ) (key : SlotKey) (received : Bytes) (arrived : List Frame) : Prop :=
  ∃ all, t.Heard key t.config.maxFramePayload { maxMessage := t.config.maxMessageSize } received all
    ∧ requestsOf all = arrived

namespace Hears

/-- Requests that were taken off are the first of those in what was received. -/
theorem front (h : t.Hears key received arrived) :
    ∃ rs lost a left,
      Reads t.config.maxFramePayload { maxMessage := t.config.maxMessageSize } received rs lost a
        left
      ∧ arrived <+: requestsOf (messagesOf rs) := by
  obtain ⟨_, ⟨rs, a, left, begins, rfl, -⟩, rfl⟩ := h
  obtain ⟨rs', lost, a', left', reads⟩ := begins.exists_reads
  exact ⟨rs ++ rs', lost, a', left', reads, ⟨_, (requestsOf_messagesOf_append rs rs').symm⟩⟩

theorem leaves (h : t.Hears key received arrived) (leaves : Leaves key t t') :
    t'.Hears key received arrived := by
  obtain ⟨all, heard, requests⟩ := h
  rw [← leaves.config] at heard
  exact ⟨all, heard.leaves leaves, requests⟩

/-- What comes in on a channel that was closed is not looked at. -/
theorem of_closed (h : t.Hears key received arrived) (config : t'.config = t.config)
    (closed : ∀ c, t'.channel? key = some c → c.state.isClosed = true) (more : Bytes) :
    t'.Hears key (received ++ more) arrived := by
  obtain ⟨all, heard, requests⟩ := h
  rw [← config] at heard
  exact ⟨all, heard.of_closed closed more, requests⟩

/-- A channel that is there is left as it is, and one that is gone stays so. -/
theorem of_once (h : t.Hears key received arrived) (config : t'.config = t.config)
    (once : t.channel? key = none → t'.channel? key = none)
    (leaves : (t.channel? key).isSome = true → Leaves key t t') :
    t'.Hears key received arrived := by
  cases held : t.channel? key with
  | none =>
    have closed := h.of_closed config (fun c found => by cases (once held).symm.trans found) []
    rw [List.append_nil] at closed
    exact closed
  | some c => exact h.leaves (leaves (by rw [held]; rfl))

/-- A channel that was not closed is open. -/
theorem isOpen (h : t.Hears key received arrived) {c : Channel}
    (found : t.channel? key = some c) (live : c.state.isClosed = false) : c.state = .open := by
  obtain ⟨all, ⟨rs, a, left, begins, same, rest⟩, -⟩ := h
  exact (rest c found live).1

/-- Bytes that come in on an open channel are read behind those that wait there. -/
theorem receives (h : t.Hears key received arrived) {c : Channel} (found : t.channel? key = some c)
    (isOpen : c.state = .open) (bytes : Bytes) :
    let followed := followFrames ((c.received bytes).unread.length + 1) key
      (t.putChannel key (c.received bytes))
    (followed.2.andThen (·.postRecv key)).Hears key (received ++ bytes)
      (arrived ++ followed.1.map Prod.fst) := by
  intro followed
  obtain ⟨all, heard, rfl⟩ := h
  have filled := heard.received found isOpen bytes
  have drains := drains_drainFrames ((c.received bytes).unread.length + 1) key
    (t.putChannel key (c.received bytes))
  have drained := filled.drains drains rfl
  have posted : Leaves key followed.2 (followed.2.andThen (·.postRecv key)) :=
    leaves_andThen _ (leaves_postRecv _ key)
  have config : (followed.2.andThen (·.postRecv key)).config = t.config := by
    rw [posted.config, snd_followFrames]
    exact (drains.attends (Scope.routes_silent _ _) trivial trivial).replies.config
  rw [← snd_followFrames] at drained
  refine ⟨_, config ▸ drained.leaves posted, ?_⟩
  rw [requestsOf_append, map_fst_followFrames]

/-- A receive that comes back brings bytes. -/
theorem followRecv (h : t.Hears key received arrived) (result : Int) (bytes : Bytes) :
    (t.followRecv key result bytes).2.Hears key (received ++ if 0 < result then bytes else [])
      (arrived ++ (t.followRecv key result bytes).1.map Prod.fst) := by
  unfold Turn.followRecv
  split
  · rename_i absent
    have closed := h.of_closed rfl (fun c found => by cases absent.symm.trans found)
      (if 0 < result then bytes else [])
    simpa using closed
  · rename_i c found
    have idle : Leaves key t (t.putChannel key { c with recvInFlight := false }) :=
      .of_modify found rfl rfl rfl
    have put := channel?_putChannel_self found { c with recvInFlight := false }
    have shut (cause : Failure) (more : Bytes) :
        ((t.putChannel key { c with recvInFlight := false }).close key cause).Hears key
          (received ++ more) arrived :=
      (h.leaves idle).of_closed (acts_close _ key cause : Acts .all key _ _).config
        (closed_close _ key cause) more
    simp only
    split
    · rename_i closed
      have unread := (h.leaves idle).of_closed rfl (fun c' found' => by
        cases put.symm.trans found'
        cases live : c.state.isClosed with
        | true => rfl
        | false => exact absurd (h.isOpen found live) closed) (if 0 < result then bytes else [])
      simpa using unread
    · rename_i isOpen
      have isOpen : c.state = .open := not_not.mp isOpen
      split
      · simpa using shut _ _
      · split
        · simpa using shut _ _
        · rename_i some positive
          have positive : 0 < result := by omega
          rw [if_pos positive]
          exact (h.leaves idle).receives put isOpen bytes

end Hears

/-! ## Completions and tasks -/

theorem leaves_adopt (exact : t.reactor.channels.FreeExact)
    (room : t.reactor.channels.slots.length < Slab.maxSlots)
    (held : (t.channel? key).isSome = true) (socket : Nat) (remote : Option Endpoint) :
    Leaves key t (t.adopt socket remote) := by
  cases remote with
  | none => exact .of_eq rfl rfl
  | some remote =>
    let c := Channel.accepted (some socket) remote t.config.maxMessageSize
    have apart := addChannel_ne exact room held c
    have added : Leaves key t (t.addChannel c).2 :=
      .of_eq rfl ((channel?_addChannel exact room c key).trans (if_neg (Ne.symm apart)))
    have acts : Acts .all (t.addChannel c).1 (t.addChannel c).2 (t.adopt socket (some remote)) :=
      acts_adopt t socket remote trivial
    exact added.trans (acts.leaves_of_ne apart)

/-- A connect that comes back for an open channel is too late. -/
theorem leaves_onConnect (opened : ∀ c, t.channel? key = some c → c.state.isClosed = false →
      c.state = .open) (attempt : UInt8) (result : Int) :
    Leaves key t (t.onConnect key attempt result) := by
  obtain acts | ⟨s, c, acts, found, connecting, -⟩ :=
    (onConnect_cases t key attempt result trivial : Acts .deaf key _ _ ∨ _)
  · exact .of_acts acts
  · have live : c.state.isClosed = false := by rw [connecting]; rfl
    obtain ⟨c₀, found₀, live₀, -, -, stays⟩ := (acts.leaves not_false).channel c found live
    cases connecting.symm.trans (stays (opened c₀ found₀ live₀))

/-- A completion that brings nothing on a channel leaves it. -/
theorem leaves_onCompletion (exact : t.reactor.channels.FreeExact)
    (room : t.reactor.channels.slots.length < Slab.maxSlots)
    (held : (t.channel? key).isSome = true)
    (opened : ∀ c, t.channel? key = some c → c.state.isClosed = false → c.state = .open)
    {c : IoCompletion Token} (other : ¬ (c.token.purpose? = some .recv ∧ c.token.key = key)) :
    Leaves key t (t.onCompletion c) := by
  by_cases accepts : c.token.purpose? = some .accept
  · have flagged : Leaves key t t.afresh := .of_eq rfl rfl
    have marked : Leaves key t t.afresh.unarmed := .of_eq rfl rfl
    rw [onCompletion_of_accept t accepts]
    obtain acts | acts := onAccept_cases .deaf t.afresh c.result c.remote trivial
    · exact flagged.trans (.of_acts (acts key))
    · have adopted := leaves_adopt (t := t.afresh.unarmed) exact room held c.result.toNat c.remote
      exact (marked.trans adopted).trans (.of_acts (acts key))
  · by_cases own : c.token.key = key
    · subst own
      have released (t : Turn σ) :
          Leaves c.token.key t (t.andThen (·.releaseIfDone c.token.key)) :=
        leaves_andThen t (.of_acts (.of_act (.release t)))
      have flagged : Leaves c.token.key t t.afresh := .of_eq rfl rfl
      have opened : ∀ c', t.afresh.channel? c.token.key = some c' → c'.state.isClosed = false →
          c'.state = .open := opened
      refine flagged.trans ?_
      simp only [Turn.onCompletion]
      generalize t.afresh = t at opened
      cases kind : c.token.purpose? with
      | none => exact .refl _ t
      | some p =>
        cases p with
        | accept => exact absurd kind accepts
        | recv => exact absurd ⟨kind, rfl⟩ other
        | wakeup => exact .of_acts (acts_onWakeup t c.token.key trivial)
        | drainTimer => exact .of_acts (acts_onDrainTimer t c.token.key _ trivial)
        | send => exact (Leaves.of_acts (acts_onSend t _ _ trivial)).trans (released _)
        | connect => exact (leaves_onConnect opened _ _).trans (released _)
        | connectTimeout =>
          exact (Leaves.of_acts (acts_onConnectTimeout t _ _ _ trivial)).trans (released _)
        | retryTimer => exact (Leaves.of_acts (acts_onRetryTimer t _ _ trivial)).trans (released _)
    · have acts : Acts .all c.token.key t (t.onCompletion c) :=
        acts_all_onCompletion t c accepts
      exact acts.leaves_of_ne own

/-- No task receives anything. -/
theorem leaves_onTask (fit : t.Fit K) (room : t.reactor.channels.slots.length < Slab.maxSlots)
    (held : (t.channel? key).isSome = true) {task : Task}
    (still : (t.onTask task).reactor.stopping = false) : Leaves key t (t.onTask task) := by
  have connected (l : Link) : Leaves key t (t.outboundChannel l).2 := by
    obtain ⟨replies, channel⟩ := replies_outboundChannel fit room held l
    exact .of_eq replies.config channel
  have step := t.taskStep_onTask task
  generalize t.onTask task = t' at step still ⊢
  cases step with
  | rejected => exact .of_acts (acts_reject t key task trivial)
  | executed r correlationId =>
    exact .of_acts (acts_runLocal t key r correlationId trivial trivial)
  | connected l | unwritten l => exact connected l
  | written l bytes correlationId k =>
    exact (connected l).trans (.of_acts (acts_write _ k bytes trivial))
  | forwarded f replyTo =>
    exact .of_acts (acts_runForwarded t f replyTo (Scope.serving_deaf _ _) trivial)
  | replied channel bytes => exact .of_acts (acts_write t channel.key bytes trivial)
  | stopped => cases still.symm.trans (stopping_beginStop t)

/-- What the channel of a reactor makes of a completion. -/
theorem Hears.onCompletion (h : t.Hears key received arrived)
    (fit : t.Fit K) (room : t.reactor.channels.slots.length < Slab.maxSlots)
    (c : IoCompletion Token)
    (once : t.channel? key = none → (t.onCompletion c).channel? key = none) :
    (t.onCompletion c).Hears key (received ++ c.bytesOn key)
      (arrived ++ if c.token.key = key then (t.followCompletion c).1.map Prod.fst else []) := by
  by_cases own : c.token.purpose? = some .recv ∧ c.token.key = key
  · obtain ⟨kind, rfl⟩ := own
    have h : t.afresh.Hears c.token.key received arrived := h.leaves (.of_eq rfl rfl)
    have followed := (h.followRecv c.result c.received).leaves (leaves_release _ c.token.key)
    have bytes : c.bytesOn c.token.key = if 0 < c.result then c.received else [] := by
      simp [IoCompletion.bytesOn, kind]
    rw [← snd_followCompletion, bytes, if_pos rfl]
    simp only [followCompletion, kind]
    exact followed
  · have bytes : c.bytesOn key = [] := if_neg fun is => own ⟨is.1, is.2.1⟩
    have requests :
        (if c.token.key = key then (t.followCompletion c).1.map Prod.fst else []) = [] := by
      split
      · rename_i here
        simp only [followCompletion]
        split
        · rename_i kind
          exact absurd ⟨kind, here⟩ own
        · rfl
      · rfl
    rw [bytes, requests, List.append_nil, List.append_nil]
    exact h.of_once (fit.onCompletion room c).evolves.shared.config once fun held =>
      leaves_onCompletion fit.exact room held (fun _ found live => h.isOpen found live) own

end Turn

/-! ## Worlds -/

namespace Deed

variable {σ : Type}

/-- The bytes that a deed brought on a channel. -/
def bytesOn (origin : ChannelKey) : Deed σ → Bytes
  | handled i _ c => if i = origin.reactor then c.bytesOn origin.key else []
  | ran .. | ended .. => []

/-- The requests that were taken off a channel. -/
def requestsOn (origin : ChannelKey) : Deed σ → List Frame
  | handled i t c =>
    if i = origin.reactor ∧ c.token.key = origin.key then
      (t.followCompletion c).1.map Prod.fst
    else []
  | ran .. | ended .. => []

/-- The name of a channel that is gone is not given to another. -/
def Retires (d : Deed σ) (origin : ChannelKey) : Prop :=
  d.reactor = origin.reactor → d.before.channel? origin.key = none →
    d.after.channel? origin.key = none

end Deed

namespace World

variable {σ : Type} {w w' : World σ} {origin : ChannelKey} {received : Bytes}
  {arrived : List Frame}

/-- The requests `arrived` were taken off a channel on which `received` came in. -/
structure Receives (w : World σ) (origin : ChannelKey) (received : Bytes) (arrived : List Frame) :
    Prop where
  front : ∃ rs lost a left,
    Reads w.engine.shared.config.maxFramePayload
      { maxMessage := w.engine.shared.config.maxMessageSize } received rs lost a left
    ∧ arrived <+: requestsOf (messagesOf rs)
  running : ∀ seat, w.seat? origin.reactor = some seat → seat.phase = .asleep →
    (w.turn seat).Hears origin.key received arrived

namespace Receives

/-- What leaves the channel as it is. -/
theorem of_running (h : w.Receives origin received arrived)
    (config : w'.engine.shared.config = w.engine.shared.config)
    (running : ∀ seat', w'.seat? origin.reactor = some seat' → seat'.phase = .asleep →
      ∃ seat, w.seat? origin.reactor = some seat ∧ seat.phase = .asleep
        ∧ seat'.reactor.channels = seat.reactor.channels) :
    w'.Receives origin received arrived where
  front := by
    rw [config]
    exact h.front
  running seat' found' asleep' := by
    obtain ⟨seat, found, asleep, channels⟩ := running seat' found' asleep'
    exact (h.running seat found asleep).leaves
      (.of_eq config (by simp only [Turn.channel?, turn, channels]))

/-- Another reactor comes to a moment. -/
theorem elsewhere {j : Nat} {phase : Phase} {m : Moment σ} {handed : Option Handover}
    (h : w.Receives origin received arrived) (other : j ≠ origin.reactor)
    (config : m.turn.shared.config = w.engine.shared.config) :
    (w.advance j phase m handed).Receives origin received arrived :=
  h.of_running config fun seat found asleep => by
    rw [seat?_advance_of_ne (Ne.symm other)] at found
    exact ⟨seat, found, asleep, rfl⟩

/-- The reactor of the channel comes to a moment. -/
theorem advance {seat : Seat σ} {m : Moment σ} {handed : Option Handover}
    (found : w.seat? origin.reactor = some seat)
    (hears : m.turn.Hears origin.key received arrived) :
    (w.advance origin.reactor .asleep m handed).Receives origin received arrived where
  front := hears.front
  running seat' found' _ := by
    cases (seat?_advance_self found).symm.trans found'
    exact hears

theorem rest (h : w.Receives origin received arrived) (sound : w.Sound) (does : Does w none w') :
    w'.Receives origin received arrived := by
  obtain ⟨asks, seats⟩ := does.idle sound
  refine h.of_running asks.toPasses.config fun seat' found' asleep => ?_
  obtain ⟨seat, found, phase, -, channels, -⟩ := seats _ seat' found'
  exact ⟨seat, found, phase.trans asleep, channels⟩

theorem deed {d : Deed σ} (h : w.Receives origin received arrived) (sound : w.Sound)
    (room : w.HasRoom) (does : Does w (some d) w') (going : w'.Going) (retires : d.Retires origin) :
    w'.Receives origin (received ++ d.bytesOn origin) (arrived ++ d.requestsOn origin) := by
  have config := (does.step.keeps room sound).config
  obtain ⟨none, -⟩ | ⟨j, seat, found, asleep, ⟨none, -⟩ | ⟨c, rest, same, rfl⟩
      | ⟨t, task, same, took, rfl⟩ | ⟨same, rfl⟩⟩ := does.inversion sound
  · cases none
  · cases none
  · cases same
    have fit := sound.fit j seat found asleep
    by_cases here : j = origin.reactor
    · subst here
      have hears := (h.running seat found asleep).onCompletion fit (room _ seat found) c
        (retires rfl)
      simp only [Deed.bytesOn, Deed.requestsOn, if_true, true_and]
      exact advance found hears
    · simp only [Deed.bytesOn, Deed.requestsOn, here, if_false, false_and, List.append_nil]
      exact h.elsewhere here config
  · cases same
    simp only [Deed.bytesOn, Deed.requestsOn, List.append_nil]
    by_cases here : j = origin.reactor
    · subst here
      have off : (w.turn seat).Leaves origin.key t :=
        .of_eq took.config (by simp only [Turn.channel?, took.reactor])
      have fit := took.fit (sound.fit _ seat found asleep)
      have roomy : t.reactor.channels.slots.length < Slab.maxSlots := by
        rw [took.reactor]
        exact room _ seat found
      have still := going _ _ (seat?_advance_self found)
      exact advance found (((h.running seat found asleep).leaves off).of_once
        (config.trans took.config.symm) (retires rfl) fun held =>
          Turn.leaves_onTask fit roomy held still)
    · exact h.elsewhere here config
  · cases same
    simp only [Deed.bytesOn, Deed.requestsOn, List.append_nil]
    by_cases here : j = origin.reactor
    · subst here
      refine h.of_running config fun seat' found' asleep' => ?_
      cases (seat?_advance_self found).symm.trans found'
      cases asleep'
    · exact h.elsewhere here config

end Receives

end World

end PartitionEngine
