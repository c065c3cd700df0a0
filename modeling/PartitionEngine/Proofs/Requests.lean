import PartitionEngine.Proofs.Histories

/-!
# Where requests go

A reactor that receives a request runs it and answers, or forwards it.  The reactor it
is forwarded to runs it, and answers or hands the response back.  A reactor that ends
answers what is left in its queue.

The functions here do what the reactor does, and tell of each request where it went
(`Turn.followCompletion`, `Turn.followTask`, `Turn.followFinish`).  A response is handed to
a channel, and noted, in `Turn.answer` only.  That the functions do nothing else is what
`snd_followCompletion`, `snd_followTask` and `reactors_finish` say, and `Deed.followed` of
all a reactor does.  A request goes to a place that is right for it (`Placed`), and what is
passed on is what the places say (`Turn.Relays`).
-/

namespace PartitionEngine

/-- Where a request is, or its response. -/
inductive Place where
  /-- In a task that was handed to a reactor. -/
  | queued (i : Nat) (task : Task)
  /-- The response was handed to a channel. -/
  | answered (channel : ChannelKey) (bytes : Bytes)
  /-- The response was refused, or thrown away. -/
  | lost

namespace Place

/-- What was passed on. -/
def posts : Place → List (Nat × Task)
  | queued i task => [(i, task)]
  | answered .. | lost => []

end Place

/-- What was passed on for a request. -/
def postsOf (place : Option Place) : List (Nat × Task) := place.toList.flatMap Place.posts

namespace Shared

variable {σ : Type} {s s' : Shared σ} {f : Frame} {origin : ChannelKey} {bytes : Bytes}

/-- Bytes are the frames of a response to a request. -/
def Answers (s : Shared σ) (f : Frame) (bytes : Bytes) : Prop :=
  ∃ result, bytes = (s.encodeResponse f.opcode f.correlationId f.partition result).1

/-- Reactors may die, and nothing else matters. -/
structure Ages (s s' : Shared σ) : Prop where
  config : s'.config = s.config
  count : s'.reactors.length = s.reactors.length
  dead : ∀ i, s.isAlive i = false → s'.isAlive i = false

theorem Passes.ages {posts : List (Nat × Task)} (h : s.Passes posts s') : s.Ages s' :=
  ⟨h.config, h.count, fun i dead => (h.alive i).trans dead⟩

theorem Passes.ages_back {posts : List (Nat × Task)} (h : s.Passes posts s') : s'.Ages s :=
  ⟨h.config.symm, h.count.symm, fun i dead => (h.alive i).symm.trans dead⟩

theorem Answers.ages (h : s.Answers f bytes) (ages : s.Ages s') : s'.Answers f bytes := by
  obtain ⟨result, rfl⟩ := h
  refine ⟨result, ?_⟩
  rw [encodeResponse, encodeResponse, ages.config]

end Shared

theorem Turn.Took.ages {σ : Type} {i : Nat} {task : Task} {t t' : Turn σ}
    (took : Turn.Took i task t t') : t.shared.Ages t'.shared :=
  ⟨took.config, took.count, fun j dead => (took.alive j).trans dead⟩

/-- A place is right for a request that came in on a channel. -/
def Place.Right {σ : Type} (s : Shared σ) (f : Frame) (origin : ChannelKey) : Place → Prop
  | queued i task => i = s.reactorOf f.partition ∧ task = .forward f origin
    ∨ isFireAndForget f.opcode = false ∧ i = origin.reactor
      ∧ ∃ bytes, s.Answers f bytes ∧ task = .reply origin bytes
  | answered channel bytes =>
    isFireAndForget f.opcode = false ∧ s.Answers f bytes ∧ channel = origin
  | lost => isFireAndForget f.opcode = false ∧ s.isAlive origin.reactor = false

theorem Place.Right.ages {σ : Type} {s s' : Shared σ} {f : Frame} {origin : ChannelKey}
    {place : Place} (h : place.Right s f origin) (ages : s.Ages s') : place.Right s' f origin := by
  cases place with
  | queued i task =>
    rcases h with ⟨owner, task⟩ | ⟨answered, back, bytes, answers, task⟩
    · refine .inl ⟨?_, task⟩
      rw [owner, Shared.reactorOf, Shared.reactorOf, ages.count]
    · exact .inr ⟨answered, back, bytes, answers.ages ages, task⟩
  | answered channel bytes => exact ⟨h.1, h.2.1.ages ages, h.2.2⟩
  | lost => exact ⟨h.1, ages.dead _ h.2⟩

/-- A request that has no response waits to be run. -/
theorem Place.Right.forward {σ : Type} {s : Shared σ} {f : Frame} {origin : ChannelKey}
    {place : Place} (h : place.Right s f origin) (forgotten : isFireAndForget f.opcode = true) :
    place = .queued (s.reactorOf f.partition) (.forward f origin) := by
  cases place with
  | queued i task =>
    rcases h with ⟨rfl, rfl⟩ | ⟨answered, -⟩
    · rfl
    · cases answered.symm.trans forgotten
  | answered | lost => cases h.1.symm.trans forgotten

/-- Where a request went is right for it.  Only one that has no response is nowhere. -/
def Placed {σ : Type} (s : Shared σ) (f : Frame) (origin : ChannelKey) : Option Place → Prop
  | some place => place.Right s f origin
  | none => isFireAndForget f.opcode = true

theorem Placed.ages {σ : Type} {s s' : Shared σ} {f : Frame} {origin : ChannelKey}
    {place : Option Place} (h : Placed s f origin place) (ages : s.Ages s') :
    Placed s' f origin place := by
  cases place with
  | none => exact h
  | some place => exact Place.Right.ages h ages

/-- A request that has a response is somewhere. -/
theorem Placed.somewhere {σ : Type} {s : Shared σ} {f : Frame} {origin : ChannelKey}
    {place : Option Place} {places : List Place} (h : Placed s f origin place)
    (answered : isFireAndForget f.opcode = false) (same : places = place.toList) : places ≠ [] := by
  cases place with
  | none => cases answered.symm.trans h
  | some place => simp [same]

/-- Every operation is there, so an opcode has an answer exactly if it is not fire and
forget. -/
theorem Dispatcher.isSome_dispatch {σ : Type} (d : Dispatcher σ)
    (complete : d.pool.registry.Complete)
    (opcode : UInt8) (p : Partition) (id : UInt64) (input : Bytes) :
    (d.dispatch opcode p id input).1.isSome = !isFireAndForget opcode := by
  simp only [dispatch]
  split
  · rename_i absent
    have unregistered : (d.pool.registry.operation? opcode).isSome = false := by
      simp only [Pool.acquire] at absent
      split at absent
      · cases absent
      · split at absent
        · cases absent
        · rename_i none
          rw [none]
          rfl
    cases forgotten : isFireAndForget opcode with
    | false => rfl
    | true =>
      simp only [isFireAndForget] at forgotten
      split at forgotten
      · rename_i op named
        have byte : op.byte = opcode := by simpa using List.find?_some named
        cases (complete op).symm.trans (byte ▸ unregistered)
      · cases forgotten
  · cases isFireAndForget opcode <;> rfl

namespace Turn

variable {σ : Type} {may : Scope} {key : SlotKey} {t t' t'' : Turn σ}
  {posts posts' : List (Nat × Task)}

/-! ## What is passed on -/

/-- A reactor passes tasks on, and stays what it is. -/
structure Relays (posts : List (Nat × Task)) (t t' : Turn σ) : Prop where
  passes : t.shared.Passes posts t'.shared
  index : t'.reactor.index = t.reactor.index
  registry : t'.reactor.dispatcher.pool.registry = t.reactor.dispatcher.pool.registry

namespace Relays

theorem of_shared (shared : t'.shared = t.shared) (index : t'.reactor.index = t.reactor.index)
    (dispatcher : t'.reactor.dispatcher = t.reactor.dispatcher) : Relays [] t t' :=
  ⟨shared ▸ .refl _, index, by rw [dispatcher]⟩

theorem refl (t : Turn σ) : Relays [] t t := of_shared rfl rfl rfl

theorem trans (h : Relays posts t t') (h' : Relays posts' t' t'') :
    Relays (posts ++ posts') t t'' :=
  ⟨h.passes.trans h'.passes, h'.index.trans h.index, h'.registry.trans h.registry⟩

theorem then_silent (h : Relays posts t t') (h' : Relays [] t' t'') : Relays posts t t'' :=
  ⟨h.passes.trans_nil h'.passes, h'.index.trans h.index, h'.registry.trans h.registry⟩

theorem of_acts (silent : ∀ i task, ¬ may.relays i task) (acts : Acts may key t t') : Relays [] t t' :=
  ⟨acts.passes silent, acts.evolves.index, acts.registry⟩

/-- What works for one channel and passes nothing on. -/
theorem of_own (acts : Acts .own key t t') : Relays [] t t' := of_acts (fun _ _ relays => relays) acts

theorem submit_ok {i : Nat} {task : Task} (relay : task.isRelay = true)
    (handed : t.submitTask i task = (.ok (), t')) : Relays [(i, task)] t t' := by
  cases submitted : t.shared.submit t.reactor.thread i task with
  | mk result s =>
    simp only [submitTask, submitted] at handed
    cases handed
    have passes := Shared.passes_submit_ok submitted
    rw [relay] at passes
    exact ⟨passes, rfl, rfl⟩

theorem submit_error {i : Nat} {task : Task} {e : Failure}
    (refused : t.submitTask i task = (.error e, t')) :
    Relays [] t t' ∧ t'.shared.isAlive i = false := by
  cases submitted : t.shared.submit t.reactor.thread i task with
  | mk result s =>
    simp only [submitTask, submitted] at refused
    cases refused
    have passes := Shared.passes_submit_error submitted
    exact ⟨⟨passes, rfl, rfl⟩, (passes.alive i).trans (Shared.dead_of_submit_error submitted)⟩

end Relays

/-! ## Running -/

/-- A request that is run is answered, or has no response. -/
theorem placed_execute {f : Frame} {answer : Option Bytes}
    (complete : t.reactor.dispatcher.pool.registry.Complete)
    (executed : t.execute f = (answer, t')) :
    Relays [] t t' ∧ match answer with
      | some bytes => isFireAndForget f.opcode = false ∧ t'.shared.Answers f bytes
      | none => isFireAndForget f.opcode = true := by
  have relays : Relays [] t t' := by
    have ran := Relays.of_own (acts_execute t ⟨0, 0⟩ f trivial)
    rw [executed] at ran
    exact ran
  have answers := t.reactor.dispatcher.isSome_dispatch complete f.opcode f.partition
    f.correlationId f.payload
  refine ⟨relays, ?_⟩
  simp only [execute] at executed
  split at executed
  · rename_i none
    cases executed
    rw [none] at answers
    simpa using answers
  · rename_i result some
    cases executed
    rw [some] at answers
    refine ⟨by simpa using answers, ?_⟩
    exact Shared.Answers.ages ⟨result, rfl⟩ relays.passes.ages

/-- Hands a response to a channel, and tells so. -/
def answer (t : Turn σ) (key : SlotKey) (bytes : Bytes) : Option Place × Turn σ :=
  (some (.answered { reactor := t.reactor.index, key } bytes), t.write key bytes)

theorem relays_answer (t : Turn σ) (key : SlotKey) (bytes : Bytes) :
    Relays (postsOf (t.answer key bytes).1) t (t.answer key bytes).2 :=
  .of_own (acts_write t key bytes trivial)

/-! ## Requests that come in -/

/-- Handles a request, and tells where it went. -/
def followRequest (t : Turn σ) (key : SlotKey) (f : Frame) : Option Place × Turn σ :=
  let owner := t.shared.reactorOf f.partition
  let origin : ChannelKey := { reactor := t.reactor.index, key }
  if owner = t.reactor.index then
    match t.execute f with
    | (some bytes, t) => t.answer key bytes
    | (none, t) => (none, t)
  else
    match t.submitTask owner (.forward f origin) with
    | (.ok (), t) => (some (.queued owner (.forward f origin)), t)
    | (.error e, t) =>
      if isFireAndForget f.opcode then (none, t)
      else
        let (bytes, t) := t.encodeResponse f.opcode f.correlationId f.partition
          (.error ⟨.operationFailed, e.message⟩)
        t.answer key bytes

theorem snd_followRequest (t : Turn σ) (key : SlotKey) (f : Frame) :
    (t.followRequest key f).2 = t.onRequest key f := by
  simp only [followRequest, onRequest]
  split
  · cases t.execute f with
    | mk answer t' => cases answer <;> rfl
  · cases t.submitTask (t.shared.reactorOf f.partition)
        (.forward f { reactor := t.reactor.index, key }) with
    | mk result t' =>
      cases result with
      | ok => rfl
      | error e =>
        simp only
        split <;> rfl

theorem placed_followRequest (complete : t.reactor.dispatcher.pool.registry.Complete)
    (key : SlotKey) (f : Frame) :
    Relays (postsOf (t.followRequest key f).1) t (t.followRequest key f).2
      ∧ Placed t.shared f { reactor := t.reactor.index, key } (t.followRequest key f).1 := by
  simp only [followRequest]
  split
  · split
    · rename_i bytes t' executed
      obtain ⟨ran, answered, answers⟩ := placed_execute complete executed
      exact ⟨ran.trans (relays_answer t' key bytes), answered,
        answers.ages ran.passes.ages_back, by rw [ran.index]⟩
    · rename_i t' executed
      exact placed_execute complete executed
  · split
    · rename_i t' handed
      exact ⟨.submit_ok rfl handed, .inl ⟨rfl, rfl⟩⟩
    · rename_i e t' refused
      obtain ⟨relays, -⟩ := Relays.submit_error refused
      split
      · rename_i forgotten
        exact ⟨relays, forgotten⟩
      · rename_i answered
        have encoded : Relays [] t' (t'.encodeResponse f.opcode f.correlationId f.partition
            (.error ⟨.operationFailed, e.message⟩)).2 :=
          .of_own (Acts.of_act (.count t' _) : Acts .own key _ _)
        have silent := relays.then_silent encoded
        refine ⟨silent.trans (relays_answer _ key _), by simpa using answered, ?_,
          by rw [silent.index]⟩
        exact Shared.Answers.ages ⟨_, rfl⟩ relays.passes.ages_back

/-- Goes on with a handler and what it tells, unless it has panicked. -/
def andFollow {α : Type} (t : Turn σ) (rest : Turn σ → List α × Turn σ) : List α × Turn σ :=
  if t.panicked then ([], t) else rest t

theorem snd_andFollow {α : Type} (t : Turn σ) (rest : Turn σ → List α × Turn σ) :
    (t.andFollow rest).2 = t.andThen fun t => (rest t).2 := by
  simp only [andFollow, andThen]
  split <;> rfl

/-- Takes the messages off a channel, and tells where the requests among them went. -/
def followFrames : (bound : Nat) → SlotKey → Turn σ → List (Frame × Option Place) × Turn σ
  | 0, _, t => ([], t)
  | bound + 1, key, t =>
    match t.channel? key with
    | none => ([], t)
    | some c =>
      if c.state ≠ .open then ([], t)
      else match c.nextMessage t.config.maxFramePayload with
        | (.ok none, c) => ([], t.putChannel key c)
        | (.ok (some f), c) =>
          let t := (t.putChannel key c).count fun s => { s with messagesIn := s.messagesIn + 1 }
          if f.isResponse then (t.onResponse key f).andFollow (followFrames bound key)
          else
            let (place, t) := t.followRequest key f
            let (later, t) := t.andFollow (followFrames bound key)
            ((f, place) :: later, t)
        | (.error e, c) =>
          let t := t.putChannel key c
          if e.corruptsStream then ([], t.close key (.ofFrameError e))
          else followFrames bound key t

theorem snd_followFrames (bound : Nat) (key : SlotKey) (t : Turn σ) :
    (followFrames bound key t).2 = drainFrames bound key t := by
  induction bound generalizing t with
  | zero => rfl
  | succ bound ih =>
    simp only [followFrames, drainFrames, onFrame]
    cases t.channel? key with
    | none => rfl
    | some c =>
      simp only
      split
      · rfl
      · cases c.nextMessage t.config.maxFramePayload with
        | mk result c' =>
          cases result with
          | error e =>
            simp only
            split
            · rfl
            · exact ih _
          | ok message =>
            cases message with
            | none => rfl
            | some f =>
              have goes (t : Turn σ) : (t.andFollow (followFrames bound key)).2
                  = t.andThen (drainFrames bound key) := by
                rw [snd_andFollow]
                exact congrArg t.andThen (funext ih)
              simp only
              split
              · exact goes _
              · rw [← snd_followRequest]
                exact goes _

/-- What was passed on for the requests of a batch. -/
def postsOfAll (requests : List (Frame × Option Place)) : List (Nat × Task) :=
  requests.flatMap fun r => postsOf r.2

theorem placed_followFrames (bound : Nat) (key : SlotKey)
    (complete : t.reactor.dispatcher.pool.registry.Complete) :
    Relays (postsOfAll (followFrames bound key t).1) t (followFrames bound key t).2
      ∧ ∀ r ∈ (followFrames bound key t).1,
        Placed t.shared r.1 { reactor := t.reactor.index, key } r.2 := by
  induction bound generalizing t with
  | zero => exact ⟨.refl t, fun r mem => by cases mem⟩
  | succ bound ih =>
    have nothing {t t₁ : Turn σ} (first : Relays [] t t₁) : Relays (postsOfAll []) t t₁ := first
    -- What comes after a step that passes nothing on.
    have after {t₁ : Turn σ} (first : Relays [] t t₁) :
        Relays (postsOfAll (followFrames bound key t₁).1) t (followFrames bound key t₁).2
          ∧ ∀ r ∈ (followFrames bound key t₁).1,
            Placed t.shared r.1 { reactor := t.reactor.index, key } r.2 := by
      obtain ⟨relays, placed⟩ := ih (first.registry ▸ complete)
      refine ⟨first.trans relays, fun r mem => ?_⟩
      rw [← first.index]
      exact (placed r mem).ages first.passes.ages_back
    -- What comes after one that may panic.
    have goes (t : Turn σ) (complete : t.reactor.dispatcher.pool.registry.Complete) :
        Relays (postsOfAll (t.andFollow (followFrames bound key)).1) t
            (t.andFollow (followFrames bound key)).2
          ∧ ∀ r ∈ (t.andFollow (followFrames bound key)).1,
            Placed t.shared r.1 { reactor := t.reactor.index, key } r.2 := by
      simp only [andFollow]
      split
      · exact ⟨nothing (.refl t), fun r mem => by cases mem⟩
      · exact ih complete
    have put (c : Channel) : Relays [] t (t.putChannel key c) := .of_shared rfl rfl rfl
    simp only [followFrames]
    split
    · exact ⟨.refl t, fun r mem => by cases mem⟩
    · split
      · exact ⟨.refl t, fun r mem => by cases mem⟩
      · split
        · exact ⟨nothing (put _), fun r mem => by cases mem⟩
        · rename_i f c' _
          have counted : Relays [] t ((t.putChannel key c').count fun s =>
              { s with messagesIn := s.messagesIn + 1 }) :=
            (put c').then_silent (.of_own (Acts.of_act (.count _ _) : Acts .own key _ _))
          generalize (t.putChannel key c').count (fun s =>
            { s with messagesIn := s.messagesIn + 1 }) = t₁ at counted ⊢
          split
          · have first := counted.then_silent (.of_own (acts_onResponse t₁ key f trivial))
            obtain ⟨rest, placed⟩ := goes _ (first.registry ▸ complete)
            refine ⟨first.trans rest, fun r mem => ?_⟩
            rw [← first.index]
            exact (placed r mem).ages first.passes.ages_back
          · obtain ⟨first, here⟩ := placed_followRequest (counted.registry ▸ complete) key f
            obtain ⟨rest, placed⟩ := goes _ (first.registry ▸ counted.registry ▸ complete)
            have before := counted.trans first
            refine ⟨before.trans rest, ?_⟩
            intro r mem
            rcases List.mem_cons.mp mem with rfl | mem
            · rw [← counted.index]
              exact here.ages counted.passes.ages_back
            · rw [← counted.index, ← first.index]
              exact (placed r mem).ages before.passes.ages_back
        · rename_i e c' _
          split
          · exact ⟨nothing ((put c').then_silent (.of_own (acts_close _ key _))),
              fun r mem => by cases mem⟩
          · exact after (put c')

/-- Handles a receive that has come back, and tells where the requests in it went. -/
def followRecv (t : Turn σ) (key : SlotKey) (result : Int) (received : Bytes) :
    List (Frame × Option Place) × Turn σ :=
  match t.channel? key with
  | none => ([], t)
  | some c =>
    let c := { c with recvInFlight := false }
    let t := t.putChannel key c
    if c.state ≠ .open then ([], t)
    else if result = 0 then
      ([], t.close key (.transport (c.remote.text ++ " closed the connection")))
    else if result < 0 then
      ([], t.close key (.ofErrno "recv" result))
    else
      let c := c.received received
      let (requests, t) := followFrames (c.unread.length + 1) key (t.putChannel key c)
      (requests, t.andThen (·.postRecv key))

theorem snd_followRecv (t : Turn σ) (key : SlotKey) (result : Int) (received : Bytes) :
    (t.followRecv key result received).2 = t.onRecv key result received := by
  simp only [followRecv, onRecv]
  cases t.channel? key with
  | none => rfl
  | some c =>
    simp only
    split
    · rfl
    · split
      · rfl
      · split
        · rfl
        · rw [← snd_followFrames]

theorem placed_followRecv (key : SlotKey) (result : Int) (received : Bytes)
    (complete : t.reactor.dispatcher.pool.registry.Complete) :
    Relays (postsOfAll (t.followRecv key result received).1) t (t.followRecv key result received).2
      ∧ ∀ r ∈ (t.followRecv key result received).1,
        Placed t.shared r.1 { reactor := t.reactor.index, key } r.2 := by
  have nothing {t' : Turn σ} (relays : Relays [] t t') : Relays (postsOfAll []) t t' := relays
  simp only [followRecv]
  split
  · exact ⟨.refl t, fun r mem => by cases mem⟩
  · rename_i c found
    have put : Relays [] t (t.putChannel key { c with recvInFlight := false }) :=
      .of_shared rfl rfl rfl
    have closed (cause : Failure) := put.then_silent (.of_own (acts_close _ key cause))
    split
    · exact ⟨nothing put, fun r mem => by cases mem⟩
    · split
      · exact ⟨nothing (closed _), fun r mem => by cases mem⟩
      · split
        · exact ⟨nothing (closed _), fun r mem => by cases mem⟩
        · have got : Relays [] t ((t.putChannel key { c with recvInFlight := false }).putChannel key
              (Channel.received { c with recvInFlight := false } received)) :=
            .of_shared rfl rfl rfl
          generalize (t.putChannel key { c with recvInFlight := false }).putChannel key
            (Channel.received { c with recvInFlight := false } received) = t₁ at got ⊢
          obtain ⟨relays, placed⟩ := placed_followFrames (t := t₁)
            ((Channel.received { c with recvInFlight := false } received).unread.length + 1) key
            (got.registry ▸ complete)
          have posted (t : Turn σ) : Acts .own key t (t.andThen (·.postRecv key)) :=
            acts_andThen t (acts_postRecv t key trivial)
          refine ⟨(got.trans relays).then_silent (.of_own (posted _)), fun r mem => ?_⟩
          rw [← got.index]
          exact (placed r mem).ages got.passes.ages_back

/-- Handles a completion, and tells where the requests in it went. -/
def followCompletion (t : Turn σ) (c : IoCompletion Token) : List (Frame × Option Place) × Turn σ :=
  match c.token.purpose? with
  | some .recv =>
    let (requests, t) := t.afresh.followRecv c.token.key c.result c.received
    (requests, t.andThen (·.releaseIfDone c.token.key))
  | _ => ([], t.onCompletion c)

theorem snd_followCompletion (t : Turn σ) (c : IoCompletion Token) :
    (t.followCompletion c).2 = t.onCompletion c := by
  simp only [followCompletion]
  split
  · rename_i kind
    simp only [onCompletion, kind]
    rw [snd_followRecv]
  · rfl

theorem relays_adopt (t : Turn σ) (socket : Nat) (remote : Option Endpoint) :
    Relays [] t (t.adopt socket remote) := by
  cases remote with
  | none => exact .of_shared rfl rfl rfl
  | some remote =>
    let c := Channel.accepted (some socket) remote t.config.maxMessageSize
    have added : Relays [] t (t.addChannel c).2 := .of_shared rfl rfl rfl
    exact added.then_silent (.of_own (acts_adopt t socket remote trivial))

/-- The requests that come in with a completion go where it is right for them. -/
theorem placed_followCompletion (c : IoCompletion Token)
    (complete : t.reactor.dispatcher.pool.registry.Complete) :
    Relays (postsOfAll (t.followCompletion c).1) t (t.onCompletion c)
      ∧ ∀ r ∈ (t.followCompletion c).1,
        Placed t.shared r.1 { reactor := t.reactor.index, key := c.token.key } r.2 := by
  rw [← snd_followCompletion]
  by_cases recv : c.token.purpose? = some .recv
  · simp only [followCompletion, recv]
    have flagged : Relays [] t t.afresh := .of_shared rfl rfl rfl
    obtain ⟨relays, placed⟩ :=
      placed_followRecv (t := t.afresh) c.token.key c.result c.received complete
    exact ⟨(flagged.trans relays).then_silent (.of_own (acts_release _ _)), placed⟩
  · have followed : t.followCompletion c = ([], t.onCompletion c) := by
      simp only [followCompletion]
    rw [followed]
    refine ⟨?_, fun r mem => by cases mem⟩
    show Relays [] t (t.onCompletion c)
    by_cases accept : c.token.purpose? = some .accept
    · have flagged : Relays [] t t.afresh := .of_shared rfl rfl rfl
      have marked : Relays [] t t.afresh.unarmed := .of_shared rfl rfl rfl
      rw [onCompletion_of_accept t accept]
      obtain acts | acts := onAccept_cases .own t.afresh c.result c.remote trivial
      · exact flagged.then_silent (.of_own (acts ⟨0, 0⟩))
      · exact (marked.then_silent (relays_adopt _ _ _)).then_silent (.of_own (acts ⟨0, 0⟩))
    · have acts : Acts { relays := fun _ _ => False } c.token.key t (t.onCompletion c) :=
        acts_onCompletion t c accept (fun _ => trivial) (fun kind => absurd kind recv) trivial
          trivial (fun _ => trivial) trivial trivial
      exact .of_acts (fun _ _ relays => relays) acts

/-! ## Tasks -/

/-- Runs a request for another reactor, and tells where the response went. -/
def followForwarded (t : Turn σ) (f : Frame) (replyTo : ChannelKey) : Option Place × Turn σ :=
  match t.execute f with
  | (none, t) => (none, t)
  | (some bytes, t) =>
    if replyTo.reactor = t.reactor.index then t.answer replyTo.key bytes
    else match t.submitTask replyTo.reactor (.reply replyTo bytes) with
      | (.ok (), t) => (some (.queued replyTo.reactor (.reply replyTo bytes)), t)
      | (.error _, t) => (some .lost, t)

/-- Runs a task, and tells where the request went that it was about. -/
def followTask (t : Turn σ) (task : Task) : Option Place × Turn σ :=
  if t.reactor.stopping then (none, t.reject task)
  else match task with
    | .forward f replyTo => t.followForwarded f replyTo
    | .reply channel bytes => t.answer channel.key bytes
    | task => (none, t.onTask task)

theorem snd_followForwarded (t : Turn σ) (f : Frame) (replyTo : ChannelKey) :
    (t.followForwarded f replyTo).2 = t.runForwarded f replyTo := by
  simp only [followForwarded, runForwarded]
  cases t.execute f with
  | mk answer t' =>
    cases answer with
    | none => rfl
    | some bytes =>
      simp only
      split
      · rfl
      · cases t'.submitTask replyTo.reactor (.reply replyTo bytes) with
        | mk result t'' => cases result <;> rfl

theorem snd_followTask (t : Turn σ) (task : Task) : (t.followTask task).2 = t.onTask task := by
  cases stopping : t.reactor.stopping with
  | true => simp only [followTask, onTask, stopping, if_true]
  | false =>
    cases task with
    | forward f replyTo =>
      simp only [followTask, onTask, stopping]
      exact snd_followForwarded t f replyTo
    | reply channel bytes =>
      simp only [followTask, onTask, stopping]
      rfl
    | execute | connect | write | stop => simp [followTask, onTask, stopping]

theorem followTask_of_not_relay {task : Task} (plain : task.isRelay = false) :
    (t.followTask task).1 = none := by
  simp only [followTask]
  split
  · rfl
  · cases task with
    | execute | connect | write | stop => rfl
    | forward | reply => cases plain

/-- A request that was forwarded, or its response, goes where it is right for it. -/
theorem placed_followTask {task : Task} {i : Nat} {f : Frame} {origin : ChannelKey}
    (complete : t.reactor.dispatcher.pool.registry.Complete) (index : t.reactor.index = i)
    (going : t.reactor.stopping = false) (right : (Place.queued i task).Right t.shared f origin) :
    Placed t.shared f origin (t.followTask task).1 := by
  simp only [followTask]
  rw [if_neg (by simp [going])]
  rcases right with ⟨-, rfl⟩ | ⟨answered, rfl, bytes, answers, rfl⟩
  · simp only [followForwarded]
    split
    · rename_i t' executed
      exact (placed_execute complete executed).2
    · rename_i bytes t' executed
      obtain ⟨ran, answered, answers⟩ := placed_execute complete executed
      have answers := answers.ages ran.passes.ages_back
      split
      · rename_i here
        exact ⟨answered, answers, by rw [← here]⟩
      · split
        · exact .inr ⟨answered, rfl, bytes, answers, rfl⟩
        · rename_i refused
          obtain ⟨relays, dead⟩ := Relays.submit_error refused
          exact ⟨answered, (ran.then_silent relays).passes.ages_back.dead _ dead⟩
  · exact ⟨answered, answers, by rw [index]⟩

theorem relays_outboundChannel (t : Turn σ) (l : Link) : Relays [] t (t.outboundChannel l).2 := by
  rcases outboundChannel_cases t l with ⟨key, c, -, -, -, same⟩ | ⟨made, -⟩
  · rw [same]
    exact .refl t
  · have linked : t.shared.Passes [] { t.shared with links := t.shared.links.connectStarted l } :=
      .of_reactors rfl rfl
    have counted : Relays [] t (t.makeChannel l).2 := by
      refine ⟨linked.trans_nil (.handle (i := t.reactor.index) (f := fun r => r.count fun s =>
        { s with connects := s.connects + 1 }) (fun _ _ => rfl) fun _ _ => rfl), rfl, rfl⟩
    rw [made]
    exact counted.then_silent (.of_own (acts_startConnect _ _ trivial))

theorem relays_beginStop (t : Turn σ) : Relays [] t t.beginStop := by
  cases going : t.reactor.stopping with
  | true =>
    rw [beginStop_of_stopping going]
    exact .refl t
  | false =>
    have closed (keys : List SlotKey) (s : Turn σ) :
        Relays [] s (keys.foldl (fun t key => t.close key .shuttingDown) s) := by
      induction keys generalizing s with
      | nil => exact .refl s
      | cons key rest ih =>
        exact Relays.then_silent (.of_own (acts_close s key .shuttingDown)) (ih _)
    have stopping : Relays [] t { t with reactor := { t.reactor with stopping := true } } :=
      .of_shared rfl rfl rfl
    exact (stopping.then_silent (closed _ _)).then_silent
      (.of_own (acts_beginStop going ⟨0, 0⟩ trivial))

/-- What a task passes on is what it tells. -/
theorem relays_onTask (complete : t.reactor.dispatcher.pool.registry.Complete) (task : Task) :
    Relays (postsOf (t.followTask task).1) t (t.onTask task) := by
  rw [← snd_followTask]
  simp only [followTask]
  split
  · exact .of_own (acts_reject t ⟨0, 0⟩ task trivial)
  · rename_i going
    cases task with
    | forward f replyTo =>
      simp only [followForwarded]
      split
      · rename_i executed
        exact (placed_execute complete executed).1
      · rename_i executed
        have ran := (placed_execute complete executed).1
        split
        · exact ran.trans (relays_answer _ replyTo.key _)
        · split
          · rename_i handed
            exact ran.trans (.submit_ok rfl handed)
          · rename_i refused
            exact ran.then_silent (Relays.submit_error refused).1
    | reply channel bytes => exact relays_answer t channel.key bytes
    | execute r correlationId =>
      simp only [onTask, going]
      exact .of_own (acts_runLocal t ⟨0, 0⟩ r correlationId trivial trivial)
    | connect l =>
      simp only [onTask, going]
      exact relays_outboundChannel t l
    | write l bytes correlationId =>
      have linked := relays_outboundChannel t l
      simp only [onTask, going]
      show Relays [] t _
      cases result : t.outboundChannel l with
      | mk first t' =>
        rw [result] at linked
        cases first with
        | none => exact linked
        | some key => exact linked.then_silent (relays_answer t' key bytes)
    | stop =>
      simp only [onTask, going]
      exact relays_beginStop t

end Turn

/-! ## The end -/

namespace Shared

variable {σ : Type} {s : Shared σ}

/-- Answers a task that is not run any more, and tells where the request went that it
was about. -/
def followRefusal (s : Shared σ) (thread : ThreadId) (index : Nat) :
    Task → Option Place × Shared σ
  | .forward f replyTo =>
    if isFireAndForget f.opcode then (none, s)
    else
      let (bytes, _) := s.encodeResponse f.opcode f.correlationId f.partition
        (.error (unavailable index))
      match s.submit thread replyTo.reactor (.reply replyTo bytes) with
      | (.ok (), s) => (some (.queued replyTo.reactor (.reply replyTo bytes)), s)
      | (.error _, s) => (some .lost, s)
  | .reply .. => (some .lost, s)
  | _ => (none, s)

/-- Answers what is left in a queue, and tells of each request in it where it went. -/
def followRefusals (thread : ThreadId) (index : Nat) :
    List Task → Shared σ → List (Option Place) × Shared σ
  | [], s => ([], s)
  | task :: rest, s =>
    let (place, s) := s.followRefusal thread index task
    let (places, s) := followRefusals thread index rest s
    (if task.isRelay then place :: places else places, s)

theorem snd_followRefusal_forward (s : Shared σ) (thread : ThreadId) (index : Nat) (f : Frame)
    (replyTo : ChannelKey) :
    (s.followRefusal thread index (.forward f replyTo)).2
      = s.refuseForward thread index f replyTo := by
  simp only [followRefusal, refuseForward]
  split
  · rfl
  · generalize Task.reply _ _ = task
    cases s.submit thread replyTo.reactor task with
    | mk result s' => cases result <;> rfl

theorem passes_followRefusal (s : Shared σ) (thread : ThreadId) (index : Nat) (task : Task) :
    s.Passes (postsOf (s.followRefusal thread index task).1)
      (s.followRefusal thread index task).2 := by
  cases task with
  | forward f replyTo =>
    simp only [followRefusal]
    split
    · exact .refl s
    · split
      · rename_i handed
        exact passes_submit_ok handed
      · rename_i refused
        exact passes_submit_error refused
  | execute | connect | write | reply | stop => exact .refl s

/-- To tell where the requests went changes nothing. -/
theorem snd_followRefusals (s : Shared σ) (thread : ThreadId) (index : Nat) (left : List Task) :
    (s.followRefusals thread index left).2 = s.refuse thread index left := by
  induction left generalizing s with
  | nil => rfl
  | cons task rest ih =>
    refine (ih (s.followRefusal thread index task).2).trans ?_
    cases task with
    | forward f replyTo => rw [snd_followRefusal_forward, refuse]
    | execute | connect | write | reply | stop => rfl

theorem followRefusal_of_not_relay {thread : ThreadId} {index : Nat} {task : Task}
    (plain : task.isRelay = false) : s.followRefusal thread index task = (none, s) := by
  cases task with
  | execute | connect | write | stop => rfl
  | forward | reply => cases plain

/-- A request that a dead reactor had in its queue goes where it is right for it. -/
theorem placed_followRefusal {index : Nat} {task : Task} {f : Frame} {origin : ChannelKey}
    (thread : ThreadId) (dead : s.isAlive index = false)
    (right : (Place.queued index task).Right s f origin) :
    Placed s f origin (s.followRefusal thread index task).1 := by
  rcases right with ⟨-, rfl⟩ | ⟨answered, rfl, bytes, answers, rfl⟩
  · simp only [followRefusal]
    split
    · rename_i forgotten
      exact forgotten
    · rename_i answered
      have answered : isFireAndForget f.opcode = false := by simpa using answered
      split
      · exact .inr ⟨answered, rfl, _, ⟨_, rfl⟩, rfl⟩
      · rename_i refused
        exact ⟨answered, dead_of_submit_error refused⟩
  · exact ⟨answered, dead⟩

theorem isAlive_bury (s : Shared σ) (i j : Nat) :
    (s.bury i).isAlive j = if j = i then false else s.isAlive j := by
  have emptied : (s.bury i).isAlive j = (s.modifyReactor i .markDead).isAlive j :=
    isAlive_modifyReactor (f := fun r => { r with queue := { r.queue with tasks := {} } })
      (fun _ _ => rfl) j
  rw [emptied]
  simp only [isAlive, reactor?, modifyReactor, List.getElem?_modify]
  by_cases same : i = j
  · subst same
    cases s.reactors[i]? <;> simp [ReactorHandle.markDead]
  · have other : j ≠ i := Ne.symm same
    cases s.reactors[j]? <;> simp [same, other]

theorem queued_bury (s : Shared σ) (i j : Nat) :
    (s.bury i).queued j = if j = i then [] else s.queued j := by
  rw [bury, unqueue, queued_modifyReactor]
  by_cases same : i = j
  · subst same
    simp only [if_true]
    cases (s.modifyReactor i .markDead).reactor? i <;> rfl
  · rw [if_neg same, if_neg (Ne.symm same)]
    exact queued_modifyReactor_of_tasks (f := .markDead) (fun _ _ => rfl) j

theorem ages_bury (s : Shared σ) (i : Nat) : s.Ages (s.bury i) := by
  refine ⟨rfl, (List.length_modify ..).trans (List.length_modify ..), fun j dead => ?_⟩
  rw [isAlive_bury]
  split
  · rfl
  · exact dead

end Shared

namespace Turn

variable {σ : Type}

/-- Where the requests went that were in the queue of a reactor that ends. -/
def followFinish (t : Turn σ) : List (Option Place) :=
  ((t.shared.bury t.reactor.index).followRefusals t.reactor.thread t.reactor.index
    (t.shared.queued t.reactor.index)).1

/-- A reactor that ends answers what is left in its queue, and hands over nothing else. -/
theorem reactors_finish (t : Turn σ) :
    let answered := ((t.shared.bury t.reactor.index).followRefusals t.reactor.thread
      t.reactor.index (t.shared.queued t.reactor.index)).2
    t.finish.shared.reactors = answered.reactors ∧ t.finish.shared.config = answered.config := by
  intro answered
  have retired : answered = t.shared.retire t.reactor.thread t.reactor.index :=
    Shared.snd_followRefusals ..
  rw [t.finish_eq.2, retired]
  exact ⟨rfl, (congrArg Shared.config (Shared.retire_eq ..)).symm⟩

end Turn

/-- Where the requests of a deed went is told by doing what the reactor did.  A reactor that
ends leaves the others with what its answers hand over. -/
def Deed.Followed {σ : Type} : Deed σ → Prop
  | .handled _ t c => (t.followCompletion c).2 = t.onCompletion c
  | .ran _ t task => (t.followTask task).2 = t.onTask task
  | .ended _ t => t.finish.shared.reactors
      = ((t.shared.bury t.reactor.index).followRefusals t.reactor.thread t.reactor.index
          (t.shared.queued t.reactor.index)).2.reactors

theorem Deed.followed {σ : Type} (d : Deed σ) : d.Followed := by
  cases d with
  | handled i t c => exact t.snd_followCompletion c
  | ran i t task => exact t.snd_followTask task
  | ended i t => exact t.reactors_finish.1

end PartitionEngine
