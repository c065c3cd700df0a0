import PartitionEngine.Proofs.Arrivals
import PartitionEngine.Proofs.Confinement

/-!
# Which requests a reactor runs

Of the requests that come in on a channel a reactor runs those for its own partitions,
one after the other, and passes each other one on to the reactor of its partition, unless
that one is dead (`Turn.Routes`).  It runs what is passed on to it, and what is called
for, and nothing else: `Deed.served` tells all that its dispatcher gets
(`World.History.served`).

Between two reactors the requests of a channel stay in order, as they wait in one queue.
So what a reactor has run of them is a front of those for it, and as long as it is alive
the others are in its queue (`World.Delivers`).
-/

namespace PartitionEngine

/-- A request as a dispatcher gets it. -/
def Frame.errand (f : Frame) : Errand := ⟨f.opcode, f.partition, f.correlationId, f.payload⟩

/-- The request that came in on a channel and that a task passes on. -/
def Task.forwardOf? (origin : ChannelKey) : Task → Option Errand
  | .forward f replyTo => if replyTo = origin then some f.errand else none
  | _ => none

namespace Shared

variable {σ : Type} {s s' : Shared σ} {posts : List (Nat × Task)}

/-- The requests among others that a reactor is to run. -/
def errandsFor (s : Shared σ) (i : Nat) (fs : List Frame) : List Errand :=
  (fs.filter fun f => s.reactorOf f.partition = i).map Frame.errand

theorem errandsFor_append (s : Shared σ) (i : Nat) (fs fs' : List Frame) :
    s.errandsFor i (fs ++ fs') = s.errandsFor i fs ++ s.errandsFor i fs' := by
  simp only [errandsFor, List.filter_append, List.map_append]

theorem errandsFor_single (s : Shared σ) (i : Nat) (f : Frame) :
    s.errandsFor i [f] = if s.reactorOf f.partition = i then [f.errand] else [] := by
  by_cases own : s.reactorOf f.partition = i <;> simp [errandsFor, own]

theorem errandsFor_of_count (count : s'.reactors.length = s.reactors.length) :
    s'.errandsFor = s.errandsFor := by
  have same : s'.reactorOf = s.reactorOf := funext fun p => by rw [reactorOf, reactorOf, count]
  funext i fs
  simp only [errandsFor, same]

/-- The requests that came in on a channel and wait in the queue of a reactor. -/
def forwards (s : Shared σ) (i : Nat) (origin : ChannelKey) : List Errand :=
  (s.relays i).filterMap (Task.forwardOf? origin)

/-- The requests among what was handed to a reactor that came in on a channel. -/
def forwardsTo (posts : List (Nat × Task)) (i : Nat) (origin : ChannelKey) : List Errand :=
  (postsTo posts i).filterMap (Task.forwardOf? origin)

theorem forwardsTo_append (posts posts' : List (Nat × Task)) (i : Nat) (origin : ChannelKey) :
    forwardsTo (posts ++ posts') i origin
      = forwardsTo posts i origin ++ forwardsTo posts' i origin := by
  simp only [forwardsTo, postsTo_append, List.filterMap_append]

theorem forwardsTo_single (j : Nat) (task : Task) (i : Nat) (origin : ChannelKey) :
    forwardsTo [(j, task)] i origin
      = if j = i then (task.forwardOf? origin).toList else [] := by
  by_cases here : j = i
  · cases found : task.forwardOf? origin <;> simp [forwardsTo, postsTo, here, found]
  · simp [forwardsTo, postsTo, here]

theorem forwardsTo_single_of_none {task : Task} (none : task.forwardOf? origin = none) :
    forwardsTo [(j, task)] i origin = [] := by
  rw [forwardsTo_single, none, Option.toList_none, ite_self]

theorem forwards_of_reactors (same : s'.reactors = s.reactors) (i : Nat) (origin : ChannelKey) :
    s'.forwards i origin = s.forwards i origin := by
  rw [Shared.forwards, relays, queued, reactor?, same, Shared.forwards, relays, queued, reactor?]

theorem Passes.forwards (h : s.Passes posts s') (i : Nat) (origin : ChannelKey) :
    s'.forwards i origin = s.forwards i origin ++ forwardsTo posts i origin := by
  simp only [Shared.forwards, forwardsTo, h.relays, List.filterMap_append]

end Shared

/-- A handler that runs nothing and passes nothing on. -/
def Scope.quiet : Scope := { runs := fun _ => False, relays := fun _ _ => False }

namespace Turn

variable {σ : Type} {may : Scope} {key : SlotKey} {t t' t'' : Turn σ} {fs fs' : List Frame}
  {posts posts' : List (Nat × Task)}

/-! ## What a dispatcher gets -/

/-- A handler that may not run anything leaves the dispatcher as it is. -/
theorem Act.dispatcher (idle : ∀ p, ¬ may.runs p) (act : Act may key t t') :
    t'.reactor.dispatcher = t.reactor.dispatcher := by
  cases act with
  | dispatch opcode partition correlationId input runs => exact absurd runs (idle partition)
  | shut c cause => rw [shut_eq]
  | release => rw [releaseIfDone_eq]
  | _ => rfl

theorem Work.dispatcher (idle : ∀ p, ¬ may.runs p) (work : Work may t t') :
    t'.reactor.dispatcher = t.reactor.dispatcher := by
  cases work with
  | act key act => exact act.dispatcher idle
  | _ => rfl

theorem Works.dispatcher (idle : ∀ p, ¬ may.runs p) (works : Works may t t') :
    t'.reactor.dispatcher = t.reactor.dispatcher := by
  induction works with
  | refl => rfl
  | tail _ work ih => exact (work.dispatcher idle).trans ih

theorem dispatcher_quiet (works : Works .quiet t t') :
    t'.reactor.dispatcher = t.reactor.dispatcher := works.dispatcher fun _ => not_false

/-- A request that is run is served. -/
theorem dispatcher_execute (t : Turn σ) (f : Frame) :
    (t.execute f).2.reactor.dispatcher = t.reactor.dispatcher.serve f.errand := by
  have served : (t.reactor.dispatcher.dispatch f.opcode f.partition f.correlationId f.payload).2
      = t.reactor.dispatcher.serve f.errand := rfl
  simp only [execute]
  split
  · exact served
  · exact served

/-- The requests `fs` came in on a channel.  Those for partitions of the reactor were run,
and each other one was passed on to its reactor, if that one is alive. -/
structure Routes (key : SlotKey) (fs : List Frame) (posts : List (Nat × Task)) (t t' : Turn σ) :
    Prop extends Relays posts t t' where
  ran : t'.reactor.dispatcher
    = (t.shared.errandsFor t.reactor.index fs).foldl Dispatcher.serve t.reactor.dispatcher
  forwards : ∀ r origin, Shared.forwardsTo posts r origin
    = if origin = ⟨t.reactor.index, key⟩ ∧ r ≠ t.reactor.index ∧ t.shared.isAlive r = true then
        t.shared.errandsFor r fs
      else []

namespace Routes

/-- No request came in. -/
theorem of_relays (relays : Relays [] t t')
    (dispatcher : t'.reactor.dispatcher = t.reactor.dispatcher) : Routes key [] [] t t' where
  toRelays := relays
  ran := dispatcher
  forwards r origin := by
    split <;> rfl

theorem of_eq (shared : t'.shared = t.shared) (index : t'.reactor.index = t.reactor.index)
    (dispatcher : t'.reactor.dispatcher = t.reactor.dispatcher) : Routes key [] [] t t' :=
  .of_relays (.of_shared shared index dispatcher) dispatcher

theorem of_acts {k : SlotKey} (acts : Acts .quiet k t t') : Routes key [] [] t t' :=
  .of_relays (.of_acts (fun _ _ => not_false) acts) (dispatcher_quiet (.of_acts acts))

theorem refl (t : Turn σ) : Routes key [] [] t t := of_eq rfl rfl rfl

theorem trans (h : Routes key fs posts t t') (h' : Routes key fs' posts' t' t'') :
    Routes key (fs ++ fs') (posts ++ posts') t t'' where
  toRelays := h.toRelays.trans h'.toRelays
  ran := by
    rw [h'.ran, h.ran, h.index, Shared.errandsFor_of_count h.passes.count,
      Shared.errandsFor_append, List.foldl_append]
  forwards r origin := by
    rw [Shared.forwardsTo_append, h.forwards, h'.forwards, h.index, h.passes.alive,
      Shared.errandsFor_of_count h.passes.count]
    split
    · exact (Shared.errandsFor_append ..).symm
    · rfl

theorem silent_then (h : Routes key [] [] t t') (h' : Routes key fs posts t' t'') :
    Routes key fs posts t t'' := h.trans h'

theorem then_silent (h : Routes key fs posts t t') (h' : Routes key [] [] t' t'') :
    Routes key fs posts t t'' := by
  have both := h.trans h'
  rwa [List.append_nil, List.append_nil] at both

end Routes

/-! ## Requests that come in -/

/-- A request for a partition of the reactor is run. -/
theorem routes_execute {f : Frame} {answer : Option Bytes}
    (complete : t.reactor.dispatcher.pool.registry.Complete)
    (own : t.shared.reactorOf f.partition = t.reactor.index)
    (executed : t.execute f = (answer, t')) : Routes key [f] [] t t' where
  toRelays := (placed_execute complete executed).1
  ran := by
    have served := dispatcher_execute t f
    rw [executed] at served
    rw [Shared.errandsFor_single, if_pos own]
    exact served
  forwards r origin := by
    split
    · rename_i elsewhere
      rw [Shared.errandsFor_single, if_neg (own ▸ Ne.symm elsewhere.2.1)]
      rfl
    · rfl

theorem alive_of_submitTask {i : Nat} {task : Task} (handed : t.submitTask i task = (.ok (), t')) :
    t.shared.isAlive i = true := by
  cases submitted : t.shared.submit t.reactor.thread i task with
  | mk result s =>
    simp only [submitTask, submitted] at handed
    cases handed
    exact Shared.alive_of_submit_ok submitted

/-- A request for a partition of another reactor is handed to it. -/
theorem routes_submit_ok {f : Frame} (other : t.shared.reactorOf f.partition ≠ t.reactor.index)
    (handed : t.submitTask (t.shared.reactorOf f.partition)
      (.forward f ⟨t.reactor.index, key⟩) = (.ok (), t')) :
    Routes key [f] [(t.shared.reactorOf f.partition, .forward f ⟨t.reactor.index, key⟩)] t t' where
  toRelays := .submit_ok rfl handed
  ran := by
    rw [Shared.errandsFor_single, if_neg other]
    exact congrArg (fun t => t.reactor.dispatcher) (congrArg Prod.snd handed).symm
  forwards r origin := by
    have alive := alive_of_submitTask handed
    rw [Shared.forwardsTo_single, Shared.errandsFor_single]
    by_cases there : t.shared.reactorOf f.partition = r
    · subst there
      by_cases same : origin = ⟨t.reactor.index, key⟩
      · simp [Task.forwardOf?, same, other, alive]
      · simp [Task.forwardOf?, same, Ne.symm same]
    · simp [there]

/-- A dead reactor gets nothing. -/
theorem routes_submit_error {f : Frame} {e : Failure}
    (other : t.shared.reactorOf f.partition ≠ t.reactor.index)
    (refused : t.submitTask (t.shared.reactorOf f.partition)
      (.forward f ⟨t.reactor.index, key⟩) = (.error e, t')) : Routes key [f] [] t t' where
  toRelays := (Relays.submit_error refused).1
  ran := by
    rw [Shared.errandsFor_single, if_neg other]
    exact congrArg (fun t => t.reactor.dispatcher) (congrArg Prod.snd refused).symm
  forwards r origin := by
    obtain ⟨relays, dead⟩ := Relays.submit_error refused
    rw [relays.passes.alive] at dead
    rw [Shared.errandsFor_single]
    by_cases there : t.shared.reactorOf f.partition = r
    · subst there
      simp [dead, Shared.forwardsTo, Shared.postsTo]
    · simp [there, Shared.forwardsTo, Shared.postsTo]

theorem routes_answer (t : Turn σ) (k : SlotKey) (bytes : Bytes) :
    Routes key [] (postsOf (t.answer k bytes).1) t (t.answer k bytes).2 :=
  .of_acts (acts_write t k bytes trivial)

/-- A request that comes in is run, or passed on. -/
theorem routes_followRequest (complete : t.reactor.dispatcher.pool.registry.Complete)
    (key : SlotKey) (f : Frame) :
    Routes key [f] (postsOf (t.followRequest key f).1) t (t.followRequest key f).2 := by
  simp only [followRequest]
  split
  · rename_i own
    split
    · rename_i bytes t' executed
      exact (routes_execute complete own executed).trans (routes_answer t' key bytes)
    · rename_i t' executed
      exact routes_execute complete own executed
  · rename_i other
    split
    · rename_i t' handed
      exact routes_submit_ok other handed
    · rename_i e t' refused
      have ended : Routes key [f] [] t t' := routes_submit_error other refused
      split
      · exact ended
      · have encoded : Routes key [] [] t' (t'.encodeResponse f.opcode f.correlationId f.partition
            (.error ⟨.operationFailed, e.message⟩)).2 :=
          .of_acts (Acts.of_act (.count t' _) : Acts .quiet key _ _)
        exact (ended.then_silent encoded).trans (routes_answer _ key _)

/-- The requests that a reactor takes off a channel are run or passed on, one after the
other. -/
theorem routes_followFrames (bound : Nat) (key : SlotKey)
    (complete : t.reactor.dispatcher.pool.registry.Complete) :
    Routes key ((followFrames bound key t).1.map Prod.fst) (postsOfAll (followFrames bound key t).1)
      t (followFrames bound key t).2 := by
  induction bound generalizing t with
  | zero => exact .refl t
  | succ bound ih =>
    -- What comes after a step in which no request came in.
    have after {t₁ : Turn σ} (first : Routes key [] [] t t₁) :
        Routes key ((followFrames bound key t₁).1.map Prod.fst)
          (postsOfAll (followFrames bound key t₁).1) t (followFrames bound key t₁).2 :=
      first.silent_then (ih (first.registry ▸ complete))
    -- What comes after one that may panic.
    have goes (t : Turn σ) (complete : t.reactor.dispatcher.pool.registry.Complete) :
        Routes key ((t.andFollow (followFrames bound key)).1.map Prod.fst)
          (postsOfAll (t.andFollow (followFrames bound key)).1) t
          (t.andFollow (followFrames bound key)).2 := by
      simp only [andFollow]
      split
      · exact .refl t
      · exact ih complete
    have put (c : Channel) : Routes key [] [] t (t.putChannel key c) := .of_eq rfl rfl rfl
    simp only [followFrames]
    split
    · exact .refl t
    · split
      · exact .refl t
      · split
        · exact put _
        · rename_i f c' _
          have counted : Routes key [] [] t ((t.putChannel key c').count fun s =>
              { s with messagesIn := s.messagesIn + 1 }) :=
            (put c').silent_then (.of_acts (Acts.of_act (.count _ _) : Acts .quiet key _ _))
          generalize (t.putChannel key c').count (fun s =>
            { s with messagesIn := s.messagesIn + 1 }) = t₁ at counted ⊢
          split
          · have first : Routes key [] [] t (t₁.onResponse key f) :=
              counted.silent_then (.of_acts (acts_onResponse t₁ key f trivial))
            exact first.silent_then (goes _ (first.registry ▸ complete))
          · have first := routes_followRequest (counted.registry ▸ complete) key f
            exact (counted.silent_then first).trans
              (goes _ (first.registry ▸ counted.registry ▸ complete))
        · rename_i e c' _
          split
          · exact (put c').silent_then (.of_acts (acts_close _ key _))
          · exact after (put c')

theorem routes_followRecv (key : SlotKey) (result : Int) (received : Bytes)
    (complete : t.reactor.dispatcher.pool.registry.Complete) :
    Routes key ((t.followRecv key result received).1.map Prod.fst)
      (postsOfAll (t.followRecv key result received).1) t (t.followRecv key result received).2 := by
  simp only [followRecv]
  split
  · exact .refl t
  · rename_i c found
    have put : Routes key [] [] t (t.putChannel key { c with recvInFlight := false }) :=
      .of_eq rfl rfl rfl
    have closed (cause : Failure) := put.silent_then (.of_acts (acts_close _ key cause))
    split
    · exact put
    · split
      · exact closed _
      · split
        · exact closed _
        · have got : Routes key [] [] t
              ((t.putChannel key { c with recvInFlight := false }).putChannel key
                (Channel.received { c with recvInFlight := false } received)) := .of_eq rfl rfl rfl
          have posted (t : Turn σ) : Acts .quiet key t (t.andThen (·.postRecv key)) :=
            acts_andThen t (acts_postRecv t key trivial)
          exact (got.silent_then (routes_followFrames _ key (got.registry ▸ complete))).then_silent
            (.of_acts (posted _))

/-- The requests that come in with a completion are run or passed on. -/
theorem routes_onCompletion (c : IoCompletion Token)
    (complete : t.reactor.dispatcher.pool.registry.Complete) :
    Routes c.token.key ((t.followCompletion c).1.map Prod.fst)
      (postsOfAll (t.followCompletion c).1) t (t.onCompletion c) := by
  by_cases recv : c.token.purpose? = some .recv
  · rw [← snd_followCompletion]
    have flagged : Routes c.token.key [] [] t t.afresh := .of_eq rfl rfl rfl
    simp only [followCompletion, recv]
    exact (flagged.silent_then (routes_followRecv c.token.key c.result c.received
      (by exact complete))).then_silent (.of_acts (acts_release _ _))
  · have followed : t.followCompletion c = ([], t.onCompletion c) := by
      simp only [followCompletion]
    have relays := (placed_followCompletion c complete).1
    rw [followed] at relays ⊢
    refine .of_relays relays ?_
    by_cases accept : c.token.purpose? = some .accept
    · rw [onCompletion_of_accept t accept]
      have quiet : Works .quiet t.afresh (t.afresh.onAccept c.result c.remote) :=
        works_onAccept t.afresh _ _ trivial trivial
      have same : (t.afresh.onAccept c.result c.remote).reactor.dispatcher
          = t.afresh.reactor.dispatcher := dispatcher_quiet quiet
      exact same
    · have acts : Acts .quiet c.token.key t (t.onCompletion c) :=
        acts_onCompletion t c accept (fun _ => trivial) (fun kind => absurd kind recv) trivial
          trivial (fun _ => trivial) trivial trivial
      exact dispatcher_quiet (.of_acts acts)

/-! ## Tasks -/

/-- What a task makes the dispatcher run, and the channel that it came in on. -/
def servedBy (t : Turn σ) (task : Task) : List (Option ChannelKey × Errand) :=
  if t.reactor.stopping then []
  else match task with
    | .execute r correlationId =>
      [(none, ⟨r.opcode, r.partition, correlationId.getD 0, r.payload⟩)]
    | .forward f replyTo => [(some replyTo, f.errand)]
    | _ => []

/-- A request that another reactor passed on is run. -/
theorem dispatcher_runForwarded (t : Turn σ) (f : Frame) (replyTo : ChannelKey) :
    (t.runForwarded f replyTo).reactor.dispatcher = t.reactor.dispatcher.serve f.errand := by
  have served := dispatcher_execute t f
  obtain same | ⟨bytes, -, same | same⟩ := runForwarded_cases t f replyTo
  · rw [same]
    exact served
  · rw [same]
    exact (dispatcher_quiet (.of_acts (acts_write _ replyTo.key bytes trivial))).trans served
  · rw [same]
    exact served

/-- A call is run. -/
theorem dispatcher_runLocal (t : Turn σ) (r : Request) (correlationId : Option UInt64) :
    (t.runLocal r correlationId).reactor.dispatcher
      = t.reactor.dispatcher.serve ⟨r.opcode, r.partition, correlationId.getD 0, r.payload⟩ := by
  cases correlationId <;> rfl

/-- A task makes the dispatcher run what it is about. -/
theorem dispatcher_onTask (t : Turn σ) (task : Task) : (t.onTask task).reactor.dispatcher
    = ((t.servedBy task).map Prod.snd).foldl Dispatcher.serve t.reactor.dispatcher := by
  simp only [onTask, servedBy]
  split
  · exact dispatcher_quiet (.of_acts (acts_reject t ⟨0, 0⟩ task trivial))
  · cases task with
    | execute r correlationId => exact dispatcher_runLocal t r correlationId
    | forward f replyTo => exact dispatcher_runForwarded t f replyTo
    | connect l => exact dispatcher_quiet (works_outboundChannel t l trivial)
    | reply channel bytes =>
      exact dispatcher_quiet (.of_acts (acts_write t channel.key bytes trivial))
    | stop => exact dispatcher_quiet (works_beginStop t trivial)
    | write l bytes correlationId =>
      have connected := dispatcher_quiet (works_outboundChannel t l trivial)
      simp only
      split
      · rename_i k t' result
        rw [result] at connected
        exact (dispatcher_quiet (.of_acts (acts_write t' k bytes trivial))).trans connected
      · rename_i t' result
        rw [result] at connected
        exact connected

/-- A task passes on a response at most. -/
theorem forwardsTo_followTask (t : Turn σ) (task : Task) (r : Nat) (origin : ChannelKey) :
    Shared.forwardsTo (postsOf (t.followTask task).1) r origin = [] := by
  simp only [followTask]
  split
  · rfl
  · cases task with
    | forward f replyTo =>
      simp only [followForwarded]
      split
      · rfl
      · split
        · rfl
        · split
          · exact Shared.forwardsTo_single_of_none rfl
          · rfl
    | execute | connect | write | reply | stop => rfl

/-- The oldest task is taken off the queue. -/
theorem Took.forwards {i : Nat} {task : Task} (took : Took i task t t') (origin : ChannelKey) :
    t.shared.forwards i origin = (task.forwardOf? origin).toList ++ t'.shared.forwards i origin
      ∧ ∀ j, j ≠ i → t'.shared.forwards j origin = t.shared.forwards j origin := by
  cases relay : task.isRelay with
  | true =>
    obtain ⟨own, others⟩ := took.relays_of_relay relay
    refine ⟨?_, fun j other => by rw [Shared.forwards, others j other, Shared.forwards]⟩
    rw [Shared.forwards, own, Shared.forwards]
    cases found : task.forwardOf? origin with
    | none => exact List.filterMap_cons_none found
    | some e => exact List.filterMap_cons_some found
  | false =>
    have same := took.relays_of_not_relay relay
    refine ⟨?_, fun j _ => by rw [Shared.forwards, same, Shared.forwards]⟩
    rw [Shared.forwards, ← same, ← Shared.forwards]
    cases task with
    | execute | connect | write | stop => rfl
    | forward | reply => cases relay

/-- A response at most is passed on for a request that a dead reactor had in its queue. -/
theorem forwards_followRefusals (thread : ThreadId) (index : Nat) (left : List Task)
    (s : Shared σ) (r : Nat) (origin : ChannelKey) :
    (s.followRefusals thread index left).2.forwards r origin = s.forwards r origin := by
  induction left generalizing s with
  | nil => rfl
  | cons task rest ih =>
    have silent : Shared.forwardsTo (postsOf (s.followRefusal thread index task).1) r origin
        = [] := by
      cases task with
      | forward f replyTo =>
        simp only [Shared.followRefusal]
        split
        · rfl
        · split
          · exact Shared.forwardsTo_single_of_none rfl
          · rfl
      | execute | connect | write | reply | stop => rfl
    have first := (s.passes_followRefusal thread index task).forwards r origin
    rw [silent, List.append_nil] at first
    exact (ih _).trans first

theorem isAlive_followRefusals (thread : ThreadId) (index : Nat) (left : List Task)
    (s : Shared σ) (r : Nat) :
    (s.followRefusals thread index left).2.isAlive r = s.isAlive r := by
  induction left generalizing s with
  | nil => rfl
  | cons task rest ih => exact (ih _).trans ((s.passes_followRefusal thread index task).alive r)

/-- The requests that wait for a reactor that ends are gone, and the others wait. -/
theorem forwards_finish (t : Turn σ) (r : Nat) (origin : ChannelKey) :
    t.finish.shared.forwards r origin
      = if r = t.reactor.index then [] else t.shared.forwards r origin := by
  rw [Shared.forwards_of_reactors (reactors_finish t).1, forwards_followRefusals, Shared.forwards,
    Shared.relays, Shared.queued_bury]
  split <;> rfl

/-- A reactor that ends is dead, and no other. -/
theorem isAlive_finish (t : Turn σ) (r : Nat) : t.finish.shared.isAlive r
    = if r = t.reactor.index then false else t.shared.isAlive r := by
  rw [Shared.isAlive, Shared.reactor?, (reactors_finish t).1, ← Shared.isAlive_bury]
  exact isAlive_followRefusals ..

end Turn

/-! ## Deeds -/

namespace Deed

variable {σ : Type}

/-- What the dispatcher of a reactor got, and the channels that it came in on. -/
def served : Deed σ → List (Option ChannelKey × Errand)
  | handled i t c => (t.shared.errandsFor i ((t.followCompletion c).1.map Prod.fst)).map fun e =>
      (some ⟨i, c.token.key⟩, e)
  | ran _ t task => t.servedBy task
  | ended .. => []

/-- The requests that were run and had come in on a channel, with the reactor that ran
them. -/
def executedOn (origin : ChannelKey) (d : Deed σ) : List (Nat × Errand) :=
  (d.served.filter fun s => s.1 = some origin).map fun s => (d.reactor, s.2)

theorem executedOn_handled (i : Nat) (t : Turn σ) (c : IoCompletion Token) (origin : ChannelKey) :
    (handled i t c).executedOn origin
      = (t.shared.errandsFor i ((handled i t c).requestsOn origin)).map fun e => (i, e) := by
  by_cases here : i = origin.reactor ∧ c.token.key = origin.key
  · simp [executedOn, served, requestsOn, here, List.filter_map, Function.comp_def, reactor]
  · have other : (⟨i, c.token.key⟩ : ChannelKey) ≠ origin := fun same => by
      subst same
      exact here ⟨rfl, rfl⟩
    simp [executedOn, served, requestsOn, here, other, List.filter_map, Function.comp_def,
      Shared.errandsFor]

/-- A task that is run is about one request at most that came in on a channel. -/
theorem executedOn_ran {i : Nat} {t : Turn σ} (going : t.reactor.stopping = false) (task : Task)
    (origin : ChannelKey) :
    (ran i t task).executedOn origin = (task.forwardOf? origin).toList.map fun e => (i, e) := by
  simp only [executedOn, served, Turn.servedBy, going]
  cases task with
  | forward f replyTo =>
    by_cases here : replyTo = origin
    · simp [Task.forwardOf?, here, reactor]
    · simp [Task.forwardOf?, here]
  | execute | connect | write | reply | stop => rfl

/-- What a reactor did made its dispatcher run what was served. -/
theorem dispatcher_after (d : Deed σ) (index : d.before.reactor.index = d.reactor)
    (complete : d.before.reactor.dispatcher.pool.registry.Complete) :
    d.after.reactor.dispatcher
      = (d.served.map Prod.snd).foldl Dispatcher.serve d.before.reactor.dispatcher := by
  cases d with
  | handled i t c =>
    have index : t.reactor.index = i := index
    subst index
    have ran := (Turn.routes_onCompletion (t := t) c complete).ran
    simp only [served, List.map_map, Function.comp_def, List.map_id']
    exact ran
  | ran i t task => exact t.dispatcher_onTask task
  | ended i t =>
    show t.finish.reactor.dispatcher = t.reactor.dispatcher
    rw [t.finish_eq.1]

end Deed

/-! ## Worlds -/

namespace World

variable {σ : Type} {w w' w₀ : World σ} {ds : List (Deed σ)} {origin : ChannelKey}
  {arrived : List Frame} {executed : List (Nat × Errand)}

/-- What the dispatcher of a reactor got in a history, the first first. -/
def servedBy (i : Nat) (ds : List (Deed σ)) : List Errand :=
  (ds.reverse.filter fun d => d.reactor = i).flatMap fun d => d.served.map Prod.snd

theorem servedBy_append (i : Nat) (ds ds' : List (Deed σ)) :
    servedBy i (ds ++ ds') = servedBy i ds' ++ servedBy i ds := by
  simp only [servedBy, List.reverse_append, List.filter_append, List.flatMap_append]

/-- What the requests of a channel that a reactor ran are. -/
def ranBy (i : Nat) (executed : List (Nat × Errand)) : List Errand :=
  (executed.filter fun e => e.1 = i).map Prod.snd

theorem ranBy_append (i : Nat) (executed executed' : List (Nat × Errand)) :
    ranBy i (executed ++ executed') = ranBy i executed ++ ranBy i executed' := by
  simp only [ranBy, List.filter_append, List.map_append]

theorem ranBy_map (r i : Nat) (errands : List Errand) :
    ranBy r (errands.map fun e => (i, e)) = if r = i then errands else [] := by
  by_cases here : i = r
  · simp [ranBy, List.filter_map, Function.comp_def, here]
  · simp [ranBy, List.filter_map, Function.comp_def, here, Ne.symm here]

/-- What is told of a deed for a channel was served in it. -/
theorem ranBy_executedOn_sublist (r : Nat) (d : Deed σ) (origin : ChannelKey) :
    (ranBy r (d.executedOn origin)).Sublist (servedBy r [d]) := by
  by_cases here : d.reactor = r
  · have ran : ranBy r (d.executedOn origin)
        = (d.served.filter fun s => s.1 = some origin).map Prod.snd := by
      simp [ranBy, Deed.executedOn, List.filter_map, Function.comp_def, here]
    have served : servedBy r [d] = d.served.map Prod.snd := by simp [servedBy, here]
    rw [ran, served]
    exact List.filter_sublist.map _
  · have ran : ranBy r (d.executedOn origin) = [] := by
      simp [ranBy, Deed.executedOn, List.filter_map, Function.comp_def, here]
    rw [ran]
    exact List.nil_sublist _

/-- Of the requests that came in on a channel, a reactor has run a front of those for it.
If it is alive, the others are in its queue. -/
structure Delivers (w : World σ) (origin : ChannelKey) (arrived : List Frame)
    (executed : List (Nat × Errand)) : Prop where
  front : ∀ r, ranBy r executed ++ w.engine.shared.forwards r origin
    <+: w.engine.shared.errandsFor r arrived
  whole : ∀ r, r = origin.reactor ∨ w.engine.shared.isAlive r = true →
    ranBy r executed ++ w.engine.shared.forwards r origin = w.engine.shared.errandsFor r arrived
  home : w.engine.shared.forwards origin.reactor origin = []

namespace Delivers

/-- Nothing came in. -/
theorem start (absent : ∀ r, w.engine.shared.forwards r origin = []) :
    w.Delivers origin [] [] where
  front r := by rw [absent]; exact List.prefix_rfl
  whole r _ := by rw [absent]; rfl
  home := absent _

/-- What was run and what waits are the same together. -/
theorem of_same {executed' : List (Nat × Errand)} (h : w.Delivers origin arrived executed)
    (count : w'.engine.shared.reactors.length = w.engine.shared.reactors.length)
    (alive : ∀ r, w'.engine.shared.isAlive r = true → w.engine.shared.isAlive r = true)
    (same : ∀ r, ranBy r executed' ++ w'.engine.shared.forwards r origin
      = ranBy r executed ++ w.engine.shared.forwards r origin)
    (home : w'.engine.shared.forwards origin.reactor origin = []) :
    w'.Delivers origin arrived executed' where
  front r := by
    rw [same, Shared.errandsFor_of_count count]
    exact h.front r
  whole r live := by
    rw [same, Shared.errandsFor_of_count count]
    exact h.whole r (live.imp_right (alive r))
  home := home

/-- No request is passed on. -/
theorem of_forwards (h : w.Delivers origin arrived executed)
    (count : w'.engine.shared.reactors.length = w.engine.shared.reactors.length)
    (alive : ∀ r, w'.engine.shared.isAlive r = true → w.engine.shared.isAlive r = true)
    (same : ∀ r, w'.engine.shared.forwards r origin = w.engine.shared.forwards r origin) :
    w'.Delivers origin arrived executed :=
  h.of_same count alive (fun r => by rw [same]) ((same _).trans h.home)

theorem of_passes (h : w.Delivers origin arrived executed)
    (passes : w.engine.shared.Passes [] w'.engine.shared) : w'.Delivers origin arrived executed :=
  h.of_forwards passes.count (fun r live => (passes.alive r).symm.trans live) fun r =>
    (passes.forwards r origin).trans (List.append_nil _)

/-- Requests come in on the channel.  The reactor runs its own, and hands each other one
over. -/
theorem come {fs : List Frame} (h : w.Delivers origin arrived executed)
    (count : w'.engine.shared.reactors.length = w.engine.shared.reactors.length)
    (alive : ∀ r, w'.engine.shared.isAlive r = w.engine.shared.isAlive r)
    (forwards : ∀ r, w'.engine.shared.forwards r origin = w.engine.shared.forwards r origin
      ++ if r ≠ origin.reactor ∧ w.engine.shared.isAlive r = true then
          w.engine.shared.errandsFor r fs else []) :
    w'.Delivers origin (arrived ++ fs) (executed
      ++ (w.engine.shared.errandsFor origin.reactor fs).map fun e => (origin.reactor, e)) := by
  have errands := Shared.errandsFor_of_count count
  have home : w'.engine.shared.forwards origin.reactor origin = [] := by
    rw [forwards, h.home, if_neg fun is => is.1 rfl, List.append_nil]
  have whole (r : Nat) (live : r = origin.reactor ∨ w'.engine.shared.isAlive r = true) :
      ranBy r (executed
        ++ (w.engine.shared.errandsFor origin.reactor fs).map fun e => (origin.reactor, e))
        ++ w'.engine.shared.forwards r origin = w'.engine.shared.errandsFor r (arrived ++ fs) := by
    rw [alive] at live
    have before := h.whole r live
    rw [errands, Shared.errandsFor_append, ranBy_append, ranBy_map]
    by_cases here : r = origin.reactor
    · subst here
      rw [h.home, List.append_nil] at before
      rw [home, if_pos rfl, before, List.append_nil]
    · rw [forwards, if_neg here, if_pos ⟨here, live.resolve_left here⟩, List.append_nil,
        ← List.append_assoc, before]
  refine ⟨fun r => ?_, whole, home⟩
  by_cases live : r = origin.reactor ∨ w'.engine.shared.isAlive r = true
  · exact (whole r live).symm ▸ List.prefix_rfl
  · rw [alive, not_or] at live
    rw [errands, Shared.errandsFor_append, ranBy_append, ranBy_map, if_neg live.1, forwards,
      if_neg fun is => live.2 is.2, List.append_nil, List.append_nil]
    exact (h.front r).trans (List.prefix_append ..)

theorem rest (h : w.Delivers origin arrived executed) (sound : w.Sound) (does : Does w none w') :
    w'.Delivers origin arrived executed :=
  h.of_passes (does.idle sound).1.toPasses

/-- A completion is handled. -/
theorem handled {i : Nat} {seat : Seat σ} {c : IoCompletion Token}
    {rest : List (IoCompletion Token)} (h : w.Delivers origin arrived executed)
    (index : seat.reactor.index = i)
    (complete : seat.reactor.dispatcher.pool.registry.Complete) :
    (w.advance i .asleep ⟨(w.turn seat).onCompletion c, rest⟩ none).Delivers origin
      (arrived ++ (Deed.handled i (w.turn seat) c).requestsOn origin)
      (executed ++ (Deed.handled i (w.turn seat) c).executedOn origin) := by
  have routes := Turn.routes_onCompletion (t := w.turn seat) c complete
  have index : (w.turn seat).reactor.index = i := index
  have forwards (r : Nat) := routes.passes.forwards r origin
  simp only [routes.forwards, index] at forwards
  rw [Deed.executedOn_handled]
  by_cases here : origin = ⟨i, c.token.key⟩
  · subst here
    simp only [true_and] at forwards
    simp only [Deed.requestsOn, and_self, if_true]
    exact h.come routes.passes.count routes.passes.alive forwards
  · have requests : (Deed.handled i (w.turn seat) c).requestsOn origin = [] :=
      if_neg fun is => here (by rw [is.1, is.2])
    simp only [here, false_and, if_false, List.append_nil] at forwards
    rw [requests, List.append_nil, Shared.errandsFor, List.filter_nil, List.map_nil, List.map_nil,
      List.append_nil]
    exact h.of_forwards routes.passes.count
      (fun r live => (routes.passes.alive r).symm.trans live) forwards

/-- A task is run. -/
theorem ran {i : Nat} {seat : Seat σ} {t : Turn σ} {task : Task} {handed : Option Handover}
    (h : w.Delivers origin arrived executed) (took : (w.turn seat).Took i task t)
    (complete : seat.reactor.dispatcher.pool.registry.Complete)
    (going : seat.reactor.stopping = false) :
    (w.advance i .asleep ⟨t.onTask task, []⟩ handed).Delivers origin arrived
      (executed ++ (Deed.ran i t task).executedOn origin) := by
  have reactor : t.reactor = seat.reactor := took.reactor
  have passes := (t.relays_onTask (by rw [reactor]; exact complete) task).passes
  have after (r : Nat) : (t.onTask task).shared.forwards r origin = t.shared.forwards r origin := by
    rw [passes.forwards, Turn.forwardsTo_followTask, List.append_nil]
  obtain ⟨own, others⟩ := took.forwards origin
  have own : w.engine.shared.forwards i origin
      = (task.forwardOf? origin).toList ++ t.shared.forwards i origin := own
  rw [Deed.executedOn_ran (by rw [reactor]; exact going)]
  refine h.of_same (passes.count.trans took.count)
    (fun r live => (took.alive r).symm.trans ((passes.alive r).symm.trans live)) (fun r => ?_) ?_
  · show _ ++ (t.onTask task).shared.forwards r origin = _
    rw [after, ranBy_append, ranBy_map]
    by_cases here : r = i
    · rw [here, own, if_pos rfl, List.append_assoc]
    · rw [others r here, if_neg here, List.append_nil]
      rfl
  · show (t.onTask task).shared.forwards origin.reactor origin = []
    rw [after]
    have home := h.home
    by_cases here : origin.reactor = i
    · rw [here] at home ⊢
      exact (List.append_eq_nil_iff.mp (own.symm.trans home)).2
    · rw [others _ here]
      exact home

/-- A reactor ends. -/
theorem ended {i : Nat} {seat : Seat σ} {rest : List (IoCompletion Token)}
    (h : w.Delivers origin arrived executed) (index : seat.reactor.index = i)
    (count : (w.turn seat).finish.shared.reactors.length = w.engine.shared.reactors.length) :
    (w.advance i .ended ⟨(w.turn seat).finish, rest⟩ none).Delivers origin arrived executed := by
  have errands := Shared.errandsFor_of_count count
  have forwards (r : Nat) : (w.turn seat).finish.shared.forwards r origin
      = if r = i then [] else w.engine.shared.forwards r origin := by
    rw [Turn.forwards_finish, show (w.turn seat).reactor.index = i from index]
    rfl
  have alive (r : Nat) : (w.turn seat).finish.shared.isAlive r
      = if r = i then false else w.engine.shared.isAlive r := by
    rw [Turn.isAlive_finish, show (w.turn seat).reactor.index = i from index]
    rfl
  have home : (w.turn seat).finish.shared.forwards origin.reactor origin = [] := by
    rw [forwards, h.home, ite_self]
  refine ⟨fun r => ?_, fun r live => ?_, home⟩
  · show ranBy r executed ++ (w.turn seat).finish.shared.forwards r origin
      <+: (w.turn seat).finish.shared.errandsFor r arrived
    rw [errands, forwards]
    split
    · rw [List.append_nil]
      exact (List.prefix_append ..).trans (h.front r)
    · exact h.front r
  · show ranBy r executed ++ (w.turn seat).finish.shared.forwards r origin
      = (w.turn seat).finish.shared.errandsFor r arrived
    rw [errands]
    obtain rfl | live := live
    · rw [home, ← h.home]
      exact h.whole origin.reactor (.inl rfl)
    · have live : (w.turn seat).finish.shared.isAlive r = true := live
      rw [alive] at live
      split at live
      · cases live
      · rename_i other
        rw [forwards, if_neg other]
        exact h.whole r (.inr live)

theorem deed {d : Deed σ} (h : w.Delivers origin arrived executed) (sound : w.Sound)
    (accounted : w.Accounted ds) (room : w.HasRoom) (does : Does w (some d) w') (going : w.Going) :
    w'.Delivers origin (arrived ++ d.requestsOn origin) (executed ++ d.executedOn origin) := by
  have count := (does.step.keeps room sound).count
  obtain ⟨none, -⟩ | ⟨j, seat, found, asleep, ⟨none, -⟩ | ⟨c, rest, same, rfl⟩
      | ⟨t, task, same, took, rfl⟩ | ⟨same, rfl⟩⟩ := does.inversion sound
  · cases none
  · cases none
  · cases same
    exact h.handled (sound.seats j seat found).1 (accounted.complete j seat found asleep)
  · cases same
    rw [Deed.requestsOn, List.append_nil]
    exact h.ran took (accounted.complete j seat found asleep) (going j seat found)
  · cases same
    rw [Deed.requestsOn, List.append_nil, Deed.executedOn, Deed.served, List.filter_nil,
      List.map_nil, List.append_nil]
    exact h.ended (sound.seats j seat found).1 count

end Delivers

/-! ## Histories -/

/-- What is done is done by a reactor at work, which then has come to the end of it. -/
theorem Does.advance {d : Deed σ} (does : Does w (some d) w') (sound : w.Sound) :
    ∃ seat phase batch handed, w.seat? d.reactor = some seat ∧ seat.phase = .asleep
      ∧ d.before.reactor = seat.reactor
      ∧ w' = w.advance d.reactor phase ⟨d.after, batch⟩ handed := by
  obtain ⟨none, -⟩ | ⟨j, seat, found, asleep, ⟨none, -⟩ | ⟨c, rest, same, rfl⟩
      | ⟨t, task, same, took, rfl⟩ | ⟨same, rfl⟩⟩ := does.inversion sound
  · cases none
  · cases none
  · cases same
    exact ⟨seat, _, _, _, found, asleep, rfl, rfl⟩
  · cases same
    exact ⟨seat, _, _, _, found, asleep, took.reactor, rfl⟩
  · cases same
    exact ⟨seat, _, _, _, found, asleep, rfl, rfl⟩

/-- The dispatcher of a reactor runs what is served, and rests otherwise. -/
theorem Does.dispatcher {d : Option (Deed σ)} {i : Nat} {seat' : Seat σ} (does : Does w d w')
    (sound : w.Sound) (accounted : w.Accounted ds) (found' : w'.seat? i = some seat') :
    ∃ seat, w.seat? i = some seat ∧ seat'.reactor.dispatcher
      = (servedBy i d.toList).foldl Dispatcher.serve seat.reactor.dispatcher := by
  cases d with
  | none =>
    obtain ⟨seat, found, -, dispatcher, -⟩ := (does.idle sound).2 i seat' found'
    exact ⟨seat, found, dispatcher⟩
  | some d =>
    obtain ⟨seat, phase, batch, handed, found, asleep, before, rfl⟩ := does.advance sound
    obtain ⟨rfl, rfl⟩ | ⟨other, found'⟩ := seat?_advance_cases found found'
    · have served : servedBy d.reactor [d] = d.served.map Prod.snd := by simp [servedBy]
      refine ⟨seat, found, ?_⟩
      rw [Option.toList_some, served, ← before]
      exact d.dispatcher_after (before ▸ (sound.seats _ seat found).1)
        (before ▸ accounted.complete _ seat found asleep)
    · have none : servedBy i [d] = [] := by simp [servedBy, Ne.symm other]
      refine ⟨seat', found', ?_⟩
      rw [Option.toList_some, none]
      rfl

/-- The dispatcher of a reactor is what all that was served made of it, and nothing else
was run. -/
theorem History.served (history : History w₀ w ds) (started : Started w₀) (going : w.Going)
    {i : Nat} {seat : Seat σ} (found : w.seat? i = some seat) :
    ∃ seat₀, w₀.seat? i = some seat₀
      ∧ seat.reactor.dispatcher = (servedBy i ds).foldl Dispatcher.serve seat₀.reactor.dispatcher := by
  induction history generalizing seat with
  | start => exact ⟨seat, found, rfl⟩
  | @step w w' d ds before room does ih =>
    have sound := (before.reachable started.toFresh).sound
    have going := does.step.going room sound going
    obtain ⟨seat₁, found₁, last⟩ := does.dispatcher sound (before.accounted started going) found
    obtain ⟨seat₀, found₀, first⟩ := ih going found₁
    refine ⟨seat₀, found₀, ?_⟩
    rw [last, first, servedBy_append, List.foldl_append]

end World

end PartitionEngine
