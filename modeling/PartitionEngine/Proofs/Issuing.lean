import PartitionEngine.Proofs.Answers
import PartitionEngine.Proofs.Conveying
import PartitionEngine.Proofs.Works

/-!
# Requests on their way to a channel

The frames of a request wait in the queue of a reactor, in the task of its call.  A call
that is sent over a link adds them behind those that wait for the same endpoint, and
every other call adds nothing (`Engine.outgoing_invoke`).  What reactors hand to each
other is not sent over a link, so whatever they do, what waits stays as it is
(`Turn.Works.outgoing`).  Only the reactor itself takes it off, the oldest first
(`Turn.Took.outgoing`).
-/

namespace PartitionEngine

namespace Shared

variable {σ : Type} {s s' : Shared σ} {thread : ThreadId} {i j : Nat} {task : Task} {e : Endpoint}

/-- The frames that wait in the queue of a reactor to be sent to an endpoint, those of
the oldest request first. -/
def outgoing (s : Shared σ) (i : Nat) (e : Endpoint) : List Bytes :=
  (s.queued i).filterMap (Task.bytesTo? e)

theorem outgoing_of_reactors (same : s'.reactors = s.reactors) (i : Nat) (e : Endpoint) :
    s'.outgoing i e = s.outgoing i e := by
  rw [outgoing, queued, reactor?, same, outgoing, queued, reactor?]

/-- A handle changes, but no task of it. -/
theorem outgoing_modifyReactor {f : ReactorHandle → ReactorHandle}
    (keep : ∀ r, s.reactor? i = some r → (f r).queue.tasks = r.queue.tasks) (j : Nat)
    (e : Endpoint) : (s.modifyReactor i f).outgoing j e = s.outgoing j e := by
  rw [outgoing, queued_modifyReactor_of_tasks keep, outgoing]

/-- A task that is not sent to the endpoint. -/
theorem outgoing_submit (s : Shared σ) (thread : ThreadId) (i j : Nat)
    (other : task.bytesTo? e = none) : (s.submit thread i task).2.outgoing j e = s.outgoing j e := by
  cases submitted : s.submit thread i task with
  | mk result s' =>
    cases result with
    | error failure => rw [eq_of_submit_error submitted]
    | ok =>
      rw [outgoing, queued_submit_ok submitted, List.filterMap_append, outgoing]
      split <;> simp [other]

/-- Only a dead reactor refuses a task. -/
theorem submit_of_alive (alive : s.isAlive i = true) (thread : ThreadId) (task : Task) :
    ∃ s', s.submit thread i task = (.ok (), s') := by
  obtain ⟨r, -, -, taken⟩ | ⟨dead, -⟩ := s.submit_cases thread i task
  · exact ⟨_, taken⟩
  · cases alive.symm.trans dead

/-- A link to whose reactor tasks can be handed is acquired, and nothing is sent over it. -/
theorem acquire_of_alive {l : Link} (alive : s.isAlive l.index = true) (thread : ThreadId) :
    ∃ s', s.acquire thread l = (.ok (), s') ∧ ∀ j e, s'.outgoing j e = s.outgoing j e := by
  obtain ⟨s', -, submitted, same⟩ | ⟨-, same⟩ | ⟨dead, -⟩ := s.acquire_cases thread l
  · refine ⟨_, same, fun j e => (outgoing_of_reactors rfl j e).trans ?_⟩
    have kept : (s.submit thread l.index (.connect l)).2.outgoing j e = s.outgoing j e :=
      s.outgoing_submit thread l.index j rfl
    rw [submitted] at kept
    exact kept
  · exact ⟨s, same, fun _ _ => rfl⟩
  · cases alive.symm.trans dead

/-- Answers are not sent over links. -/
theorem outgoing_followRefusals (thread : ThreadId) (index : Nat) (left : List Task)
    (s : Shared σ) (j : Nat) (e : Endpoint) :
    (s.followRefusals thread index left).2.outgoing j e = s.outgoing j e := by
  induction left generalizing s with
  | nil => rfl
  | cons task rest ih =>
    simp only [followRefusals, ih]
    cases task with
    | forward f replyTo =>
      simp only [followRefusal]
      split
      · rfl
      · have handed : (s.submit thread replyTo.reactor (.reply replyTo (s.encodeResponse f.opcode
            f.correlationId f.partition (.error (unavailable index))).1)).2.outgoing j e
              = s.outgoing j e := s.outgoing_submit thread replyTo.reactor j rfl
        split
        all_goals
          rename_i submitted
          rw [submitted] at handed
          exact handed
    | execute | connect | write | reply | stop => rfl

end Shared

/-! ## Reactors -/

namespace Turn

variable {σ : Type} {may : Scope} {key : SlotKey} {t t' : Turn σ} {i : Nat} {task : Task}

/-- What is passed on to another reactor is not sent over a link. -/
theorem bytesTo?_of_isRelay (relay : task.isRelay = true) (e : Endpoint) :
    task.bytesTo? e = none := by
  cases task with
  | forward | reply => rfl
  | execute | connect | write | stop => cases relay

theorem outgoing_count (t : Turn σ) (f : ReactorStats → ReactorStats) (j : Nat) (e : Endpoint) :
    (t.count f).shared.outgoing j e = t.shared.outgoing j e :=
  Shared.outgoing_modifyReactor (f := fun r => r.count f) (fun _ _ => rfl) j e

theorem Act.outgoing (act : Act may key t t') (j : Nat) (e : Endpoint) :
    t'.shared.outgoing j e = t.shared.outgoing j e := by
  cases act with
  | host | dispatch | mark => rfl
  | tune | submit | submitPlain | cancel | cancelPlain | flag => rfl
  | count f => exact outgoing_count t f j e
  | hand index task relay =>
    exact t.shared.outgoing_submit t.reactor.thread index j (bytesTo?_of_isRelay relay e)
  | complete | markOpen => exact Shared.outgoing_of_reactors rfl j e
  | shut c cause found live =>
    have closed := outgoing_count t (fun s => { s with closed := s.closed + 1 }) j e
    rw [shut_eq]
    exact (Shared.outgoing_of_reactors rfl j e).trans closed
  | release => rw [releaseIfDone_eq]

theorem Work.outgoing (work : Work may t t') (j : Nat) (e : Endpoint) :
    t'.shared.outgoing j e = t.shared.outgoing j e := by
  cases work with
  | act key act => exact act.outgoing j e
  | accept | windDown => rfl
  | make l =>
    refine (outgoing_count _ (fun s => { s with connects := s.connects + 1 }) j e).trans ?_
    exact Shared.outgoing_of_reactors rfl j e

/-- Whatever a reactor does leaves what is to be sent over links as it is. -/
theorem Works.outgoing (works : Works may t t') (j : Nat) (e : Endpoint) :
    t'.shared.outgoing j e = t.shared.outgoing j e := by
  induction works with
  | refl => rfl
  | tail _ work ih => exact (work.outgoing j e).trans ih

/-- A reactor that ends answers what is left in its queue, and sends nothing. -/
theorem outgoing_finish (t : Turn σ) {j : Nat} (other : j ≠ t.reactor.index) (e : Endpoint) :
    t.finish.shared.outgoing j e = t.shared.outgoing j e := by
  rw [Shared.outgoing_of_reactors (reactors_finish t).1, Shared.outgoing_followRefusals,
    Shared.outgoing, Shared.queued_bury, if_neg other, Shared.outgoing]

theorem Took.fit {K : Link → Prop} (took : Took i task t t') (fit : t.Fit K) : t'.Fit K :=
  fit.of_reactor (by rw [took.reactor]) (by rw [took.reactor])

/-- The oldest task is taken off the queue. -/
theorem Took.outgoing (took : Took i task t t') (e : Endpoint) :
    t.shared.outgoing i e = (task.bytesTo? e).toList ++ t'.shared.outgoing i e
      ∧ ∀ j, j ≠ i → t'.shared.outgoing j e = t.shared.outgoing j e := by
  refine ⟨?_, fun j other => by rw [Shared.outgoing, took.others j other, Shared.outgoing]⟩
  rw [Shared.outgoing, took.own, Shared.outgoing]
  cases bytes : task.bytesTo? e with
  | none => rw [List.filterMap_cons_none bytes]; rfl
  | some => rw [List.filterMap_cons_some bytes]; rfl

end Turn

/-! ## Calls -/

namespace Engine

variable {σ : Type} {s : Shared σ} {peer : Address} {index : Nat} {r : Request}

/-- The task of a call that nobody waits for is the newest in the queue of its reactor. -/
theorem queued_send (alive : s.isAlive index = true) (task : UInt64 → Task) (j : Nat) :
    (send s peer index task).2.queued j
      = s.queued j ++ if index = j then [task (send s peer index task).1.1] else [] := by
  obtain ⟨s', handed⟩ := Shared.submit_of_alive
    (s := { s with invocations := (s.invocations.nextId peer).2 }) alive callerThread
    (task (s.invocations.nextId peer).1)
  simp only [send, handed]
  exact Shared.queued_submit_ok handed j

theorem queued_call (alive : s.isAlive index = true) (p : Partition) (task : UInt64 → Task)
    (j : Nat) : (call s peer p index task).2.queued j
      = s.queued j ++ if index = j then [task (call s peer p index task).1.1] else [] := by
  obtain ⟨s', handed⟩ := Shared.submit_of_alive
    (s := { s with invocations := (s.invocations.register peer p index).2.2 }) alive callerThread
    (task (s.invocations.register peer p index).1)
  simp only [call, handed]
  exact Shared.queued_submit_ok handed j

/-- The link that a call is sent over, if it is. -/
def linkOf? (s : Shared σ) (r : Request) : Option Link :=
  match route s r with
  | .error _ => none
  | .ok (localAddress, owner, index) =>
    if owner = localAddress then none else (s.links.link owner index).1.toOption

/-- The request that a call sends to an endpoint from a reactor, if it does. -/
def issued (e : Engine σ) (r : Request) (i : Nat) (endpoint : Endpoint) : List Frame :=
  match linkOf? e.shared r with
  | some l =>
    if l.index = i ∧ l.endpoint = endpoint then
      [.request r.opcode (e.invoke r).1.1 r.partition r.payload]
    else []
  | none => []

theorem outgoing_of_queued {s' : Shared σ} {task : Task} {j : Nat}
    (queued : s'.queued j = s.queued j ++ if index = j then [task] else []) (e : Endpoint) :
    s'.outgoing j e
      = s.outgoing j e ++ if index = j then (task.bytesTo? e).toList else [] := by
  rw [Shared.outgoing, queued, List.filterMap_append, Shared.outgoing]
  congr 1
  split
  · cases bytes : task.bytesTo? e <;> simp [bytes]
  · rfl

/-- A call that is run here sends nothing. -/
theorem outgoing_invokeLocal (alive : s.isAlive index = true) (peer : Address) (r : Request)
    (j : Nat) (e : Endpoint) : (invokeLocal s peer index r).2.outgoing j e = s.outgoing j e := by
  simp only [invokeLocal]
  split
  · rw [outgoing_of_queued (queued_send alive _ j)]
    simp [Task.bytesTo?]
  · rw [outgoing_of_queued (queued_call alive _ _ j)]
    simp [Task.bytesTo?]

/-- A call that is sent over a link adds its frames. -/
theorem outgoing_invokeRemote {l : Link} {links : Links} (alive : s.isAlive index = true)
    (made : s.links.link peer index = (.ok l, links)) (r : Request) (j : Nat) (e : Endpoint) :
    (invokeRemote s peer index r).2.outgoing j e = s.outgoing j e
      ++ if l.index = j ∧ l.endpoint = e then
          [s.encodeRequest (invokeRemote s peer index r).1.1 r] else [] := by
  obtain ⟨-, leads⟩ := Links.link_spec made
  obtain ⟨rfl, rfl, endpoint, -⟩ := leads l rfl
  obtain ⟨s', acquired, same⟩ := Shared.acquire_of_alive (s := { s with links }) alive callerThread
  have asks : Shared.Asks { s with links } ({ s with links }.acquire callerThread l).2 :=
    .acquire ⟨rfl, endpoint⟩ callerThread
  rw [acquired] at asks
  have alive' : s'.isAlive l.index = true := (asks.alive l.index).trans alive
  have encode (id : UInt64) : s'.encodeRequest id r = s.encodeRequest id r :=
    asks.toKeeps.encodeRequest id r
  have before : s'.outgoing j e = s.outgoing j e :=
    (same j e).trans (Shared.outgoing_of_reactors rfl j e)
  simp only [invokeRemote, made, acquired]
  split
  · rw [outgoing_of_queued (queued_send alive' _ j), before]
    by_cases here : l.index = j <;> by_cases there : l.endpoint = e <;>
      simp [Task.bytesTo?, here, there, encode]
  · rw [outgoing_of_queued (queued_call alive' _ _ j), before]
    by_cases here : l.index = j <;> by_cases there : l.endpoint = e <;>
      simp [Task.bytesTo?, here, there, encode]

/-- A call that is sent over a link adds its request behind those that wait, and every
other call adds nothing. -/
theorem outgoing_invoke (e : Engine σ) (r : Request) (i : Nat) (endpoint : Endpoint) :
    (e.invoke r).2.shared.outgoing i endpoint = e.shared.outgoing i endpoint
      ++ (e.issued r i endpoint).map fun f =>
          f.encodeMessage e.shared.config.fragmentThreshold := by
  have rejected (s : Shared σ) (failure : Failure) :
      (reject s failure).2.outgoing i endpoint = s.outgoing i endpoint :=
    Shared.outgoing_of_reactors rfl i endpoint
  cases routed : route e.shared r with
  | error failure =>
    simp only [issued, linkOf?, invoke, routed, rejected]
    simp
  | ok target =>
    obtain ⟨localAddress, owner, index⟩ := target
    have alive : e.shared.isAlive index = true := (routed_of_route routed).alive
    by_cases here : owner = localAddress
    · simp only [issued, linkOf?, invoke, routed, here, if_true, outgoing_invokeLocal alive]
      simp
    · simp only [issued, linkOf?, invoke, routed, here, if_false]
      cases made : e.shared.links.link owner index with
      | mk result links =>
        cases result with
        | error failure =>
          simp only [invokeRemote, made, rejected, Except.toOption, List.map_nil, List.append_nil]
          exact Shared.outgoing_of_reactors rfl i endpoint
        | ok l =>
          rw [outgoing_invokeRemote alive made]
          by_cases sent : l.index = i ∧ l.endpoint = endpoint
          · simp only [Except.toOption, if_pos sent, Shared.encodeRequest, List.map_cons,
              List.map_nil]
          · simp only [Except.toOption, if_neg sent, List.map_nil]

/-- A reactor that is told to stop has one more task, which is sent nowhere. -/
theorem outgoing_shutdown (e : Engine σ) (i : Nat) (endpoint : Endpoint) :
    e.shutdown.shared.outgoing i endpoint = e.shared.outgoing i endpoint := by
  obtain ⟨stops, queued, stop⟩ := e.queued_shutdown i
  have none : stops.filterMap (Task.bytesTo? endpoint) = [] :=
    List.filterMap_eq_nil_iff.mpr fun task mem => by rw [stop task mem]; rfl
  rw [Shared.outgoing, queued, List.filterMap_append, none, List.append_nil, Shared.outgoing]

end Engine

/-! ## Worlds -/

/-- What others than the reactors do, but for calls, sends nothing, and so does a reactor
that rests. -/
theorem World.Does.outgoing {σ : Type} {w w' : World σ} (does : Does w none w')
    (silent : w'.calls = w.calls) (i : Nat) (e : Endpoint) :
    w'.engine.shared.outgoing i e = w.engine.shared.outgoing i e := by
  cases does with
  | call r => exact absurd silent (List.cons_ne_self _ _)
  | shutdown => exact Engine.outgoing_shutdown _ i e
  | change host ownership => exact Shared.outgoing_of_reactors rfl i e
  | mark j f keep => exact Shared.outgoing_modifyReactor (fun r _ => keep r) i e
  | drive | wait | take => rfl
  | begin j seat =>
    have acts (key : SlotKey) : Turn.Acts .all key (w.turn seat) (w.turn seat).armWakeup.armAccept :=
      (Turn.acts_armWakeup _ key trivial).trans (Turn.acts_armAccept _ key trivial)
    exact (Turn.Works.of_forall acts).outgoing i e
  | signal j seat f found running idle keep => exact Shared.outgoing_modifyReactor keep i e

end PartitionEngine
