import PartitionEngine.Proofs.Reaching

/-!
# Calls are all or nothing

Whether a call is rejected is decided by what stands in its way before anything is done for
it (`Engine.obstacles`).  A call that is rejected leaves a future behind that has failed, and
nothing else.  One that is not draws one id and hands its task to one reactor
(`Engine.Accepted`).

No call fails after it has been given a link.  Its reactor is alive, so it takes both the
task to connect and the task of the call (`Shared.acquire_spec`, `Engine.send_spec`,
`Engine.call_spec`).
-/

namespace PartitionEngine

/-! ## Links that are asked for -/

namespace Shared

variable {σ : Type} {s s' : Shared σ} {l : Link}

/-- A task that is handed over changes the queue of one reactor, and nothing else of what
calls look at. -/
theorem submit_spec {i : Nat} (alive : s.isAlive i = true) (thread : ThreadId) (task : Task) :
    ∃ s', s.submit thread i task = (.ok (), s') ∧ s'.links = s.links ∧ s'.config = s.config
      ∧ s'.invocations = s.invocations ∧ (∀ j, s'.isAlive j = s.isAlive j)
      ∧ ∀ j, s'.queued j = s.queued j ++ if i = j then [task] else [] := by
  obtain ⟨s', handed⟩ := submit_of_alive alive thread task
  have links := s.links_submit thread i task
  have invocations := s.invocations_submit thread i task
  rw [handed] at links invocations
  have passes := passes_submit_ok handed
  exact ⟨s', handed, links, passes.config, invocations, passes.alive, queued_submit_ok handed⟩

/-- A link is asked for if it is idle. -/
theorem acquire_spec (alive : s.isAlive l.index = true) (thread : ThreadId) :
    ∃ s', s.acquire thread l = (.ok (), s') ∧ s'.config = s.config
      ∧ s'.invocations = s.invocations ∧ (∀ j, s'.isAlive j = s.isAlive j)
      ∧ (∀ j, s'.queued j = s.queued j
        ++ if l.index = j ∧ s.links.state l = .idle then [.connect l] else [])
      ∧ (s.links.Has l → s'.links.state l
        = if s.links.state l = .idle then .connecting else s.links.state l)
      ∧ ∀ l', ¬ (l'.peer = l.peer ∧ l'.index = l.index) →
        s'.links.record l' = s.links.record l' := by
  obtain ⟨s', idle, submitted, same⟩ | ⟨busy, same⟩ | ⟨dead, -⟩ := s.acquire_cases thread l
  · obtain ⟨s'', handed, -, config, invocations, living, queued⟩ :=
      submit_spec alive thread (.connect l)
    cases submitted.symm.trans handed
    refine ⟨_, same, config, invocations, living, fun j => ?_, fun has => ?_, fun l' apart => ?_⟩
    · simp only [idle, and_true]
      exact queued j
    · rw [if_pos idle]
      exact congrArg LinkRecord.state (Links.record_modify_self has _)
    · exact Links.record_modify_of_ne apart _
  · exact ⟨s, same, rfl, rfl, fun _ => rfl, by simp [busy], by simp [busy], fun _ _ => rfl⟩
  · cases alive.symm.trans dead

theorem lt_of_isAlive {i : Nat} (alive : s.isAlive i = true) : i < s.reactors.length := by
  by_contra outside
  have none : s.reactor? i = none := List.getElem?_eq_none (Nat.le_of_not_lt outside)
  rw [isAlive, none] at alive
  cases alive

end Shared

namespace InvocationTable

variable {t : InvocationTable} {peer : Address}

/-- An id is drawn, and nothing else is seen of it. -/
theorem nextId_spec (t : InvocationTable) (peer : Address) :
    (t.nextId peer).2.lastId peer = t.lastId peer + 1
      ∧ (∀ k, k ≠ peer → (t.nextId peer).2.peers.get? k = t.peers.get? k)
      ∧ ∀ k id i, (t.nextId peer).2.Waits k id i ↔ t.Waits k id i := by
  refine ⟨?_, fun k other => ?_, fun k id i => ?_⟩
  · simp only [lastId, nextId, Assoc.get?_insert, if_true, Option.getD_some]
  · simp only [nextId, Assoc.get?_insert, if_neg other]
  · rw [waits_insert_iff rfl]
    split
    · rename_i same
      subst same
      exact (waits_iff_getD t k id i).symm
    · rfl

/-- A call that waits, waits under the id that is drawn for it, with a future of its own. -/
theorem register_spec (m : t.Minded) (peer : Address) (p : Partition) (reactor : Nat) :
    let id := t.lastId peer + 1
    let k := t.futures.size
    let t' := (t.register peer p reactor).2.2
    (t.register peer p reactor).1 = id ∧ (t.register peer p reactor).2.1 = k
      ∧ t'.lastId peer = id ∧ (∀ k, k ≠ peer → t'.peers.get? k = t.peers.get? k)
      ∧ t'.standing k = some none
      ∧ ∀ peer' id' i, t'.Waits peer' id' i ↔
        if peer' = peer ∧ id' = id then i = ⟨id, p, reactor, k⟩ else t.Waits peer' id' i := by
  intro id k t'
  have drawn := (settles_nextId t peer).minded m
  obtain ⟨-, others, same⟩ := t.nextId_spec peer
  have enters : Enters peer id ⟨id, p, reactor, k⟩ (t.nextId peer).2 t' :=
    ⟨rfl, ⟨{ correlationId := id }, rfl, by rw [find?_eq]; rfl⟩, rfl⟩
  have waits (peer' : Address) (id' : UInt64) (i : Invocation) : t'.Waits peer' id' i ↔
      if peer' = peer ∧ id' = id then i = ⟨id, p, reactor, k⟩ else t.Waits peer' id' i := by
    rw [enters.waits_iff, same]
  refine ⟨rfl, rfl, ?_, fun peer' other => ?_, ?_, waits⟩
  · rw [lastId, enters.peers, Assoc.get?_insert, if_pos rfl]
    simp only [nextId, Assoc.get?_insert, if_true, Option.getD_some]
    rfl
  · rw [enters.peers, Assoc.get?_insert, if_neg other, others peer' other]
  · exact enters.undone drawn ((waits peer id ⟨id, p, reactor, k⟩).mpr (by rw [if_pos ⟨rfl, rfl⟩]))

end InvocationTable

/-! ## Calls that are accepted -/

namespace Engine

variable {σ : Type} {s s' s'' : Shared σ} {owner : Address} {index : Nat} {r : Request}

/-- The id that the task of a call carries, if somebody waits for its answer. -/
def answerId (r : Request) (id : UInt64) : Option UInt64 :=
  if isFireAndForget r.opcode then none else some id

/-- A call to a member was accepted.  It draws one id of that member and queues some tasks
on one reactor.  Its future is pending, and waits for that id; or it is done, and nobody
waits. -/
structure Accepted (s : Shared σ) (r : Request) (owner : Address) (index : Nat)
    (tasks : UInt64 → List Task) (handed : Handed) (s' : Shared σ) : Prop where
  id : handed.1 = s.invocations.lastId owner + 1
  future : handed.2 = s.invocations.futures.size
  drawn : s'.invocations.lastId owner = handed.1
  others : ∀ peer, peer ≠ owner → s'.invocations.peers.get? peer = s.invocations.peers.get? peer
  queues : ∀ j, s'.queued j = s.queued j ++ if index = j then tasks handed.1 else []
  forgotten : isFireAndForget r.opcode = true →
    s'.invocations.standing handed.2 = some (some (.ok []))
    ∧ ∀ peer id i, s'.invocations.Waits peer id i ↔ s.invocations.Waits peer id i
  awaited : isFireAndForget r.opcode = false →
    s'.invocations.standing handed.2 = some none
    ∧ ∀ peer id i, s'.invocations.Waits peer id i ↔
      if peer = owner ∧ id = handed.1 then i = ⟨handed.1, r.partition, index, handed.2⟩
      else s.invocations.Waits peer id i

/-- Tasks that were queued before the call drew its id. -/
theorem Accepted.after {tasks tasks' : UInt64 → List Task} {first : List Task} {handed : Handed}
    (h : Accepted s' r owner index tasks handed s'')
    (invocations : s'.invocations = s.invocations)
    (queued : ∀ j, s'.queued j = s.queued j ++ if index = j then first else [])
    (both : ∀ id, tasks' id = first ++ tasks id) : Accepted s r owner index tasks' handed s'' where
  id := invocations ▸ h.id
  future := invocations ▸ h.future
  drawn := h.drawn
  others := invocations ▸ h.others
  queues j := by
    rw [h.queues, queued, both, List.append_assoc]
    split <;> simp
  forgotten := invocations ▸ h.forgotten
  awaited := invocations ▸ h.awaited

/-- A call that nobody waits for. -/
theorem accepted_send (alive : s.isAlive index = true) (forgets : isFireAndForget r.opcode = true)
    (task : UInt64 → Task) :
    Accepted s r owner index (fun id => [task id]) (send s owner index task).1
      (send s owner index task).2 := by
  obtain ⟨s', submitted, -, -, invocations, -, queued⟩ := Shared.submit_spec
    (s := { s with invocations := (s.invocations.nextId owner).2 }) alive callerThread
    (task (s.invocations.nextId owner).1)
  obtain ⟨drawn, others, waits⟩ := s.invocations.nextId_spec owner
  simp only [send, submitted, handOut, invocations]
  refine ⟨rfl, rfl, drawn, others, queued, fun _ => ⟨?_, waits⟩, fun answered => ?_⟩
  · exact (InvocationTable.standing_addFuture ..).trans (if_pos rfl)
  · cases forgets.symm.trans answered

/-- A call whose answer somebody waits for. -/
theorem accepted_call (minded : s.invocations.Minded) (alive : s.isAlive index = true)
    (answered : isFireAndForget r.opcode = false) (task : UInt64 → Task) :
    Accepted s r owner index (fun id => [task id]) (call s owner r.partition index task).1
      (call s owner r.partition index task).2 := by
  obtain ⟨s', submitted, -, -, invocations, -, queued⟩ := Shared.submit_spec
    (s := { s with invocations := (s.invocations.register owner r.partition index).2.2 }) alive
    callerThread (task (s.invocations.register owner r.partition index).1)
  obtain ⟨id, future, drawn, others, pending, waits⟩ :=
    InvocationTable.register_spec minded owner r.partition index
  simp only [call, submitted]
  refine ⟨id, future, ?_, ?_, queued, fun forgotten => ?_, fun _ => ⟨?_, ?_⟩⟩
  · rw [invocations, id]
    exact drawn
  · rw [invocations]
    exact others
  · cases answered.symm.trans forgotten
  · rw [invocations, future]
    exact pending
  · rw [invocations, id, future]
    exact waits

theorem accepted_invokeLocal (minded : s.invocations.Minded) (alive : s.isAlive index = true)
    (owner : Address) (r : Request) :
    Accepted s r owner index (fun id => [.execute r (answerId r id)])
        (invokeLocal s owner index r).1 (invokeLocal s owner index r).2
      ∧ (invokeLocal s owner index r).2.links = s.links := by
  refine ⟨?_, links_invokeLocal s owner index r⟩
  simp only [invokeLocal, answerId]
  split
  · rename_i forgets
    simpa only [forgets, if_true] using accepted_send alive forgets _
  · rename_i answered
    simpa only [answered] using accepted_call minded alive (by simpa using answered) _

/-- What is queued to send a request over a link. -/
def linkTasks (s : Shared σ) (l : Link) (r : Request) (id : UInt64) : List Task :=
  (if s.links.state l = .idle then [.connect l] else [])
    ++ [.write l (s.encodeRequest id r) (answerId r id)]

theorem accepted_invokeRemote (minded : s.invocations.Minded) (alive : s.isAlive index = true)
    (complete : s.links.Complete) (inside : index < s.links.reactorCount)
    (reachable : s.links.unreachableIndex? owner = none) (r : Request) :
    ∃ l : Link, l.peer = owner ∧ l.index = index
      ∧ owner.reactorEndpoint? index = some l.endpoint
      ∧ Accepted s r owner index (linkTasks s l r) (invokeRemote s owner index r).1
        (invokeRemote s owner index r).2
      ∧ (invokeRemote s owner index r).2.links.state l
        = (if s.links.state l = .idle then .connecting else s.links.state l)
      ∧ ∀ l', ¬ (l'.peer = owner ∧ l'.index = index) →
        (invokeRemote s owner index r).2.links.record l' = s.links.record l' := by
  obtain ⟨l, links, made, rfl, rfl, endpoint, has, same⟩ :=
    Links.link_of_reachable complete reachable inside
  have state : links.state l = s.links.state l := congrArg LinkRecord.state (same l)
  obtain ⟨s', acquired, config, invocations, living, queued, now, others⟩ :=
    Shared.acquire_spec (s := { s with links }) (l := l) alive callerThread
  have now := now has
  simp only [state] at queued now
  have alive' : s'.isAlive l.index = true := (living l.index).trans alive
  have minded' : s'.invocations.Minded := by
    rw [invocations]
    exact minded
  have encode (id : UInt64) : s'.encodeRequest id r = s.encodeRequest id r := by
    simp only [Shared.encodeRequest, config]
  have first (j : Nat) : s'.queued j = s.queued j
      ++ if l.index = j then (if s.links.state l = .idle then [.connect l] else []) else [] := by
    refine (queued j).trans (congrArg (s.queued j ++ ·) ?_)
    by_cases here : l.index = j
    · simp [here]
    · simp [here]
  refine ⟨l, rfl, rfl, endpoint, ?_⟩
  simp only [invokeRemote, made, acquired]
  split
  · rename_i forgets
    have sent : Accepted s' r l.peer l.index _ _ _ :=
      accepted_send alive' forgets fun id => .write l (s'.encodeRequest id r) none
    rw [links_send]
    refine ⟨sent.after invocations first fun id => ?_, now, fun l' apart => ?_⟩
    · simp only [linkTasks, answerId, forgets, if_true, encode]
    · exact (others l' apart).trans (same l')
  · rename_i answered
    have sent : Accepted s' r l.peer l.index _ _ _ := accepted_call minded' alive'
      (by simpa using answered) fun id => .write l (s'.encodeRequest id r) (some id)
    rw [links_call]
    refine ⟨sent.after invocations first fun id => ?_, now, fun l' apart => ?_⟩
    · simp only [linkTasks, answerId, answered, encode]
      rfl
    · exact (others l' apart).trans (same l')

/-! ## What stands in the way -/

/-- Why a call cannot be routed, the first reason first. -/
def hindrances (s : Shared σ) (r : Request) : List Failure :=
  let index := s.reactorOf r.partition
  [ (s.shuttingDown, .shuttingDown),
    (s.localAddress.isNone, .notStarted),
    (decide (r.partition < 0), .invalidPartition r.partition),
    ((s.ownership.owner? r.partition).isNone, .noOwner r.partition),
    (!s.isAlive index, .reactorUnavailable index),
    (decide (s.config.maxMessageSize < r.payload.length),
      .protocol ("payload of " ++ toString r.payload.length ++ " bytes exceeds max message size "
        ++ toString s.config.maxMessageSize)) ].filterMap
    fun (holds, failure) => if holds then some failure else none

/-- Why no link leads to the owner of the partition, if it is another member that is not
known. -/
def unreachable? (s : Shared σ) (r : Request) : Option Failure :=
  match s.ownership.owner? r.partition with
  | none => none
  | some owner =>
    if s.localAddress = some owner ∨ (s.links.peers.get? owner).isSome then none
    else (s.links.unreachableIndex? owner).map fun i =>
      .config ("no port for reactor " ++ toString i ++ " of " ++ owner.text)

/-- What stands in the way of a call, in the order in which it is told. -/
def obstacles (s : Shared σ) (r : Request) : List Failure :=
  hindrances s r ++ (unreachable? s r).toList

/-- A call is routed to the reactor of its partition if nothing hinders it. -/
theorem route_eq (s : Shared σ) (r : Request) :
    match hindrances s r with
    | failure :: _ => route s r = .error failure
    | [] => ∃ here owner, route s r = .ok (here, owner, s.reactorOf r.partition) := by
  simp only [hindrances, route]
  cases s.shuttingDown with
  | true => simp
  | false =>
    cases s.localAddress with
    | none => simp
    | some here =>
      by_cases negative : r.partition < 0
      · simp [negative]
      · cases s.ownership.owner? r.partition with
        | none => simp [negative]
        | some owner =>
          cases s.isAlive (s.reactorOf r.partition) with
          | false => simp [negative]
          | true =>
            by_cases large : s.config.maxMessageSize < r.payload.length
            · simp [negative, large]
            · simp [negative, large]

/-- A call for which no link can be made is rejected without a trace of the attempt. -/
theorem invokeRemote_of_unreachable (index : Nat) {here : Address} {failure : Failure}
    (started : s.localAddress = some here) (owns : s.ownership.owner? r.partition = some owner)
    (blocked : unreachable? s r = some failure) :
    owner ≠ here ∧ invokeRemote s owner index r = reject s failure := by
  simp only [unreachable?, owns, started] at blocked
  split at blocked
  · cases blocked
  · rename_i apart
    simp only [Option.some.injEq, not_or, Bool.not_eq_true] at apart
    obtain ⟨i, missing, rfl⟩ := Option.map_eq_some_iff.mp blocked
    refine ⟨Ne.symm apart.1, ?_⟩
    rw [invokeRemote, Links.link_of_unreachable apart.2 missing]

/-- The owner of the partition of a call that nothing stands in the way of can be reached. -/
theorem reachable_of_clear {here : Address} (complete : s.links.Complete)
    (started : s.localAddress = some here) (owns : s.ownership.owner? r.partition = some owner)
    (clear : unreachable? s r = none) (other : owner ≠ here) :
    s.links.unreachableIndex? owner = none := by
  simp only [unreachable?, owns, started] at clear
  split at clear
  · rename_i free
    rcases free with same | known
    · exact absurd (Option.some.inj same).symm other
    · exact complete.reachable owner known
  · exact Option.map_eq_none_iff.mp clear

/-- A call is rejected for the first thing that stands in its way. -/
theorem invoke_of_obstacle {e : Engine σ} {failure : Failure} {rest : List Failure}
    (first : obstacles e.shared r = failure :: rest) :
    e.invoke r = ((0, e.shared.invocations.futures.size),
      { e with shared := { e.shared with
        invocations := (e.shared.invocations.addFuture (.failed failure)).2 } }) := by
  have decided := route_eq e.shared r
  cases hindered : hindrances e.shared r with
  | cons failure' others =>
    rw [hindered] at decided
    rw [obstacles, hindered] at first
    cases first
    exact invoke_of_route_error decided
  | nil =>
    -- it is routed, and then there is no link
    rw [hindered] at decided
    obtain ⟨here, owner, decided⟩ := decided
    have routed := routed_of_route decided
    have blocked : unreachable? e.shared r = some failure := by
      rw [obstacles, hindered, List.nil_append] at first
      cases blocked : unreachable? e.shared r with
      | none => simp [blocked] at first
      | some failure' =>
        rw [blocked] at first
        exact congrArg some (List.cons.inj first).1
    obtain ⟨other, refused⟩ := invokeRemote_of_unreachable (e.shared.reactorOf r.partition)
      routed.started routed.owns blocked
    simp only [invoke, decided, if_neg other, refused]
    rfl

/-- A call that nothing stands in the way of is routed, and its owner can be reached. -/
theorem route_of_clear (complete : s.links.Complete) (clear : obstacles s r = []) :
    ∃ here owner, route s r = .ok (here, owner, s.reactorOf r.partition)
      ∧ (owner ≠ here → s.links.unreachableIndex? owner = none) := by
  rw [obstacles, List.append_eq_nil_iff] at clear
  obtain ⟨unhindered, free⟩ := clear
  have decided := route_eq s r
  rw [unhindered] at decided
  obtain ⟨here, owner, decided⟩ := decided
  have routed := routed_of_route decided
  exact ⟨here, owner, decided, reachable_of_clear complete routed.started routed.owns
    (Option.toList_eq_nil_iff.mp free)⟩

end Engine

namespace World

variable {σ : Type} {w : World σ}

/-- Whatever happened to an engine, a call is rejected for the first thing that stands in its
way, and then all that is left of it is a future that has failed.  If nothing does, it draws
one id of the owner, and queues one task to be run here, or one task to be sent to the owner,
after one to connect if the link is idle. -/
theorem all_or_nothing {host₀ host : Host} {config : Config} {registry : Registry σ}
    {e : Engine σ} (made : Engine.new host₀ config registry = .ok e)
    (life : Life (ofEngine host e) w) (r : Request) :
    let s := w.engine.shared
    let index := s.reactorOf r.partition
    let done := w.engine.invoke r
    (∀ failure rest, Engine.obstacles s r = failure :: rest →
      done = ((0, s.invocations.futures.size), { w.engine with shared :=
        { s with invocations := (s.invocations.addFuture (.failed failure)).2 } })
      ∧ done.2.shared.invocations.peers = s.invocations.peers
      ∧ done.2.shared.invocations.standing done.1.2 = some (some (.error failure)))
    ∧ (Engine.obstacles s r = [] → done.2.seats = w.engine.seats
      ∧ ∃ here owner, s.localAddress = some here ∧ s.ownership.owner? r.partition = some owner
      ∧ (owner = here →
        Engine.Accepted s r owner index (fun id => [.execute r (Engine.answerId r id)])
          done.1 done.2.shared
        ∧ done.2.shared.links = s.links)
      ∧ (owner ≠ here → ∃ l : Link, l.peer = owner ∧ l.index = index
        ∧ owner.reactorEndpoint? index = some l.endpoint
        ∧ Engine.Accepted s r owner index (Engine.linkTasks s l r) done.1 done.2.shared
        ∧ done.2.shared.links.state l
          = (if s.links.state l = .idle then .connecting else s.links.state l)
        ∧ ∀ l', ¬ (l'.peer = owner ∧ l'.index = index) →
          done.2.shared.links.record l' = s.links.record l')) := by
  intro s index done
  obtain ⟨complete, count⟩ := complete_of_life made life
  have minded : s.invocations.Minded := by
    obtain ⟨reactors, -, rfl⟩ := Engine.eq_of_new made
    exact (Life.retains life).minded InvocationTable.minded_empty
  constructor
  · intro failure rest first
    have rejected : done = _ := Engine.invoke_of_obstacle first
    rw [rejected]
    exact ⟨rfl, rfl, (InvocationTable.standing_addFuture ..).trans (if_pos rfl)⟩
  · intro clear
    obtain ⟨here, owner, decided, reachable⟩ := Engine.route_of_clear complete clear
    have routed := Engine.routed_of_route decided
    refine ⟨rfl, here, owner, routed.started, routed.owns, ?_, ?_⟩
    · rintro rfl
      simp only [done, Engine.invoke, s, decided, if_true]
      exact Engine.accepted_invokeLocal minded routed.alive owner r
    · intro other
      have inside : index < s.links.reactorCount := by
        rw [count]
        exact Shared.lt_of_isAlive routed.alive
      simp only [done, Engine.invoke, s, decided, if_neg other]
      exact Engine.accepted_invokeRemote minded routed.alive complete inside (reachable other) r

/-- A call to another member is queued behind the task to connect.  Before the engine is
started it is rejected. -/
theorem all_or_nothing_of_request :
    Engine.new {} { reactorCount := 1 } .builtin = .ok unstarted.engine
    ∧ Life unstarted entrusted ∧ Engine.obstacles entrusted.engine.shared request = []
    ∧ (entrusted.engine.invoke request).2.shared.invocations.standing 0 = some none
    ∧ Engine.obstacles unstarted.engine.shared request = [.notStarted, .noOwner request.partition]
    ∧ (unstarted.engine.invoke request).2.shared.invocations.standing 0
      = some (some (.error .notStarted)) := by
  have made : Engine.new {} { reactorCount := 1 } .builtin = .ok unstarted.engine := rfl
  have started : Life unstarted entrusted :=
    .tail (.single (.launch _ {} _ _ rfl rfl rfl)) (.step (.change _ {} (.allTo away)))
  have clear : Engine.obstacles entrusted.engine.shared request = [] := by decide
  have blocked : Engine.obstacles unstarted.engine.shared request
      = [.notStarted, .noOwner request.partition] := by decide
  obtain ⟨-, here, owner, address, owns, -, remote⟩ := (all_or_nothing made started request).2 clear
  obtain ⟨l, -, -, -, accepted, -⟩ := remote (by cases address; cases owns; decide)
  obtain ⟨-, -, failed⟩ := (all_or_nothing made .refl request).1 _ _ blocked
  exact ⟨made, started, clear, (accepted.awaited rfl).1, blocked, failed⟩

end World

end PartitionEngine
