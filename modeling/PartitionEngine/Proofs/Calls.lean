import PartitionEngine.Proofs.Pending

/-!
# Calls

A call that waits has handed over the task that carries it: to run the request,
or to send its frames.  Whatever happens to a call on the way, an invocation that
waits after it waited before, or its task is queued (`Engine.accepts_invoke`).
-/

namespace PartitionEngine

namespace Shared

variable {σ : Type} {s s' s'' : Shared σ} {thread : ThreadId} {i : Nat} {task : Task}
  {peer : Address} {id : UInt64} {r : Request} {future : FutureId}

/-- A task completes or fails an invocation: it runs the request here, or it sends
its frames over a link to the peer. -/
def Carries (s : Shared σ) (peer : Address) (id : UInt64) (i : Nat) (r : Request) (task : Task) :
    Prop :=
  (s.localAddress = some peer ∧ task = .execute r (some id))
  ∨ ∃ l, l.peer = peer ∧ l.index = i ∧ task = .write l (s.encodeRequest id r) (some id)

theorem Keeps.encodeRequest (keeps : s.Keeps s') (id : UInt64) (r : Request) :
    s'.encodeRequest id r = s.encodeRequest id r := by
  simp only [Shared.encodeRequest]
  rw [keeps.config]

theorem Carries.keeps (h : s.Carries peer id i r task) (keeps : s.Keeps s') :
    s'.Carries peer id i r task := by
  rcases h with ⟨here, rfl⟩ | ⟨l, rfl, rfl, rfl⟩
  · exact .inl ⟨keeps.localAddress.trans here, rfl⟩
  · exact .inr ⟨l, rfl, rfl, by rw [keeps.encodeRequest]⟩

/-- The task of an invocation is queued on a reactor. -/
def Queues (s : Shared σ) (peer : Address) (id : UInt64) (i : Nat) (r : Request) : Prop :=
  ∃ task ∈ s.queued i, s.Carries peer id i r task

/-! ## Preparations -/

/-- What is done before an invocation waits. -/
structure Prepares (s s' : Shared σ) : Prop extends Onward s s' where
  known : s.LinksKnown → s'.LinksKnown
  waits : s.invocations.Shrinks s'.invocations

namespace Prepares

theorem refl (s : Shared σ) : s.Prepares s := ⟨.refl s, fun known => known, .refl _⟩

theorem trans (h : s.Prepares s') (h' : s'.Prepares s'') : s.Prepares s'' where
  toOnward := h.toOnward.trans h'.toOnward
  known known := h'.known (h.known known)
  waits := h.waits.trans h'.waits

theorem invocations (s : Shared σ) {invocations : InvocationTable}
    (waits : s.invocations.Shrinks invocations) : s.Prepares { s with invocations } where
  toOnward := .invocations s invocations
  known known i task l mem about :=
    (known i task l mem about).keeps (Onward.invocations s invocations).toKeeps
  waits := waits

theorem links (s : Shared σ) {links : Links} (peers : ∀ peer,
    (s.links.peers.get? peer).isSome = true → (links.peers.get? peer).isSome = true) :
    s.Prepares { s with links } where
  toOnward := ⟨⟨rfl, rfl, rfl, peers⟩, fun _ _ mem => mem⟩
  known known i task l mem about := (known i task l mem about).keeps ⟨rfl, rfl, rfl, peers⟩
  waits := .refl _

end Prepares

theorem invocations_submit (s : Shared σ) (thread : ThreadId) (i : Nat) (task : Task) :
    (s.submit thread i task).2.invocations = s.invocations := by
  rw [submit_eq]

theorem Prepares.submit (s : Shared σ) (thread : ThreadId) (i : Nat) (task : Task)
    (known : ∀ l, task.link? = some l → s.Knows i l) : s.Prepares (s.submit thread i task).2 where
  toOnward := .submit s thread i task
  known all j other l mem about := by
    refine Knows.keeps ?_ (Onward.submit s thread i task).toKeeps
    rcases mem_queued_submit s thread i task mem with mem | ⟨rfl, rfl⟩
    · exact all j other l mem about
    · exact known l about
  waits := invocations_submit s thread i task ▸ .refl _

theorem Prepares.acquire {l : Link} (s : Shared σ) (thread : ThreadId) (known : s.Knows l.index l) :
    s.Prepares (s.acquire thread l).2 := by
  obtain ⟨s', -, submitted, same⟩ | ⟨-, same⟩ | ⟨-, e, same⟩ := s.acquire_cases thread l
  · have asked := Prepares.submit s thread l.index (.connect l) fun l' about => by
      cases about
      exact known
    have links : s'.links = s.links := by
      have kept := s.links_submit thread l.index (.connect l)
      rwa [submitted] at kept
    rw [submitted] at asked
    rw [same]
    exact asked.trans (.links s' (links ▸ fun peer => Links.isSome_get?_modify _ l _ peer))
  · rw [same]
    exact .refl s
  · rw [same]
    exact .refl s

end Shared

namespace Links

theorem peers_addPeer {links links' : Links} {peer : Address}
    (added : links.addPeer peer = .ok links') :
    (links'.peers.get? peer).isSome = true
      ∧ ∀ p, (links.peers.get? p).isSome = true → (links'.peers.get? p).isSome = true := by
  simp only [addPeer] at added
  split at added
  · rename_i known
    cases added
    exact ⟨Assoc.contains_eq links.peers peer ▸ known, fun _ known => known⟩
  · split at added
    · cases added
    · cases added
      refine ⟨by simp [Assoc.get?_insert], fun p known => ?_⟩
      simp only [Assoc.get?_insert]
      split
      · rfl
      · exact known

/-- The link to a reactor of a peer leads where the peer says. -/
theorem link_spec {links links' : Links} {peer : Address} {index : Nat} {result : Except Failure Link}
    (made : links.link peer index = (result, links')) :
    (∀ p, (links.peers.get? p).isSome = true → (links'.peers.get? p).isSome = true)
      ∧ ∀ l, result = .ok l → l.peer = peer ∧ l.index = index
        ∧ peer.reactorEndpoint? index = some l.endpoint ∧ (links'.peers.get? peer).isSome = true := by
  simp only [link] at made
  split at made
  · cases made
    exact ⟨fun _ known => known, fun l result => by cases result⟩
  · rename_i added
    obtain ⟨known, grow⟩ := peers_addPeer added
    split at made
    · rename_i endpoint found
      cases made
      refine ⟨grow, ?_⟩
      intro l result
      cases result
      split at found
      · exact ⟨rfl, rfl, found, known⟩
      · cases found
    · cases made
      exact ⟨grow, fun l result => by cases result⟩

end Links

/-! ## Calls that wait -/

namespace Shared

variable {σ : Type} {s s' s'' : Shared σ} {r : Request} {future : FutureId}

/-- What a call does.  An invocation that waits after it waited before, or it has
the future of the call and its task is queued. -/
structure Accepts (r : Request) (future : FutureId) (s s' : Shared σ) : Prop extends
    Onward s s' where
  known : s.LinksKnown → s'.LinksKnown
  waits : ∀ peer id i, s'.invocations.Waits peer id i → s.invocations.Waits peer id i
    ∨ i.future = future ∧ s'.Queues peer id i.reactor r

theorem Prepares.accepts (h : s.Prepares s') : s.Accepts r future s' :=
  { h with waits := fun peer id i waits => .inl (h.waits peer id i waits) }

theorem Prepares.then_accepts (h : s.Prepares s') (h' : s'.Accepts r future s'') :
    s.Accepts r future s'' where
  toOnward := h.toOnward.trans h'.toOnward
  known known := h'.known (h.known known)
  waits peer id i waits := (h'.waits peer id i waits).imp_left (h.waits peer id i)

end Shared

namespace Engine

variable {σ : Type} {s : Shared σ} {peer : Address} {index : Nat} {r : Request}

theorem prepares_handOut (s : Shared σ) (f : InvocationFuture) : s.Prepares (handOut s f).2 :=
  .invocations s (.refl _)

theorem prepares_send (peer : Address) (index : Nat) (task : UInt64 → Task)
    (known : ∀ id l, (task id).link? = some l → s.Knows index l) :
    s.Prepares (send s peer index task).2 := by
  have drawn : s.Prepares { s with invocations := (s.invocations.nextId peer).2 } :=
    .invocations s (InvocationTable.shrinks_nextId _ peer)
  have handed := Shared.Prepares.submit _ callerThread index (task (s.invocations.nextId peer).1)
    fun l about => (known _ l about).keeps drawn.toKeeps
  simp only [send]
  split
  all_goals
    rename_i submitted
    rw [submitted] at handed
    exact (drawn.trans handed).trans (prepares_handOut _ _)

/-- A call whose task is refused does not wait, and any other has its task queued. -/
theorem accepts_call (peer : Address) (partition : Partition) (index : Nat) (task : UInt64 → Task)
    (known : ∀ id l, (task id).link? = some l → s.Knows index l)
    (carries : ∀ id, s.Carries peer id index r (task id)) :
    s.Accepts r (call s peer partition index task).1.2 (call s peer partition index task).2 := by
  have registered := Shared.Onward.invocations s (s.invocations.register peer partition index).2.2
  have handed := Shared.Prepares.submit _ callerThread index
    (task (s.invocations.register peer partition index).1)
    fun l about => (known _ l about).keeps registered.toKeeps
  have same := Shared.invocations_submit
    { s with invocations := (s.invocations.register peer partition index).2.2 } callerThread index
    (task (s.invocations.register peer partition index).1)
  simp only [call]
  split
  · rename_i s' submitted
    rw [submitted] at handed same
    have on := registered.trans handed.toOnward
    refine ⟨on, fun all => handed.known fun i task l mem about =>
      (all i task l mem about).keeps registered.toKeeps, ?_⟩
    intro k id i waits
    rw [same] at waits
    refine (InvocationTable.waits_register waits).imp_right ?_
    rintro ⟨rfl, rfl, future, rfl⟩
    refine ⟨future, _, ?_, (carries _).keeps on.toKeeps⟩
    simp [Shared.queued_submit_ok submitted]
  · rename_i e s' submitted
    rw [submitted] at handed same
    have on := registered.trans handed.toOnward
    refine ⟨on.trans (.invocations s' _), ?_, ?_⟩
    · intro all i task l mem about
      exact (handed.known (fun i task l mem about =>
        (all i task l mem about).keeps registered.toKeeps) i task l mem about).keeps
        (Shared.Onward.invocations s' _).toKeeps
    · intro k id i waits
      obtain ⟨waits, other⟩ := InvocationTable.waits_complete waits
      rw [same] at waits
      refine .inl ((InvocationTable.waits_register waits).resolve_right ?_)
      exact fun new => other ⟨new.1, new.2.1⟩

theorem accepts_invokeLocal (here : s.localAddress = some peer) (index : Nat) (r : Request) :
    s.Accepts r (invokeLocal s peer index r).1.2 (invokeLocal s peer index r).2 := by
  simp only [invokeLocal]
  split
  · exact (prepares_send peer index _ fun id l about => by cases about).accepts
  · exact accepts_call peer r.partition index _ (fun id l about => by cases about)
      fun id => .inl ⟨here, rfl⟩

theorem accepts_invokeRemote (s : Shared σ) (peer : Address) (index : Nat) (r : Request) :
    s.Accepts r (invokeRemote s peer index r).1.2 (invokeRemote s peer index r).2 := by
  simp only [invokeRemote]
  cases made : s.links.link peer index with
  | mk result links =>
    obtain ⟨grow, leads⟩ := Links.link_spec made
    have linked := Shared.Prepares.links s grow
    cases result with
    | error e => exact (linked.trans (prepares_handOut _ _)).accepts
    | ok l =>
      obtain ⟨rfl, rfl, endpoint, known⟩ := leads l rfl
      have known : Shared.Knows { s with links } l.index l := ⟨rfl, endpoint, known⟩
      have acquired := Shared.Prepares.acquire _ callerThread known
      simp only
      split
      · rename_i e s' result
        rw [result] at acquired
        exact ((linked.trans acquired).trans (prepares_handOut _ _)).accepts
      · rename_i s' result
        rw [result] at acquired
        have known := known.keeps acquired.toKeeps
        refine (linked.trans acquired).then_accepts ?_
        split
        · refine (prepares_send l.peer l.index _ ?_).accepts
          intro id l' about
          cases about
          exact known
        · refine accepts_call l.peer r.partition l.index _ ?_
            fun id => .inr ⟨l, rfl, rfl, rfl⟩
          intro id l' about
          cases about
          exact known

/-- A call that is routed has found an engine that is up and has an address, the owner of its
partition, and the reactor of its partition, which takes tasks. -/
structure Routed (s : Shared σ) (r : Request) (localAddress owner : Address) (index : Nat) :
    Prop where
  up : s.shuttingDown = false
  started : s.localAddress = some localAddress
  valid : 0 ≤ r.partition
  owns : s.ownership.owner? r.partition = some owner
  home : index = s.reactorOf r.partition
  alive : s.isAlive index = true
  fits : r.payload.length ≤ s.config.maxMessageSize

theorem routed_of_route {r : Request} {localAddress owner : Address} {index : Nat}
    (routed : route s r = .ok (localAddress, owner, index)) :
    Routed s r localAddress owner index := by
  simp only [route] at routed
  split at routed
  · cases routed
  · rename_i up
    split at routed
    · cases routed
    · rename_i here started
      split at routed
      · cases routed
      · rename_i valid
        split at routed
        · cases routed
        · rename_i member owns
          split at routed
          · cases routed
          · rename_i alive
            split at routed
            · cases routed
            · rename_i fits
              cases routed
              exact { up := by simpa using up, started, valid := Int32.not_lt.mp valid, owns
                      home := rfl, alive := by simpa using alive, fits := Nat.not_lt.mp fits }

/-- A call that is not routed is rejected. -/
theorem invoke_of_route_error {e : Engine σ} {r : Request} {failure : Failure}
    (rejected : route e.shared r = .error failure) :
    e.invoke r = ((0, e.shared.invocations.futures.size),
      { e with shared := { e.shared with
        invocations := (e.shared.invocations.addFuture (.failed failure)).2 } }) := by
  simp only [invoke, rejected]
  rfl

/-! ## Calls step by step -/

/-- What is done for a call.  Invocations are kept, a link is made and asked for, and the task of
the call is handed over: the one to run it goes to the reactor `index`. -/
inductive CallStep (r : Request) (index : Nat) : Shared σ → Shared σ → Prop where
  | keep (s : Shared σ) (invocations : InvocationTable) : CallStep r index s { s with invocations }
  | link (s : Shared σ) (peer : Address) (i : Nat) :
      CallStep r index s { s with links := (s.links.link peer i).2 }
  | acquire (s : Shared σ) (l : Link) (endpoint : l.peer.reactorEndpoint? l.index = some l.endpoint) :
      CallStep r index s (s.acquire callerThread l).2
  | run (s : Shared σ) (id : Option UInt64) :
      CallStep r index s (s.submit callerThread index (.execute r id)).2
  | write (s : Shared σ) (l : Link) (bytes : Bytes) (id : Option UInt64) :
      CallStep r index s (s.submit callerThread l.index (.write l bytes id)).2

def CallSteps (r : Request) (index : Nat) : Shared σ → Shared σ → Prop :=
  Relation.ReflTransGen (CallStep r index)

/-- A call hands its task over under the id that it draws. -/
theorem callSteps_send (s : Shared σ) (peer : Address) (i : Nat) {task : UInt64 → Task}
    (hands : ∀ (s : Shared σ) id, CallStep r index s (s.submit callerThread i (task id)).2) :
    CallSteps r index s (send s peer i task).2 := by
  have drawn : CallSteps r index s { s with invocations := (s.invocations.nextId peer).2 } :=
    .single (.keep s _)
  have handed := drawn.tail (hands _ (s.invocations.nextId peer).1)
  simp only [send]
  split
  all_goals
    rename_i submitted
    rw [submitted] at handed
    exact handed.tail (.keep _ _)

theorem callSteps_call (s : Shared σ) (peer : Address) (p : Partition) (i : Nat)
    {task : UInt64 → Task}
    (hands : ∀ (s : Shared σ) id, CallStep r index s (s.submit callerThread i (task id)).2) :
    CallSteps r index s (call s peer p i task).2 := by
  have registered : CallSteps r index s
      { s with invocations := (s.invocations.register peer p i).2.2 } := .single (.keep s _)
  have handed := registered.tail (hands _ (s.invocations.register peer p i).1)
  simp only [call]
  split
  · rename_i submitted
    rw [submitted] at handed
    exact handed
  · rename_i submitted
    rw [submitted] at handed
    exact handed.tail (.keep _ _)

theorem callSteps_invokeRemote (s : Shared σ) (peer : Address) (i : Nat) :
    CallSteps r index s (invokeRemote s peer i r).2 := by
  have linked : CallSteps r index s { s with links := (s.links.link peer i).2 } :=
    .single (.link s peer i)
  simp only [invokeRemote]
  cases made : s.links.link peer i with
  | mk result links =>
    rw [made] at linked
    cases result with
    | error e => exact linked.tail (.keep _ _)
    | ok l =>
      obtain ⟨rfl, rfl, endpoint, -⟩ := (Links.link_spec made).2 l rfl
      have acquired := linked.tail (.acquire _ l endpoint)
      simp only
      split
      · rename_i result
        rw [result] at acquired
        exact acquired.tail (.keep _ _)
      · rename_i s' result
        rw [result] at acquired
        split
        · exact acquired.trans (callSteps_send s' l.peer l.index fun s _ => .write s l _ _)
        · exact acquired.trans (callSteps_call s' l.peer r.partition l.index
            fun s _ => .write s l _ _)

/-- Whatever comes of a call, this is how. -/
theorem callSteps_invoke (e : Engine σ) (r : Request) :
    CallSteps r (e.shared.reactorOf r.partition) e.shared (e.invoke r).2.shared := by
  simp only [invoke]
  cases routed : route e.shared r with
  | error failure => exact .single (.keep _ _)
  | ok target =>
    obtain ⟨localAddress, owner, index⟩ := target
    obtain rfl := (routed_of_route routed).home
    simp only
    split
    · simp only [invokeLocal]
      split
      · exact callSteps_send _ _ _ fun s _ => .run s none
      · exact callSteps_call _ _ _ _ fun s id => .run s (some id)
    · exact callSteps_invokeRemote _ _ _

/-- What each of the steps does, a call does. -/
theorem rel_invoke {R : Shared σ → Shared σ → Prop} (e : Engine σ) (r : Request)
    (refl : ∀ s, R s s) (trans : ∀ {s s' s''}, R s s' → R s' s'' → R s s'')
    (each : ∀ {s s'}, CallStep r (e.shared.reactorOf r.partition) s s' → R s s') :
    R e.shared (e.invoke r).2.shared := by
  have steps := callSteps_invoke e r
  generalize (e.invoke r).2.shared = s at steps ⊢
  induction steps with
  | refl => exact refl _
  | tail _ step ih => exact trans ih (each step)

/-! ## Every call is accepted or rejected -/

/-- An invocation that waits after a call waited before, or it is the one of the
call and its task is queued. -/
theorem accepts_invoke (e : Engine σ) (r : Request) :
    (e.invoke r).2.seats = e.seats
      ∧ e.shared.Accepts r (e.invoke r).1.2 (e.invoke r).2.shared := by
  refine ⟨rfl, ?_⟩
  simp only [invoke]
  cases routed : route e.shared r with
  | error failure => exact (prepares_handOut _ _).accepts
  | ok target =>
    obtain ⟨localAddress, owner, index⟩ := target
    simp only
    split
    · rename_i own
      exact accepts_invokeLocal (own ▸ (routed_of_route routed).started) index r
    · exact accepts_invokeRemote _ _ _ _

end Engine

end PartitionEngine
