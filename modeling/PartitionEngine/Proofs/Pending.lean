import PartitionEngine.Engine.Basic
import PartitionEngine.Proofs.Entries

/-!
# Invocations that wait, and tasks that are queued

The table and the queues are what the reactors of an engine share with whoever
calls it.  An invocation leaves the table when it is completed or failed, and a
task leaves a queue when its reactor pops it.  Everything else lets the table
shrink (`InvocationTable.Shrinks`) and the queues and the known peers grow
(`Shared.Onward`).
-/

namespace PartitionEngine

/-! ## The table -/

namespace InvocationTable

/-- An invocation waits under a peer and an id. -/
def Waits (t : InvocationTable) (peer : Address) (id : UInt64) (i : Invocation) : Prop :=
  ∃ p, t.peers.get? peer = some p ∧ (id, i) ∈ p.pending.entries

/-- What waits has waited before. -/
def Shrinks (t t' : InvocationTable) : Prop :=
  ∀ peer id i, t'.Waits peer id i → t.Waits peer id i

theorem Shrinks.refl (t : InvocationTable) : t.Shrinks t := fun _ _ _ h => h

theorem Shrinks.trans {t t' t'' : InvocationTable} (h : t.Shrinks t') (h' : t'.Shrinks t'') :
    t.Shrinks t'' :=
  fun peer id i waits => h peer id i (h' peer id i waits)

/-- What waits after the invocations of a peer were replaced. -/
theorem waits_insert {t t' : InvocationTable} {peer k : Address} {p : PeerInvocations}
    (peers : t'.peers = t.peers.insert peer p) {id : UInt64} {i : Invocation}
    (waits : t'.Waits k id i) :
    k = peer ∧ (id, i) ∈ p.pending.entries ∨ k ≠ peer ∧ t.Waits k id i := by
  obtain ⟨p', found, mem⟩ := waits
  rw [peers, Assoc.get?_insert] at found
  split at found
  · rename_i same
    cases found
    exact .inl ⟨same, mem⟩
  · rename_i other
    exact .inr ⟨other, p', found, mem⟩

theorem peers_deliver_all (results : List Invocation) (e : Failure) (t : InvocationTable) :
    (results.foldl (fun t i => t.deliver i.future (.error e)) t).peers = t.peers := by
  induction results generalizing t with
  | nil => rfl
  | cons i rest ih => exact ih _

/-- An invocation that is completed leaves, and nothing else comes. -/
theorem waits_complete {t : InvocationTable} {peer k : Address} {id j : UInt64} {result : Outcome}
    {i : Invocation} (waits : (t.complete peer id result).2.Waits k j i) :
    t.Waits k j i ∧ ¬ (k = peer ∧ j = id) := by
  simp only [complete] at waits
  split at waits
  · rename_i absent
    refine ⟨waits, ?_⟩
    rintro ⟨rfl, rfl⟩
    obtain ⟨p, found, -⟩ := waits
    simp only [absent] at found
    cases found
  · rename_i p found
    split at waits
    · rename_i absent
      refine ⟨waits, ?_⟩
      rintro ⟨rfl, rfl⟩
      obtain ⟨p', found', mem⟩ := waits
      simp only [found] at found'
      cases found'
      exact Assoc.not_mem_of_get? absent i mem
    · rcases waits_insert (t := t) (p := { p with pending := p.pending.erase id }) rfl waits with
        ⟨rfl, mem⟩ | ⟨other, waits⟩
      · simp only [Assoc.entries_erase, List.mem_filter, decide_eq_true_eq] at mem
        exact ⟨⟨p, found, mem.1⟩, fun both => mem.2 both.2⟩
      · exact ⟨waits, fun both => other both.1⟩

theorem shrinks_complete (t : InvocationTable) (peer : Address) (id : UInt64) (result : Outcome) :
    t.Shrinks (t.complete peer id result).2 :=
  fun _ _ _ waits => (waits_complete waits).1

/-- Invocations that are failed leave, and nothing else comes. -/
theorem waits_failWhere {t : InvocationTable} {peer k : Address} {e : Failure}
    {select : Invocation → Bool} {id : UInt64} {i : Invocation}
    (waits : (t.failWhere peer e select).2.Waits k id i) :
    t.Waits k id i ∧ (k = peer → select i = false) := by
  simp only [failWhere] at waits
  split at waits
  · rename_i absent
    refine ⟨waits, ?_⟩
    rintro rfl
    obtain ⟨p, found, -⟩ := waits
    simp only [absent] at found
    cases found
  · rename_i p found
    rcases waits_insert (t := t) (p := { p with pending := p.pending.filter fun i => !select i })
      (peers_deliver_all _ e _) waits with ⟨rfl, mem⟩ | ⟨other, waits⟩
    · simp only [Assoc.filter, List.mem_filter, Bool.not_eq_true'] at mem
      exact ⟨⟨p, found, mem.1⟩, fun _ => mem.2⟩
    · exact ⟨waits, fun same => absurd same other⟩

/-- The table after the invocations of some peers that a test selects were failed, one
peer after the other. -/
def failEach (t : InvocationTable) (peers : List Address) (e : Failure)
    (select : Invocation → Bool) : InvocationTable :=
  peers.foldl (fun t peer => (t.failWhere peer e select).2) t

theorem snd_failAnywhere (t : InvocationTable) (e : Failure) (select : Invocation → Bool) :
    (t.failAnywhere e select).2 = t.failEach t.peers.keys e select := by
  have passed (keys : List Address) (n : Nat) (s : InvocationTable) :
      (keys.foldl (fun failed peer =>
        (failed.1 + (failed.2.failWhere peer e select).1,
          (failed.2.failWhere peer e select).2)) (n, s)).2 = s.failEach keys e select := by
    induction keys generalizing n s with
    | nil => rfl
    | cons peer rest ih => exact ih _ _
  exact passed t.peers.keys 0 t

theorem waits_failEach {k : Address} {e : Failure} {select : Invocation → Bool} {id : UInt64}
    {i : Invocation} (peers : List Address) {t : InvocationTable}
    (waits : (t.failEach peers e select).Waits k id i) :
    t.Waits k id i ∧ (k ∈ peers → select i = false) := by
  induction peers generalizing t with
  | nil => exact ⟨waits, fun mem => by cases mem⟩
  | cons peer rest ih =>
    obtain ⟨waits, later⟩ := ih waits
    obtain ⟨waits, now⟩ := waits_failWhere waits
    exact ⟨waits, fun mem => (List.mem_cons.mp mem).elim now later⟩

theorem mem_keys_of_get? {t : InvocationTable} {peer : Address} {p : PeerInvocations}
    (found : t.peers.get? peer = some p) : peer ∈ t.peers.keys :=
  List.mem_map_of_mem (f := Prod.fst) (Assoc.mem_of_get? found)

/-- Invocations that are failed leave, whatever their peer. -/
theorem waits_failAnywhere {t : InvocationTable} {k : Address} {e : Failure}
    {select : Invocation → Bool} {id : UInt64} {i : Invocation}
    (waits : (t.failAnywhere e select).2.Waits k id i) : t.Waits k id i ∧ select i = false := by
  rw [snd_failAnywhere] at waits
  obtain ⟨waits, failed⟩ := waits_failEach _ waits
  refine ⟨waits, failed ?_⟩
  obtain ⟨p, found, -⟩ := waits
  exact mem_keys_of_get? found

theorem shrinks_nextId (t : InvocationTable) (peer : Address) : t.Shrinks (t.nextId peer).2 := by
  intro k id i waits
  rcases waits_insert (t := t) rfl waits with ⟨rfl, mem⟩ | ⟨-, waits⟩
  · cases found : t.peers.get? k with
    | none =>
      simp only [found] at mem
      cases mem
    | some p =>
      simp only [found] at mem
      exact ⟨p, found, mem⟩
  · exact waits

/-- A call waits under the id that was drawn for it. -/
theorem waits_register {t : InvocationTable} {peer k : Address} {partition : Partition}
    {reactor : Nat} {id : UInt64} {i : Invocation}
    (waits : (t.register peer partition reactor).2.2.Waits k id i) :
    t.Waits k id i ∨ k = peer ∧ id = (t.register peer partition reactor).1
      ∧ i.future = (t.register peer partition reactor).2.1 ∧ i.reactor = reactor := by
  have drawn : t.Shrinks ((t.nextId peer).2.addFuture { correlationId := (t.nextId peer).1 }).2 :=
    shrinks_nextId t peer
  simp only [register] at waits
  rcases waits_insert (t := ((t.nextId peer).2.addFuture _).2) rfl waits with
    ⟨rfl, mem⟩ | ⟨-, waits⟩
  · simp only [Assoc.insert, List.mem_cons, Assoc.entries_erase, List.mem_filter] at mem
    rcases mem with new | ⟨old, -⟩
    · cases new
      exact .inr ⟨rfl, rfl, rfl, rfl⟩
    · refine .inl (drawn _ _ _ ?_)
      cases found : ((t.nextId k).2.addFuture { correlationId := (t.nextId k).1 }).2.peers.get? k with
      | none =>
        simp only [found] at old
        cases old
      | some p =>
        simp only [found] at old
        exact ⟨p, found, old⟩
  · exact .inl (drawn _ _ _ waits)

end InvocationTable

/-! ## The queues -/

/-- The link a task is about. -/
def Task.link? : Task → Option Link
  | .connect l | .write l .. => some l
  | _ => none

theorem TaskQueue.tasks_push {α : Type} (q : TaskQueue α) (thread : ThreadId) (task : α) :
    (q.push thread task).tasks = q.tasks.push task := by
  simp only [push, takeFlag]
  split
  · rfl
  · cases q.armed <;> rfl

namespace Shared

variable {σ : Type} {s s' s'' : Shared σ} {thread : ThreadId} {i j : Nat} {task other : Task}

/-- The tasks in the queue of a reactor, the oldest first. -/
def queued (s : Shared σ) (i : Nat) : List Task :=
  ((s.reactor? i).map fun r => r.queue.tasks.toList).getD []

theorem lt_of_mem_queued (mem : task ∈ s.queued i) : i < s.reactors.length := by
  simp only [queued] at mem
  cases found : s.reactor? i with
  | none => simp [found] at mem
  | some r => exact (List.getElem?_eq_some_iff.mp found).1

theorem queued_modifyReactor (s : Shared σ) (i j : Nat) (f : ReactorHandle → ReactorHandle) :
    (s.modifyReactor i f).queued j
      = if i = j then ((s.reactor? j).map fun r => (f r).queue.tasks.toList).getD []
        else s.queued j := by
  simp only [queued, reactor?, modifyReactor]
  rw [List.getElem?_modify]
  by_cases same : i = j
  · cases s.reactors[j]? <;> simp [same]
  · cases s.reactors[j]? <;> simp [same]

/-- A change to a handle that leaves its tasks alone leaves all tasks alone. -/
theorem queued_modifyReactor_of_tasks {f : ReactorHandle → ReactorHandle}
    (keep : ∀ r, s.reactor? i = some r → (f r).queue.tasks = r.queue.tasks) (j : Nat) :
    (s.modifyReactor i f).queued j = s.queued j := by
  rw [queued_modifyReactor]
  split
  · rename_i same
    subst same
    simp only [queued]
    cases found : s.reactor? i with
    | none => rfl
    | some r => simp [keep r found]
  · rfl

/-- To hand a task over changes nothing but the reactors. -/
theorem submit_eq (s : Shared σ) (thread : ThreadId) (i : Nat) (task : Task) :
    (s.submit thread i task).2 = { s with reactors := (s.submit thread i task).2.reactors } := by
  simp only [submit]
  split <;> rfl

theorem links_submit (s : Shared σ) (thread : ThreadId) (i : Nat) (task : Task) :
    (s.submit thread i task).2.links = s.links := by
  rw [submit_eq]

/-- To ask for a link changes nothing but the links and the reactors. -/
theorem acquire_eq (s : Shared σ) (thread : ThreadId) (l : Link) :
    (s.acquire thread l).2 = { s with
      links := (s.acquire thread l).2.links
      reactors := (s.acquire thread l).2.reactors } := by
  simp only [acquire]
  split <;> rfl

theorem modifyReactor_self {h : ReactorHandle} (found : s.reactor? i = some h) :
    (s.modifyReactor i fun _ => h) = s := by
  have same : (s.reactors.modify i fun _ => h) = s.reactors := by
    refine List.ext_getElem? ?_
    intro j
    rw [List.getElem?_modify]
    by_cases here : i = j
    · subst here
      rw [reactor?] at found
      simp [found]
    · simp [here]
  rw [modifyReactor, same]

/-- A reactor that is alive takes a task, and where there is none nothing changes. -/
theorem submit_cases (s : Shared σ) (thread : ThreadId) (i : Nat) (task : Task) :
    (∃ r, s.reactor? i = some r ∧ r.alive = true ∧ s.submit thread i task
      = (.ok (), s.modifyReactor i fun _ => { r with queue := r.queue.push thread task }))
    ∨ s.isAlive i = false ∧ ∃ e, s.submit thread i task = (.error e, s) := by
  cases found : s.reactor? i with
  | none =>
    exact .inr ⟨by simp [isAlive, found], .reactorUnavailable i, by simp only [submit, found]⟩
  | some r =>
    cases alive : r.alive with
    | true => exact .inl ⟨r, rfl, alive, by simp [submit, found, ReactorHandle.submit, alive]⟩
    | false =>
      refine .inr ⟨by simp [isAlive, found, alive], .reactorUnavailable r.index, ?_⟩
      simp [submit, found, ReactorHandle.submit, alive, modifyReactor_self found]

/-- A link that is idle is asked for, and then it is connecting.  Where there is no reactor that
is alive nothing changes. -/
theorem acquire_cases (s : Shared σ) (thread : ThreadId) (l : Link) :
    (∃ s', s.links.state l = .idle ∧ s.submit thread l.index (.connect l) = (.ok (), s')
      ∧ s.acquire thread l = (.ok (), { s' with links := s.links.setState l .connecting }))
    ∨ (s.links.state l ≠ .idle ∧ s.acquire thread l = (.ok (), s))
    ∨ s.isAlive l.index = false ∧ ∃ e, s.acquire thread l = (.error e, s) := by
  cases found : s.reactor? l.index with
  | none =>
    refine .inr (.inr ⟨by simp [isAlive, found], .reactorUnavailable l.index, ?_⟩)
    simp only [acquire, found]
  | some r =>
    cases state : s.links.state l with
    | idle =>
      obtain ⟨r', found', alive, taken⟩ | ⟨dead, -⟩ := s.submit_cases thread l.index (.connect l)
      · cases found.symm.trans found'
        refine .inl ⟨_, rfl, taken, ?_⟩
        simp only [acquire, found, Links.acquire, state, ReactorHandle.submit, alive, if_true]
        rfl
      · have dead' : r.alive = false := by simpa [isAlive, found] using dead
        refine .inr (.inr ⟨dead, .reactorUnavailable r.index, ?_⟩)
        simp [acquire, found, Links.acquire, state, ReactorHandle.submit, dead',
          modifyReactor_self found]
    | connecting | «open» =>
      refine .inr (.inl ⟨nofun, ?_⟩)
      simp only [acquire, found, Links.acquire, state, modifyReactor_self found]

/-- A reactor that takes a task is alive. -/
theorem alive_of_submit_ok (handed : s.submit thread i task = (.ok (), s')) :
    s.isAlive i = true := by
  obtain ⟨r, found, alive, -⟩ | ⟨-, e, refused⟩ := s.submit_cases thread i task
  · simp [isAlive, found, alive]
  · cases handed.symm.trans refused

/-- Only a dead reactor refuses a task. -/
theorem dead_of_submit_error {e : Failure} (refused : s.submit thread i task = (.error e, s')) :
    s.isAlive i = false := by
  obtain ⟨r, -, -, taken⟩ | ⟨dead, -⟩ := s.submit_cases thread i task
  · cases refused.symm.trans taken
  · exact dead

/-- A task that is handed over is the newest in its queue. -/
theorem queued_submit_ok (handed : s.submit thread i task = (.ok (), s')) (j : Nat) :
    s'.queued j = s.queued j ++ if i = j then [task] else [] := by
  obtain ⟨r, found, -, taken⟩ | ⟨-, e, refused⟩ := s.submit_cases thread i task
  · cases handed.symm.trans taken
    rw [queued_modifyReactor]
    split
    · rename_i same
      subst same
      simp [queued, found, TaskQueue.tasks_push]
    · simp
  · cases handed.symm.trans refused

/-- A task that is refused leaves everything as it was. -/
theorem eq_of_submit_error {e : Failure} (refused : s.submit thread i task = (.error e, s')) :
    s' = s := by
  obtain ⟨r, -, -, taken⟩ | ⟨-, e, same⟩ := s.submit_cases thread i task
  · cases refused.symm.trans taken
  · cases refused.symm.trans same
    rfl

/-- The task is in the queue it was handed to, if any. -/
theorem mem_queued_submit (s : Shared σ) (thread : ThreadId) (i : Nat) (task : Task)
    (mem : other ∈ (s.submit thread i task).2.queued j) :
    other ∈ s.queued j ∨ i = j ∧ other = task := by
  cases submitted : s.submit thread i task with
  | mk result s' =>
    rw [submitted] at mem
    cases result with
    | error e =>
      rw [eq_of_submit_error submitted] at mem
      exact .inl mem
    | ok =>
      rw [queued_submit_ok submitted, List.mem_append, List.mem_ite_nil_right,
        List.mem_singleton] at mem
      exact mem

/-! ## What goes on -/

/-- What lasts as long as the engine: settings, addresses and peers. -/
structure Keeps (s s' : Shared σ) : Prop where
  config : s'.config = s.config
  localAddress : s'.localAddress = s.localAddress
  count : s'.reactors.length = s.reactors.length
  peers : ∀ peer, (s.links.peers.get? peer).isSome = true → (s'.links.peers.get? peer).isSome = true

theorem Keeps.refl (s : Shared σ) : s.Keeps s := ⟨rfl, rfl, rfl, fun _ known => known⟩

theorem Keeps.trans (h : s.Keeps s') (h' : s'.Keeps s'') : s.Keeps s'' where
  config := h'.config.trans h.config
  localAddress := h'.localAddress.trans h.localAddress
  count := h'.count.trans h.count
  peers peer known := h'.peers peer (h.peers peer known)

/-- Nothing is taken off a queue. -/
structure Onward (s s' : Shared σ) : Prop extends Keeps s s' where
  queued : ∀ i task, task ∈ s.queued i → task ∈ s'.queued i

namespace Onward

theorem of_reactors (s : Shared σ) (reactors : List ReactorHandle)
    (count : reactors.length = s.reactors.length)
    (queued : ∀ i task, task ∈ s.queued i → task ∈ { s with reactors }.queued i) :
    s.Onward { s with reactors } :=
  ⟨⟨rfl, rfl, count, fun _ known => known⟩, queued⟩

theorem invocations (s : Shared σ) (invocations : InvocationTable) :
    s.Onward { s with invocations } :=
  ⟨⟨rfl, rfl, rfl, fun _ known => known⟩, fun _ _ mem => mem⟩

theorem refl (s : Shared σ) : s.Onward s := ⟨.refl s, fun _ _ mem => mem⟩

theorem trans (h : s.Onward s') (h' : s'.Onward s'') : s.Onward s'' :=
  ⟨h.toKeeps.trans h'.toKeeps, fun i task mem => h'.queued i task (h.queued i task mem)⟩

theorem submit (s : Shared σ) (thread : ThreadId) (i : Nat) (task : Task) :
    s.Onward (s.submit thread i task).2 := by
  obtain ⟨r, -, -, taken⟩ | ⟨-, e, refused⟩ := s.submit_cases thread i task
  · rw [taken]
    exact of_reactors s _ (List.length_modify ..) fun j other mem =>
      queued_submit_ok taken j ▸ List.mem_append_left _ mem
  · rw [refused]
    exact refl s

end Onward

/-- A link is of reactor `i`, leads where its peer says, and its peer is known. -/
structure Knows (s : Shared σ) (i : Nat) (l : Link) : Prop where
  index : l.index = i
  endpoint : l.peer.reactorEndpoint? i = some l.endpoint
  peer : (s.links.peers.get? l.peer).isSome = true

theorem Knows.keeps {l : Link} (h : s.Knows i l) (keeps : s.Keeps s') : s'.Knows i l :=
  ⟨h.index, h.endpoint, keeps.peers _ h.peer⟩

/-- The links of all queued tasks are known. -/
def LinksKnown (s : Shared σ) : Prop :=
  ∀ i task l, task ∈ s.queued i → task.link? = some l → s.Knows i l

end Shared

theorem Links.isSome_get?_modify (links : Links) (l : Link) (f : LinkRecord → LinkRecord)
    (peer : Address) (known : (links.peers.get? peer).isSome = true) :
    ((links.modify l f).peers.get? peer).isSome = true := by
  simp only [modify]
  split
  · simp only [Assoc.get?_insert]
    split
    · rfl
    · exact known
  · exact known

/-! ## Shutting down -/

/-- A reactor that is told to stop has one more task. -/
theorem ReactorHandle.tasks_stop (r : ReactorHandle) (thread : ThreadId) :
    (r.stop thread).queue.tasks = r.queue.tasks.push .stop :=
  r.queue.tasks_push thread .stop

namespace Engine

variable {σ : Type}

/-- Shutting down again changes nothing. -/
theorem shutdown_of_down {e : Engine σ} (down : e.shared.shuttingDown = true) : e.shutdown = e :=
  if_pos down

/-- To shut down changes invocations and queues, and notes it. -/
theorem shutdown_eq (e : Engine σ) :
    e.shutdown = { e with shared := { e.shared with
      shuttingDown := true
      invocations := e.shutdown.shared.invocations
      reactors := e.shutdown.shared.reactors } } := by
  cases down : e.shared.shuttingDown with
  | true =>
    rw [shutdown_of_down down]
    exact congrArg (fun b => { e with shared := { e.shared with shuttingDown := b } }) down
  | false => simp [shutdown, down]

theorem seats_shutdown (e : Engine σ) : e.shutdown.seats = e.seats := by
  rw [shutdown_eq]

theorem reactor?_shutdown (e : Engine σ) (i : Nat) :
    e.shutdown.shared.reactor? i = (e.shared.reactor? i).map fun r =>
      if e.shared.shuttingDown then r else r.stop callerThread := by
  cases down : e.shared.shuttingDown with
  | true => simp [shutdown_of_down down]
  | false => simp [shutdown, down, Shared.reactor?]

/-- Shutting down adds to the queues that the reactors are to stop. -/
theorem queued_shutdown (e : Engine σ) (i : Nat) :
    ∃ stops, e.shutdown.shared.queued i = e.shared.queued i ++ stops
      ∧ ∀ task ∈ stops, task = .stop := by
  rw [Shared.queued, reactor?_shutdown, Shared.queued]
  cases e.shared.reactor? i with
  | none => exact ⟨[], rfl, nofun⟩
  | some r =>
    cases e.shared.shuttingDown with
    | true => exact ⟨[], by simp, nofun⟩
    | false => exact ⟨[.stop], by simp [ReactorHandle.tasks_stop], by simp⟩

/-- Shutting down takes nothing off a queue. -/
theorem onward_shutdown (e : Engine σ) : e.shared.Onward e.shutdown.shared where
  config := by rw [shutdown_eq]
  localAddress := by rw [shutdown_eq]
  count := by
    simp only [shutdown]
    split
    · rfl
    · exact List.length_map _
  peers peer known := by
    rw [shutdown_eq]
    exact known
  queued i task mem := by
    obtain ⟨stops, queued, -⟩ := e.queued_shutdown i
    rw [queued]
    exact List.mem_append_left _ mem

end Engine

end PartitionEngine
