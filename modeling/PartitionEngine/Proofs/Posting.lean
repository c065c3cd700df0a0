import PartitionEngine.Proofs.Evolving
import PartitionEngine.Proofs.LinkRecords

/-!
# What is passed on

The queues hold tasks of many kinds.  Those that pass a request or a response on from
one reactor to another are kept account of: `Shared.Passes posts` says that exactly
`posts` were added to the queues, in order.  Nothing else that reactors or callers do
adds one (`Turn.Acts.passes`, `Engine.asks_invoke`).

A call may ask a reactor to connect a link that is idle.  It changes no link otherwise
(`Shared.Asks`).
-/

namespace PartitionEngine

namespace Shared

variable {σ : Type} {s s' s'' : Shared σ} {thread : ThreadId} {i : Nat} {task : Task}
  {posts posts' : List (Nat × Task)}

/-- The tasks in the queue of a reactor that pass something on, the oldest first. -/
def relays (s : Shared σ) (i : Nat) : List Task := (s.queued i).filter Task.isRelay

/-- The tasks that were handed to a reactor. -/
def postsTo (posts : List (Nat × Task)) (i : Nat) : List Task :=
  (posts.filter fun post => post.1 = i).map Prod.snd

theorem postsTo_append (posts posts' : List (Nat × Task)) (i : Nat) :
    postsTo (posts ++ posts') i = postsTo posts i ++ postsTo posts' i := by
  rw [postsTo, List.filter_append, List.map_append]
  rfl

/-- Settings and reactors stay, and exactly `posts` were passed on. -/
structure Passes (posts : List (Nat × Task)) (s s' : Shared σ) : Prop where
  config : s'.config = s.config
  count : s'.reactors.length = s.reactors.length
  alive : ∀ i, s'.isAlive i = s.isAlive i
  relays : ∀ i, s'.relays i = s.relays i ++ postsTo posts i

theorem isAlive_modifyReactor {f : ReactorHandle → ReactorHandle}
    (keep : ∀ r, s.reactor? i = some r → (f r).alive = r.alive) (j : Nat) :
    (s.modifyReactor i f).isAlive j = s.isAlive j := by
  simp only [isAlive, reactor?, modifyReactor, List.getElem?_modify] at keep ⊢
  cases found : s.reactors[j]? with
  | none => rfl
  | some r =>
    by_cases same : i = j
    · subst same
      simp [keep r found]
    · simp [same]

namespace Passes

theorem of_reactors (config : s'.config = s.config) (reactors : s'.reactors = s.reactors) :
    Passes [] s s' where
  config := config
  count := by rw [reactors]
  alive i := by rw [isAlive, reactor?, reactors, isAlive, reactor?]
  relays i := by
    rw [Shared.relays, queued, reactor?, reactors, Shared.relays, queued, reactor?]
    exact (List.append_nil _).symm

theorem refl (s : Shared σ) : Passes [] s s := of_reactors rfl rfl

theorem trans (h : Passes posts s s') (h' : Passes posts' s' s'') :
    Passes (posts ++ posts') s s'' where
  config := h'.config.trans h.config
  count := h'.count.trans h.count
  alive i := (h'.alive i).trans (h.alive i)
  relays i := by
    rw [h'.relays, h.relays, postsTo_append, List.append_assoc]

theorem trans_nil (h : Passes posts s s') (h' : Passes [] s' s'') : Passes posts s s'' :=
  List.append_nil posts ▸ h.trans h'

/-- A handle changes, but no task of it, and not whether the reactor is alive. -/
theorem handle {f : ReactorHandle → ReactorHandle}
    (keep : ∀ r, s.reactor? i = some r → (f r).queue.tasks = r.queue.tasks)
    (alive : ∀ r, s.reactor? i = some r → (f r).alive = r.alive) :
    Passes [] s (s.modifyReactor i f) where
  config := rfl
  count := List.length_modify ..
  alive := isAlive_modifyReactor alive
  relays j := by
    rw [Shared.relays, queued_modifyReactor_of_tasks keep]
    exact (List.append_nil _).symm

end Passes

/-- A task that is handed over is passed on if it passes something on. -/
theorem passes_submit_ok (handed : s.submit thread i task = (.ok (), s')) :
    Passes (if task.isRelay then [(i, task)] else []) s s' := by
  obtain ⟨r, found, -, taken⟩ | ⟨-, e, refused⟩ := s.submit_cases thread i task
  · have queued := queued_submit_ok handed
    cases handed.symm.trans taken
    refine ⟨rfl, List.length_modify .., isAlive_modifyReactor fun r' here => ?_, fun j => ?_⟩
    · cases found.symm.trans here
      rfl
    · rw [relays, queued, List.filter_append, relays]
      congr 1
      cases relay : task.isRelay <;> by_cases same : i = j <;> simp [postsTo, relay, same]
  · cases handed.symm.trans refused

theorem passes_submit_error {e : Failure} (refused : s.submit thread i task = (.error e, s')) :
    Passes [] s s' :=
  eq_of_submit_error refused ▸ .refl s

/-- Anything else that is handed over is not passed on. -/
theorem passes_submit (s : Shared σ) (thread : ThreadId) (i : Nat) (plain : task.isRelay = false) :
    Passes [] s (s.submit thread i task).2 := by
  cases submitted : s.submit thread i task with
  | mk result s' =>
    cases result with
    | error e => exact passes_submit_error submitted
    | ok =>
      have passes := passes_submit_ok submitted
      rw [plain] at passes
      exact passes

end Shared

/-! ## Reactors -/

namespace Turn

variable {σ : Type} {may : Scope} {key : SlotKey} {t t' : Turn σ}

/-- A reactor that may not pass anything on does not. -/
theorem Act.passes (silent : ∀ i task, ¬ may.relays i task) (act : Act may key t t') :
    t.shared.Passes [] t'.shared := by
  have counted (t : Turn σ) (f : ReactorStats → ReactorStats) :
      t.shared.Passes [] (t.count f).shared :=
    .handle (f := fun r => r.count f) (fun _ _ => rfl) fun _ _ => rfl
  cases act with
  | host | dispatch | mark | flag => exact .refl _
  | tune | submit | submitPlain | cancel | cancelPlain => exact .refl _
  | count f => exact counted t f
  | hand _ _ _ relays => exact absurd relays (silent _ _)
  | complete | markOpen => exact .of_reactors rfl rfl
  | shut c cause found live =>
    have closed := counted t fun s => { s with closed := s.closed + 1 }
    rw [shut_eq]
    exact closed.trans_nil (.of_reactors rfl rfl)
  | release =>
    rw [releaseIfDone_eq]
    exact .refl _

theorem Acts.passes (silent : ∀ i task, ¬ may.relays i task) (acts : Acts may key t t') :
    t.shared.Passes [] t'.shared := by
  induction acts with
  | refl => exact .refl _
  | tail _ act ih => exact ih.trans_nil (act.passes silent)

/-- A handler registers nothing. -/
theorem Act.registry (act : Act may key t t') :
    t'.reactor.dispatcher.pool.registry = t.reactor.dispatcher.pool.registry := by
  cases act with
  | dispatch opcode p id input => exact t.reactor.dispatcher.registry_dispatch opcode p id input
  | host | mark | count | hand | complete | markOpen | tune | flag => rfl
  | submit | submitPlain | cancel | cancelPlain => rfl
  | shut => rw [shut_eq]
  | release => rw [releaseIfDone_eq]

theorem Acts.registry (acts : Acts may key t t') :
    t'.reactor.dispatcher.pool.registry = t.reactor.dispatcher.pool.registry := by
  induction acts with
  | refl => rfl
  | tail _ act ih => exact act.registry.trans ih

end Turn

/-! ## Callers -/

namespace Shared

variable {σ : Type} {s s' s'' : Shared σ} {thread : ThreadId} {i : Nat} {task : Task}

/-- What is done by others than the reactors.  Nothing is passed on, and no link is
changed but from idle to connecting, with the task to connect it queued. -/
structure Asks (s s' : Shared σ) : Prop extends Onward s s', Passes [] s s' where
  full : s.links.Full → s'.links.Full
  links : s'.links.reactorCount = s.links.reactorCount
  record : ∀ i l, l.Leads i → s'.links.record l = s.links.record l
    ∨ s.links.state l = .idle
      ∧ s'.links.record l = { s.links.record l with state := .connecting }
      ∧ .connect l ∈ s'.queued i

namespace Asks

/-- What leaves the links alone. -/
theorem of_links (on : s.Onward s') (passes : s.Passes [] s') (same : s'.links = s.links) :
    s.Asks s' :=
  { on, passes with
    full := fun full => same ▸ full
    links := by rw [same]
    record := fun _ _ _ => .inl (by rw [same]) }

theorem refl (s : Shared σ) : s.Asks s := of_links (.refl s) (.refl s) rfl

theorem trans (h : s.Asks s') (h' : s'.Asks s'') : s.Asks s'' :=
  { h.toOnward.trans h'.toOnward, h.toPasses.trans h'.toPasses with
    full := fun full => h'.full (h.full full)
    links := h'.links.trans h.links
    record := by
      intro i l leads
      rcases h'.record i l leads with same | ⟨idle, later, mem⟩
      · rw [same]
        refine (h.record i l leads).imp_right ?_
        exact fun asked => ⟨asked.1, asked.2.1, h'.queued i _ asked.2.2⟩
      · rcases h.record i l leads with same | ⟨-, connecting, -⟩
        · refine .inr ⟨?_, ?_, mem⟩
          · rw [Links.state, ← same]
            exact idle
          · rw [later, same]
        · rw [Links.state, connecting] at idle
          cases idle }

/-- A handle changes, but no task of it, and not whether the reactor is alive. -/
theorem handle {f : ReactorHandle → ReactorHandle}
    (keep : ∀ r, s.reactor? i = some r → (f r).queue.tasks = r.queue.tasks)
    (alive : ∀ r, s.reactor? i = some r → (f r).alive = r.alive) : s.Asks (s.modifyReactor i f) :=
  of_links (Quiet.handle keep).toOnward (.handle keep alive) rfl

theorem invocations (s : Shared σ) (invocations : InvocationTable) :
    s.Asks { s with invocations } :=
  of_links (.invocations s invocations) (.of_reactors rfl rfl) rfl

theorem submit (s : Shared σ) (thread : ThreadId) (i : Nat) (plain : task.isRelay = false) :
    s.Asks (s.submit thread i task).2 :=
  of_links (.submit s thread i task) (passes_submit s thread i plain)
    (links_submit s thread i task)

/-- Links that record what they did before. -/
theorem of_records {links : Links} (same : ∀ l, links.record l = s.links.record l)
    (full : s.links.Full → links.Full) (count : links.reactorCount = s.links.reactorCount)
    (peers : ∀ peer, (s.links.peers.get? peer).isSome = true →
      (links.peers.get? peer).isSome = true) : s.Asks { s with links } :=
  have passes : s.Passes [] { s with links } := .of_reactors rfl rfl
  { Prepares.links s peers, passes with
    full := full
    links := count
    record := fun _ l _ => .inl (same l) }

/-- A link that is idle is asked to connect. -/
theorem acquire {l : Link} (leads : l.Leads l.index) (thread : ThreadId) :
    s.Asks (s.acquire thread l).2 := by
  obtain ⟨s', idle, submitted, same⟩ | ⟨-, same⟩ | ⟨-, e, same⟩ := s.acquire_cases thread l
  · have asked : s.Asks s' := by
      have asked : s.Asks (s.submit thread l.index (.connect l)).2 := submit s thread l.index rfl
      rwa [submitted] at asked
    have links : s'.links = s.links := by
      have kept := s.links_submit thread l.index (.connect l)
      rwa [submitted] at kept
    have mem : Task.connect l ∈ s'.queued l.index := by
      rw [queued_submit_ok submitted, if_pos rfl]
      exact List.mem_append_right _ (List.mem_singleton_self _)
    have on : s'.Prepares { s' with links := s.links.setState l .connecting } :=
      .links s' (links ▸ Links.isSome_get?_modify s.links l fun r => { r with state := .connecting })
    rw [same]
    exact
      { asked.toOnward.trans on.toOnward,
        asked.toPasses.trans (.of_reactors rfl rfl : Passes [] _ _) with
        full := fun full => full.modify l _
        links := by
          simp only [Links.setState, Links.modify]
          split <;> rfl
        record := by
          intro i l' leads'
          by_cases same : l'.peer = l.peer ∧ l'.index = l.index
          · cases leads'.eq leads same.1 same.2
            cases leads'.index
            by_cases has : s.links.Has l
            · exact .inr ⟨idle, Links.record_modify_self has _, mem⟩
            · exact .inl (Links.record_modify_of_not_has has _)
          · exact .inl (Links.record_modify_of_ne same _) }
  · rw [same]
    exact refl s
  · rw [same]
    exact refl s

end Asks

end Shared

namespace Engine

variable {σ : Type} {s s' : Shared σ} {index : Nat} {r : Request}

theorem CallStep.asks (step : CallStep r index s s') : s.Asks s' := by
  cases step with
  | keep invocations => exact .invocations _ invocations
  | link peer i =>
    obtain ⟨grow, -⟩ := Links.link_spec (Prod.eta _).symm
    obtain ⟨same, filled, count⟩ := Links.record_link (Prod.eta _).symm
    exact .of_records same filled count grow
  | acquire l endpoint => exact .acquire ⟨rfl, endpoint⟩ callerThread
  | run id => exact .submit _ callerThread _ rfl
  | write l bytes id => exact .submit _ callerThread _ rfl

/-- A call asks for what it needs. -/
theorem asks_invoke (e : Engine σ) (r : Request) : e.shared.Asks (e.invoke r).2.shared :=
  e.rel_invoke r .refl .trans CallStep.asks

end Engine

end PartitionEngine
