import PartitionEngine.Proofs.Affinity
import PartitionEngine.Proofs.Issuing
import PartitionEngine.Proofs.Shutdown

/-!
# Links that lead somewhere

The links of a peer are made together, and only if the peer has a port for each of our
reactors.  They are never removed.  So there is a link to every peer that is known, for each
reactor, and it leads somewhere (`Links.Complete`), whatever happened to the engine
(`World.complete_of_life`).  A peer that is not known either gets its links, or it is told
that a port is missing and nothing is kept of it (`Links.link_of_reachable`,
`Links.link_of_unreachable`).
-/

namespace PartitionEngine

namespace Links

variable {links links' links'' : Links} {l : Link} {peer : Address}

/-- Every peer that is known has a link for each reactor, and each leads somewhere. -/
structure Complete (links : Links) : Prop where
  full : links.Full
  reachable : ∀ peer, (links.peers.get? peer).isSome = true → links.unreachableIndex? peer = none

/-- Links come for peers that can be reached, and none go. -/
structure Extends (links links' : Links) : Prop where
  count : links'.reactorCount = links.reactorCount
  full : links.Full → links'.Full
  known : ∀ peer, (links'.peers.get? peer).isSome = true →
    (links.peers.get? peer).isSome = true ∨ links.unreachableIndex? peer = none

namespace Extends

theorem refl (links : Links) : links.Extends links := ⟨rfl, id, fun _ => .inl⟩

theorem of_eq (same : links' = links) : links.Extends links' := same ▸ refl links

theorem unreachableIndex? (h : links.Extends links') (peer : Address) :
    links'.unreachableIndex? peer = links.unreachableIndex? peer := by
  simp only [Links.unreachableIndex?, h.count]

theorem trans (h : links.Extends links') (h' : links'.Extends links'') : links.Extends links'' where
  count := h'.count.trans h.count
  full full := h'.full (h.full full)
  known peer there := by
    rcases h'.known peer there with there | free
    · exact h.known peer there
    · exact .inr ((h.unreachableIndex? peer).symm.trans free)

theorem modify (links : Links) (l : Link) (f : LinkRecord → LinkRecord) :
    links.Extends (links.modify l f) where
  count := Changes.count_modify links l f
  full full := full.modify l f
  known peer there := by
    simp only [Links.modify] at there
    split at there
    · rename_i records found
      rw [Assoc.get?_insert] at there
      split at there
      · rename_i same
        exact .inl (by rw [same, found]; rfl)
      · exact .inl there
    · exact .inl there

theorem addPeer (added : links.addPeer peer = .ok links') : links.Extends links' where
  count := by
    simp only [Links.addPeer] at added
    repeat' split at added
    all_goals
      cases added
      try rfl
  full full := full.addPeer added
  known p there := by
    simp only [Links.addPeer] at added
    split at added
    · cases added
      exact .inl there
    · split at added
      · cases added
      · rename_i free
        cases added
        rw [Assoc.get?_insert] at there
        split at there
        · rename_i same
          exact .inr (same ▸ free)
        · exact .inl there

theorem complete (h : links.Extends links') (all : links.Complete) : links'.Complete where
  full := h.full all.full
  reachable peer there := by
    rw [h.unreachableIndex?]
    exact (h.known peer there).elim (all.reachable peer) id

end Extends

theorem extends_link {index : Nat} {result : Except Failure Link}
    (made : links.link peer index = (result, links')) : links.Extends links' := by
  simp only [link] at made
  split at made
  · cases made
    exact .refl _
  · rename_i added
    have grown := Extends.addPeer added
    split at made
    all_goals
      cases made
      exact grown

/-- A peer that cannot be reached gets no link, and nothing is kept of it. -/
theorem link_of_unreachable {i index : Nat} (unknown : (links.peers.get? peer).isSome = false)
    (unreachable : links.unreachableIndex? peer = some i) :
    links.link peer index
      = (.error (.config ("no port for reactor " ++ toString i ++ " of " ++ peer.text)), links) := by
  have refused : links.addPeer peer
      = .error (.config ("no port for reactor " ++ toString i ++ " of " ++ peer.text)) := by
    simp only [addPeer, Assoc.contains_eq, unknown, unreachable]
    rfl
  rw [link, refused]

/-- Any other peer has a link for each reactor. -/
theorem link_of_reachable {index : Nat} (complete : links.Complete)
    (reachable : links.unreachableIndex? peer = none) (inside : index < links.reactorCount) :
    ∃ l links', links.link peer index = (.ok l, links') ∧ l.peer = peer ∧ l.index = index
      ∧ peer.reactorEndpoint? index = some l.endpoint ∧ links'.Has l
      ∧ ∀ l', links'.record l' = links.record l' := by
  obtain ⟨links', added⟩ : ∃ links', links.addPeer peer = .ok links' := by
    simp only [addPeer, reachable]
    split <;> exact ⟨_, rfl⟩
  have grown := Extends.addPeer added
  obtain ⟨endpoint, found⟩ : ∃ endpoint, peer.reactorEndpoint? index = some endpoint := by
    refine Option.ne_none_iff_exists'.mp fun none => ?_
    have free := List.find?_eq_none.mp reachable index (List.mem_range.mpr inside)
    simp [none] at free
  have known := (peers_addPeer added).1
  refine ⟨⟨peer, index, endpoint⟩, links', ?_, rfl, rfl, found, ?_, record_addPeer added⟩
  · simp only [link, added, grown.count, inside, if_true, found]
  · exact (grown.complete complete).full.has known (grown.count ▸ inside)

end Links

/-! ## What happens to links -/

namespace Shared

variable {σ : Type} {s : Shared σ}

theorem extends_acquire (s : Shared σ) (thread : ThreadId) (l : Link) :
    s.links.Extends (s.acquire thread l).2.links := by
  obtain ⟨s', -, -, same⟩ | ⟨-, same⟩ | ⟨-, e, same⟩ := s.acquire_cases thread l
  · rw [same]
    exact .modify _ _ _
  · rw [same]
    exact .refl _
  · rw [same]
    exact .refl _

end Shared

namespace Turn

variable {σ : Type} {may : Scope} {key : SlotKey} {t t' : Turn σ}

theorem Act.links (act : Act may key t t') : t.shared.links.Extends t'.shared.links := by
  cases act with
  | host | dispatch | mark | count | complete => exact .refl _
  | tune | submit | submitPlain | cancel | cancelPlain | flag => exact .refl _
  | hand index task => exact .of_eq (Shared.links_submit _ _ _ _)
  | markOpen l => exact .modify _ _ _
  | shut c cause =>
    simp only [Turn.shut]
    split
    · exact .modify _ _ _
    · exact .refl _
  | release =>
    rw [releaseIfDone_eq]
    exact .refl _

theorem Works.links (works : Works may t t') : t.shared.links.Extends t'.shared.links := by
  induction works with
  | refl => exact .refl _
  | tail _ work ih =>
    cases work with
    | act key act => exact ih.trans act.links
    | accept | windDown => exact ih
    | make l => exact ih.trans (.modify _ _ _)

theorem links_popTask {task : Option Task} (popped : t.popTask = (task, t')) :
    t'.shared.links = t.shared.links := by
  rw [Moment.eq_of_popTask popped]

/-- A reactor that ends leaves all links as they are. -/
theorem links_finish (t : Turn σ) : t.finish.shared.links = t.shared.links := by
  rw [t.finish_eq.2]

end Turn

theorem Moment.Move.links {σ : Type} {m m' : Moment σ} {handed : Option Handover}
    (move : Move m handed m') : m.turn.shared.links.Extends m'.turn.shared.links := by
  cases move with
  | wait | mark | take => exact .refl _
  | handle t c rest =>
    have works : Turn.Works .all t _ := Turn.works_all_onCompletion t c
    exact works.links
  | run t task t' popped =>
    have works : Turn.Works .all (t'.count fun s => { s with tasks := s.tasks + 1 }) _ :=
      Turn.works_all_onTask _ task
    exact (Links.Extends.of_eq (Turn.links_popTask popped)).trans works.links

namespace Engine

variable {σ : Type} {s s' : Shared σ} {r : Request} {index : Nat}

theorem links_send (s : Shared σ) (peer : Address) (index : Nat) (task : UInt64 → Task) :
    (send s peer index task).2.links = s.links := by
  have handed := Shared.links_submit { s with invocations := (s.invocations.nextId peer).2 }
    callerThread index (task (s.invocations.nextId peer).1)
  simp only [send]
  split
  all_goals
    rename_i submitted
    rw [submitted] at handed
    exact handed

theorem links_call (s : Shared σ) (peer : Address) (p : Partition) (index : Nat)
    (task : UInt64 → Task) : (call s peer p index task).2.links = s.links := by
  have handed := Shared.links_submit
    { s with invocations := (s.invocations.register peer p index).2.2 } callerThread index
    (task (s.invocations.register peer p index).1)
  simp only [call]
  split
  all_goals
    rename_i submitted
    rw [submitted] at handed
    exact handed

theorem links_invokeLocal (s : Shared σ) (peer : Address) (index : Nat) (r : Request) :
    (invokeLocal s peer index r).2.links = s.links := by
  simp only [invokeLocal]
  split
  · exact links_send _ _ _ _
  · exact links_call _ _ _ _ _

theorem CallStep.extends (step : CallStep r index s s') : s.links.Extends s'.links := by
  cases step with
  | keep => exact .refl _
  | link => exact Links.extends_link (Prod.eta _).symm
  | acquire l => exact Shared.extends_acquire _ callerThread l
  | run | write => exact .of_eq (Shared.links_submit _ callerThread _ _)

theorem links_invoke (e : Engine σ) (r : Request) :
    e.shared.links.Extends (e.invoke r).2.shared.links :=
  e.rel_invoke (R := fun s s' => s.links.Extends s'.links) r (fun _ => .refl _) .trans
    CallStep.extends

end Engine

namespace World

variable {σ : Type} {w w' : World σ}

theorem Happens.links (happens : Happens w w') :
    w.engine.shared.links.Extends w'.engine.shared.links := by
  cases happens with
  | launch => exact .refl _
  | step step =>
    cases step with
    | call r => exact w.engine.links_invoke r
    | shutdown =>
      exact .of_eq (by rw [Engine.shutdown_eq])
    | change | mark | drive => exact .refl _
    | begin i seat =>
      have woken : Turn.Works .all (w.turn seat) (w.turn seat).armWakeup :=
        .of_forall fun key => Turn.acts_armWakeup _ key trivial
      exact (woken.trans (.of_forall fun key => Turn.acts_armAccept _ key trivial)).links
    | move i seat m handed found running move => exact move.links
    | finish i seat => exact .of_eq (w.turn seat).links_finish

theorem Life.links (life : Life w w') :
    w.engine.shared.links.Extends w'.engine.shared.links := by
  induction life with
  | refl => exact .refl _
  | tail _ happens ih => exact ih.trans happens.links

/-- Whatever happened to an engine, every link that is known leads somewhere, and there is
one for each reactor. -/
theorem complete_of_life {host₀ host : Host} {config : Config} {registry : Registry σ}
    {e : Engine σ} (made : Engine.new host₀ config registry = .ok e)
    (life : Life (ofEngine host e) w) : w.engine.shared.links.Complete
      ∧ w.engine.shared.links.reactorCount = w.engine.shared.reactors.length := by
  have count := ((affine_new made).life life).count
  obtain ⟨reactors, -, rfl⟩ := Engine.eq_of_new made
  have grown := Life.links life
  refine ⟨grown.complete ⟨fun _ _ => nofun, fun _ => nofun⟩, grown.count.trans count.symm⟩

end World

end PartitionEngine
