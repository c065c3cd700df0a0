import PartitionEngine.Proofs.Backing
import PartitionEngine.Proofs.Futures
import PartitionEngine.Proofs.Lives
import PartitionEngine.Proofs.Works

/-!
# Shutting down is final

Reactors settle invocations and register none (`Turn.Works.settles`), and a call keeps
what it makes in a future (`Engine.gains_invoke`).  So all futures are minded in the
whole life of an engine, and results stay.

Shutting down fails everything that waits.  From then on the engine is `Over`: nothing
waits, so there is nothing to complete, and a call is rejected before it registers
anything.
-/

namespace PartitionEngine

namespace Shared

variable {σ : Type} {s s' s'' : Shared σ}

/-- Invocations are settled, none is registered, and whether the engine shuts down stays. -/
structure Settles (s s' : Shared σ) : Prop where
  shuttingDown : s'.shuttingDown = s.shuttingDown
  invocations : s.invocations.Settles s'.invocations

namespace Settles

theorem of_eq (shuttingDown : s'.shuttingDown = s.shuttingDown)
    (invocations : s'.invocations = s.invocations) : s.Settles s' :=
  ⟨shuttingDown, invocations ▸ .refl _⟩

theorem refl (s : Shared σ) : s.Settles s := of_eq rfl rfl

theorem trans (h : s.Settles s') (h' : s'.Settles s'') : s.Settles s'' :=
  ⟨h'.shuttingDown.trans h.shuttingDown, h.invocations.trans h'.invocations⟩

theorem submit (s : Shared σ) (thread : ThreadId) (i : Nat) (task : Task) :
    s.Settles (s.submit thread i task).2 := by
  rw [submit_eq]
  exact of_eq rfl rfl

end Settles

end Shared

/-! ## Reactors -/

namespace Turn

variable {σ : Type} {may : Scope} {t t' : Turn σ}

theorem Act.settles {key : SlotKey} (act : Act may key t t') : t.shared.Settles t'.shared := by
  cases act with
  | host | dispatch | mark | count | markOpen | tune | flag => exact .of_eq rfl rfl
  | submit | submitPlain | cancel | cancelPlain => exact .of_eq rfl rfl
  | hand index task => exact .submit _ _ index task
  | complete peer id result => exact ⟨rfl, InvocationTable.settles_complete _ peer id result⟩
  | shut c cause =>
    simp only [Turn.shut]
    split
    · exact ⟨rfl, InvocationTable.settles_failWhere _ _ _ _⟩
    · exact .of_eq rfl rfl
  | release =>
    rw [releaseIfDone_eq]
    exact .refl _

theorem Work.settles (work : Work may t t') : t.shared.Settles t'.shared := by
  cases work with
  | act key act => exact act.settles
  | accept | make | windDown => exact .of_eq rfl rfl

theorem Works.settles (works : Works may t t') : t.shared.Settles t'.shared := by
  induction works with
  | refl => exact .refl _
  | tail _ work ih => exact ih.trans work.settles

theorem settles_popTask {task : Option Task} (popped : t.popTask = (task, t')) :
    t.shared.Settles t'.shared := by
  rw [Moment.eq_of_popTask popped]
  exact .of_eq rfl rfl

/-- A reactor that ends fails what goes through it, and registers nothing. -/
theorem settles_finish (t : Turn σ) : t.shared.Settles t.finish.shared := by
  rw [t.finish_eq.2]
  exact ⟨rfl, (InvocationTable.failAnywhere_spec _ _ _).1⟩

end Turn

theorem Moment.Move.settles {σ : Type} {m m' : Moment σ} {handed : Option Handover}
    (move : Moment.Move m handed m') : m.turn.shared.Settles m'.turn.shared := by
  cases move with
  | wait | mark | take => exact .of_eq rfl rfl
  | handle t c rest =>
    exact (Turn.works_all_onCompletion t c : Turn.Works .all t _).settles
  | run t task t' popped =>
    have ran : Turn.Works .all (t'.count fun s => { s with tasks := s.tasks + 1 }) _ :=
      Turn.works_all_onTask _ task
    have counted : t'.shared.Settles (t'.count fun s => { s with tasks := s.tasks + 1 }).shared :=
      .of_eq rfl rfl
    exact ((Turn.settles_popTask popped).trans counted).trans ran.settles

/-! ## Calls -/

namespace Shared

variable {σ : Type} {s s' s'' : Shared σ} {k : FutureId}

/-- What a call does.  Results stay, and its future is there. -/
structure Gains (k : FutureId) (s s' : Shared σ) : Prop where
  shuttingDown : s'.shuttingDown = s.shuttingDown
  retains : s.invocations.Retains s'.invocations
  future : (s'.invocations.standing k).isSome = true

theorem Settles.then_gains (h : s.Settles s') (h' : s'.Gains k s'') : s.Gains k s'' :=
  ⟨h'.shuttingDown.trans h.shuttingDown, h.invocations.toRetains.trans h'.retains, h'.future⟩

theorem Gains.then_settles (h : s.Gains k s') (h' : s'.Settles s'') : s.Gains k s'' :=
  ⟨h'.shuttingDown.trans h.shuttingDown, h.retains.trans h'.invocations.toRetains,
    h'.invocations.future k h.future⟩

theorem Settles.acquire (s : Shared σ) (thread : ThreadId) (l : Link) :
    s.Settles (s.acquire thread l).2 := by
  rw [acquire_eq]
  exact .of_eq rfl rfl

end Shared

namespace Engine

variable {σ : Type}

theorem gains_handOut (s : Shared σ) {f : InvocationFuture} {result : Outcome}
    (done : f.completion.result = some result) :
    s.Gains (handOut s f).1.2 (handOut s f).2 where
  shuttingDown := rfl
  retains := InvocationTable.retains_addFuture s.invocations done
  future := by
    simp only [handOut]
    rw [InvocationTable.standing_addFuture]
    simp only [InvocationTable.addFuture]
    rfl

theorem gains_send (s : Shared σ) (peer : Address) (index : Nat) (task : UInt64 → Task) :
    s.Gains (send s peer index task).1.2 (send s peer index task).2 := by
  have drawn : s.Settles { s with invocations := (s.invocations.nextId peer).2 } :=
    ⟨rfl, InvocationTable.settles_nextId _ peer⟩
  have handed := drawn.trans (.submit _ callerThread index (task (s.invocations.nextId peer).1))
  simp only [send]
  split
  · rename_i submitted
    rw [submitted] at handed
    exact handed.then_gains (gains_handOut _ rfl)
  · rename_i submitted
    rw [submitted] at handed
    exact handed.then_gains (gains_handOut _ rfl)

theorem gains_call (s : Shared σ) (peer : Address) (partition : Partition) (index : Nat)
    (task : UInt64 → Task) :
    s.Gains (call s peer partition index task).1.2 (call s peer partition index task).2 := by
  have registered : s.Gains (s.invocations.register peer partition index).2.1
      { s with invocations := (s.invocations.register peer partition index).2.2 } :=
    ⟨rfl, s.invocations.retains_register peer partition index,
      s.invocations.isSome_standing_register peer partition index⟩
  have handed := registered.then_settles
    (.submit _ callerThread index (task (s.invocations.register peer partition index).1))
  simp only [call]
  split
  · rename_i submitted
    rw [submitted] at handed
    exact handed
  · rename_i submitted
    rw [submitted] at handed
    exact handed.then_settles ⟨rfl, InvocationTable.settles_complete _ _ _ _⟩

theorem gains_invokeRemote (s : Shared σ) (peer : Address) (index : Nat) (r : Request) :
    s.Gains (invokeRemote s peer index r).1.2 (invokeRemote s peer index r).2 := by
  simp only [invokeRemote]
  split
  · rename_i e links made
    have linked : s.Settles { s with links } := .of_eq rfl rfl
    exact linked.then_gains (gains_handOut _ rfl)
  · rename_i l links made
    have linked : s.Settles { s with links } := .of_eq rfl rfl
    have acquired := linked.trans (.acquire _ callerThread l)
    split
    · rename_i result
      rw [result] at acquired
      exact acquired.then_gains (gains_handOut _ rfl)
    · rename_i s' result
      rw [result] at acquired
      split
      · exact acquired.then_gains (gains_send s' peer index _)
      · exact acquired.then_gains (gains_call s' peer r.partition index _)

/-- A call replaces no result, and its future is kept. -/
theorem gains_invoke (e : Engine σ) (r : Request) :
    e.shared.Gains (e.invoke r).1.2 (e.invoke r).2.shared := by
  simp only [invoke]
  split
  · exact gains_handOut _ rfl
  · split
    · simp only [invokeLocal]
      split
      · exact gains_send _ _ _ _
      · exact gains_call _ _ _ _ _
    · exact gains_invokeRemote _ _ _ _

/-- A call is rejected once the engine shuts down. -/
theorem invoke_of_shuttingDown {e : Engine σ} (down : e.shared.shuttingDown = true) (r : Request) :
    e.invoke r = ((0, e.shared.invocations.futures.size),
      { e with shared := { e.shared with
        invocations := (e.shared.invocations.addFuture (.failed .shuttingDown)).2 } }) :=
  invoke_of_route_error (if_pos down)

/-- Shutting down settles what waits. -/
theorem settles_shutdown (e : Engine σ) :
    e.shared.invocations.Settles e.shutdown.shared.invocations := by
  simp only [shutdown]
  split
  · exact .refl _
  · exact (InvocationTable.failAnywhere_spec _ _ _).1

end Engine

namespace World

variable {σ : Type} {w w' w'' w₀ : World σ}

/-! ## The whole life -/

/-- The invocations of the engine. -/
abbrev table (w : World σ) : InvocationTable := w.engine.shared.invocations

/-- Nothing waits for a result, and nothing will. -/
structure Over (w : World σ) : Prop where
  shuttingDown : w.engine.shared.shuttingDown = true
  minded : w.table.Minded
  idle : ∀ peer id i, ¬ w.table.Waits peer id i

theorem Over.of_settles (h : w.Over) (settles : w.engine.shared.Settles w'.engine.shared) :
    w'.Over where
  shuttingDown := settles.shuttingDown.trans h.shuttingDown
  minded := settles.invocations.minded h.minded
  idle peer id i waits := h.idle peer id i (settles.invocations.waits peer id i waits)

/-- Whatever happens is a call, shutting down, or it settles invocations. -/
theorem Happens.inversion (happens : Happens w w') :
    (∃ r, w' = { w with
      engine := (w.engine.invoke r).2
      calls := ((w.engine.invoke r).1.2, r) :: w.calls })
    ∨ w' = { w with engine := w.engine.shutdown }
    ∨ w.engine.shared.Settles w'.engine.shared ∧ w'.calls = w.calls := by
  cases happens with
  | launch => exact .inr (.inr ⟨.of_eq rfl rfl, rfl⟩)
  | step step =>
    cases step with
    | call r => exact .inl ⟨r, rfl⟩
    | shutdown => exact .inr (.inl rfl)
    | change | mark | drive => exact .inr (.inr ⟨.of_eq rfl rfl, rfl⟩)
    | begin i seat found running =>
      have woken : Turn.Works .all (w.turn seat) (w.turn seat).armWakeup :=
        .of_forall fun key => Turn.acts_armWakeup _ key trivial
      have began := woken.trans (.of_forall fun key => Turn.acts_armAccept _ key trivial)
      exact .inr (.inr ⟨began.settles, rfl⟩)
    | move i seat m handed found running move => exact .inr (.inr ⟨move.settles, rfl⟩)
    | finish i seat found running => exact .inr (.inr ⟨(w.turn seat).settles_finish, rfl⟩)

theorem Happens.retains (happens : Happens w w') : w.table.Retains w'.table := by
  obtain ⟨r, rfl⟩ | rfl | ⟨settles, -⟩ := happens.inversion
  · exact (w.engine.gains_invoke r).retains
  · exact w.engine.settles_shutdown.toRetains
  · exact settles.invocations.toRetains

/-- Results stay. -/
theorem Life.retains (life : Life w w') : w.table.Retains w'.table := by
  induction life with
  | refl => exact .refl _
  | tail _ happens ih => exact ih.trans happens.retains

/-- The futures that calls gave are there. -/
theorem Life.future (life : Life w w')
    (there : ∀ call ∈ w.calls, (w.table.standing call.1).isSome = true) :
    ∀ call ∈ w'.calls, (w'.table.standing call.1).isSome = true := by
  induction life with
  | refl => exact there
  | @tail w₁ w₂ _ happens ih =>
    intro call mem
    have kept := happens.retains.future call.1
    obtain ⟨r, rfl⟩ | rfl | ⟨-, same⟩ := happens.inversion
    · rcases List.mem_cons.mp mem with rfl | mem
      · exact (w₁.engine.gains_invoke r).future
      · exact kept (ih call mem)
    · exact kept (ih call mem)
    · exact kept (ih call (same ▸ mem))

/-! ## After shutting down -/

/-- Shutting down again changes nothing. -/
theorem Over.shutdown (h : w.Over) : w.engine.shutdown = w.engine :=
  Engine.shutdown_of_down h.shuttingDown

theorem Over.happens (h : w.Over) (happens : Happens w w') : w'.Over := by
  have minded := happens.retains.minded h.minded
  obtain ⟨r, rfl⟩ | rfl | ⟨settles, -⟩ := happens.inversion
  · have rejected := Engine.invoke_of_shuttingDown h.shuttingDown r
    refine ⟨?_, minded, ?_⟩
    · rw [rejected]
      exact h.shuttingDown
    · simp only [table, rejected]
      exact h.idle
  · rw [h.shutdown]
    exact h
  · exact h.of_settles settles

/-- It is over for good. -/
theorem Over.life (h : w.Over) (life : Life w w') : w'.Over := by
  induction life with
  | refl => exact h
  | tail _ happens ih => exact ih.happens happens

/-- Everything is done. -/
theorem Over.done (h : w.Over) (k : FutureId) : w.table.standing k ≠ some none := by
  intro pending
  obtain ⟨peer, id, i, waits, -⟩ := h.minded.awaited k pending
  exact h.idle peer id i waits

theorem Over.outstanding (h : w.Over) : w.table.outstanding = 0 := by
  rw [← InvocationTable.Records.length_waiting, List.length_eq_zero_iff,
    InvocationTable.Records.waiting, List.flatMap_eq_nil_iff]
  rintro ⟨peer, p⟩ mem
  rw [List.map_eq_nil_iff, List.eq_nil_iff_forall_not_mem]
  rintro ⟨id, i⟩ waits
  exact h.idle peer id i ⟨p, h.minded.keyed.get?_eq_some_iff.mpr mem, waits⟩

/-- Shutting down a minded engine ends it, and fails what was pending. -/
theorem over_shutdown (minded : w.table.Minded) (ended : w.engine.shared.shuttingDown = true → w.Over) :
    Over { w with engine := w.engine.shutdown }
      ∧ ∀ k, w.table.standing k = some none →
        w.engine.shutdown.shared.invocations.standing k = some (some (.error .shuttingDown)) := by
  cases down : w.engine.shared.shuttingDown with
  | true =>
    have h := ended down
    rw [h.shutdown]
    exact ⟨h, fun k pending => absurd pending (h.done k)⟩
  | false =>
    obtain ⟨settles, nothing, failed⟩ := InvocationTable.failAll_spec minded .shuttingDown
    have same : w.engine.shutdown = { w.engine with shared := { w.engine.shared with
        shuttingDown := true
        invocations := (w.engine.shared.invocations.failAll .shuttingDown).2
        reactors := w.engine.shared.reactors.map fun r => r.stop callerThread } } := by
      simp only [Engine.shutdown]
      rw [if_neg (by simp [down])]
    rw [same]
    exact ⟨⟨rfl, settles.minded minded, nothing⟩, failed⟩

/-- An engine that shuts down is over. -/
theorem Life.isOver (life : Life w w') (minded : w.table.Minded)
    (going : w.engine.shared.shuttingDown = false) :
    w'.engine.shared.shuttingDown = true → w'.Over := by
  induction life with
  | refl =>
    intro down
    cases going.symm.trans down
  | @tail w₁ w₂ before happens ih =>
    intro down
    have minded := (Life.retains before).minded minded
    obtain ⟨r, rfl⟩ | rfl | ⟨settles, -⟩ := happens.inversion
    · have before := (w₁.engine.gains_invoke r).shuttingDown.symm.trans down
      exact (ih before).happens happens
    · exact (over_shutdown minded ih).1
    · exact (ih (settles.shuttingDown.symm.trans down)).of_settles settles

/-! ## Shutting down -/

/-- However an engine came to be shut down, and whatever happens to it then, every future
is done and nothing is outstanding.  What was pending has failed, and what had a result
has it still.  A call fails at once, in a future of its own, and hands nothing over.
Shutting down again changes nothing. -/
theorem shutdown_is_final {host₀ host : Host} {config : Config} {registry : Registry σ}
    {e : Engine σ} (made : Engine.new host₀ config registry = .ok e)
    (before : Life (ofEngine host e) w)
    (after : Life { w with engine := w.engine.shutdown } w') :
    (∀ k, w'.table.standing k ≠ some none)
    ∧ (∀ call ∈ w'.calls, ∃ result, w'.table.standing call.1 = some (some result))
    ∧ w'.table.outstanding = 0
    ∧ (∀ k, w.table.standing k = some none →
      w'.table.standing k = some (some (.error .shuttingDown)))
    ∧ (∀ k result, w.table.standing k = some (some result) →
      w'.table.standing k = some (some result))
    ∧ (∀ w'', Life w' w'' → ∀ k result, w'.table.standing k = some (some result) →
      w''.table.standing k = some (some result))
    ∧ (∀ r, ∃ table, w'.engine.invoke r = ((0, w'.table.futures.size),
        { w'.engine with shared := { w'.engine.shared with invocations := table } })
      ∧ table.standing w'.table.futures.size = some (some (.error .shuttingDown)))
    ∧ w'.engine.shutdown = w'.engine := by
  obtain ⟨reactors, -, rfl⟩ := Engine.eq_of_new made
  have minded : w.table.Minded := (Life.retains before).minded InvocationTable.minded_empty
  have futures := Life.future (before.trans (.head (.step (.shutdown w)) after))
    fun call mem => by cases mem
  obtain ⟨down, failed⟩ :=
    over_shutdown minded (Life.isOver before InvocationTable.minded_empty rfl)
  have ended := down.life after
  have stays := Life.retains after
  refine ⟨ended.done, ?_, ended.outstanding, fun k pending => stays.result k _ (failed k pending),
    fun k result there => stays.result k result
      (w.engine.settles_shutdown.result k result there),
    fun w'' later => (Life.retains later).result, fun r => ?_, ended.shutdown⟩
  · intro call mem
    cases there : w'.table.standing call.1 with
    | none => simpa [there] using futures call mem
    | some arrived =>
      cases arrived with
      | none => exact absurd there (ended.done _)
      | some result => exact ⟨result, rfl⟩
  · refine ⟨_, Engine.invoke_of_shuttingDown ended.shuttingDown r, ?_⟩
    rw [InvocationTable.standing_addFuture, if_pos rfl]
    rfl

/-- An engine with one reactor that was made, and not started. -/
def unstarted : World Builtin.Item :=
  .ofEngine {} { shared :=
    { config := { reactorCount := 1 }, registry := .builtin, reactors := [.new 0 {} .blocking],
      links := { reactorCount := 1 } } }

/-- The engine at work.  Another one owns every partition. -/
def entrusted : World Builtin.Item :=
  let w := unstarted.launched {} { base := 23000, descriptors := [3] } [{}]
  { w with engine := w.engine.modifyShared fun s => { s with ownership := .allTo away } }

/-- The engine after a call that waits for its answer. -/
def awaiting : World Builtin.Item :=
  { entrusted with
    engine := (entrusted.engine.invoke request).2
    calls := [((entrusted.engine.invoke request).1.2, request)] }

/-- The call fails when the engine is shut down, and so does one that is made later. -/
theorem shutdown_is_final_of_call : ∃ w' : World Builtin.Item,
    Engine.new {} { reactorCount := 1 } .builtin = .ok unstarted.engine
    ∧ Life unstarted awaiting ∧ Life { awaiting with engine := awaiting.engine.shutdown } w'
    ∧ awaiting.table.standing 0 = some none
    ∧ w'.table.standing 0 = some (some (.error .shuttingDown))
    ∧ w'.calls = [(1, request), (0, request)] ∧ w'.table.outstanding = 0 := by
  have made : Engine.new {} { reactorCount := 1 } .builtin = .ok unstarted.engine := rfl
  have started : Life unstarted entrusted :=
    .tail (.single (.launch _ {} _ _ rfl rfl rfl)) (.step (.change _ {} (.allTo away)))
  have called : Life unstarted awaiting := started.tail (.step (.call entrusted request))
  have later : Life { awaiting with engine := awaiting.engine.shutdown } _ :=
    .single (.step (.call _ request))
  obtain ⟨-, -, none, failed, -⟩ := shutdown_is_final made called later
  exact ⟨_, made, called, later, rfl, failed 0 rfl, rfl, none⟩

end World

end PartitionEngine
