import PartitionEngine.Proofs.Backing
import PartitionEngine.Proofs.Confinement
import PartitionEngine.Proofs.Lives
import PartitionEngine.Proofs.Works

/-!
# Every partition has one reactor

A request gets to the dispatcher of a reactor in a task of a call, in a task that another
reactor passed on, or from a channel of its own.  The tasks are handed to the reactor of
their partition (`Task.Home`), and a request from a channel is run if the partition is of
the reactor and passed on if not.  So a reactor dispatches requests for its own
partitions alone (`Turn.Affine`), in the whole life of an engine, and no partition has
tables on two reactors (`World.partition_affinity`).
-/

namespace PartitionEngine

/-- Out of `n` reactors, a task that runs a request is at the one of its partition. -/
def Task.Home (n i : Nat) (task : Task) : Prop :=
  ∀ p, task.partition? = some p → reactorIndex p n = i

namespace Shared

variable {σ : Type} {n : Nat} {s s' s'' : Shared σ}

/-- Settings and reactors stay, and every task that is handed over gets where it belongs. -/
structure Homes (n : Nat) (s s' : Shared σ) : Prop where
  config : s'.config = s.config
  registry : s'.registry = s.registry
  count : s'.reactors.length = s.reactors.length
  queued : ∀ i, ∀ task ∈ s'.queued i, task ∈ s.queued i ∨ task.Home n i

namespace Homes

/-- What leaves the queues alone. -/
theorem of_reactors (config : s'.config = s.config) (registry : s'.registry = s.registry)
    (reactors : s'.reactors = s.reactors) : s.Homes n s' where
  config := config
  registry := registry
  count := congrArg List.length reactors
  queued i task mem := by
    rw [Shared.queued, reactor?, reactors] at mem
    exact .inl mem

theorem refl (s : Shared σ) : s.Homes n s := of_reactors rfl rfl rfl

theorem trans (h : s.Homes n s') (h' : s'.Homes n s'') : s.Homes n s'' where
  config := h'.config.trans h.config
  registry := h'.registry.trans h.registry
  count := h'.count.trans h.count
  queued i task mem := (h'.queued i task mem).elim (h.queued i task) .inr

/-- A handle changes, and has no task that it had not. -/
theorem handle {f : ReactorHandle → ReactorHandle} {i : Nat}
    (own : ∀ r, s.reactor? i = some r → ∀ task ∈ (f r).queue.tasks.toList,
      task ∈ r.queue.tasks.toList ∨ task.Home n i) : s.Homes n (s.modifyReactor i f) where
  config := rfl
  registry := rfl
  count := List.length_modify ..
  queued j task mem := by
    rw [queued_modifyReactor] at mem
    split at mem
    · rename_i same
      subst same
      cases found : s.reactor? i with
      | none => simp [found] at mem
      | some r =>
        simp only [found, Option.map_some, Option.getD_some] at mem
        simp only [Shared.queued, found, Option.map_some, Option.getD_some]
        exact own r found task mem
    · exact .inl mem

theorem submit (s : Shared σ) (thread : ThreadId) {i : Nat} {task : Task} (home : task.Home n i) :
    s.Homes n (s.submit thread i task).2 := by
  obtain ⟨r, found, -, taken⟩ | ⟨-, e, refused⟩ := s.submit_cases thread i task
  · rw [taken]
    refine .handle fun r' found' other mem => ?_
    cases found.symm.trans found'
    rw [TaskQueue.tasks_push, Fifo.toList_push, List.mem_append, List.mem_singleton] at mem
    rcases mem with old | rfl
    · exact .inl old
    · exact .inr home
  · rw [refused]
    exact .refl s

end Homes

/-- Whoever asks for a connection asks no more. -/
theorem homes_acquire (s : Shared σ) (thread : ThreadId) (l : Link) :
    s.Homes n (s.acquire thread l).2 := by
  obtain ⟨s', -, submitted, same⟩ | ⟨-, same⟩ | ⟨-, e, same⟩ := s.acquire_cases thread l
  · have asked : s.Homes n (s.submit thread l.index (.connect l)).2 :=
      .submit s thread fun _ runs => by cases runs
    rw [submitted] at asked
    rw [same]
    exact asked.trans (.of_reactors rfl rfl rfl)
  · rw [same]
    exact .refl s
  · rw [same]
    exact .refl s

end Shared

/-! ## Reactors -/

/-- A handler of reactor `i` out of `n` that runs requests and hands tasks over where they
belong. -/
def Scope.affine (n i : Nat) : Scope where
  runs p := reactorIndex p n = i
  relays index task := task.Home n index

theorem Scope.serving_affine (n i : Nat) : (Scope.affine n i).Serving n i where
  sends := trivial
  runs _ own := own
  forwards f origin p runs := by
    cases runs
    rfl
  replies _ _ _ runs := by cases runs

namespace Turn

variable {σ : Type} {n i : Nat} {t t' t'' : Turn σ}

/-- Reactor `i` out of `n` dispatched requests for its own partitions, and handed tasks
over where they belong. -/
structure Affine (n i : Nat) (t t' : Turn σ) : Prop where
  index : t'.reactor.index = t.reactor.index
  shared : t.shared.Homes n t'.shared
  serves : ∃ log : List Errand, (∀ e ∈ log, reactorIndex e.partition n = i)
    ∧ t'.reactor.dispatcher = log.foldl Dispatcher.serve t.reactor.dispatcher

namespace Affine

/-- What dispatches nothing. -/
theorem of_shared (index : t'.reactor.index = t.reactor.index)
    (dispatcher : t'.reactor.dispatcher = t.reactor.dispatcher)
    (shared : t.shared.Homes n t'.shared) : t.Affine n i t' :=
  ⟨index, shared, [], nofun, dispatcher⟩

theorem refl (t : Turn σ) : t.Affine n i t := of_shared rfl rfl (.refl _)

theorem trans (h : t.Affine n i t') (h' : t'.Affine n i t'') : t.Affine n i t'' where
  index := h'.index.trans h.index
  shared := h.shared.trans h'.shared
  serves := by
    obtain ⟨log, own, served⟩ := h.serves
    obtain ⟨log', own', served'⟩ := h'.serves
    refine ⟨log ++ log', fun e mem => (List.mem_append.mp mem).elim (own e) (own' e), ?_⟩
    rw [List.foldl_append, ← served, served']

end Affine

theorem affine_count (t : Turn σ) (f : ReactorStats → ReactorStats) :
    t.Affine n i (t.count f) :=
  .of_shared rfl rfl (.handle fun _ _ _ mem => .inl mem)

theorem affine_releaseIfDone (t : Turn σ) (key : SlotKey) :
    t.Affine n i (t.releaseIfDone key) := by
  rw [releaseIfDone_eq]
  exact .of_shared rfl rfl (.refl _)

theorem Act.affine {key : SlotKey} (act : Act (.affine n i) key t t') : t.Affine n i t' := by
  cases act with
  | host | mark | tune | submit | submitPlain | cancel | cancelPlain | flag =>
    exact .of_shared rfl rfl (.refl _)
  | complete | markOpen => exact .of_shared rfl rfl (.of_reactors rfl rfl rfl)
  | dispatch opcode partition correlationId input runs =>
    refine ⟨rfl, .refl _, [⟨opcode, partition, correlationId, input⟩], ?_, rfl⟩
    intro e mem
    cases List.mem_singleton.mp mem
    exact runs
  | count f => exact affine_count t f
  | hand index task relay home => exact .of_shared rfl rfl (.submit _ _ home)
  | shut c cause =>
    have closed : t.Affine n i (t.count fun s => { s with closed := s.closed + 1 }) :=
      affine_count t _
    rw [shut_eq]
    exact closed.trans (.of_shared rfl rfl (.of_reactors rfl rfl rfl))
  | release => exact affine_releaseIfDone t key

theorem Works.affine (works : Works (.affine n i) t t') : t.Affine n i t' := by
  induction works with
  | refl => exact .refl t
  | @tail t₁ _ _ work ih =>
    refine ih.trans ?_
    cases work with
    | act key act => exact act.affine
    | accept | windDown => exact .of_shared rfl rfl (.refl _)
    | make l =>
      have counted : t₁.Affine n i (t₁.count fun s => { s with connects := s.connects + 1 }) :=
        affine_count t₁ _
      exact counted.trans (.of_shared rfl rfl (.of_reactors rfl rfl rfl))

/-- A reactor that ends hands responses back, and no more. -/
theorem affine_finish (t : Turn σ) : t.Affine n i t.finish := by
  obtain ⟨reactor, shared⟩ := t.finish_eq
  refine .of_shared (by rw [reactor]) (by rw [reactor]) ?_
  rw [shared]
  have dead : t.shared.Homes n (t.shared.modifyReactor t.reactor.index .markDead) :=
    .handle fun _ _ _ mem => .inl mem
  have buried : t.shared.Homes n (t.shared.bury t.reactor.index) :=
    dead.trans (.handle fun _ _ _ mem => by cases mem)
  have answered : (t.shared.bury t.reactor.index).Homes n _ := Shared.retire_of_reply .refl .trans
    (fun _ _ _ _ _ => .submit _ _ fun _ runs => by cases runs) t.shared t.reactor.thread
    t.reactor.index
  exact (buried.trans answered).trans (.of_reactors rfl rfl rfl)

theorem affine_popTask {task : Option Task} (popped : t.popTask = (task, t')) :
    t.Affine n i t' := by
  simp only [popTask] at popped
  split at popped
  · cases popped
    exact .refl t
  · rename_i h found
    cases popped
    refine .of_shared rfl rfl (.handle fun r found' task mem => .inl ?_)
    cases found.symm.trans found'
    simp only [TaskQueue.pop] at mem
    split at mem
    · exact mem
    · rename_i taken
      rw [Fifo.toList_of_pop? taken]
      exact List.mem_cons_of_mem _ mem

end Turn

/-- A reactor out of `n` whose queued tasks belong to it makes a move. -/
theorem Moment.Move.affine {σ : Type} {n i : Nat} {m m' : Moment σ} {handed : Option Handover}
    (move : Moment.Move m handed m') (here : m.turn.reactor.index = i)
    (count : m.turn.shared.reactors.length = n)
    (home : ∀ task ∈ m.turn.shared.queued i, task.Home n i) : m.turn.Affine n i m'.turn := by
  subst here count
  cases move with
  | wait | take => exact .of_shared rfl rfl (.refl _)
  | mark t f keep =>
    refine .of_shared rfl rfl (.handle fun r found task mem => .inl ?_)
    rw [keep r found] at mem
    exact mem
  | handle t c rest =>
    exact (Turn.works_onCompletion t c (Scope.serving_affine _ _) trivial trivial
      (fun _ => trivial) trivial trivial).affine
  | run t task t' popped =>
    have oldest := (Turn.takes_popTask popped).2.2
    have taken : t.Affine t.shared.reactors.length t.reactor.index
        (t'.count fun s => { s with tasks := s.tasks + 1 }) :=
      (Turn.affine_popTask popped).trans (Turn.affine_count t' _)
    refine taken.trans (Turn.works_onTask _ task ?_ ?_ (fun _ => trivial) trivial trivial).affine
    · rw [taken.shared.count, taken.index]
      exact Scope.serving_affine _ _
    · exact home task (oldest ▸ List.mem_cons_self)

/-! ## Calls -/

namespace Engine

variable {σ : Type} {s s' : Shared σ} {n : Nat} {r : Request}

theorem CallStep.homes (step : CallStep r (reactorIndex r.partition n) s s') : s.Homes n s' := by
  cases step with
  | keep | link => exact .of_reactors rfl rfl rfl
  | acquire l => exact Shared.homes_acquire _ callerThread l
  | run id =>
    refine .submit _ callerThread fun p runs => ?_
    cases runs
    rfl
  | write => exact .submit _ callerThread fun p runs => by cases runs

theorem homes_invoke (e : Engine σ) (r : Request) :
    e.shared.Homes e.shared.reactors.length (e.invoke r).2.shared :=
  e.rel_invoke r .refl .trans CallStep.homes

theorem homes_shutdown (e : Engine σ) : e.shared.Homes n e.shutdown.shared := by
  refine ⟨e.onward_shutdown.config, by rw [shutdown_eq], e.onward_shutdown.count,
    fun i task mem => ?_⟩
  obtain ⟨stops, queued, stop⟩ := e.queued_shutdown i
  rw [queued, List.mem_append] at mem
  refine mem.imp_right fun mem p runs => ?_
  rw [stop task mem] at runs
  cases runs

end Engine

/-! ## The whole life -/

namespace World

variable {σ : Type} {w w' w₀ : World σ} {config : Config} {registry : Registry σ}

/-- Every reactor has dispatched requests for its own partitions alone, and so it will. -/
structure Affine (config : Config) (registry : Registry σ) (w : World σ) : Prop where
  settings : w.engine.shared.config = config
  operations : w.engine.shared.registry = registry
  count : w.engine.shared.reactors.length = config.reactorCount
  home : ∀ i, ∀ task ∈ w.engine.shared.queued i, task.Home config.reactorCount i
  index : ∀ i seat, w.seat? i = some seat → seat.reactor.index = i
  serves : ∀ i seat, w.seat? i = some seat → ∃ log : List Errand,
    (∀ e ∈ log, reactorIndex e.partition config.reactorCount = i)
    ∧ seat.reactor.dispatcher = log.foldl Dispatcher.serve (.new registry config.opPoolCapacity)

namespace Affine

/-- What is shared changes. -/
theorem share (h : w.Affine config registry)
    (homes : w.engine.shared.Homes config.reactorCount w'.engine.shared)
    (seats : w'.engine.seats = w.engine.seats) : w'.Affine config registry where
  settings := homes.config.trans h.settings
  operations := homes.registry.trans h.operations
  count := homes.count.trans h.count
  home i task mem := (homes.queued i task mem).elim (h.home i task) id
  index i seat found := h.index i seat (by rw [seat?, ← seats]; exact found)
  serves i seat found := h.serves i seat (by rw [seat?, ← seats]; exact found)

/-- A reactor comes to a moment. -/
theorem advance (h : w.Affine config registry) {i : Nat} {seat : Seat σ} {m : Moment σ}
    {phase : Phase} {handed : Option Handover} (found : w.seat? i = some seat)
    (affine : (w.turn seat).Affine config.reactorCount i m.turn) :
    (w.advance i phase m handed).Affine config registry where
  settings := affine.shared.config.trans h.settings
  operations := affine.shared.registry.trans h.operations
  count := affine.shared.count.trans h.count
  home j task mem := (affine.shared.queued j task mem).elim (h.home j task) id
  index j seat' found' := by
    obtain ⟨rfl, rfl⟩ | ⟨-, found'⟩ := seat?_advance_cases found found'
    · exact affine.index.trans (h.index j seat found)
    · exact h.index j seat' found'
  serves j seat' found' := by
    obtain ⟨rfl, rfl⟩ | ⟨-, found'⟩ := seat?_advance_cases found found'
    · obtain ⟨log, own, served⟩ := h.serves j seat found
      obtain ⟨log', own', served'⟩ := affine.serves
      refine ⟨log ++ log', fun e mem => (List.mem_append.mp mem).elim (own e) (own' e), ?_⟩
      rw [List.foldl_append, ← served]
      exact served'
    · exact h.serves j seat' found'

theorem step (h : w.Affine config registry) (step : Step w w') : w'.Affine config registry := by
  cases step with
  | call r => exact h.share (h.count ▸ w.engine.homes_invoke r) rfl
  | shutdown =>
    refine h.share w.engine.homes_shutdown ?_
    rw [Engine.shutdown_eq]
  | change => exact h.share (.of_reactors rfl rfl rfl) rfl
  | mark i f keep =>
    refine h.share (.handle fun r _ task mem => .inl ?_) rfl
    rw [keep r] at mem
    exact mem
  | drive i seat driver found => exact h.advance found (.of_shared rfl rfl (.refl _))
  | begin i seat found =>
    have woken : Turn.Works (.affine config.reactorCount i) (w.turn seat) (w.turn seat).armWakeup :=
      .of_forall fun key => Turn.acts_armWakeup _ key trivial
    exact h.advance found
      (woken.trans (.of_forall fun key => Turn.acts_armAccept _ key trivial)).affine
  | move i seat m handed found running move =>
    exact h.advance found (move.affine (h.index i seat found) h.count (h.home i))
  | finish i seat found => exact h.advance found (Turn.affine_finish _)

/-- The reactors of an engine that is started have dispatched nothing. -/
theorem launch (h : w.Affine config registry) (host : Host) (group : ListenGroup)
    (drivers : List CompletionQueue) : (w.launched host group drivers).Affine config registry where
  settings := h.settings
  operations := h.operations
  count := h.count
  home := h.home
  index i seat found := (reactor_launched found).1
  serves i seat found := by
    refine ⟨[], nofun, (reactor_launched found).2.trans ?_⟩
    rw [h.operations, h.settings]
    rfl

theorem life (h : w.Affine config registry) (life : Life w w') : w'.Affine config registry := by
  induction life with
  | refl => exact h
  | tail _ happens ih =>
    cases happens with
    | step step => exact ih.step step
    | launch host group drivers => exact ih.launch host group drivers

end Affine

/-- An engine that is made has no reactor and no task. -/
theorem affine_new {host₀ host : Host} {config : Config} {registry : Registry σ} {e : Engine σ}
    (made : Engine.new host₀ config registry = .ok e) :
    (ofEngine host e).Affine config registry := by
  obtain ⟨reactors, count, rfl⟩ := Engine.eq_of_new made
  have queued := (Engine.new_spec made).2.1
  refine ⟨rfl, rfl, count, fun i task mem => ?_, fun _ _ => nofun, fun _ _ => nofun⟩
  rw [ofEngine, queued] at mem
  cases mem

/-- A reactor has a table for a partition. -/
def HasTable (w : World σ) (i : Nat) (p : Partition) : Prop :=
  ∃ seat, w.seat? i = some seat ∧ (seat.reactor.dispatcher.tables.tables.get? p).isSome = true

/-- Every partition belongs to one of the reactors.  Whatever happened to an engine, the
dispatcher of a reactor is what the requests it ran made of a new one, and all of them
were for partitions of that reactor.  If operations keep to the partitions they are
called for, a reactor has tables for its own partitions alone, and no partition has
tables on two reactors. -/
theorem partition_affinity {host₀ host : Host} {config : Config} {registry : Registry σ}
    {e : Engine σ} (made : Engine.new host₀ config registry = .ok e)
    (life : Life (ofEngine host e) w) :
    (∀ p, w.engine.shared.reactorOf p < w.engine.shared.reactors.length)
    ∧ (∀ i seat, w.seat? i = some seat → ∃ log : List Errand,
      (∀ e ∈ log, w.engine.shared.reactorOf e.partition = i)
      ∧ seat.reactor.dispatcher = log.foldl Dispatcher.serve (.new registry config.opPoolCapacity))
    ∧ (registry.Confined → (∀ i p, w.HasTable i p → w.engine.shared.reactorOf p = i)
      ∧ ∀ i j p, w.HasTable i p → w.HasTable j p → i = j) := by
  have h := (affine_new made).life life
  have serves : ∀ i seat, w.seat? i = some seat → ∃ log : List Errand,
      (∀ e ∈ log, w.engine.shared.reactorOf e.partition = i)
      ∧ seat.reactor.dispatcher
        = log.foldl Dispatcher.serve (.new registry config.opPoolCapacity) := by
    intro i seat found
    obtain ⟨log, own, served⟩ := h.serves i seat found
    refine ⟨log, fun e mem => ?_, served⟩
    rw [Shared.reactorOf, h.count]
    exact own e mem
  have tables (confined : registry.Confined) (i : Nat) (p : Partition) (has : w.HasTable i p) :
      w.engine.shared.reactorOf p = i := by
    obtain ⟨seat, found, there⟩ := has
    obtain ⟨log, own, served⟩ := serves i seat found
    rw [served] at there
    obtain none | ⟨e, mem, rfl⟩ :=
      Dispatcher.isSome_table_serve (Dispatcher.confined_new confined _) log there
    · cases none
    · exact own e mem
  refine ⟨fun p => reactorIndex_lt p ?_, serves, fun confined => ⟨tables confined, ?_⟩⟩
  · exact h.count ▸ Engine.reactorCount_pos_of_new made
  · intro i j p has has'
    exact (tables confined i p has).symm.trans (tables confined j p has')

/-- An engine with two reactors that was made, and not started. -/
def idle : World Builtin.Item :=
  .ofEngine {} { shared :=
    { config := { reactorCount := 2 }, registry := .builtin,
      reactors := [.new 0 {} .blocking, .new 1 {} .blocking], links := { reactorCount := 2 } } }

/-- The engine at work.  It owns every partition. -/
def owning : World Builtin.Item :=
  let w := idle.launched {} { base := 23000, descriptors := [3, 4] } [{}, {}]
  { w with engine := w.engine.modifyShared fun s => { s with ownership := .allTo home } }

/-- A value for a key of a partition of the second reactor. -/
def storing : Request := { opcode := 2, partition := 7, payload := upsertPayload [1] [2] }

/-- The engine after a call to store the value. -/
def stored : World Builtin.Item :=
  { owning with
    engine := (owning.engine.invoke storing).2
    calls := [((owning.engine.invoke storing).1.2, storing)] }

/-- The second reactor has run the task of the call.  It has the table of the partition,
and the first has none. -/
theorem partition_affinity_of_storing : ∃ w : World Builtin.Item,
    Engine.new {} { reactorCount := 2 } .builtin = .ok idle.engine ∧ Life idle w
    ∧ w.HasTable 1 7 ∧ w.engine.shared.reactorOf 7 = 1 ∧ ¬ w.HasTable 0 7 := by
  have made : Engine.new {} { reactorCount := 2 } .builtin = .ok idle.engine := rfl
  have started : Life idle owning :=
    .tail (.single (.launch _ {} _ _ rfl rfl rfl)) (.step (.change _ {} (.allTo home)))
  have called : Life idle stored := started.tail (.step (.call owning storing))
  have ran : Life idle (stored.runTask 1) :=
    called.tail (.step (.move stored 1 _ _ _ rfl rfl (.run _ _ _ rfl)))
  have affine := (partition_affinity made ran).2.2 Registry.confined_builtin
  have has : (stored.runTask 1).HasTable 1 7 := ⟨_, rfl, rfl⟩
  exact ⟨_, made, ran, has, affine.1 1 7 has, fun other => by cases affine.2 1 0 7 has other⟩

end World

end PartitionEngine
