import PartitionEngine.Proofs.Backing
import PartitionEngine.Proofs.Posting
import PartitionEngine.Proofs.Turns

/-!
# Histories

A run of an engine, with a list of what its reactors did.  What came of a request,
or how often a link was connected, is a function of that list.

A step of a history is a step of the world it takes place in (`Does.step`).  Nobody
but a reactor that ends changes whether a reactor is alive.  Winding down and having
ended are for good, so what goes on at the end of a history went on all along
(`Step.going`, `Step.awake`).
-/

namespace PartitionEngine

namespace Turn

variable {σ : Type} {t t' : Turn σ} {i : Nat} {task : Task}

/-- What a reactor does that is about no channel, no link and no task. -/
structure Rests (t t' : Turn σ) : Prop where
  index : t'.reactor.index = t.reactor.index
  dispatcher : t'.reactor.dispatcher = t.reactor.dispatcher
  channels : t'.reactor.channels = t.reactor.channels
  outbound : t'.reactor.outbound = t.reactor.outbound
  asks : t.shared.Asks t'.shared
  links : t'.shared.links = t.shared.links

theorem Rests.of_shared (index : t'.reactor.index = t.reactor.index)
    (dispatcher : t'.reactor.dispatcher = t.reactor.dispatcher)
    (channels : t'.reactor.channels = t.reactor.channels)
    (outbound : t'.reactor.outbound = t.reactor.outbound) (same : t'.shared = t.shared) :
    Rests t t' :=
  ⟨index, dispatcher, channels, outbound, same ▸ .refl _, by rw [same]⟩

theorem Rests.trans {t'' : Turn σ} (h : Rests t t') (h' : Rests t' t'') : Rests t t'' where
  index := h'.index.trans h.index
  dispatcher := h'.dispatcher.trans h.dispatcher
  channels := h'.channels.trans h.channels
  outbound := h'.outbound.trans h.outbound
  asks := h.asks.trans h'.asks
  links := h'.links.trans h.links

theorem rests_armWakeup (t : Turn σ) : Rests t t.armWakeup := by
  have submitted : Rests t (t.submit (.plain .wakeup) (.read none 8)).2 :=
    .of_shared rfl rfl rfl rfl rfl
  simp only [armWakeup]
  split
  all_goals
    rename_i result
    rw [result] at submitted
    exact submitted.trans (.of_shared rfl rfl rfl rfl rfl)

theorem rests_armAccept (t : Turn σ) : Rests t t.armAccept := by
  have submitted : Rests t (t.submit (.plain .accept) (.accept t.reactor.listener)).2 :=
    .of_shared rfl rfl rfl rfl rfl
  simp only [armAccept]
  split
  · exact .of_shared rfl rfl rfl rfl rfl
  · split
    all_goals
      rename_i result
      rw [result] at submitted
      exact submitted.trans (.of_shared rfl rfl rfl rfl rfl)

/-- The reactor `i` has taken the oldest task off its queue. -/
structure Took (i : Nat) (task : Task) (t t' : Turn σ) : Prop where
  reactor : t'.reactor = t.reactor
  config : t'.shared.config = t.shared.config
  count : t'.shared.reactors.length = t.shared.reactors.length
  alive : ∀ j, t'.shared.isAlive j = t.shared.isAlive j
  links : t'.shared.links = t.shared.links
  own : t.shared.queued i = task :: t'.shared.queued i
  others : ∀ j, j ≠ i → t'.shared.queued j = t.shared.queued j

theorem took_popTask (popped : t.popTask = (some task, t')) (f : ReactorStats → ReactorStats) :
    Took t.reactor.index task t (t'.count f) := by
  obtain ⟨reactor, takes, own⟩ := takes_popTask popped
  have taken := takes.trans (t'.takes_count f t.reactor.index)
  have rest : (∀ j, t'.shared.isAlive j = t.shared.isAlive j)
      ∧ t'.shared.links = t.shared.links := by
    simp only [popTask] at popped
    split at popped
    · cases popped
    · rename_i r found
      cases popped' : r.queue.pop with
      | mk first queue =>
        rw [popped'] at popped
        cases popped
        exact ⟨Shared.isAlive_modifyReactor fun _ _ => rfl, rfl⟩
  have counted : ∀ j, (t'.count f).shared.isAlive j = t'.shared.isAlive j :=
    Shared.isAlive_modifyReactor (f := fun r => r.count f) fun _ _ => rfl
  exact ⟨reactor, taken.config, taken.count, fun j => (counted j).trans (rest.1 j), rest.2,
    own.trans (congrArg (task :: ·) (queued_count t' f _).symm), taken.others⟩

/-- A task that passes nothing on is not missed. -/
theorem Took.relays_of_not_relay (took : Took i task t t') (plain : task.isRelay = false)
    (j : Nat) :
    t'.shared.relays j = t.shared.relays j := by
  by_cases same : j = i
  · subst same
    rw [Shared.relays, Shared.relays, took.own, List.filter_cons_of_neg (by simp [plain])]
  · rw [Shared.relays, took.others j same]
    rfl

/-- A task that passes something on was the first that does. -/
theorem Took.relays_of_relay (took : Took i task t t') (relay : task.isRelay = true) :
    t.shared.relays i = task :: t'.shared.relays i
      ∧ ∀ j, j ≠ i → t'.shared.relays j = t.shared.relays j := by
  constructor
  · rw [Shared.relays, took.own, List.filter_cons_of_pos relay]
    rfl
  · intro j other
    rw [Shared.relays, took.others j other]
    rfl

end Turn

/-- A reactor that is told to stop has one more task, which passes nothing on. -/
theorem Engine.asks_shutdown {σ : Type} (e : Engine σ) : e.shared.Asks e.shutdown.shared := by
  refine .of_links e.onward_shutdown ⟨e.onward_shutdown.config, e.onward_shutdown.count, ?_, ?_⟩
    (by rw [shutdown_eq])
  · intro i
    rw [Shared.isAlive, reactor?_shutdown, Option.map_map, Shared.isAlive]
    cases e.shared.shuttingDown <;> rfl
  · intro i
    obtain ⟨stops, queued, stop⟩ := e.queued_shutdown i
    have none : stops.filter Task.isRelay = [] :=
      List.filter_eq_nil_iff.mpr fun task mem => by simp [stop task mem, Task.isRelay]
    rw [Shared.relays, queued, List.filter_append, none]
    rfl

/-- What a reactor did, and what it saw when it began. -/
inductive Deed (σ : Type) where
  /-- The reactor handled a completion. -/
  | handled (i : Nat) (t : Turn σ) (c : IoCompletion Token)
  /-- The reactor ran a task, which was off its queue by then. -/
  | ran (i : Nat) (t : Turn σ) (task : Task)
  /-- The reactor ended. -/
  | ended (i : Nat) (t : Turn σ)

namespace Deed

variable {σ : Type}

/-- The reactor that did it. -/
def reactor : Deed σ → Nat
  | handled i .. | ran i .. | ended i _ => i

/-- What the reactor saw when it began. -/
def before : Deed σ → Turn σ
  | handled _ t _ | ran _ t _ | ended _ t => t

/-- What the reactor saw when it was done. -/
def after : Deed σ → Turn σ
  | handled _ t c => t.onCompletion c
  | ran _ t task => t.onTask task
  | ended _ t => t.finish

end Deed

namespace World

variable {σ : Type} {w w' w₀ : World σ} {d : Option (Deed σ)} {ds : List (Deed σ)} {i : Nat}

/-- What happens to an engine at work, and what a reactor did if it was that. -/
inductive Does : World σ → Option (Deed σ) → World σ → Prop where
  | call (w : World σ) (r : Request) :
      Does w none { w with
        engine := (w.engine.invoke r).2
        calls := ((w.engine.invoke r).1.2, r) :: w.calls }
  | shutdown (w : World σ) : Does w none { w with engine := w.engine.shutdown }
  | change (w : World σ) (host : Host) (ownership : Ownership) :
      Does w none { w with host, engine := w.engine.modifyShared fun s => { s with ownership } }
  /-- The handle of a reactor changes, but no task of it, and not whether it is alive. -/
  | mark (w : World σ) (i : Nat) (f : ReactorHandle → ReactorHandle)
      (keep : ∀ r, (f r).queue.tasks = r.queue.tasks) (alive : ∀ r, (f r).alive = r.alive) :
      Does w none { w with engine := w.engine.modifyShared fun s => s.modifyReactor i f }
  | drive (w : World σ) (i : Nat) (seat : Seat σ) (driver : CompletionQueue)
      (found : w.seat? i = some seat) (running : seat.phase = .asleep) :
      Does w none (w.advance i .asleep
        ⟨{ w.turn seat with reactor := { seat.reactor with driver } }, w.batches i⟩ none)
  | begin (w : World σ) (i : Nat) (seat : Seat σ)
      (found : w.seat? i = some seat) (running : seat.phase = .asleep) :
      Does w none (w.advance i .asleep ⟨(w.turn seat).armWakeup.armAccept, w.batches i⟩ none)
  | wait (w : World σ) (i : Nat) (seat : Seat σ)
      (found : w.seat? i = some seat) (running : seat.phase = .asleep) (idle : w.batches i = []) :
      Does w none (w.advance i .asleep ⟨(w.turn seat).endWait.2, []⟩ none)
  /-- The reactor changes its own handle, but no task of it, and not whether it is alive. -/
  | signal (w : World σ) (i : Nat) (seat : Seat σ) (f : ReactorHandle → ReactorHandle)
      (found : w.seat? i = some seat) (running : seat.phase = .asleep) (idle : w.batches i = [])
      (keep : ∀ r, (w.turn seat).handle? = some r → (f r).queue.tasks = r.queue.tasks)
      (alive : ∀ r, (f r).alive = r.alive) :
      Does w none (w.advance i .asleep ⟨(w.turn seat).modifyHandle f, []⟩ none)
  | take (w : World σ) (i : Nat) (seat : Seat σ) (limit : Nat)
      (found : w.seat? i = some seat) (running : seat.phase = .asleep) (idle : w.batches i = []) :
      Does w none (w.advance i .asleep
        ⟨{ w.turn seat with reactor :=
            { seat.reactor with driver := (seat.reactor.driver.drain limit).2 } },
          (seat.reactor.driver.drain limit).1⟩ none)
  | handle (w : World σ) (i : Nat) (seat : Seat σ) (c : IoCompletion Token)
      (rest : List (IoCompletion Token)) (found : w.seat? i = some seat)
      (running : seat.phase = .asleep) (batch : w.batches i = c :: rest) :
      Does w (some (.handled i (w.turn seat) c))
        (w.advance i .asleep ⟨(w.turn seat).onCompletion c, rest⟩ none)
  | run (w : World σ) (i : Nat) (seat : Seat σ) (task : Task) (t : Turn σ)
      (found : w.seat? i = some seat) (running : seat.phase = .asleep) (idle : w.batches i = [])
      (popped : (w.turn seat).popTask = (some task, t)) :
      Does w (some (.ran i (t.count fun s => { s with tasks := s.tasks + 1 }) task))
        (w.advance i .asleep
          ⟨(t.count fun s => { s with tasks := s.tasks + 1 }).onTask task, []⟩
          ((t.count fun s => { s with tasks := s.tasks + 1 }).handover? task))
  | finish (w : World σ) (i : Nat) (seat : Seat σ)
      (found : w.seat? i = some seat) (running : seat.phase = .asleep) :
      Does w (some (.ended i (w.turn seat)))
        (w.advance i .ended ⟨(w.turn seat).finish, w.batches i⟩ none)

theorem Does.step (does : Does w d w') : Step w w' := by
  cases does with
  | call r => exact .call w r
  | shutdown => exact .shutdown w
  | change host ownership => exact .change w host ownership
  | mark i f keep _ => exact .mark w i f keep
  | drive i seat driver found running => exact .drive w i seat driver found running
  | begin i seat found running => exact .begin w i seat found running
  | wait i seat found running idle =>
    exact .move w i seat _ _ found running (by rw [idle]; exact .wait _)
  | signal i seat f found running idle keep _ =>
    exact .move w i seat _ _ found running (by rw [idle]; exact .mark _ f keep)
  | take i seat limit found running idle =>
    exact .move w i seat _ _ found running (by rw [idle]; exact .take _ limit)
  | handle i seat c rest found running batch =>
    exact .move w i seat _ _ found running (by rw [batch]; exact .handle _ c rest)
  | run i seat task t found running idle popped =>
    exact .move w i seat _ _ found running (by rw [idle]; exact .run _ task t popped)
  | finish i seat found running => exact .finish w i seat found running

/-- What a step does.  Somebody asks for something, or a reactor rests, handles a
completion, runs a task or ends. -/
theorem Does.inversion (does : Does w d w') (h : w.Sound) :
    d = none ∧ w'.engine.seats = w.engine.seats ∧ w.engine.shared.Asks w'.engine.shared
    ∨ ∃ i seat, w.seat? i = some seat ∧ seat.phase = .asleep ∧
      (d = none ∧ (∃ m, w' = w.advance i .asleep m none ∧ (w.turn seat).Rests m.turn)
      ∨ (∃ c rest, d = some (.handled i (w.turn seat) c)
        ∧ w' = w.advance i .asleep ⟨(w.turn seat).onCompletion c, rest⟩ none)
      ∨ (∃ t task, d = some (.ran i t task) ∧ (w.turn seat).Took i task t
        ∧ w' = w.advance i .asleep ⟨t.onTask task, []⟩ (t.handover? task))
      ∨ d = some (.ended i (w.turn seat))
        ∧ w' = w.advance i .ended ⟨(w.turn seat).finish, w.batches i⟩ none) := by
  cases does with
  | call r => exact .inl ⟨rfl, rfl, Engine.asks_invoke _ r⟩
  | shutdown =>
    exact .inl ⟨rfl, Engine.seats_shutdown _, Engine.asks_shutdown _⟩
  | change host ownership =>
    exact .inl ⟨rfl, rfl, .of_links ⟨⟨rfl, rfl, rfl, fun _ known => known⟩, fun _ _ mem => mem⟩
      (.of_reactors rfl rfl) rfl⟩
  | mark i f keep alive =>
    exact .inl ⟨rfl, rfl, .handle (fun r _ => keep r) fun r _ => alive r⟩
  | drive i seat driver found running =>
    exact .inr ⟨i, seat, found, running, .inl ⟨rfl, _, rfl, .of_shared rfl rfl rfl rfl rfl⟩⟩
  | begin i seat found running =>
    exact .inr ⟨i, seat, found, running, .inl ⟨rfl, _, rfl,
      (Turn.rests_armWakeup _).trans (Turn.rests_armAccept _)⟩⟩
  | wait i seat found running _ =>
    exact .inr ⟨i, seat, found, running, .inl ⟨rfl, _, rfl, .of_shared rfl rfl rfl rfl rfl⟩⟩
  | signal i seat f found running _ keep alive =>
    exact .inr ⟨i, seat, found, running, .inl ⟨rfl, _, rfl, rfl, rfl, rfl, rfl,
      .handle keep fun r _ => alive r, rfl⟩⟩
  | take i seat limit found running _ =>
    exact .inr ⟨i, seat, found, running, .inl ⟨rfl, _, rfl, .of_shared rfl rfl rfl rfl rfl⟩⟩
  | handle i seat c rest found running _ =>
    exact .inr ⟨i, seat, found, running, .inr (.inl ⟨c, rest, rfl, rfl⟩)⟩
  | run i seat task t found running _ popped =>
    have index : (w.turn seat).reactor.index = i := (h.seats i seat found).1
    exact .inr ⟨i, seat, found, running, .inr (.inr (.inl ⟨_, task, rfl,
      index ▸ Turn.took_popTask popped _, rfl⟩))⟩
  | finish i seat found running =>
    exact .inr ⟨i, seat, found, running, .inr (.inr (.inr ⟨rfl, rfl⟩))⟩

/-- Where no deed is done, something may be asked for, and the reactors keep what they have. -/
theorem Does.idle (does : Does w none w') (h : w.Sound) :
    w.engine.shared.Asks w'.engine.shared ∧ ∀ i seat', w'.seat? i = some seat' →
      ∃ seat, w.seat? i = some seat ∧ seat.phase = seat'.phase
        ∧ seat'.reactor.dispatcher = seat.reactor.dispatcher
        ∧ seat'.reactor.channels = seat.reactor.channels
        ∧ seat'.reactor.outbound = seat.reactor.outbound := by
  obtain ⟨-, seats, asks⟩ | ⟨j, seat, found, asleep, ⟨-, m, rfl, rests⟩ | ⟨c, rest, some, -⟩
      | ⟨t, task, some, -⟩ | ⟨some, -⟩⟩ := does.inversion h
  · refine ⟨asks, fun i seat' found' => ?_⟩
    rw [seat?, seats] at found'
    exact ⟨seat', found', rfl, rfl, rfl, rfl⟩
  · refine ⟨rests.asks, fun i seat' found' => ?_⟩
    obtain ⟨rfl, rfl⟩ | ⟨-, found'⟩ := seat?_advance_cases found found'
    · exact ⟨seat, found, asleep, rests.dispatcher, rests.channels, rests.outbound⟩
    · exact ⟨seat', found', rfl, rfl, rfl, rfl⟩
  · cases some
  · cases some
  · cases some

/-- An engine that was started and has done nothing.  It knows no peer, and its
reactors have every operation. -/
structure Started (w : World σ) : Prop extends Fresh w where
  links : w.engine.shared.links = { reactorCount := w.engine.seats.length }
  complete : ∀ i seat, w.seat? i = some seat → seat.reactor.dispatcher.pool.registry.Complete

/-- A run with room, and what the reactors did in it, the last first. -/
inductive History (w₀ : World σ) : World σ → List (Deed σ) → Prop where
  | start : History w₀ w₀ []
  | step {w w' : World σ} {d : Option (Deed σ)} {ds : List (Deed σ)} (before : History w₀ w ds)
      (room : w.HasRoom) (does : Does w d w') : History w₀ w' (d.toList ++ ds)

theorem History.reachable (h : History w₀ w ds) (fresh : Fresh w₀) : Reachable w := by
  induction h with
  | start => exact .start w₀ fresh
  | step _ room does ih => exact ih.step room does.step

/-- A run with room, with something that holds before each step. -/
def While (p : World σ → Prop) : World σ → World σ → Prop :=
  Relation.ReflTransGen fun w w' => p w ∧ w.HasRoom ∧ ∃ d, Does w d w'

theorem History.while {p : World σ → Prop} (h : History w₀ w ds) (run : While p w w') :
    ∃ ds', History w₀ w' ds' := by
  induction run with
  | refl => exact ⟨ds, h⟩
  | tail _ step ih =>
    obtain ⟨ds', before⟩ := ih
    obtain ⟨-, room, d, does⟩ := step
    exact ⟨_, before.step room does⟩

/-- A reactor runs its oldest task, if there is one. -/
theorem History.runTask (h : History w₀ w ds) (room : w.HasRoom)
    (running : ∀ seat, w.seat? i = some seat → seat.phase = .asleep) (idle : w.batches i = []) :
    ∃ ds', History w₀ (w.runTask i) ds' := by
  simp only [World.runTask]
  split
  · exact ⟨ds, h⟩
  · rename_i seat found
    split
    · exact ⟨ds, h⟩
    · rename_i task t popped
      exact ⟨_, h.step room (.run w i seat task t found (running seat found) idle popped)⟩

/-! ## What is for good -/

/-- No reactor winds down. -/
def Going (w : World σ) : Prop :=
  ∀ i seat, w.seat? i = some seat → seat.reactor.stopping = false

/-- No reactor has ended. -/
def Awake (w : World σ) : Prop := ∀ i seat, w.seat? i = some seat → seat.phase = .asleep

/-- A reactor that winds down, or has ended, does so or has after a step. -/
theorem Step.exists_seat (step : Step w w') (room : w.HasRoom) (h : w.Sound) {seat : Seat σ}
    (found : w.seat? i = some seat) :
    ∃ seat', w'.seat? i = some seat'
      ∧ (seat.reactor.stopping = true → seat'.reactor.stopping = true)
      ∧ (seat'.phase = .asleep → seat.phase = .asleep) := by
  have stays (same : w'.seat? i = w.seat? i) : ∃ seat', w'.seat? i = some seat'
      ∧ (seat.reactor.stopping = true → seat'.reactor.stopping = true)
      ∧ (seat'.phase = .asleep → seat.phase = .asleep) :=
    ⟨seat, same.trans found, fun stopping => stopping, fun running => running⟩
  have comes {j : Nat} {seat' : Seat σ} {phase : Phase} {m : Moment σ} {handed : Option Handover}
      (found' : w.seat? j = some seat') (running : seat'.phase = .asleep)
      (stopping : seat'.reactor.stopping = true → m.turn.reactor.stopping = true) :
      ∃ seat', (w.advance j phase m handed).seat? i = some seat'
        ∧ (seat.reactor.stopping = true → seat'.reactor.stopping = true)
        ∧ (seat'.phase = .asleep → seat.phase = .asleep) := by
    by_cases same : i = j
    · subst same
      cases found.symm.trans found'
      exact ⟨_, seat?_advance_self found, stopping, fun _ => running⟩
    · exact ⟨seat, (seat?_advance_of_ne same).trans found, fun stopping => stopping,
        fun running => running⟩
  have goes {j : Nat} {seat' : Seat σ} {t : Turn σ} {m : Moment σ} {handed : Option Handover}
      (goes : w.Goes j seat' t m handed) (stopping : seat'.reactor.stopping = true) :
      m.turn.reactor.stopping = true :=
    goes.proceeds.evolves.stopping (goes.stopping.trans stopping)
  cases step with
  | call | change | mark => exact stays rfl
  | shutdown =>
    exact stays (seat?_shutdown w i)
  | drive j seat' driver found' running =>
    exact comes found' running (goes (h.goes_drive found' running driver))
  | begin j seat' found' running =>
    exact comes found' running (goes (h.goes_begin found' running))
  | move j seat' m handed found' running move =>
    obtain ⟨t, went⟩ := h.goes_move room found' running move
    exact comes found' running (goes went)
  | finish j seat' found' running =>
    refine comes found' running fun stopping => ?_
    rw [(w.turn seat').finish_eq.1]
    exact stopping

/-- Settings, addresses and peers stay. -/
theorem Step.keeps (step : Step w w') (room : w.HasRoom) (h : w.Sound) :
    w.engine.shared.Keeps w'.engine.shared := by
  cases step with
  | call r => exact (Engine.accepts_invoke w.engine r).2.toKeeps
  | shutdown => exact (Engine.asks_shutdown w.engine).toKeeps
  | change host ownership => exact ⟨rfl, rfl, rfl, fun _ known => known⟩
  | mark i f keep => exact (Shared.Quiet.handle fun r _ => keep r).toKeeps
  | drive i seat driver found running => exact (h.goes_drive found running driver).keeps
  | begin i seat found running => exact (h.goes_begin found running).keeps
  | move i seat m handed found running move =>
    obtain ⟨t, went⟩ := h.goes_move room found running move
    exact went.keeps
  | finish i seat found running =>
    obtain ⟨-, -, ⟨s, takes, quiet⟩, -⟩ := (w.turn seat).finish_spec
    exact takes.toKeeps.trans quiet.toKeeps

theorem Step.going (step : Step w w') (room : w.HasRoom) (h : w.Sound) (going : w'.Going) :
    w.Going := by
  intro i seat found
  obtain ⟨seat', found', stopping, -⟩ := step.exists_seat room h found
  cases before : seat.reactor.stopping with
  | false => rfl
  | true => exact (stopping before).symm.trans (going i seat' found')

theorem Step.awake (step : Step w w') (room : w.HasRoom) (h : w.Sound) (awake : w'.Awake) :
    w.Awake := by
  intro i seat found
  obtain ⟨seat', found', -, running⟩ := step.exists_seat room h found
  exact running (awake i seat' found')

/-! ## Engines that are started -/

theorem started_starting {s : Shared σ} (host : Host) {group : ListenGroup}
    {drivers : List CompletionQueue}
    (count : (drivers.zip group.descriptors).length = s.reactors.length)
    (queued : ∀ i, s.queued i = []) (invocations : s.invocations.peers = .empty)
    (links : s.links = { reactorCount := s.reactors.length }) (complete : s.registry.Complete) :
    Started (starting s host group drivers) where
  toFresh := fresh_starting host count queued invocations
  links := by
    have seats : (starting s host group drivers).engine.seats.length = s.reactors.length := by
      simpa [starting, Engine.makeReactors] using count
    rw [seats]
    exact links
  complete i seat found := by
    obtain ⟨driver, listener, -, rfl⟩ := eq_of_seat?_starting found
    exact complete

/-- A new engine that is started is where a run from a started world leads to. -/
theorem runs_of_engine_start {host host' host'' : Host} {config : Config} {registry : Registry σ}
    {e e' : Engine σ} {makeDriver : Nat → Except Failure CompletionQueue}
    (made : Engine.new host config registry = .ok e)
    (started : e.start host' makeDriver = (.ok (), host'', e')) :
    ∃ w : World σ, Started w ∧ w.RunsTo host'' e' := by
  obtain ⟨count, queued, invocations, links, complete⟩ := Engine.new_spec made
  obtain ⟨host, group, drivers, all, launched⟩ := launch_of_start started
  cases launched
  refine ⟨_, started_starting host (all.trans count.symm) queued invocations ?_ complete,
    runs_launch _ _ _ _⟩
  rw [links, count]

end World

end PartitionEngine
