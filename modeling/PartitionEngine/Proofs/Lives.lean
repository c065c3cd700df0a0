import PartitionEngine.Proofs.Turns

/-!
# The life of an engine

An engine is made, and started at most once.  Before that it rejects calls, and starting
it may fail.  It is shut down at any time.  What happens to it from one world to a later
one is a `Life`; a started engine goes on as worlds do, without any bound on its slots.
-/

namespace PartitionEngine

/-- A new engine has a handle for each reactor, and nothing else. -/
theorem Engine.eq_of_new {σ : Type} {host : Host} {config : Config} {registry : Registry σ}
    {e : Engine σ} (made : Engine.new host config registry = .ok e) :
    ∃ reactors : List ReactorHandle, reactors.length = config.reactorCount
      ∧ e = { shared := { config, registry, reactors,
                          links := { reactorCount := config.reactorCount } } } := by
  have count := (new_spec made).1
  simp only [Engine.new, bind, Except.bind] at made
  split at made
  · cases made
  · split at made
    · cases made
    · split at made
      · cases made
      · cases made
        exact ⟨_, count, rfl⟩

/-- An engine has a reactor. -/
theorem Engine.reactorCount_pos_of_new {σ : Type} {host : Host} {config : Config}
    {registry : Registry σ} {e : Engine σ} (made : Engine.new host config registry = .ok e) :
    0 < config.reactorCount := by
  refine Nat.pos_of_ne_zero fun none => ?_
  have refused : config.validate = .error (.config "reactor_count must be > 0") := if_pos none
  simp only [Engine.new, bind, Except.bind, refused] at made
  cases made

/-- An engine that could not be started is as it was. -/
theorem Engine.eq_of_start_error {σ : Type} {host host' : Host} {e e' : Engine σ}
    {failure : Failure} {makeDriver : Nat → Except Failure CompletionQueue}
    (failed : e.start host makeDriver = (.error failure, host', e')) : e' = e := by
  unfold Engine.start at failed
  split at failed
  · cases failed
    rfl
  · split at failed
    · cases failed
      rfl
    · rename_i idle
      simp only at failed
      split at failed
      · cases failed
        -- The engine was not started, and the mark is taken back.
        rw [← Bool.eq_false_iff.mpr idle]
      · cases failed

/-- An engine is started only if it was not, and does not shut down. -/
theorem Engine.idle_of_start {σ : Type} {host : Host} {e : Engine σ} {after : Host × Engine σ}
    {makeDriver : Nat → Except Failure CompletionQueue}
    (started : e.start host makeDriver = (.ok (), after)) :
    e.shared.started = false ∧ e.shared.shuttingDown = false := by
  unfold Engine.start at started
  split at started
  · cases started
  · rename_i going
    split at started
    · cases started
    · rename_i idle
      exact ⟨Bool.eq_false_iff.mpr idle, Bool.eq_false_iff.mpr going⟩

namespace World

variable {σ : Type} {w w' w'' : World σ}

/-- A world with an engine that has no reactors yet. -/
def ofEngine (host : Host) (e : Engine σ) : World σ := { host, engine := e }

/-- The world after the engine was started, with its reactors about to begin. -/
def launched (w : World σ) (host : Host) (group : ListenGroup) (drivers : List CompletionQueue) :
    World σ :=
  { starting w.engine.shared host group drivers with calls := w.calls }

/-- The reactors of an engine that is started have done nothing. -/
theorem reactor_launched {host : Host} {group : ListenGroup} {drivers : List CompletionQueue}
    {i : Nat} {seat : Seat σ} (found : (w.launched host group drivers).seat? i = some seat) :
    seat.reactor.index = i ∧ seat.reactor.dispatcher
      = .new w.engine.shared.registry w.engine.shared.config.opPoolCapacity := by
  obtain ⟨driver, listener, -, rfl⟩ := eq_of_seat?_starting
    (show (starting w.engine.shared host group drivers).seat? i = some seat from found)
  exact ⟨rfl, rfl⟩

/-- What may happen to an engine. -/
inductive Happens : World σ → World σ → Prop where
  | step {w w' : World σ} (step : Step w w') : Happens w w'
  /-- The engine is started.  It gets a driver and a listener for each reactor. -/
  | launch (w : World σ) (host : Host) (group : ListenGroup) (drivers : List CompletionQueue)
      (new : w.engine.shared.started = false) (going : w.engine.shared.shuttingDown = false)
      (count : (drivers.zip group.descriptors).length = w.engine.shared.config.reactorCount) :
      Happens w (w.launched host group drivers)

/-- What happened to an engine from one world to a later one. -/
def Life : World σ → World σ → Prop := Relation.ReflTransGen Happens

theorem Life.of_steps (steps : Steps w w') : Life w w' := by
  induction steps with
  | refl => exact .refl
  | tail _ step ih => exact ih.tail (.step step)

/-- Starting an engine is a part of its life, whatever comes of it. -/
theorem life_start (rested : w.Rested) (makeDriver : Nat → Except Failure CompletionQueue) :
    ∃ w', Life w w' ∧ w'.Rested ∧ w'.host = (w.engine.start w.host makeDriver).2.1
      ∧ w'.engine = (w.engine.start w.host makeDriver).2.2 := by
  have failed (host : Host) : ∃ w', Life w w' ∧ w'.Rested ∧ w'.host = host ∧ w'.engine = w.engine :=
    ⟨_, .tail .refl (.step (.change w host w.engine.shared.ownership)), rested, rfl, rfl⟩
  cases result : w.engine.start w.host makeDriver with
  | mk outcome after =>
    obtain ⟨host, e⟩ := after
    simp only
    cases outcome with
    | error failure =>
      cases Engine.eq_of_start_error result
      exact failed host
    | ok =>
      have new := Engine.idle_of_start result
      obtain ⟨host', group, drivers, count, launch⟩ := launch_of_start result
      obtain ⟨w', steps, here, engine, rested⟩ : (w.launched host' group drivers).RunsTo
          (Engine.launch w.engine.shared host' group drivers).1
          (Engine.launch w.engine.shared host' group drivers).2 :=
        runs_startReactors _ [] rfl rfl
      rw [← launch] at here engine
      have began : Life w (w.launched host' group drivers) :=
        .single (.launch w host' group drivers new.1 new.2 count)
      exact ⟨w', began.trans (Life.of_steps steps), rested, here, engine⟩

end World

end PartitionEngine
