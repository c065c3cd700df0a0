import PartitionEngine.Operation.Builtin
import PartitionEngine.Proofs.Worlds
import Mathlib.Data.List.Forall2

/-!
# An engine that takes turns is a run

What an engine does between two calls is a run of the world it is in: a turn of one
reactor (`runs_resume`), rounds of turns until no reactor wants one (`runs_pump`), and
the first turns when the engine is started (`runs_launch`).  The reactors of an engine
that is started have done nothing (`fresh_starting`).
-/

namespace PartitionEngine

/-! ## What an engine is started with -/

theorem forall₂_of_mapM {ε α β : Type} {f : α → Except ε β} {l : List α} {r : List β}
    (made : l.mapM f = .ok r) : List.Forall₂ (fun a b => f a = .ok b) l r := by
  induction l generalizing r with
  | nil =>
    cases made
    exact .nil
  | cons a l ih =>
    rw [List.mapM_cons] at made
    cases first : f a with
    | error e =>
      rw [first] at made
      cases made
    | ok b =>
      rw [first] at made
      cases others : l.mapM f with
      | error e =>
        rw [others] at made
        cases made
      | ok bs =>
        rw [others] at made
        cases made
        exact .cons first (ih others)

theorem Host.length_listenFrom {ip : Ip} {count base : Nat} {opened descriptors : List Nat}
    {h h' : Host} (listens : listenFrom ip count base opened h = (.ok descriptors, h')) :
    descriptors.length = count + opened.length := by
  induction count generalizing base opened h with
  | zero =>
    cases listens
    simp
  | succ count ih =>
    simp only [listenFrom] at listens
    split at listens
    · have length := ih listens
      rw [List.length_cons] at length
      omega
    · cases listens

theorem Host.length_searchGroups {ip : Ip} {last count tries base : Nat} {failure : IoFailure}
    {h h' : Host} {group : ListenGroup}
    (listens : searchGroups ip last count tries base failure h = (.ok group, h')) :
    group.descriptors.length = count := by
  induction tries generalizing base failure h with
  | zero => cases listens
  | succ tries ih =>
    simp only [searchGroups] at listens
    split at listens
    · cases listens
    · split at listens
      · rename_i listening
        cases listens
        simpa using length_listenFrom listening
      · split at listens
        · exact ih listens
        · cases listens

/-- Every operation is there. -/
def Registry.Complete {σ : Type} (r : Registry σ) : Prop :=
  ∀ op : Opcode, (r.operation? op.byte).isSome = true

theorem Registry.complete_builtin {σ : Type} [Builtin.HasItem σ] :
    (Registry.builtin : Registry σ).Complete := by
  intro op
  cases op <;> rfl

theorem Registry.complete_of_requireAll {σ : Type} {r : Registry σ}
    (all : r.requireAll Opcode.all = .ok ()) : r.Complete := by
  intro op
  have mem : op ∈ Opcode.all := by cases op <;> decide
  simp only [requireAll] at all
  split at all
  · rename_i nothing
    exact Option.isSome_iff_ne_none.mpr
      (mt Option.isNone_iff_eq_none.mpr (List.filter_eq_nil_iff.mp nothing op mem))
  · cases all

/-- A new engine has a handle for each reactor, with an empty queue.  It knows no peer,
and has every operation. -/
theorem Engine.new_spec {σ : Type} {host : Host} {config : Config} {registry : Registry σ}
    {e : Engine σ} (made : Engine.new host config registry = .ok e) :
    e.shared.reactors.length = e.shared.config.reactorCount
      ∧ (∀ i, e.shared.queued i = []) ∧ e.shared.invocations.peers = .empty
      ∧ e.shared.links = { reactorCount := e.shared.config.reactorCount }
      ∧ e.shared.registry.Complete := by
  simp only [Engine.new] at made
  simp only [bind, Except.bind] at made
  split at made
  · cases made
  · split at made
    · cases made
    · rename_i all
      split at made
      · cases made
      · rename_i reactors handles
        cases made
        have each := forall₂_of_mapM handles
        have tasks (i : Nat) (r : ReactorHandle) (handle : (Signal.create host .counter).map
            (fun signal => ReactorHandle.new i signal config.scheduling) = .ok r) :
            r.queue.tasks = {} := by
          cases signal : Signal.create host .counter with
          | error e =>
            rw [signal] at handle
            cases handle
          | ok signal' =>
            rw [signal] at handle
            cases handle
            rfl
        refine ⟨by simpa using each.length_eq.symm, ?_, rfl, rfl,
          Registry.complete_of_requireAll all⟩
        intro i
        simp only [Shared.queued]
        cases found : Shared.reactor? _ i with
        | none => rfl
        | some r =>
          obtain ⟨inside, rfl⟩ := List.getElem?_eq_some_iff.mp found
          have empty := tasks _ _ (each.get (each.length_eq.symm ▸ inside) inside)
          simp only [List.get_eq_getElem] at empty
          simp [empty]

namespace World

variable {σ : Type} {w w' w'' : World σ} {i : Nat} {seat : Seat σ} {m m' : Moment σ}
  {phase : Phase}

/-- The runs from a world to a later one. -/
def Steps : World σ → World σ → Prop := Relation.ReflTransGen Step

/-- A world in which a reactor has come to a moment. -/
structure ComesTo (w : World σ) (i : Nat) (phase : Phase) (m : Moment σ) (w' : World σ) :
    Prop where
  host : w'.host = m.turn.host
  engine : w'.engine = {
    shared := m.turn.shared
    seats := w.engine.seats.set i { reactor := m.turn.reactor, phase } }
  batches : w'.batches = Function.update w.batches i m.batch

theorem comesTo_self (found : w.seat? i = some seat) :
    w.ComesTo i seat.phase ⟨w.turn seat, w.batches i⟩ w := by
  obtain ⟨inside, rfl⟩ := List.getElem?_eq_some_iff.mp found
  exact ⟨rfl, congrArg (Engine.mk w.engine.shared) (List.set_getElem_self inside).symm,
    (Function.update_eq_self i w.batches).symm⟩

/-- A reactor that has come to a moment goes on from there. -/
theorem ComesTo.advance (h : w.ComesTo i .asleep m w') (phase : Phase) (m' : Moment σ)
    (handed : Option Handover) : w.ComesTo i phase m' (w'.advance i phase m' handed) where
  host := rfl
  engine := by simp [World.advance, h.engine, List.set_set]
  batches := by simp [World.advance, h.batches]

theorem ComesTo.trans (h : w.ComesTo i .asleep m w') (h' : w'.ComesTo i phase m' w'') :
    w.ComesTo i phase m' w'' where
  host := h'.host
  engine := by simp [h'.engine, h.engine, List.set_set]
  batches := by simp [h'.batches, h.batches]

theorem ComesTo.seat? (h : w.ComesTo i phase m w') (found : w.seat? i = some seat) :
    w'.seat? i = some { reactor := m.turn.reactor, phase } := by
  have inside := (List.getElem?_eq_some_iff.mp found).1
  simp [World.seat?, h.engine, inside]

theorem ComesTo.turn (h : w.ComesTo i phase m w') :
    w'.turn { reactor := m.turn.reactor, phase } = m.turn := by
  simp [World.turn, h.host, h.engine]

/-- What a reactor does is a run. -/
theorem runs_moves (found : w.seat? i = some seat) (running : seat.phase = .asleep)
    (moves : Moment.Moves ⟨w.turn seat, w.batches i⟩ m) :
    ∃ w', Steps w w' ∧ w.ComesTo i .asleep m w' := by
  induction moves with
  | refl => exact ⟨w, .refl, running ▸ comesTo_self found⟩
  | @tail m m' _ move ih =>
    obtain ⟨w', steps, comes⟩ := ih
    obtain ⟨handed, move⟩ := move
    refine ⟨_, steps.tail (.move w' i _ m' handed (comes.seat? found) rfl ?_),
      comes.advance .asleep m' handed⟩
    rw [comes.turn, comes.batches, Function.update_self]
    exact move

/-- No reactor has a completion that it has not handled. -/
def Rested (w : World σ) : Prop := w.batches = fun _ => []

theorem ComesTo.rested (h : w.ComesTo i phase ⟨t, []⟩ w') (rested : w.Rested) : w'.Rested := by
  rw [Rested, h.batches, rested]
  exact Function.update_eq_self i fun _ => []

/-- A turn that goes on until the reactor sleeps or ends. -/
theorem runs_settleTurn (rested : w.Rested) (found : w.seat? i = some seat)
    (running : seat.phase = .asleep) {t : Turn σ}
    (moves : Moment.Moves ⟨w.turn seat, []⟩ ⟨t, []⟩) (phase : Phase) :
    ∃ w', Steps w w' ∧ w.ComesTo i (Engine.settleTurn (phase, t)).1
      ⟨(Engine.settleTurn (phase, t)).2, []⟩ w' := by
  have moves : Moment.Moves ⟨w.turn seat, w.batches i⟩ ⟨t, []⟩ := by
    rw [rested]
    exact moves
  obtain ⟨w', steps, comes⟩ := runs_moves found running moves
  cases phase with
  | asleep => exact ⟨w', steps, comes⟩
  | ended =>
    have finish := Step.finish w' i _ (comes.seat? found) rfl
    rw [comes.turn, comes.batches, Function.update_self] at finish
    exact ⟨_, steps.tail finish, comes.advance .ended _ none⟩

/-! ## Turns and rounds -/

/-- What a host and an engine have become is where a run leads to. -/
def RunsTo (w : World σ) (host : Host) (e : Engine σ) : Prop :=
  ∃ w', Steps w w' ∧ w'.host = host ∧ w'.engine = e ∧ w'.Rested

theorem RunsTo.refl (rested : w.Rested) : w.RunsTo w.host w.engine :=
  ⟨w, .refl, rfl, rfl, rested⟩

theorem RunsTo.of_comesTo (steps : Steps w w') {t : Turn σ} (comes : w.ComesTo i phase ⟨t, []⟩ w')
    (rested : w.Rested) :
    w.RunsTo t.host ⟨t.shared, w.engine.seats.set i { reactor := t.reactor, phase }⟩ :=
  ⟨w', steps, comes.host, comes.engine, comes.rested rested⟩

/-- A run that goes on. -/
theorem RunsTo.trans {host host' : Host} {e e' : Engine σ} (h : w.RunsTo host e)
    (h' : ∀ w : World σ, w.Rested → w.host = host → w.engine = e → w.RunsTo host' e') :
    w.RunsTo host' e' := by
  obtain ⟨w', steps, here, engine, rested⟩ := h
  obtain ⟨w'', steps', rest⟩ := h' w' rested here engine
  exact ⟨w'', steps.trans steps', rest⟩

theorem runs_resume (rested : w.Rested) (i : Nat) :
    w.RunsTo (w.engine.resume w.host i).1 (w.engine.resume w.host i).2 := by
  simp only [Engine.resume]
  split
  · rename_i reactor found
    obtain ⟨w', steps, comes⟩ := runs_settleTurn (i := i) rested found rfl
      (Moment.moves_wake _) (Turn.wake ⟨w.host, w.engine.shared, reactor⟩).1
    exact .of_comesTo steps comes rested
  · exact .refl rested

/-- A driver that does something. -/
theorem RunsTo.drive (rested : w.Rested) {reactor : Reactor σ}
    (found : w.seat? i = some { reactor, phase := .asleep })
    (f : CompletionQueue → CompletionQueue) : w.RunsTo w.host (w.engine.modifyDriver i f) := by
  refine ⟨_, .single (.drive w i _ (f reactor.driver) found rfl), rfl, ?_, ?_⟩
  · refine congrArg (Engine.mk w.engine.shared) ?_
    rw [seat?] at found
    rw [List.modify_eq_set_getElem?, found]
    rfl
  · exact (Function.update_eq_self i w.batches).trans rested

/-- The handle of a reactor changes, but no task of it. -/
theorem RunsTo.mark (rested : w.Rested) (i : Nat) (f : ReactorHandle → ReactorHandle)
    (keep : ∀ r, (f r).queue.tasks = r.queue.tasks) :
    w.RunsTo w.host (w.engine.modifyShared fun s => s.modifyReactor i f) :=
  ⟨_, .single (.mark w i f keep), rfl, rfl, rested⟩

theorem runs_deliverWakeup (rested : w.Rested) (i : Nat) :
    w.RunsTo w.host (w.engine.deliverWakeup i) := by
  simp only [Engine.deliverWakeup]
  split
  · rename_i can
    simp only [Engine.canWake] at can
    split at can
    · rename_i reactor r found here
      have driven := RunsTo.drive rested found fun q =>
        q.complete { token := .plain .wakeup, result := 8 }
      refine driven.trans ?_
      intro w rested host engine
      rw [← host, ← engine]
      exact RunsTo.mark rested i _ fun _ => rfl
    · cases can
  · exact .refl rested

/-- Each reactor, in order, takes a turn if it wants one. -/
theorem runs_round (rested : w.Rested) :
    w.RunsTo (w.engine.round w.host).2.1 (w.engine.round w.host).2.2 := by
  simp only [Engine.round]
  generalize List.range w.engine.seats.length = indexes
  generalize false = moved
  induction indexes generalizing w moved with
  | nil => exact .refl rested
  | cons i rest ih =>
    simp only [List.foldl_cons]
    refine (runs_deliverWakeup rested i).trans ?_
    intro w' rested here engine
    rw [← here, ← engine]
    split
    · refine (runs_resume rested i).trans ?_
      intro w'' rested here engine
      rw [← here, ← engine]
      exact ih rested true
    · exact ih rested moved

theorem runs_settle (rested : w.Rested) (bound : Nat) :
    w.RunsTo (Engine.settle bound w.engine w.host).1 (Engine.settle bound w.engine w.host).2 := by
  induction bound generalizing w with
  | zero => exact .refl rested
  | succ bound ih =>
    have round := runs_round rested
    simp only [Engine.settle]
    split
    · rename_i host e moved
      rw [moved] at round
      refine round.trans ?_
      intro w rested here engine
      subst here
      subst engine
      exact ih rested
    · rename_i host e moved
      rw [moved] at round
      exact round

/-- What the reactors do until none has anything to do. -/
theorem runs_pump (rested : w.Rested) :
    w.RunsTo (w.engine.pump w.host).1 (w.engine.pump w.host).2 := runs_settle rested _

/-! ## The start -/

/-- A reactor that begins. -/
theorem runs_start (rested : w.Rested) {reactor : Reactor σ}
    (found : w.seat? i = some { reactor, phase := .asleep }) :
    ∃ w', Steps w w' ∧ w.ComesTo i
      (Engine.settleTurn (Turn.start ⟨w.host, w.engine.shared, reactor⟩)).1
      ⟨(Engine.settleTurn (Turn.start ⟨w.host, w.engine.shared, reactor⟩)).2, []⟩ w' := by
  let t := Turn.modifyHandle ⟨w.host, w.engine.shared, reactor⟩ fun r =>
    { r with queue := r.queue.bindOwner reactor.thread }
  have bound : Moment.Moves ⟨w.turn { reactor, phase := .asleep }, w.batches i⟩ ⟨t, []⟩ := by
    rw [rested]
    exact .of_move (.mark _ _ fun _ _ => rfl)
  obtain ⟨w₁, steps, comes⟩ := runs_moves found rfl bound
  have idle := comes.rested rested
  have armed := Step.begin w₁ i _ (comes.seat? found) rfl
  rw [comes.turn, idle] at armed
  have comes := comes.advance .asleep ⟨t.armWakeup.armAccept, []⟩ none
  have goes : Moment.Moves ⟨t.armWakeup.armAccept, []⟩
      ⟨(Turn.start ⟨w.host, w.engine.shared, reactor⟩).2, []⟩ :=
    (Moment.moves_enterWait _).trans (Moment.moves_proceed _ _ _)
  have here : World.turn _ _ = t.armWakeup.armAccept := comes.turn
  rw [← here] at goes
  obtain ⟨w₂, rest, ends⟩ := runs_settleTurn (comes.rested rested) (comes.seat? found) rfl goes
    (Turn.start ⟨w.host, w.engine.shared, reactor⟩).1
  exact ⟨w₂, (steps.tail armed).trans rest, comes.trans ends⟩

/-- The reactors begin, one after the other. -/
theorem runs_startReactors (reactors : List (Reactor σ)) (started : List (Seat σ))
    (rested : w.Rested) (seats : w.engine.seats
      = started ++ reactors.map fun reactor => { reactor, phase := .asleep }) :
    w.RunsTo (Engine.startReactors w.host w.engine.shared reactors).1
      ⟨(Engine.startReactors w.host w.engine.shared reactors).2.1,
        started ++ (Engine.startReactors w.host w.engine.shared reactors).2.2⟩ := by
  induction reactors generalizing w started with
  | nil =>
    have here : w.engine = ⟨w.engine.shared, started ++ []⟩ :=
      congrArg (Engine.mk w.engine.shared) seats
    exact here ▸ RunsTo.refl rested
  | cons reactor rest ih =>
    have found : w.seat? started.length = some { reactor, phase := .asleep } := by
      simp [World.seat?, seats]
    obtain ⟨w', steps, comes⟩ := runs_start rested found
    have begun := RunsTo.of_comesTo steps comes rested
    simp only [Engine.startReactors]
    generalize Engine.settleTurn (Turn.start ⟨w.host, w.engine.shared, reactor⟩) = turn at begun ⊢
    obtain ⟨phase, t⟩ := turn
    refine begun.trans ?_
    intro w₁ rested here engine
    have seats : w₁.engine.seats = (started ++ [{ reactor := t.reactor, phase }])
        ++ rest.map fun reactor => { reactor, phase := .asleep } := by
      simp [engine, seats]
    have rest := ih _ rested seats
    rw [here, engine, List.append_assoc] at rest
    exact rest

/-- An engine whose reactors are about to begin. -/
def starting (s : Shared σ) (host : Host) (group : ListenGroup) (drivers : List CompletionQueue) :
    World σ :=
  let address := Address.ofIp s.config.bindHost (UInt16.ofNat group.base)
  let s := { s with started := true, localAddress := some address, live := drivers.length }
  let reactors := Engine.makeReactors s address (drivers.zip group.descriptors)
  { host, engine := { shared := s, seats := reactors.map fun reactor =>
      { reactor, phase := .asleep } } }

theorem runs_launch (s : Shared σ) (host : Host) (group : ListenGroup)
    (drivers : List CompletionQueue) :
    (starting s host group drivers).RunsTo (Engine.launch s host group drivers).1
      (Engine.launch s host group drivers).2 :=
  runs_startReactors _ [] rfl rfl

/-- A reactor of an engine that is started has a driver and a listener, and has done nothing. -/
theorem eq_of_seat?_starting {s : Shared σ} {host : Host} {group : ListenGroup}
    {drivers : List CompletionQueue} {i : Nat} {seat : Seat σ}
    (found : (starting s host group drivers).seat? i = some seat) :
    ∃ driver listener, (drivers.zip group.descriptors)[i]? = some (driver, listener)
      ∧ seat = { phase := .asleep
                 reactor := { index := i, driver, listener := some listener
                              localAddress := .ofIp s.config.bindHost (.ofNat group.base)
                              dispatcher := .new s.registry s.config.opPoolCapacity } } := by
  simp only [World.seat?, starting, Engine.makeReactors, List.getElem?_map, List.getElem?_mapIdx]
    at found
  cases part : (drivers.zip group.descriptors)[i]? with
  | none => simp [part] at found
  | some p =>
    simp only [part, Option.map_some, Option.some.injEq] at found
    exact ⟨p.1, p.2, rfl, found.symm⟩

/-- The reactors of an engine that is started have done nothing. -/
theorem fresh_starting {s : Shared σ} (host : Host) {group : ListenGroup}
    {drivers : List CompletionQueue}
    (count : (drivers.zip group.descriptors).length = s.reactors.length)
    (queued : ∀ i, s.queued i = []) (invocations : s.invocations.peers = .empty) :
    Fresh (starting s host group drivers) where
  size := by simpa [starting, Engine.makeReactors] using count.symm
  invocations := invocations
  queued := queued
  seats i seat found := by
    obtain ⟨driver, listener, -, rfl⟩ := eq_of_seat?_starting found
    exact ⟨rfl, rfl, rfl, rfl⟩

/-- There is a driver and a listener for each reactor. -/
theorem length_of_prepare {c : Config} {host host' : Host} {group : ListenGroup}
    {drivers : List CompletionQueue} {makeDriver : Nat → Except Failure CompletionQueue}
    (prepared : Engine.prepare c host makeDriver = (.ok (group, drivers), host')) :
    (drivers.zip group.descriptors).length = c.reactorCount := by
  simp only [Engine.prepare] at prepared
  split at prepared
  · cases prepared
  · rename_i group listening
    split at prepared
    · cases prepared
    · rename_i drivers driven
      cases prepared
      have all := (forall₂_of_mapM driven).length_eq
      have listeners := Host.length_searchGroups listening
      simp only [List.length_range] at all
      simp only [List.length_zip, ← all, listeners]
      omega

/-- An engine that is started gets a driver and a listener for each reactor. -/
theorem launch_of_start {host host' : Host} {e e' : Engine σ}
    {makeDriver : Nat → Except Failure CompletionQueue}
    (started : e.start host makeDriver = (.ok (), host', e')) :
    ∃ host group drivers, (drivers.zip group.descriptors).length = e.shared.config.reactorCount
      ∧ (host', e') = Engine.launch e.shared host group drivers := by
  unfold Engine.start at started
  split at started
  · cases started
  · split at started
    · cases started
    · simp only at started
      split at started
      · cases started
      · rename_i group drivers host prepared
        exact ⟨host, group, drivers, length_of_prepare prepared, (congrArg Prod.snd started).symm⟩

/-- A new engine that is started is where a run leads to. -/
theorem runs_engine_start {host host' host'' : Host} {config : Config} {registry : Registry σ}
    {e e' : Engine σ} {makeDriver : Nat → Except Failure CompletionQueue}
    (made : Engine.new host config registry = .ok e)
    (started : e.start host' makeDriver = (.ok (), host'', e')) :
    ∃ w : World σ, Fresh w ∧ w.RunsTo host'' e' := by
  obtain ⟨count, queued, invocations, -⟩ := Engine.new_spec made
  obtain ⟨host, group, drivers, all, launched⟩ := launch_of_start started
  cases launched
  exact ⟨_, fresh_starting host (all.trans count.symm) queued invocations, runs_launch _ _ _ _⟩

end World

end PartitionEngine
