import PartitionEngine.Proofs.Lives
import PartitionEngine.Proofs.PortRanges
import PartitionEngine.Proofs.Works

/-!
# Starting an engine

A start takes a group of ports and makes the drivers.  What it gets is settled by what the ports
and the drivers fail with (`Engine.offer`), and all that a failed start leaves is that descriptors
were handed out (`Engine.start_eq`).  The ports do not notice that, so of any calls to start an
engine comes what would come of each with a new one, until one succeeds (`Engine.tryAll_eq`).

Calls and reactors leave alone what a start goes by (`Shared.Unmoved`), so this holds in the whole
life of an engine (`World.start_leaves_no_trace`).
-/

namespace PartitionEngine

/-! ## What stays -/

namespace Shared

variable {σ : Type} {s s' s'' : Shared σ}

/-- The settings and the address stay, and how far the engine's life has come. -/
structure Unmoved (s s' : Shared σ) : Prop where
  config : s'.config = s.config
  localAddress : s'.localAddress = s.localAddress
  started : s'.started = s.started
  shuttingDown : s'.shuttingDown = s.shuttingDown

namespace Unmoved

theorem refl (s : Shared σ) : s.Unmoved s := ⟨rfl, rfl, rfl, rfl⟩

theorem trans (h : s.Unmoved s') (h' : s'.Unmoved s'') : s.Unmoved s'' where
  config := h'.config.trans h.config
  localAddress := h'.localAddress.trans h.localAddress
  started := h'.started.trans h.started
  shuttingDown := h'.shuttingDown.trans h.shuttingDown

theorem submit (s : Shared σ) (thread : ThreadId) (i : Nat) (task : Task) :
    s.Unmoved (s.submit thread i task).2 := by
  rw [submit_eq]
  exact ⟨rfl, rfl, rfl, rfl⟩

theorem acquire (s : Shared σ) (thread : ThreadId) (l : Link) : s.Unmoved (s.acquire thread l).2 := by
  rw [acquire_eq]
  exact ⟨rfl, rfl, rfl, rfl⟩

end Unmoved

end Shared

namespace Turn

variable {σ : Type} {may : Scope} {t t' : Turn σ}

theorem Act.unmoved {key : SlotKey} (act : Act may key t t') : t.shared.Unmoved t'.shared := by
  cases act with
  | host | dispatch | mark | count | complete | markOpen | flag => exact ⟨rfl, rfl, rfl, rfl⟩
  | tune | submit | submitPlain | cancel | cancelPlain => exact .refl _
  | hand index task => exact .submit _ _ index task
  | shut c cause =>
    rw [shut_eq]
    exact ⟨rfl, rfl, rfl, rfl⟩
  | release =>
    rw [releaseIfDone_eq]
    exact .refl _

theorem Works.unmoved (works : Works may t t') : t.shared.Unmoved t'.shared := by
  induction works with
  | refl => exact .refl _
  | tail _ work ih =>
    cases work with
    | act key act => exact ih.trans act.unmoved
    | accept | windDown => exact ih
    | make => exact ih.trans ⟨rfl, rfl, rfl, rfl⟩

theorem unmoved_popTask {task : Option Task} (popped : t.popTask = (task, t')) :
    t.shared.Unmoved t'.shared := by
  rw [Moment.eq_of_popTask popped]
  exact ⟨rfl, rfl, rfl, rfl⟩

theorem unmoved_finish (t : Turn σ) : t.shared.Unmoved t.finish.shared := by
  rw [t.finish_eq.2]
  exact ⟨rfl, rfl, rfl, rfl⟩

end Turn

theorem Moment.Move.unmoved {σ : Type} {m m' : Moment σ} {handed : Option Handover}
    (move : Moment.Move m handed m') : m.turn.shared.Unmoved m'.turn.shared := by
  cases move with
  | wait | take => exact .refl _
  | mark => exact ⟨rfl, rfl, rfl, rfl⟩
  | handle t c rest => exact (Turn.works_all_onCompletion t c : Turn.Works .all t _).unmoved
  | run t task t' popped =>
    have counted : t'.shared.Unmoved (t'.count fun s => { s with tasks := s.tasks + 1 }).shared :=
      ⟨rfl, rfl, rfl, rfl⟩
    have ran : Turn.Works .all (t'.count fun s => { s with tasks := s.tasks + 1 }) _ :=
      Turn.works_all_onTask _ task
    exact ((Turn.unmoved_popTask popped).trans counted).trans ran.unmoved

theorem Moment.Moves.unmoved {σ : Type} {m m' : Moment σ} (moves : Moment.Moves m m') :
    m.turn.shared.Unmoved m'.turn.shared := by
  induction moves with
  | refl => exact .refl _
  | tail _ move ih =>
    obtain ⟨handed, move⟩ := move
    exact ih.trans move.unmoved

namespace Engine

variable {σ : Type}

theorem unmoved_begin (t : Turn σ) : t.shared.Unmoved t.armWakeup.armAccept.shared := by
  have woken : Turn.Works .all t t.armWakeup :=
    .of_forall fun key => Turn.acts_armWakeup _ key trivial
  exact (woken.trans (.of_forall fun key => Turn.acts_armAccept _ key trivial)).unmoved

theorem unmoved_startReactors (host : Host) (s : Shared σ) (reactors : List (Reactor σ)) :
    s.Unmoved (startReactors host s reactors).2.1 := by
  induction reactors generalizing host s with
  | nil => exact .refl s
  | cons reactor rest ih =>
    have bound : s.Unmoved (Turn.modifyHandle ⟨host, s, reactor⟩ fun r =>
        { r with queue := r.queue.bindOwner reactor.thread }).shared := ⟨rfl, rfl, rfl, rfl⟩
    have goes : Moment.Moves
        ⟨Turn.armAccept (Turn.armWakeup (Turn.modifyHandle ⟨host, s, reactor⟩ fun r =>
          { r with queue := r.queue.bindOwner reactor.thread })), []⟩
        ⟨(Turn.start ⟨host, s, reactor⟩).2, []⟩ :=
      (Moment.moves_enterWait _).trans (Moment.moves_proceed _ _ _)
    have settled : s.Unmoved (settleTurn (Turn.start ⟨host, s, reactor⟩)).2.shared := by
      have begun := (bound.trans (unmoved_begin _)).trans goes.unmoved
      generalize Turn.start ⟨host, s, reactor⟩ = turn at begun ⊢
      obtain ⟨phase, t⟩ := turn
      cases phase with
      | asleep => exact begun
      | ended => exact begun.trans (Turn.unmoved_finish t)
    exact settled.trans (ih _ _)

theorem CallStep.unmoved {s s' : Shared σ} {r : Request} {index : Nat}
    (step : CallStep r index s s') : s.Unmoved s' := by
  cases step with
  | keep | link => exact ⟨rfl, rfl, rfl, rfl⟩
  | acquire l => exact .acquire _ callerThread l
  | run | write => exact .submit _ callerThread _ _

theorem unmoved_invoke (e : Engine σ) (r : Request) : e.shared.Unmoved (e.invoke r).2.shared :=
  e.rel_invoke r .refl .trans CallStep.unmoved

end Engine

/-! ## What a start needs -/

/-- All of a list can be made if each of it can. -/
theorem exists_mapM_iff {ε α β : Type} {f : α → Except ε β} {l : List α} :
    (∃ bs, l.mapM f = .ok bs) ↔ ∀ a ∈ l, ∃ b, f a = .ok b := by
  constructor
  · rintro ⟨bs, made⟩ a mem
    have each := forall₂_of_mapM made
    clear made
    induction each with
    | nil => cases mem
    | cons first others ih =>
      rcases List.mem_cons.mp mem with rfl | mem
      · exact ⟨_, first⟩
      · exact ih mem
  · intro all
    induction l with
    | nil => exact ⟨[], rfl⟩
    | cons a l ih =>
      obtain ⟨b, first⟩ := all a List.mem_cons_self
      obtain ⟨bs, others⟩ := ih fun a mem => all a (List.mem_cons_of_mem _ mem)
      refine ⟨b :: bs, ?_⟩
      rw [List.mapM_cons, first, others]
      rfl

/-- The ports that the listeners of an engine may get. -/
def Config.ports (c : Config) : PortRange where
  ip := c.bindHost
  first := c.portStart
  last := c.portEnd
  count := c.reactorCount

/-- Valid settings ask for at least one port, and port 0 is none of them. -/
theorem Config.ports_of_validate {c : Config} (valid : c.validate = .ok ()) :
    1 ≤ c.ports.first.toNat ∧ 1 ≤ c.ports.count := by
  simp only [validate] at valid
  split at valid
  · cases valid
  · rename_i some_reactor
    split at valid
    · cases valid
    · split at valid
      · cases valid
      · rename_i some_port
        refine ⟨Nat.one_le_iff_ne_zero.mpr fun zero => some_port ?_,
          Nat.one_le_iff_ne_zero.mpr some_reactor⟩
        exact UInt16.toNat_inj.mp zero

namespace Engine

variable {σ : Type} {c : Config} {host : Host} {e : Engine σ}
  {makeDriver : Nat → Except Failure CompletionQueue}

theorem validate_of_new {registry : Registry σ} (made : Engine.new host c registry = .ok e) :
    c.validate = .ok () := by
  simp only [Engine.new, bind, Except.bind] at made
  split at made
  · cases made
  · rename_i valid
    exact valid

/-- What a start gets: the first port of its listeners, and the drivers. -/
def offer (c : Config) (host : Host) (makeDriver : Nat → Except Failure CompletionQueue) :
    Except Failure (Nat × List CompletionQueue) :=
  match c.ports.search host with
  | .error e => .error (bindFailure c e)
  | .ok base => ((List.range c.reactorCount).mapM makeDriver).map fun drivers => (base, drivers)

theorem offer_skip (c : Config) (host : Host) (n : Nat)
    (makeDriver : Nat → Except Failure CompletionQueue) :
    offer c (host.skip n) makeDriver = offer c host makeDriver := by
  simp only [offer, PortRange.search_skip]

/-- A start gets all it needs if a group of ports is chosen, and each driver can be made. -/
theorem offer_cases (host : Host) (one : 1 ≤ c.reactorCount)
    (makeDriver : Nat → Except Failure CompletionQueue) :
    (∃ k drivers, c.ports.Chosen host k ∧ (∀ i < c.reactorCount, ∃ q, makeDriver i = .ok q)
      ∧ offer c host makeDriver = .ok (c.ports.base k, drivers))
    ∨ ∃ failure, offer c host makeDriver = .error failure
      ∧ ¬((∃ k, c.ports.Chosen host k) ∧ ∀ i < c.reactorCount, ∃ q, makeDriver i = .ok q) := by
  rcases PortRange.search_cases (r := c.ports) host one with ⟨k, chosen, found⟩ | ⟨e, fails, found⟩
  · cases made : (List.range c.reactorCount).mapM makeDriver with
    | ok drivers =>
      have each := exists_mapM_iff.mp ⟨drivers, made⟩
      refine .inl ⟨k, drivers, chosen, fun i below => each i (List.mem_range.mpr below), ?_⟩
      simp only [offer, found, made]
      rfl
    | error failure =>
      refine .inr ⟨failure, ?_, fun both => ?_⟩
      · simp only [offer, found, made]
        rfl
      · obtain ⟨drivers, all⟩ := exists_mapM_iff.mpr fun i mem => both.2 i (List.mem_range.mp mem)
        cases made.symm.trans all
  · refine .inr ⟨bindFailure c e, ?_, fun both => ?_⟩
    · simp only [offer, found]
    · obtain ⟨k, chosen⟩ := both.1
      exact fails.not_chosen chosen

/-- What was opened is closed again if a driver cannot be made. -/
theorem prepare_eq (valid : c.validate = .ok ()) (numbered : host.Numbered)
    (makeDriver : Nat → Except Failure CompletionQueue) :
    ∃ n, prepare c host makeDriver = match offer c host makeDriver with
      | .ok (base, drivers) =>
        (.ok (⟨base, List.range' (host.skip n).nextDescriptor c.reactorCount⟩, drivers),
          (host.skip n).withListeners c.bindHost base c.reactorCount)
      | .error failure => (.error failure, host.skip n) := by
  obtain ⟨some_port, one⟩ := Config.ports_of_validate valid
  obtain ⟨n, listens⟩ := PortRange.listenGroup_eq (r := c.ports) numbered some_port one
  have listens : host.listenGroup c.bindHost c.portStart c.portEnd c.reactorCount = _ := listens
  simp only [prepare, offer, listens]
  cases c.ports.search host with
  | error e => exact ⟨n, rfl⟩
  | ok base =>
    cases (List.range c.reactorCount).mapM makeDriver with
    | ok drivers => exact ⟨n, rfl⟩
    | error failure =>
      refine ⟨n + c.reactorCount, ?_⟩
      have closed := Host.closeAll_withListeners (numbered.skip n) c.bindHost base
        fun d => Iff.refl (d ∈ List.range' _ c.reactorCount)
      rw [Host.skip_skip] at closed
      exact congrArg (Prod.mk _) closed

/-! ## One start -/

/-- An engine that may be started. -/
structure Idle (e : Engine σ) : Prop where
  started : e.shared.started = false
  shuttingDown : e.shared.shuttingDown = false

/-- Starting an engine goes by its settings, the ports and the drivers. -/
theorem start_eq (idle : e.Idle) (valid : e.shared.config.validate = .ok ())
    (numbered : host.Numbered) (makeDriver : Nat → Except Failure CompletionQueue) :
    ∃ n, e.start host makeDriver = match offer e.shared.config host makeDriver with
      | .ok (base, drivers) => (.ok (), launch e.shared
          ((host.skip n).withListeners e.shared.config.bindHost base e.shared.config.reactorCount)
          ⟨base, List.range' (host.skip n).nextDescriptor e.shared.config.reactorCount⟩ drivers)
      | .error failure => (.error failure, host.skip n, e) := by
  obtain ⟨n, prepared⟩ := prepare_eq valid numbered makeDriver
  refine ⟨n, ?_⟩
  rw [start, if_neg (by simp [idle.shuttingDown]), if_neg (by simp [idle.started])]
  simp only [prepared]
  cases offer e.shared.config host makeDriver with
  | ok offered => rfl
  | error failure =>
    -- The engine was not started, and the mark is taken back.
    have unmarked : { e.shared with started := false } = e.shared := by rw [← idle.started]
    simp only [unmarked]

theorem launch_spec (s : Shared σ) (host : Host) (group : ListenGroup)
    (drivers : List CompletionQueue) :
    (launch s host group drivers).2.shared.started = true
      ∧ (launch s host group drivers).2.shared.shuttingDown = s.shuttingDown
      ∧ (launch s host group drivers).2.shared.localAddress
        = some (.ofIp s.config.bindHost (UInt16.ofNat group.base)) := by
  simp only [launch]
  generalize makeReactors _ _ _ = reactors
  have unmoved := unmoved_startReactors host
    { s with
      started := true
      localAddress := some (.ofIp s.config.bindHost (UInt16.ofNat group.base))
      live := drivers.length } reactors
  exact ⟨unmoved.started, unmoved.shuttingDown, unmoved.localAddress⟩

theorem start_of_shuttingDown (down : e.shared.shuttingDown = true) (host : Host)
    (makeDriver : Nat → Except Failure CompletionQueue) :
    e.start host makeDriver = (.error .shuttingDown, host, e) := if_pos down

theorem start_of_started (going : e.shared.shuttingDown = false) (started : e.shared.started = true)
    (host : Host) (makeDriver : Nat → Except Failure CompletionQueue) :
    e.start host makeDriver = (.error (.config "engine already started"), host, e) := by
  simp only [start, going, started, Bool.false_eq_true, if_false, if_true]

/-- An engine that could not be started is as it was, and so is the host, but for the numbers of
descriptors that were handed out. -/
theorem start_error (valid : e.shared.config.validate = .ok ()) (numbered : host.Numbered)
    {makeDriver : Nat → Except Failure CompletionQueue} {failure : Failure} {host' : Host}
    {e' : Engine σ} (failed : e.start host makeDriver = (.error failure, host', e')) :
    e' = e ∧ ∃ n, host' = host.skip n := by
  refine ⟨eq_of_start_error failed, ?_⟩
  cases down : e.shared.shuttingDown with
  | true =>
    rw [start_of_shuttingDown down] at failed
    cases failed
    exact ⟨0, rfl⟩
  | false =>
    cases started : e.shared.started with
    | true =>
      rw [start_of_started down started] at failed
      cases failed
      exact ⟨0, rfl⟩
    | false =>
      obtain ⟨n, same⟩ := start_eq ⟨started, down⟩ valid numbered makeDriver
      rw [same] at failed
      split at failed
      · cases failed
      · cases failed
        exact ⟨n, rfl⟩

/-- An engine that is idle starts if it gets all it needs, on the first group of ports that is
chosen. -/
theorem start_idle (idle : e.Idle) (valid : e.shared.config.validate = .ok ())
    (numbered : host.Numbered) (makeDriver : Nat → Except Failure CompletionQueue) :
    ((e.start host makeDriver).1 = .ok () ↔ (∃ k, e.shared.config.ports.Chosen host k)
      ∧ ∀ i < e.shared.config.reactorCount, ∃ q, makeDriver i = .ok q)
    ∧ ∀ host' e', e.start host makeDriver = (.ok (), host', e') →
      ∃ k, e.shared.config.ports.Chosen host k ∧ e'.shared.localAddress
        = some (.ofIp e.shared.config.bindHost (UInt16.ofNat (e.shared.config.ports.base k))) := by
  obtain ⟨n, same⟩ := start_eq idle valid numbered makeDriver
  rcases offer_cases host (Config.ports_of_validate valid).2 makeDriver with
    ⟨k, drivers, chosen, made, offered⟩ | ⟨failure, refused, short⟩
  · rw [same, offered]
    refine ⟨⟨fun _ => ⟨⟨k, chosen⟩, made⟩, fun _ => rfl⟩, fun host' e' started => ?_⟩
    cases started
    exact ⟨k, chosen, (launch_spec _ _ _ _).2.2⟩
  · have failed : e.start host makeDriver = (.error failure, host.skip n, e) := by
      rw [same, refused]
    rw [failed]
    refine ⟨⟨fun started => ?_, fun both => absurd both short⟩, fun host' e' started => ?_⟩
    all_goals cases started

/-- An engine that has no address rejects calls. -/
theorem invoke_of_idle (idle : e.Idle) (unset : e.shared.localAddress = none) (r : Request) :
    e.invoke r = ((0, e.shared.invocations.futures.size),
      { e with shared := { e.shared with
        invocations := (e.shared.invocations.addFuture (.failed .notStarted)).2 } }) := by
  apply invoke_of_route_error
  simp only [route, idle.shuttingDown, unset, Bool.false_eq_true, if_false]

end Engine

/-! ## Start after start -/

/-- A call to start an engine, with what it finds: the endpoints that cannot be listened on, the
highest number of descriptors, and the drivers that can be made. -/
structure Try where
  taken : List (Endpoint × Int) := []
  descriptorLimit : Option Nat := none
  makeDriver : Nat → Except Failure CompletionQueue

/-- The host that a call to start an engine finds. -/
def Try.find (t : Try) (host : Host) : Host :=
  { host with taken := t.taken, descriptorLimit := t.descriptorLimit }

namespace Engine

variable {σ : Type} {host : Host} {e new : Engine σ}

/-- Calls to start an engine, one after the other, and what comes of each. -/
def tryAll (e : Engine σ) (host : Host) : List Try → List (Except Failure Unit) × Host × Engine σ
  | [] => ([], host, e)
  | t :: rest =>
    let (result, host, e) := e.start (t.find host) t.makeDriver
    let (results, host, e) := tryAll e host rest
    (result :: results, host, e)

/-- What would come of the calls if each were the first for a new engine, until one succeeds,
and the address that is set by that one. -/
def expected (new : Engine σ) (host : Host) :
    List Try → List (Except Failure Unit) × Option Address
  | [] => ([], none)
  | t :: rest =>
    match new.start (t.find host) t.makeDriver with
    | (.ok (), _, e) =>
      (.ok () :: rest.map fun _ => .error (.config "engine already started"),
        e.shared.localAddress)
    | (.error failure, _, _) =>
      let (results, address) := expected new host rest
      (.error failure :: results, address)

/-- Once an engine is started, no call to start it does anything. -/
theorem tryAll_of_started (going : e.shared.shuttingDown = false)
    (started : e.shared.started = true) (tries : List Try) (host : Host) :
    (e.tryAll host tries).1 = tries.map (fun _ => .error (.config "engine already started"))
      ∧ (e.tryAll host tries).2.2 = e := by
  induction tries generalizing host with
  | nil => exact ⟨rfl, rfl⟩
  | cons t rest ih =>
    obtain ⟨results, same⟩ := ih (t.find host)
    simp only [tryAll, start_of_started going started]
    exact ⟨congrArg _ results, same⟩

/-- Calls that fail do not change what comes of those after them.  The induction is on the calls;
meanwhile descriptors are handed out. -/
theorem tryAll_eq (idle : e.Idle) (new_idle : new.Idle) (valid : e.shared.config.validate = .ok ())
    (same : new.shared.config = e.shared.config) (unset : e.shared.localAddress = none)
    (numbered : host.Numbered) {host' : Host}
    (alike : ∀ t : Try, ∃ n, t.find host' = (t.find host).skip n) (tries : List Try) :
    (e.tryAll host' tries).1 = (new.expected host tries).1
      ∧ (e.tryAll host' tries).2.2.shared.localAddress = (new.expected host tries).2 := by
  induction tries generalizing host' with
  | nil => exact ⟨rfl, unset⟩
  | cons t rest ih =>
    have found : (t.find host).Numbered := numbered
    obtain ⟨n, passed⟩ := alike t
    obtain ⟨m, here⟩ := start_eq idle valid (found.skip n) t.makeDriver
    obtain ⟨m', there⟩ := start_eq new_idle (same ▸ valid) found t.makeDriver
    rw [offer_skip] at here
    rw [same] at there
    simp only [tryAll, expected, passed, here, there]
    cases offer e.shared.config (t.find host) t.makeDriver with
    | ok offered =>
      obtain ⟨base, drivers⟩ := offered
      simp only
      generalize Host.withListeners _ _ _ _ = opened
      obtain ⟨started, going, address⟩ := launch_spec e.shared opened ⟨base, _⟩ drivers
      obtain ⟨results, last⟩ := tryAll_of_started (going.trans idle.shuttingDown) started rest
        (launch e.shared opened _ drivers).1
      refine ⟨congrArg _ results, ?_⟩
      rw [last, address, (launch_spec new.shared _ _ _).2.2, same]
    | error failure =>
      have alike (t' : Try) : ∃ k, t'.find (((t.find host).skip n).skip m) = (t'.find host).skip k :=
        ⟨n + m, (Host.skip_skip (t'.find host) n m)⟩
      obtain ⟨results, address⟩ := ih alike
      exact ⟨congrArg _ results, address⟩

end Engine

/-! ## The whole life -/

namespace World

variable {σ : Type} {w w' : World σ} {config : Config}

/-- The engine has its settings, and until it is started it has no reactor and no address. -/
structure Configured (w : World σ) (config : Config) : Prop where
  config : w.engine.shared.config = config
  unstarted : w.engine.shared.started = false →
    w.engine.seats = [] ∧ w.engine.shared.localAddress = none

namespace Configured

/-- A reactor goes on, in an engine that was started. -/
theorem advance (h : w.Configured config) {i : Nat} {seat : Seat σ} (found : w.seat? i = some seat)
    {m : Moment σ} (unmoved : w.engine.shared.Unmoved m.turn.shared) (phase : Phase)
    (handed : Option Handover) : (w.advance i phase m handed).Configured config where
  config := unmoved.config.trans h.config
  unstarted new := by
    have none := (h.unstarted (unmoved.started.symm.trans new)).1
    rw [World.seat?, none] at found
    cases found

theorem step (h : w.Configured config) (step : Step w w') : w'.Configured config := by
  cases step with
  | call r =>
    have unmoved := w.engine.unmoved_invoke r
    refine ⟨unmoved.config.trans h.config, fun new => ?_⟩
    obtain ⟨seats, unset⟩ := h.unstarted (unmoved.started.symm.trans new)
    exact ⟨seats, unmoved.localAddress.trans unset⟩
  | shutdown =>
    rw [Engine.shutdown_eq]
    exact ⟨h.config, h.unstarted⟩
  | change | mark => exact ⟨h.config, h.unstarted⟩
  | drive i seat driver found => exact h.advance found (.refl _) _ _
  | begin i seat found =>
    have unmoved := Engine.unmoved_begin (w.turn seat)
    exact h.advance (m := ⟨_, w.batches i⟩) found unmoved _ _
  | move i seat m handed found running move => exact h.advance found move.unmoved _ _
  | finish i seat found =>
    have unmoved := Turn.unmoved_finish (w.turn seat)
    exact h.advance (m := ⟨_, w.batches i⟩) found unmoved _ _

theorem life (h : w.Configured config) (life : Life w w') : w'.Configured config := by
  induction life with
  | refl => exact h
  | tail _ happens ih =>
    cases happens with
    | step step => exact ih.step step
    | launch => exact ⟨ih.config, nofun⟩

end Configured

theorem configured_new {host₀ host : Host} {registry : Registry σ} {e : Engine σ}
    (made : Engine.new host₀ config registry = .ok e) : (ofEngine host e).Configured config := by
  obtain ⟨reactors, count, rfl⟩ := Engine.eq_of_new made
  exact ⟨rfl, fun _ => ⟨rfl, rfl⟩⟩

/-- What comes of starting an engine. -/
structure StartsCleanly (config : Config) (w : World σ) : Prop where
  /-- If it fails, the engine is as it was.  No file is left, and none is gone; only descriptors
  were handed out. -/
  failed : ∀ makeDriver failure host e,
    w.engine.start w.host makeDriver = (.error failure, host, e) →
    e = w.engine ∧ ∃ n, host = w.host.skip n
  /-- An engine that shuts down is not started, nor disturbed. -/
  ended : w.engine.shared.shuttingDown = true → ∀ makeDriver,
    w.engine.start w.host makeDriver = (.error .shuttingDown, w.host, w.engine)
  /-- An engine that was started is not started again, nor disturbed. -/
  running : w.engine.shared.shuttingDown = false → w.engine.shared.started = true → ∀ makeDriver,
    w.engine.start w.host makeDriver = (.error (.config "engine already started"), w.host, w.engine)
  /-- An engine that was not started has nothing running. -/
  unstarted : w.engine.shared.started = false →
    w.engine.seats = [] ∧ w.engine.shared.localAddress = none
  rejects : w.engine.Idle → ∀ r, w.engine.invoke r
    = ((0, w.engine.shared.invocations.futures.size), { w.engine with shared := { w.engine.shared with
        invocations := (w.engine.shared.invocations.addFuture (.failed .notStarted)).2 } })
  /-- An engine that is idle starts if a group of ports is free and each driver can be made. -/
  succeeds : w.engine.Idle → ∀ makeDriver, (w.engine.start w.host makeDriver).1 = .ok ()
    ↔ (∃ k, config.ports.Chosen w.host k) ∧ ∀ i < config.reactorCount, ∃ q, makeDriver i = .ok q
  /-- It gets the address of the first port of that group. -/
  address : w.engine.Idle → ∀ makeDriver host e,
    w.engine.start w.host makeDriver = (.ok (), host, e) →
    ∃ k, config.ports.Chosen w.host k ∧ e.shared.localAddress
      = some (.ofIp config.bindHost (UInt16.ofNat (config.ports.base k)))
  /-- Of any calls to start it comes what would come of them with a new engine. -/
  again : w.engine.Idle → ∀ {host : Host} {registry : Registry σ} {new : Engine σ},
    Engine.new host config registry = .ok new → ∀ tries,
    (w.engine.tryAll w.host tries).1 = (new.expected w.host tries).1
      ∧ (w.engine.tryAll w.host tries).2.2.shared.localAddress = (new.expected w.host tries).2

/-- A start that fails leaves no trace, whatever happened to the engine before. -/
theorem start_leaves_no_trace {host₀ host : Host} {registry : Registry σ} {e : Engine σ}
    (made : Engine.new host₀ config registry = .ok e) (life : Life (ofEngine host e) w)
    (numbered : w.host.Numbered) : w.StartsCleanly config := by
  have h := (configured_new made).life life
  have valid : w.engine.shared.config.validate = .ok () := by
    rw [h.config]
    exact Engine.validate_of_new made
  have starts (idle : w.engine.Idle) := Engine.start_idle idle valid numbered
  rw [h.config] at starts
  refine
    { failed := fun _ _ _ _ => Engine.start_error valid numbered
      ended := fun down => Engine.start_of_shuttingDown down w.host
      running := fun going started => Engine.start_of_started going started w.host
      unstarted := h.unstarted
      rejects := fun idle => Engine.invoke_of_idle idle (h.unstarted idle.started).2
      succeeds := fun idle makeDriver => (starts idle makeDriver).1
      address := fun idle makeDriver => (starts idle makeDriver).2
      again := ?_ }
  intro idle host registry new remade tries
  obtain ⟨reactors, count, rfl⟩ := Engine.eq_of_new remade
  exact Engine.tryAll_eq idle ⟨rfl, rfl⟩ valid h.config.symm (h.unstarted idle.started).2 numbered
    (fun _ => ⟨0, rfl⟩) tries

/-- An engine with two reactors that was made, with four ports to choose from. -/
def dormant : World Builtin.Item :=
  .ofEngine {} { shared :=
    { config := { reactorCount := 2, portStart := 11000, portEnd := 11003 }, registry := .builtin,
      reactors := [.new 0 {} .blocking, .new 1 {} .blocking], links := { reactorCount := 2 } } }

/-- A port of each group is taken or not permitted, then a driver cannot be made.  After that
nothing is in the way. -/
def tries : List Try := [
  { taken := [(.ofIp .loopback 11001, Errno.addressInUse), (.ofIp .loopback 11002, Errno.permissionDenied)],
    makeDriver := fun _ => .ok {} },
  { makeDriver := fun i => if i = 1 then .error (.driver Errno.tooManyFiles) else .ok {} },
  { makeDriver := fun _ => .ok {} },
  { makeDriver := fun _ => .ok {} }]

/-- Two starts fail, at a port and at a driver, and the third comes to what it would have come to at
first. -/
theorem start_leaves_no_trace_of_failures :
    Engine.new {} dormant.engine.shared.config .builtin = .ok dormant.engine
    ∧ Life dormant dormant ∧ dormant.host.Numbered
    ∧ (dormant.engine.tryAll dormant.host tries).1 = [
      .error (.bind "2 ports in 11000..=11003 on 127.0.0.1: Permission denied (os error 13)"),
      .error (.driver Errno.tooManyFiles), .ok (), .error (.config "engine already started")]
    ∧ (dormant.engine.tryAll dormant.host tries).2.2.shared.localAddress
      = some (.ofIp .loopback 11000) := by
  have made : Engine.new {} dormant.engine.shared.config .builtin = .ok dormant.engine := rfl
  have numbered : dormant.host.Numbered := nofun
  have clean := start_leaves_no_trace made .refl numbered
  obtain ⟨results, address⟩ := clean.again ⟨rfl, rfl⟩ made tries
  exact ⟨made, .refl, numbered, results.trans rfl, address.trans rfl⟩

end World

end PartitionEngine
