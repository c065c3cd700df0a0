import PartitionEngine.Proofs.Worlds

/-!
# Every invocation is backed

Each step of an engine keeps the worlds sound (`Step.sound`).  So an invocation
that waits has its task queued, or a live channel was handed its bytes
(`invocations_backed`), and a channel that closes takes its invocations along.

What a reactor leaves when it ends is told once (`Turn.finish_eq`), and so is what holds of
all it answers (`Shared.retire_of_reply`).
-/

namespace PartitionEngine

/-! ## Queues that are popped -/

namespace Turn

variable {σ : Type} {t t' : Turn σ} {task : Task}

/-- The oldest task is taken. -/
theorem takes_popTask (popped : t.popTask = (some task, t')) :
    t'.reactor = t.reactor ∧ t.shared.Takes t.reactor.index t'.shared
      ∧ t.shared.queued t.reactor.index = task :: t'.shared.queued t.reactor.index := by
  simp only [popTask] at popped
  split at popped
  · cases popped
  · rename_i h found
    have found : t.shared.reactor? t.reactor.index = some h := found
    cases popped' : h.queue.pop with
    | mk first queue =>
      rw [popped'] at popped
      cases popped
      have rest : h.queue.tasks.toList = task :: queue.tasks.toList := by
        simp only [TaskQueue.pop] at popped'
        split at popped'
        · cases popped'
        · rename_i taken
          cases popped'
          exact Fifo.toList_of_pop? taken
      have own : t.shared.queued t.reactor.index
          = task :: (t.modifyHandle fun r => { r with queue }).shared.queued t.reactor.index := by
        rw [modifyHandle, Shared.queued_modifyReactor, if_pos rfl, found]
        simp [Shared.queued, found, rest]
      refine ⟨rfl, .handle ?_, own⟩
      intro r here other mem
      cases found.symm.trans here
      exact rest ▸ List.mem_cons_of_mem _ mem

/-- Counting leaves the queues alone. -/
theorem queued_count (t : Turn σ) (f : ReactorStats → ReactorStats) (j : Nat) :
    (t.count f).shared.queued j = t.shared.queued j :=
  Shared.queued_modifyReactor_of_tasks (f := fun r => r.count f) (fun _ _ => rfl) j

theorem takes_count (t : Turn σ) (f : ReactorStats → ReactorStats) (i : Nat) :
    t.shared.Takes i (t.count f).shared where
  toKeeps := (quiet_count t f).toKeeps
  invocations := rfl
  others j _ := queued_count t f j
  own _ mem := queued_count t f i ▸ mem

end Turn

/-! ## The end of a reactor -/

namespace Shared

variable {σ : Type}

/-- The queue of a reactor is emptied. -/
def unqueue (s : Shared σ) (i : Nat) : Shared σ :=
  s.modifyReactor i fun r => { r with queue := { r.queue with tasks := {} } }

/-- What is shared when the reactor `i` has ended and has not answered anything yet. -/
def bury (s : Shared σ) (i : Nat) : Shared σ := (s.modifyReactor i .markDead).unqueue i

/-- Answers tasks that the reactor `index` does not run any more. -/
def refuse (thread : ThreadId) (index : Nat) : List Task → Shared σ → Shared σ
  | [], s => s
  | .forward f replyTo :: rest, s =>
    refuse thread index rest (s.refuseForward thread index f replyTo)
  | _ :: rest, s => refuse thread index rest s

/-- What is shared when the reactor `i` has ended and has answered what was in its queue. -/
def retire (s : Shared σ) (thread : ThreadId) (i : Nat) : Shared σ :=
  (s.bury i).refuse thread i (s.queued i)

/-- What holds of each response that is handed over holds of all that is answered. -/
theorem refuse_of_reply {R : Shared σ → Shared σ → Prop} (refl : ∀ s, R s s)
    (trans : ∀ {s s' s''}, R s s' → R s' s'' → R s s'')
    (reply : ∀ s thread i channel bytes, R s (s.submit thread i (.reply channel bytes)).2)
    (thread : ThreadId) (index : Nat) (left : List Task) (s : Shared σ) :
    R s (s.refuse thread index left) := by
  induction left generalizing s with
  | nil => exact refl s
  | cons task rest ih =>
    cases task with
    | forward f replyTo =>
      have first : R s (s.refuseForward thread index f replyTo) := by
        simp only [refuseForward]
        split
        · exact refl s
        · exact reply s _ _ _ _
      exact trans first (ih _)
    | execute | connect | write | reply | stop => exact ih s

/-- Nothing but the reactors is changed. -/
theorem retire_eq (s : Shared σ) (thread : ThreadId) (i : Nat) :
    s.retire thread i = { s with reactors := (s.retire thread i).reactors } := by
  obtain ⟨reactors, same⟩ : ∃ reactors, s.retire thread i = { s with reactors } := by
    obtain ⟨reactors, answered⟩ := refuse_of_reply (σ := σ)
      (R := fun s s' => ∃ reactors, s' = { s with reactors }) (fun s => ⟨s.reactors, rfl⟩)
      (by rintro s s' s'' ⟨_, rfl⟩ ⟨reactors, rfl⟩; exact ⟨reactors, rfl⟩)
      (fun s thread i channel bytes => ⟨_, s.submit_eq thread i (.reply channel bytes)⟩) thread i
      (s.queued i) (s.bury i)
    exact ⟨reactors, answered⟩
  rw [same]

theorem retire_of_reply {R : Shared σ → Shared σ → Prop} (refl : ∀ s, R s s)
    (trans : ∀ {s s' s''}, R s s' → R s' s'' → R s s'')
    (reply : ∀ s thread i channel bytes, R s (s.submit thread i (.reply channel bytes)).2)
    (s : Shared σ) (thread : ThreadId) (i : Nat) :
    R (s.bury i) { s with reactors := (s.retire thread i).reactors } := by
  rw [← retire_eq]
  exact refuse_of_reply refl trans reply thread i (s.queued i) (s.bury i)

end Shared

namespace Turn

variable {σ : Type}

theorem foldl_refuse (left : List Task) (t : Turn σ) : left.foldl refuse t
    = { t with shared := t.shared.refuse t.reactor.thread t.reactor.index left } := by
  induction left generalizing t with
  | nil => rfl
  | cons task rest ih => cases task <;> exact ih _

/-- Closing sockets changes the host alone. -/
theorem foldl_closeSocketOf (keys : List SlotKey) (t : Turn σ) :
    (keys.foldl closeSocketOf t).shared = t.shared
      ∧ (keys.foldl closeSocketOf t).reactor = t.reactor := by
  induction keys generalizing t with
  | nil => exact ⟨rfl, rfl⟩
  | cons key rest ih =>
    simp only [List.foldl_cons, closeSocketOf]
    cases t.channel? key with
    | none => exact ih t
    | some c => exact ih (t.closeSocket c.descriptor)

/-- Why the invocations fail that go through a reactor that ends. -/
def causeOfEnd (t : Turn σ) : Failure :=
  if t.shared.shuttingDown then .shuttingDown else .reactorUnavailable t.reactor.index

/-- A reactor that ends answers what is left in its queue and fails what goes through it.  Of
its own it loses the channels and the listener. -/
theorem finish_eq (t : Turn σ) :
    t.finish.reactor = { t.reactor with channels := {}, listener := none }
      ∧ t.finish.shared = { t.shared with
          reactors := (t.shared.retire t.reactor.thread t.reactor.index).reactors
          invocations := (t.shared.invocations.failReactor t.reactor.index t.causeOfEnd).2
          live := t.shared.live - 1 } := by
  obtain ⟨shared, reactor⟩ :=
    foldl_closeSocketOf t.reactor.channels.keys (t.closeSocket t.reactor.listener)
  have left := Shared.queued_modifyReactor_of_tasks (s := t.shared) (i := t.reactor.index)
    (f := .markDead) (fun _ _ => rfl) t.reactor.index
  simp only [finish]
  generalize List.foldl closeSocketOf _ _ = closed at shared reactor ⊢
  obtain ⟨host, s, r⟩ := closed
  obtain rfl : s = t.shared := shared
  obtain rfl : r = t.reactor := reactor
  have answered : (Turn.modifyHandle (σ := σ) ⟨host, t.shared, { t.reactor with
      channels := {}, listener := none }⟩ ReactorHandle.markDead).refuseQueued
        = ⟨host, t.shared.retire t.reactor.thread t.reactor.index, { t.reactor with
            channels := {}, listener := none }⟩ := by
    refine (foldl_refuse _ _).trans ?_
    rw [Shared.retire, ← left]
    rfl
  rw [answered, Shared.retire_eq]
  exact ⟨rfl, rfl⟩

/-- A reactor that ends leaves no invocation that goes through it. -/
theorem finish_spec (t : Turn σ) :
    t.finish.reactor.index = t.reactor.index
      ∧ t.finish.reactor.localAddress = t.reactor.localAddress
      ∧ (∃ s, t.shared.Takes t.reactor.index s ∧ s.Quiet t.finish.shared)
      ∧ ∀ peer id i, t.finish.shared.invocations.Waits peer id i → i.reactor ≠ t.reactor.index := by
  obtain ⟨reactor, shared⟩ := t.finish_eq
  rw [reactor, shared]
  refine ⟨rfl, rfl, ⟨t.shared.bury t.reactor.index, ?_, ?_⟩, ?_⟩
  · have dead : t.shared.Takes t.reactor.index (t.shared.modifyReactor t.reactor.index .markDead) :=
      .handle fun _ _ _ mem => mem
    exact dead.trans (.handle fun _ _ _ mem => by cases mem)
  · let answered : Shared σ :=
      { t.shared with reactors := (t.shared.retire t.reactor.thread t.reactor.index).reactors }
    have retired : (t.shared.bury t.reactor.index).Quiet answered := Shared.retire_of_reply .refl
      .trans (fun s _ _ _ _ => .relay s _ _ rfl) t.shared t.reactor.thread t.reactor.index
    have failed : answered.Quiet { answered with
        invocations := (t.shared.invocations.failReactor t.reactor.index t.causeOfEnd).2 } :=
      .invocations _ fun _ _ _ waits => (InvocationTable.waits_failAnywhere waits).1
    exact (retired.trans failed).trans
      ⟨⟨⟨rfl, rfl, rfl, fun _ known => known⟩, fun _ _ mem => mem⟩, fun _ _ mem => .inl mem, .refl _⟩
  · intro peer id i waits
    simpa using (InvocationTable.waits_failAnywhere waits).2

end Turn

namespace World

variable {σ : Type} {w w' : World σ} {i : Nat} {seat : Seat σ}

/-! ## Steps -/

theorem Sound.call (h : w.Sound) (r : Request) :
    Sound { w with
      engine := (w.engine.invoke r).2
      calls := ((w.engine.invoke r).1.2, r) :: w.calls } := by
  obtain ⟨seats, accepts⟩ := Engine.accepts_invoke w.engine r
  refine h.share accepts.toOnward seats rfl (fun _ mem => List.mem_cons_of_mem _ mem)
    (accepts.known h.known) ?_
  intro peer id i waits
  refine (accepts.waits peer id i waits).imp_right ?_
  rintro ⟨future, queued⟩
  exact ⟨r, future ▸ List.mem_cons_self, queued⟩

theorem seat?_shutdown (w : World σ) (i : Nat) :
    seat? { w with engine := w.engine.shutdown } i = w.seat? i := by
  rw [seat?, Engine.seats_shutdown, seat?]

theorem Sound.shutdown (h : w.Sound) : Sound { w with engine := w.engine.shutdown } := by
  have on := w.engine.onward_shutdown
  refine h.share on w.engine.seats_shutdown rfl (fun _ mem => mem) ?_ ?_
  · intro j task l mem about
    obtain ⟨stops, queued, stop⟩ := w.engine.queued_shutdown j
    rw [queued, List.mem_append] at mem
    rcases mem with mem | mem
    · exact (h.known j task l mem about).keeps on.toKeeps
    · rw [stop task mem] at about
      cases about
  · intro peer id i waits
    simp only [Engine.shutdown] at waits
    split at waits
    · exact .inl waits
    · exact .inl (InvocationTable.waits_failAnywhere waits).1

/-! ## How reactors go on -/

/-- A reactor runs the oldest task.  If that carried an invocation, it completes it,
fails it, or hands its bytes over. -/
theorem Sound.goes_run (h : w.Sound) (room : seat.reactor.channels.slots.length < Slab.maxSlots)
    (found : w.seat? i = some seat) (running : seat.phase = .asleep) {task : Task} {t : Turn σ}
    (popped : (w.turn seat).popTask = (some task, t)) :
    w.Goes i seat (t.count fun s => { s with tasks := s.tasks + 1 })
      ⟨(t.count fun s => { s with tasks := s.tasks + 1 }).onTask task, []⟩
      ((t.count fun s => { s with tasks := s.tasks + 1 }).handover? task) := by
  obtain ⟨reactor, takes, first⟩ := Turn.takes_popTask popped
  obtain ⟨index, address⟩ := h.seats i seat found
  have index : (w.turn seat).reactor.index = i := index
  rw [index] at takes first
  have takes := takes.trans (t.takes_count (fun s => { s with tasks := s.tasks + 1 }) i)
  rw [← t.queued_count (fun s => { s with tasks := s.tasks + 1 }) i] at first
  have reactor : (t.count fun s => { s with tasks := s.tasks + 1 }).reactor = seat.reactor := reactor
  generalize (t.count fun s => { s with tasks := s.tasks + 1 }) = t at takes first reactor ⊢
  have first : w.engine.shared.queued i = task :: t.shared.queued i := first
  have known (l : Link) (about : task.link? = some l) : w.engine.shared.Knows i l :=
    h.known i task l (first ▸ List.mem_cons_self) about
  have fit : t.Fit (w.engine.shared.Knows i) := (h.fit i seat found running).of_reactor
    (congrArg Reactor.channels reactor) (congrArg Reactor.outbound reactor)
  have room : t.reactor.channels.slots.length < Slab.maxSlots := reactor ▸ room
  refine ⟨takes, congrArg Reactor.index reactor, congrArg Reactor.localAddress reactor,
    congrArg Reactor.channels reactor, congrArg Reactor.stopping reactor,
    fit.onTask room task known, ?_⟩
  intro still distinct other mem gone peer id inv r waits via carries
  have same : other = task := by
    rw [first] at mem
    exact (List.mem_cons.mp mem).resolve_right gone
  subst same
  subst via
  refine fit.onTask_carries room known ?_ ?_ still carries waits
  · intro l l' knows knows' endpoint
    exact knows.alike knows' distinct endpoint
  · rw [takes.localAddress, reactor]
    exact address

theorem Sound.goes_move (h : w.Sound) (room : w.HasRoom) {m : Moment σ} {handed : Option Handover}
    (found : w.seat? i = some seat) (running : seat.phase = .asleep)
    (move : Moment.Move ⟨w.turn seat, w.batches i⟩ handed m) : ∃ t, w.Goes i seat t m handed := by
  have fit := h.fit i seat found running
  generalize w.batches i = batch at move
  generalize here : w.turn seat = t at move
  cases move with
  | wait =>
    subst here
    exact ⟨_, .of_proceeds ⟨.of_channels (.refl _) rfl rfl rfl rfl, fit.of_reactor rfl rfl⟩⟩
  | mark _ f keep =>
    subst here
    exact ⟨_, .of_proceeds ⟨.of_channels (.handle keep) rfl rfl rfl rfl, fit.of_reactor rfl rfl⟩⟩
  | take limit =>
    subst here
    exact ⟨_, .of_proceeds ⟨.of_channels (.refl _) rfl rfl rfl rfl, fit.of_reactor rfl rfl⟩⟩
  | handle _ c rest =>
    subst here
    exact ⟨_, .of_proceeds (fit.onCompletion (room i seat found) c)⟩
  | run _ task t' popped =>
    subst here
    exact ⟨_, h.goes_run (room i seat found) found running popped⟩

theorem Sound.goes_drive (h : w.Sound) (found : w.seat? i = some seat)
    (running : seat.phase = .asleep) (driver : CompletionQueue) :
    w.Goes i seat (w.turn seat)
      ⟨{ w.turn seat with reactor := { seat.reactor with driver } }, w.batches i⟩ none :=
  .of_proceeds ⟨.of_channels (.refl _) rfl rfl rfl rfl,
    (h.fit i seat found running).of_reactor rfl rfl⟩

theorem Sound.goes_begin (h : w.Sound) (found : w.seat? i = some seat)
    (running : seat.phase = .asleep) :
    w.Goes i seat (w.turn seat) ⟨(w.turn seat).armWakeup.armAccept, w.batches i⟩ none := by
  have armed : Turn.Acts .all ⟨0, 0⟩ (w.turn seat) (w.turn seat).armWakeup.armAccept :=
    (Turn.acts_armWakeup _ _ trivial).trans (Turn.acts_armAccept _ _ trivial)
  exact .of_proceeds (.of_acts (h.fit i seat found running) armed)

theorem Sound.finish (h : w.Sound) (found : w.seat? i = some seat) :
    (w.advance i .ended ⟨(w.turn seat).finish, w.batches i⟩ none).Sound := by
  obtain ⟨index, address, ⟨s, takes, quiet⟩, -⟩ := (w.turn seat).finish_spec
  have here : (w.turn seat).reactor.index = i := (h.seats i seat found).1
  exact h.advance found (here ▸ takes) quiet index address (fun running => by cases running)
    fun running => by cases running

/-! ## Every run -/

theorem Step.sound (step : Step w w') (room : w.HasRoom) (h : w.Sound) : w'.Sound := by
  cases step with
  | call r => exact h.call r
  | shutdown => exact h.shutdown
  | change host ownership =>
    have on : w.engine.shared.Onward { w.engine.shared with ownership } :=
      ⟨⟨rfl, rfl, rfl, fun _ known => known⟩, fun _ _ mem => mem⟩
    exact h.share on rfl rfl (fun _ mem => mem)
      (fun i task l mem about => (h.known i task l mem about).keeps on.toKeeps)
      fun _ _ _ waits => .inl waits
  | mark i f keep =>
    have quiet : w.engine.shared.Quiet (w.engine.shared.modifyReactor i f) :=
      .handle fun r _ => keep r
    exact h.share quiet.toOnward rfl rfl (fun _ mem => mem) (quiet.known h.known)
      fun _ _ _ waits => .inl waits
  | drive i seat driver found running =>
    exact h.goes found running (h.goes_drive found running driver)
  | begin i seat found running => exact h.goes found running (h.goes_begin found running)
  | move i seat m handed found running move =>
    obtain ⟨t, goes⟩ := h.goes_move room found running move
    exact h.goes found running goes
  | finish i seat found running => exact h.finish found

theorem Reachable.sound (reached : Reachable w) : w.Sound := by
  induction reached with
  | start w fresh => exact fresh.sound
  | step _ room step ih => exact step.sound room ih

/-- What a reactor does leaves the channels of others alone. -/
theorem Goes.serves_advance {j : Nat} {seat' : Seat σ} {t : Turn σ} {m : Moment σ}
    {handed : Option Handover} (goes : w.Goes j seat' t m handed) (found' : w.seat? j = some seat')
    (found : w.seat? i = some seat) {key : SlotKey} {l : Link}
    (serves : (w.turn seat).Serves key l) :
    (∃ seat', (w.advance j .asleep m handed).seat? i = some seat'
      ∧ ((w.advance j .asleep m handed).turn seat').Serves key l)
    ∨ (w.advance j .asleep m handed).engine.shared.Deserted l := by
  by_cases same : i = j
  · subst same
    cases found.symm.trans found'
    refine (goes.serves serves).imp_left ?_
    intro serves
    exact ⟨_, seat?_advance_self found, serves.of_eq rfl⟩
  · exact .inl ⟨seat, (seat?_advance_of_ne same).trans found, serves.of_eq rfl⟩

/-- A channel serves on, or no invocation is left that goes through its link. -/
theorem Step.serves (step : Step w w') (room : w.HasRoom) (h : w.Sound)
    (found : w.seat? i = some seat) {key : SlotKey} {l : Link} (serves : (w.turn seat).Serves key l)
    (index : l.index = i) :
    (∃ seat', w'.seat? i = some seat' ∧ (w'.turn seat').Serves key l)
      ∨ w'.engine.shared.Deserted l := by
  cases step with
  | call r => exact .inl ⟨seat, found, serves.of_eq rfl⟩
  | shutdown =>
    exact .inl ⟨seat, (seat?_shutdown _ i).trans found, serves.of_eq rfl⟩
  | change host ownership => exact .inl ⟨seat, found, serves.of_eq rfl⟩
  | mark j f keep => exact .inl ⟨seat, found, serves.of_eq rfl⟩
  | drive j seat' driver found' running =>
    exact (h.goes_drive found' running driver).serves_advance found' found serves
  | begin j seat' found' running =>
    exact (h.goes_begin found' running).serves_advance found' found serves
  | move j seat' m handed found' running move =>
    obtain ⟨t, went⟩ := h.goes_move room found' running move
    exact went.serves_advance found' found serves
  | finish j seat' found' running =>
    by_cases same : i = j
    · subst same
      cases found.symm.trans found'
      refine .inr ?_
      intro id inv waits
      have here : (w.turn seat).reactor.index = i := (h.seats i seat found).1
      have other := (w.turn seat).finish_spec.2.2.2 l.peer id inv waits
      rw [here, ← index] at other
      exact other
    · exact .inl ⟨seat, (seat?_advance_of_ne same).trans found, serves.of_eq rfl⟩

/-! ## A run

A call to another engine.  The reactor makes the channel of the link, and the frames
of the request wait on it.
-/

/-- The world after a reactor has run its oldest task. -/
def runTask (w : World σ) (i : Nat) : World σ :=
  match w.seat? i with
  | none => w
  | some seat =>
    match (w.turn seat).popTask with
    | (none, _) => w
    | (some task, t) =>
      w.advance i .asleep
        ⟨(t.count fun s => { s with tasks := s.tasks + 1 }).onTask task, []⟩
        ((t.count fun s => { s with tasks := s.tasks + 1 }).handover? task)

theorem Reachable.runTask (reached : Reachable w) (room : w.HasRoom)
    (running : ∀ seat, w.seat? i = some seat → seat.phase = .asleep) (idle : w.batches i = []) :
    Reachable (w.runTask i) := by
  simp only [World.runTask]
  split
  · exact reached
  · rename_i seat found
    split
    · exact reached
    · rename_i task t popped
      exact reached.step room (.move w i seat _ _ found (running seat found)
        (idle ▸ .run (w.turn seat) task t popped))

/-- The address of an engine. -/
def home : Address := .ofIp (.v4 0x7f000001) 23000

/-- The address of another. -/
def away : Address := .ofIp (.v4 0x7f000001) 24000

/-- An engine with one reactor.  The other engine owns every partition. -/
def resting : World Builtin.Item where
  host := {}
  engine :=
    { shared :=
        { config := { reactorCount := 1 }, registry := .empty, ownership := .allTo away,
          reactors := [.new 0 {} .blocking], links := { reactorCount := 1 }, started := true,
          localAddress := some home, live := 1 }
      seats :=
        [{ reactor :=
             { index := 0, listener := some 3, localAddress := home,
               dispatcher := .new .empty 64 }
           phase := .asleep }] }

/-- A call. -/
def request : Request := { opcode := 1, partition := 7, payload := [] }

/-- The engine after the call. -/
def called : World Builtin.Item :=
  { resting with
    engine := (resting.engine.invoke request).2
    calls := [((resting.engine.invoke request).1.2, request)] }

/-- The engine after its reactor has run the two tasks of the call. -/
def written : World Builtin.Item := (called.runTask 0).runTask 0

theorem fresh_resting : Fresh resting where
  size := rfl
  invocations := rfl
  queued i := by
    cases i with
    | zero => rfl
    | succ => rfl
  seats i seat found := by
    cases i with
    | zero =>
      cases found
      exact ⟨rfl, rfl, rfl, rfl⟩
    | succ => cases found

/-- What holds of a reactor alone in its engine. -/
theorem of_alone {w : World σ} {seat : Seat σ} {p : Seat σ → Prop} (alone : w.engine.seats = [seat])
    (holds : p seat) (i : Nat) (seat' : Seat σ) (found : w.seat? i = some seat') : p seat' := by
  rw [seat?, alone] at found
  cases i with
  | zero =>
    cases found
    exact holds
  | succ => cases found

theorem reachable_written : Reachable written := by
  have start : Reachable called :=
    .step (.start resting fresh_resting) (of_alone rfl (by decide)) (.call resting request)
  have connected : Reachable (called.runTask 0) :=
    start.runTask (of_alone rfl (by decide))
      (of_alone (p := fun s => s.phase = .asleep) rfl rfl 0) rfl
  exact connected.runTask (of_alone rfl (by decide))
    (of_alone (p := fun s => s.phase = .asleep) rfl rfl 0) rfl

/-- The engine of the written world knows one other member. -/
theorem eq_away_of_known {p : Address}
    (known : (written.engine.shared.links.peers.get? p).isSome = true) : p = away := by
  obtain ⟨records, found⟩ := Option.isSome_iff_exists.mp known
  have mem := Assoc.mem_of_get? found
  have one : written.engine.shared.links.peers.entries
      = [(away, [{ state := .connecting, connects := 1 }])] := rfl
  rw [one] at mem
  cases List.mem_singleton.mp mem
  rfl

/-! ## What waits is backed -/

/-- While the reactors run and peers can be told apart, an invocation that waits has its
task queued, or a live channel of its link was handed its bytes.  When a channel of a
link is closed, no invocation is left that goes through the link.  Bytes that a channel is
handed are those of the task that the reactor takes off its queue, and go to the end of its
write queue. -/
theorem invocations_backed (reached : Reachable w)
    (running : ∀ i seat, w.seat? i = some seat →
      seat.phase = .asleep ∧ seat.reactor.stopping = false)
    (distinct : w.engine.shared.links.Distinct) :
    (∀ peer id i, w.engine.shared.invocations.Waits peer id i → w.Backed peer id i)
    ∧ (∀ w', w.HasRoom → Step w w' → ∀ i seat seat' key l, w.seat? i = some seat →
      (w.turn seat).Serves key l → l.index = i → w'.seat? i = some seat' →
      ¬ (w'.turn seat').Serves key l → w'.engine.shared.Deserted l)
    ∧ ∀ i seat h m, w.seat? i = some seat →
      Moment.Move ⟨w.turn seat, w.batches i⟩ (some h) m →
      ∃ l t, (w.turn seat).popTask = (some (.write l h.bytes (some h.correlationId)), t)
        ∧ (t.count fun s => { s with tasks := s.tasks + 1 }).Enters h l m.turn := by
  have h := reached.sound
  refine ⟨?_, ?_, fun i seat h m _ move => move.enters⟩
  · intro peer id i waits
    have inside := h.routed peer id i waits
    have found : w.seat? i.reactor = some (w.engine.seats[i.reactor]) :=
      List.getElem?_eq_getElem inside
    obtain ⟨awake, going⟩ := running _ _ found
    exact h.backed distinct peer id i _ waits found awake going
  · intro w' room step i seat seat' key l found serves index found' closed
    refine (step.serves room h found serves index).resolve_left ?_
    rintro ⟨seat'', found'', still⟩
    cases found'.symm.trans found''
    exact closed still

/-- The invocation of the call is backed by the channel that was handed its bytes. -/
theorem written_backed :
    (∀ i seat, written.seat? i = some seat → seat.phase = .asleep ∧ seat.reactor.stopping = false)
    ∧ written.engine.shared.links.Distinct
    ∧ written.engine.shared.queued 0 = []
    ∧ written.Backed away 501 { correlationId := 501, partition := 7, reactor := 0, future := 0 } := by
  have running : ∀ i seat, written.seat? i = some seat →
      seat.phase = .asleep ∧ seat.reactor.stopping = false := of_alone rfl ⟨rfl, rfl⟩
  have distinct : written.engine.shared.links.Distinct := fun p q _ _ known known' _ _ =>
    (eq_away_of_known known).trans (eq_away_of_known known').symm
  exact ⟨running, distinct, rfl, (invocations_backed reachable_written running distinct).1 away 501 _
    ⟨_, rfl, List.mem_singleton_self _⟩⟩

end World

end PartitionEngine
