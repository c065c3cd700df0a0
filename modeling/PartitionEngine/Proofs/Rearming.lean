import PartitionEngine.Proofs.Coherence
import PartitionEngine.Proofs.Panics
import PartitionEngine.Proofs.Sending
import PartitionEngine.Proofs.WindingDown
import PartitionEngine.Proofs.Works

/-!
# What a reactor does not try again

A reactor submits its accept and its read on the wakeup signal when it starts, and again
whenever they come back, whatever they come back with.  A submission that the driver
refuses never comes back, so it is the last.  Whoever counts the refused ones with those
under way counts one of each at any time (`Turn.tries`), as long as the reactor is not told
to stop.  Hence one is under way as long as none was refused, and none is ever after
(`Moment.armed_until_refused`).

A reactor that has no room for what it receives panics over a connection that comes in, before
it submits the accept again.  So for accepts it must have that room (`Moment.Roomy`).
-/

namespace PartitionEngine

namespace CompletionQueue

variable {q : CompletionQueue} {batch : List (IoCompletion Token)} {p : Purpose}

/-- The submissions for a purpose that were refused. -/
def refused (q : CompletionQueue) (p : Purpose) : Nat :=
  q.log.countP fun
    | .submitted submission (some _) => submission.token.purpose? = some p
    | _ => false

theorem refused_cancelAll (tokens : List Token) (q : CompletionQueue) (p : Purpose) :
    (tokens.foldl cancel q).refused p = q.refused p := by
  obtain ⟨events, log, canceled⟩ := q.log_cancelAll tokens
  rw [refused, log, List.countP_append, List.countP_eq_zero.mpr, Nat.zero_add, ← refused]
  intro event mem
  obtain ⟨token, found, rfl⟩ := canceled event mem
  simp

theorem log_suffix_cancelAll (tokens : List Token) (q : CompletionQueue) :
    q.log <:+ (tokens.foldl cancel q).log := by
  obtain ⟨events, log, -⟩ := q.log_cancelAll tokens
  exact ⟨events, log.symm⟩

theorem refused_mono {q' : CompletionQueue} (kept : q.log <:+ q'.log) (p : Purpose) :
    q.refused p ≤ q'.refused p := kept.sublist.countP_le

/-- The operations for a purpose that are under way, and the submissions for it that were
refused. -/
def tries (q : CompletionQueue) (batch : List (IoCompletion Token)) (p : Purpose) : Nat :=
  q.countFor batch p + q.refused p

/-- A submission counts, accepted or not. -/
theorem tries_submit (q : CompletionQueue) (batch : List (IoCompletion Token)) (token : Token)
    (op : IoOp) (p : Purpose) :
    (q.submit token op).2.tries batch p
      = q.tries batch p + if token.purpose? = some p then 1 else 0 := by
  have noted : (q.submit token op).2.refused p = q.refused p
      + if token.purpose? = some p ∧ (q.refusal? op.kind).isSome then 1 else 0 := by
    rw [refused, q.log_submit, List.countP_cons, ← refused]
    cases q.refusal? op.kind <;> simp
  cases result : (q.submit token op).1 with
  | ok u =>
    have accepted : q.refusal? op.kind = none := refusal?_of_submit_ok (Prod.ext result rfl)
    rw [accepted] at noted
    rw [tries, tries, countFor_submit_of_ok result, noted]
    simp [Nat.add_right_comm]
  | error e =>
    obtain ⟨errno, denied⟩ := refusal?_of_submit_error (Prod.ext result rfl)
    rw [tries, tries, countFor_submit_of_error result, noted, Nat.add_assoc]
    simp [denied]

theorem tries_cancelAll (tokens : List Token) (q : CompletionQueue) (p : Purpose) :
    (tokens.foldl cancel q).tries batch p = q.tries batch p := by
  rw [tries, refused_cancelAll]
  exact congrArg (· + q.refused p) ((perm_cancelAll tokens q).countP_eq _)

theorem tries_cons (done : IoCompletion Token) (p : Purpose) :
    q.tries (done :: batch) p
      = q.tries batch p + if done.token.purpose? = some p then 1 else 0 := by
  rw [tries, countFor_cons, tries, Nat.add_right_comm]

end CompletionQueue

namespace Turn

variable {σ : Type} {may : Scope} {batch : List (IoCompletion Token)} {key : SlotKey}
  {t t' t'' : Turn σ} {done : IoCompletion Token} {p : Purpose}

/-! ## What concerns channels alone -/

/-- The listener stays, and nothing is submitted that is of no channel. -/
structure Steady (t t' : Turn σ) : Prop where
  listener : t'.reactor.listener = t.reactor.listener
  tries : ∀ batch p, p.isChannel = false →
    t'.reactor.driver.tries batch p = t.reactor.driver.tries batch p

namespace Steady

theorem of_driver (listener : t'.reactor.listener = t.reactor.listener)
    (driver : t'.reactor.driver = t.reactor.driver) : Steady t t' :=
  ⟨listener, fun _ _ _ => driver ▸ rfl⟩

theorem refl (t : Turn σ) : Steady t t := of_driver rfl rfl

theorem trans (h : Steady t t') (h' : Steady t' t'') : Steady t t'' :=
  ⟨h'.listener.trans h.listener, fun batch p own => (h'.tries batch p own).trans (h.tries batch p own)⟩

theorem shut (t : Turn σ) (key : SlotKey) (c : Channel) (cause : Failure) :
    Steady t (t.shut key c cause) := by
  rw [shut_eq]
  exact ⟨rfl, fun _ p _ => CompletionQueue.tries_cancelAll _ _ p⟩

end Steady

theorem Act.steady (act : Act may key t t') (unarmed : ¬ may.arms) : Steady t t' := by
  cases act with
  | mark _ _ _ arms | submitPlain _ _ _ arms | cancelPlain _ _ arms => exact absurd arms unarmed
  | submit p attempt op channel =>
    refine ⟨rfl, fun batch q own => ?_⟩
    have apart : (Token.ofChannel p key attempt).purpose? ≠ some q := by
      rw [Token.purpose?_ofChannel]
      rintro ⟨rfl⟩
      cases channel.symm.trans own
    exact (CompletionQueue.tries_submit _ _ _ op q).trans (by rw [if_neg apart, Nat.add_zero])
  | cancel p attempt =>
    exact ⟨rfl, fun _ q _ => CompletionQueue.tries_cancelAll [.ofChannel p key attempt] _ q⟩
  | shut c cause => exact .shut t key c cause
  | release =>
    rw [releaseIfDone_eq]
    exact .of_driver rfl rfl
  | _ => exact .of_driver rfl rfl

theorem Works.steady (works : Works may t t') (unarmed : ¬ may.arms) : Steady t t' := by
  induction works with
  | refl => exact .refl t
  | tail _ work ih =>
    cases work with
    | act key act => exact ih.trans (act.steady unarmed)
    | accept | make | windDown => exact ih.trans (.of_driver rfl rfl)

theorem steady_onCompletion (t : Turn σ) {q : Purpose} (kind : done.token.purpose? = some q)
    (channel : q.isChannel = true) : Steady t (t.onCompletion done) := by
  have ofChannel : ¬ ∀ p, done.token.purpose? = some p → p.isChannel = false :=
    fun own => Bool.noConfusion (channel.symm.trans (own q kind))
  have works : Works .channel t (t.onCompletion done) := works_onCompletion t done
    (Scope.serving_channel _ _) trivial trivial (fun own => absurd own ofChannel) trivial trivial
  exact works.steady id

/-- A task other than the one to stop. -/
theorem steady_onTask (t : Turn σ) {task : Task} (other : task ≠ .stop) :
    Steady t (t.onTask task) := by
  have works : Works .channel t (t.onTask task) := works_onTask t task (Scope.serving_channel _ _)
    (fun _ _ => trivial) (absurd · other) trivial trivial
  exact works.steady id

/-! ## The log -/

theorem Act.log_suffix (act : Act may key t t') :
    t.reactor.driver.log <:+ t'.reactor.driver.log := by
  cases act with
  | host | dispatch | mark | count | hand | complete | markOpen | tune | flag =>
    exact List.suffix_refl _
  | submit p attempt op => exact CompletionQueue.log_submit _ _ op ▸ List.suffix_cons _ _
  | submitPlain p op => exact CompletionQueue.log_submit _ _ op ▸ List.suffix_cons _ _
  | cancel p attempt => exact CompletionQueue.log_suffix_cancelAll [.ofChannel p key attempt] _
  | cancelPlain p => exact CompletionQueue.log_suffix_cancelAll [.plain p] _
  | shut c cause =>
    rw [driver_shut]
    exact CompletionQueue.log_suffix_cancelAll _ _
  | release =>
    rw [releaseIfDone_eq]

/-- What was asked of a driver is not forgotten. -/
theorem Works.log_suffix (works : Works may t t') :
    t.reactor.driver.log <:+ t'.reactor.driver.log := by
  induction works with
  | refl => exact List.suffix_refl _
  | tail _ work ih =>
    cases work with
    | act key act => exact ih.trans act.log_suffix
    | accept | make | windDown => exact ih

/-! ## What a reactor submits again -/

theorem tries_armWakeup (t : Turn σ) (batch : List (IoCompletion Token)) (p : Purpose) :
    t.armWakeup.reactor.listener = t.reactor.listener
      ∧ t.armWakeup.reactor.acceptArmed = t.reactor.acceptArmed
      ∧ t.armWakeup.reactor.driver.tries batch p
        = t.reactor.driver.tries batch p + if p = .wakeup then 1 else 0 := by
  have submitted := t.reactor.driver.tries_submit batch (.plain .wakeup) (.read none 8) p
  simp only [Token.purpose?_plain, Option.some.injEq, @eq_comm _ Purpose.wakeup] at submitted
  simp only [armWakeup, submit]
  split
  all_goals
    rename_i result
    obtain ⟨-, rfl⟩ := Prod.mk.inj result
    exact ⟨rfl, rfl, submitted⟩

theorem tries_armAccept (going : t.reactor.stopping = false) (idle : t.reactor.acceptArmed = false)
    (listening : t.reactor.listener ≠ none) (batch : List (IoCompletion Token)) (p : Purpose) :
    t.armAccept.reactor.listener = t.reactor.listener
      ∧ t.armAccept.reactor.driver.tries batch p
        = t.reactor.driver.tries batch p + if p = .accept then 1 else 0 := by
  have submitted := t.reactor.driver.tries_submit batch (.plain .accept)
    (.accept t.reactor.listener) p
  simp only [Token.purpose?_plain, Option.some.injEq, @eq_comm _ Purpose.accept] at submitted
  simp only [armAccept, submit, going, idle, Option.isNone_iff_eq_none, listening, Bool.false_eq_true,
    or_self, if_false]
  split
  all_goals
    rename_i result
    obtain ⟨-, rfl⟩ := Prod.mk.inj result
    exact ⟨rfl, submitted⟩

/-- The accept is submitted again, whatever it came back with. -/
theorem tries_onAccept (intact : t.panicked = false) (going : t.reactor.stopping = false)
    (listening : t.reactor.listener ≠ none)
    (room : p = .accept → t.config.readBufferSize ≤ maxCapacity) (result : Int)
    (remote : Option Endpoint) (own : p.isChannel = false) :
    (t.onAccept result remote).reactor.listener = t.reactor.listener
      ∧ (t.onAccept result remote).reactor.driver.tries batch p
        = t.reactor.driver.tries batch p + if p = .accept then 1 else 0 := by
  simp only [onAccept]
  split
  · exact tries_armAccept (t := { t with reactor := { t.reactor with acceptArmed := false } })
      going rfl listening batch p
  · rw [if_neg (Bool.eq_false_iff.mp going)]
    have aside := aside_adopt { t with reactor := { t.reactor with acceptArmed := false } }
      result.toNat remote
    have works : Works .channel { t with reactor := { t.reactor with acceptArmed := false } } _ :=
      works_adopt _ result.toNat remote trivial
    have steady := works.steady id
    have adopted := steady.tries batch p own
    simp only [andThen]
    split
    · rename_i panicked
      have other : p ≠ .accept := by
        intro accepts
        rw [panicked_adopt (by exact room accepts)] at panicked
        cases intact.symm.trans panicked
      exact ⟨steady.listener, by rw [if_neg other]; exact adopted⟩
    · obtain ⟨kept, again⟩ := tries_armAccept (aside.stopping.trans going) aside.acceptArmed
        (steady.listener ▸ listening) batch p
      exact ⟨kept.trans steady.listener, again.trans (congrArg (· + _) adopted)⟩

/-- What came back is submitted again. -/
theorem tries_onCompletion (going : t.reactor.stopping = false)
    (listening : t.reactor.listener ≠ none)
    (room : p = .accept → t.config.readBufferSize ≤ maxCapacity)
    (own : p = .accept ∨ p = .wakeup) :
    (t.onCompletion done).reactor.listener = t.reactor.listener
      ∧ (t.onCompletion done).reactor.driver.tries batch p
        = t.reactor.driver.tries (done :: batch) p := by
  have plain : p.isChannel = false := by rcases own with rfl | rfl <;> rfl
  rw [CompletionQueue.tries_cons]
  cases kind : done.token.purpose? with
  | none =>
    simp only [onCompletion, kind]
    exact ⟨rfl, rfl⟩
  | some q =>
    cases channel : q.isChannel with
    | true =>
      have steady := steady_onCompletion t kind channel
      have apart : q ≠ p := by
        rintro rfl
        cases channel.symm.trans plain
      simpa [apart] using And.intro steady.listener (steady.tries batch p plain)
    | false =>
      simp only [onCompletion, kind, Option.some.injEq, @eq_comm _ q]
      cases q with
      | recv | send | connect | connectTimeout | retryTimer => cases channel
      | accept => exact tries_onAccept (t := t.afresh) rfl going listening room _ _ plain
      | wakeup =>
        simp only [onWakeup]
        rw [if_neg (Bool.eq_false_iff.mp (by exact going))]
        obtain ⟨kept, -, again⟩ := tries_armWakeup
          { t.afresh with reactor := { t.afresh.reactor with wakeArmed := false } } batch p
        exact ⟨kept, again⟩
      | drainTimer =>
        have apart : p ≠ .drainTimer := by rcases own with rfl | rfl <;> decide
        simp only [onDrainTimer, if_neg apart, Nat.add_zero]
        split <;> exact ⟨rfl, rfl⟩

/-- A reactor that was told to stop is not told to go on. -/
theorem stopping_onTask (stopping : t.reactor.stopping = true) (task : Task) :
    (t.onTask task).reactor.stopping = true := by
  simp only [onTask]
  rw [if_pos stopping, reject_eq]
  split <;> exact stopping

end Turn

namespace Moment

variable {σ : Type} {timely : Prop} {m m' : Moment σ} {p : Purpose}

/-! ## Runs -/

/-- A reactor that goes on was going before. -/
theorem Step.going (step : Step timely m m') (going : m'.turn.reactor.stopping = false) :
    m.turn.reactor.stopping = false := by
  cases step with
  | deliver | arrange | interfere => exact going
  | move move =>
    cases move with
    | wait | mark | take => exact going
    | handle t c rest => exact (Turn.stopping_onCompletion t c).symm.trans going
    | run t task t' popped =>
      have same := reactor_of_popTask popped
      cases before : t.reactor.stopping with
      | false => rfl
      | true =>
        have stays := Turn.stopping_onTask (t := t'.count fun s => { s with tasks := s.tasks + 1 })
          ((congrArg Reactor.stopping same).trans before) task
        cases stays.symm.trans going

/-- What may happen to a reactor that has the room for what it receives, if this is about
accepts. -/
def Roomy (timely : Prop) (p : Purpose) (m m' : Moment σ) : Prop :=
  (p = .accept → m.turn.config.readBufferSize ≤ maxCapacity) ∧ Step timely m m'

/-- What a reactor tries for itself. -/
def tries (m : Moment σ) (p : Purpose) : Nat := m.turn.reactor.driver.tries m.batch p

/-- A reactor that is not told to stop tries as much as before. -/
theorem Roomy.tries (roomy : Roomy timely p m m') (going : m'.turn.reactor.stopping = false)
    (listening : m.turn.reactor.listener ≠ none) (own : p = .accept ∨ p = .wakeup) :
    m'.turn.reactor.listener = m.turn.reactor.listener ∧ m'.tries p = m.tries p := by
  obtain ⟨room, step⟩ := roomy
  have before := step.going going
  have plain : p.isChannel = false := by rcases own with rfl | rfl <;> rfl
  cases step with
  | deliver c pending =>
    have moved : ((m.turn.reactor.driver.complete c).unhandled m.batch).Perm _ :=
      CompletionQueue.perm_complete pending
    exact ⟨rfl, congrArg (· + m.turn.reactor.driver.refused p) (moved.countP_eq _)⟩
  | arrange | interfere => exact ⟨rfl, rfl⟩
  | move move =>
    cases move with
    | wait t =>
      refine ⟨rfl, ?_⟩
      simp only [Moment.tries, Turn.endWait]
      rw [CompletionQueue.snd_endWait]
      rfl
    | mark => exact ⟨rfl, rfl⟩
    | take t limit =>
      have same := CompletionQueue.unhandled_drain (q := t.reactor.driver) limit
      exact ⟨rfl, congrArg (· + t.reactor.driver.refused p) (congrArg (List.countP _) same)⟩
    | handle t c rest => exact Turn.tries_onCompletion before listening room own
    | run t task t' popped =>
      have same := reactor_of_popTask popped
      have other : task ≠ .stop := by
        rintro rfl
        have stopped : (t'.count fun s => { s with tasks := s.tasks + 1 }).reactor.stopping = false :=
          (congrArg Reactor.stopping same).trans before
        simp only [Turn.onTask] at going
        rw [if_neg (Bool.eq_false_iff.mp stopped)] at going
        cases (Turn.stopping_beginStop _).symm.trans going
      have steady := Turn.steady_onTask (t'.count fun s => { s with tasks := s.tasks + 1 }) other
      exact ⟨steady.listener.trans (congrArg Reactor.listener same),
        (steady.tries [] p plain).trans (congrArg (·.driver.tries [] p) same)⟩

/-- What is not refused is under way, until the reactor is told to stop. -/
theorem tries_eq_one {t : Turn σ} (unused : Unused t) (silent : t.reactor.driver.log = [])
    (listening : t.reactor.listener ≠ none)
    (run : Relation.ReflTransGen (Roomy timely p) ⟨t.armWakeup.armAccept, []⟩ m)
    (going : m.turn.reactor.stopping = false) (own : p = .accept ∨ p = .wakeup) :
    m.turn.reactor.listener = t.reactor.listener ∧ m.tries p = 1 := by
  induction run with
  | refl =>
    have none : t.reactor.driver.tries [] p = 0 := by
      simp [CompletionQueue.tries, CompletionQueue.countFor, CompletionQueue.unhandled,
        CompletionQueue.refused, unused.pending, unused.ready, silent]
    obtain ⟨kept, unaccepting, woken⟩ := t.tries_armWakeup [] p
    obtain ⟨kept', armed⟩ := Turn.tries_armAccept ((Turn.stopping_armWakeup t).trans unused.going)
      (unaccepting.trans unused.unaccepting) (kept ▸ listening) [] p
    refine ⟨kept'.trans kept, armed.trans ?_⟩
    rw [woken, none]
    rcases own with rfl | rfl <;> rfl
  | tail _ step ih =>
    obtain ⟨kept, one⟩ := ih (step.2.going going)
    obtain ⟨kept', same⟩ := step.tries going (kept ▸ listening) own
    exact ⟨kept'.trans kept, same.trans one⟩

theorem Step.log_suffix (step : Step timely m m') :
    m.turn.reactor.driver.log <:+ m'.turn.reactor.driver.log := by
  cases step with
  | deliver | arrange | interfere => exact List.suffix_refl _
  | move move =>
    cases move with
    | wait t =>
      have same : t.reactor.driver.endWait.2.log = t.reactor.driver.log := by
        rw [CompletionQueue.snd_endWait]
      exact same ▸ List.suffix_refl t.reactor.driver.endWait.2.log
    | mark | take => exact List.suffix_refl _
    | handle t c rest =>
      have works : Turn.Works .all t (t.onCompletion c) :=
        Turn.works_all_onCompletion t c
      exact works.log_suffix
    | run t task t' popped =>
      have works : Turn.Works .all (t'.count fun s => { s with tasks := s.tasks + 1 }) _ :=
        Turn.works_all_onTask _ task
      have same : t'.reactor = t.reactor := reactor_of_popTask popped
      exact same ▸ works.log_suffix

/-- A reactor with a listener has its accept under way, and its read on the wakeup signal,
exactly until the driver refuses one: whatever they come back with, they are submitted
again, and what was refused once is not submitted after any number of rounds.  Accepts
and reads are told apart by `p`.  For accepts the reactor has the room for what it receives. -/
theorem armed_until_refused {t : Turn σ} (unused : Unused t)
    (silent : t.reactor.driver.log = []) (listening : t.reactor.listener ≠ none)
    (run : Relation.ReflTransGen (Roomy timely p) ⟨t.armWakeup.armAccept, []⟩ m)
    (later : Relation.ReflTransGen (Roomy timely p) m m')
    (going : m'.turn.reactor.stopping = false) (own : p = .accept ∨ p = .wakeup) :
    (m.turn.reactor.driver.refused p = 0 → m.turn.reactor.driver.countFor m.batch p = 1)
    ∧ (m.turn.reactor.driver.refused p ≠ 0 →
      m'.turn.reactor.driver.countFor m'.batch p = 0
      ∧ m'.turn.reactor.driver.refused p = 1) := by
  have before : m.turn.reactor.stopping = false
      ∧ m.turn.reactor.driver.log <:+ m'.turn.reactor.driver.log := by
    clear run
    induction later with
    | refl => exact ⟨going, List.suffix_refl _⟩
    | tail _ step ih =>
      obtain ⟨going, kept⟩ := ih (step.2.going going)
      exact ⟨going, kept.trans step.2.log_suffix⟩
  obtain ⟨-, now⟩ := tries_eq_one unused silent listening run before.1 own
  obtain ⟨-, next⟩ := tries_eq_one unused silent listening (run.trans later) going own
  have more := CompletionQueue.refused_mono before.2 p
  simp only [tries, CompletionQueue.tries] at now next
  exact ⟨fun none => by omega, fun some => by omega⟩

/-! ## An accept that is lost -/

/-- The lone reactor after its accept has failed and the driver has refused the next. -/
def unaccepting : Turn Unit :=
  let started := lone.armWakeup.armAccept
  let refusing := { started.reactor.driver with refusals := [(.accept, 12)] }
  Turn.processCompletions { started with reactor := { started.reactor with
    driver := refusing.complete { token := .plain .accept, result := -103 } } }

/-- The lone reactor after it has been woken in addition. -/
def roused : Turn Unit :=
  { unaccepting with reactor := { unaccepting.reactor with
      driver := unaccepting.reactor.driver.complete { token := .plain .wakeup, result := 8 } } }

/-- What a reactor does by itself leaves the settings. -/
theorem Move.config {handed : Option Handover} (move : Move m handed m') :
    m'.turn.config = m.turn.config := by
  cases move with
  | wait | mark | take => rfl
  | handle t c rest => exact (Turn.works_all_onCompletion t c).config
  | run t task t' popped =>
    rw [(Turn.works_all_onTask _ task).config, eq_of_popTask popped]
    rfl

theorem roomy_of_moves (room : p = .accept → m.turn.config.readBufferSize ≤ maxCapacity)
    (moves : Moves m m') : Relation.ReflTransGen (Roomy timely p) m m' := by
  have kept : Relation.ReflTransGen (Roomy timely p) m m' ∧ m'.turn.config = m.turn.config := by
    induction moves with
    | refl => exact ⟨.refl, rfl⟩
    | tail _ moved ih =>
      obtain ⟨handed, move⟩ := moved
      exact ⟨ih.1.tail ⟨ih.2 ▸ room, .move move⟩, move.config.trans ih.2⟩
  exact kept.1

theorem run_unaccepting :
    Relation.ReflTransGen (Roomy timely p) ⟨lone.armWakeup.armAccept, []⟩ ⟨unaccepting, []⟩ := by
  have refusing : Relation.ReflTransGen (Roomy timely p) _ _ :=
    .single ⟨fun _ => by decide,
      .arrange ⟨lone.armWakeup.armAccept, []⟩ [(.accept, 12)] none false none⟩
  have failed := refusing.tail ⟨fun _ => by decide,
    .deliver _ { token := .plain .accept, result := -103 } rfl fun _ timer => by cases timer⟩
  exact failed.trans (roomy_of_moves (fun _ => by decide) (moves_processCompletions _))

theorem run_roused :
    Relation.ReflTransGen (Roomy timely p) ⟨unaccepting, []⟩ ⟨roused.endWait.2.work, []⟩ := by
  have woken : Roomy timely p ⟨unaccepting, []⟩ ⟨roused, []⟩ :=
    ⟨fun _ => by decide,
      .deliver _ { token := .plain .wakeup, result := 8 } rfl fun _ timer => by cases timer⟩
  exact (Relation.ReflTransGen.single woken).trans
    (roomy_of_moves (fun _ => by decide) ((Moves.of_move (.wait roused)).trans (moves_work _)))

/-- The driver refuses nothing any more, and in the next round the read on the wakeup signal
is submitted again.  The accept is not. -/
theorem accept_stays_refused :
    Relation.ReflTransGen (Step False) ⟨lone.armWakeup.armAccept, []⟩ ⟨roused, []⟩
      ∧ roused.reactor.stopping = false ∧ roused.reactor.listener = some 3
      ∧ roused.reactor.driver.refusals = []
      ∧ roused.endWait.2.work.reactor.driver.log
        = .submitted ⟨.plain .wakeup, .read none 8⟩ none :: roused.reactor.driver.log
      ∧ roused.endWait.2.work.reactor.driver.countFor [] .wakeup = 1
      ∧ roused.endWait.2.work.reactor.driver.countFor [] .accept = 0 := by
  have run : Relation.ReflTransGen (Step False) ⟨lone.armWakeup.armAccept, []⟩ ⟨unaccepting, []⟩ :=
    Relation.ReflTransGen.mono (fun _ _ (roomy : Roomy False .accept _ _) => roomy.2) _ _
      run_unaccepting
  refine ⟨run.tail ?_, rfl, rfl, rfl, rfl, by decide, by decide⟩
  exact .deliver _ { token := .plain .wakeup, result := 8 } rfl fun _ timer => by cases timer

/-- The general statement about the run of `accept_stays_refused`. -/
theorem armed_until_refused_of_accept :
    unaccepting.reactor.driver.countFor [] .wakeup = 1
      ∧ roused.endWait.2.work.reactor.driver.countFor [] .accept = 0 := by
  have unused : Unused lone := ⟨⟨rfl, rfl, rfl⟩, rfl, rfl, rfl⟩
  have listening : lone.reactor.listener ≠ none := by simp [lone]
  have run {p : Purpose} : Relation.ReflTransGen (Roomy False p) _ _ := run_unaccepting
  obtain ⟨armed, -⟩ := armed_until_refused unused rfl listening run run_roused rfl (.inr rfl)
  obtain ⟨-, lost⟩ := armed_until_refused unused rfl listening run run_roused rfl (.inl rfl)
  exact ⟨armed (by decide), (lost (by decide)).1⟩

end Moment

end PartitionEngine
