import PartitionEngine.Proofs.Coherence
import PartitionEngine.Proofs.Histories

/-!
# One connection for a link

While the reactors run and peers can be told apart, every link and the channels of its
reactor agree (`World.Matched`).  A reactor keeps its own links coherent, and leaves the
links of others alone.  Whoever else does something can at most ask for a link that is
idle.

What was counted for a link is the number of channels that were made for it
(`Deed.makes`), and none is made while there is one.
-/

namespace PartitionEngine

/-- The link that a channel was made for. -/
def Deed.makes {σ : Type} : Deed σ → Option Link
  | .ran _ t task => t.makes task
  | .handled .. | .ended .. => none

/-- The channels that were made for a link. -/
def Deed.madeFor {σ : Type} (ds : List (Deed σ)) (l : Link) : Nat :=
  ds.countP fun d => d.makes = some l

namespace World

variable {σ : Type} {w w' w₀ : World σ} {d : Option (Deed σ)} {ds ds' : List (Deed σ)} {i j : Nat}
  {seat : Seat σ} {m : Moment σ} {handed : Option Handover} {l : Link}

/-- What the links of a reactor are asked for. -/
def Asked (w : World σ) (i : Nat) (l : Link) : Prop := .connect l ∈ w.engine.shared.queued i

/-- Links and channels agree, and what was counted is what was made. -/
structure Matched (w : World σ) (ds : List (Deed σ)) : Prop where
  full : w.engine.shared.links.Full
  count : w.engine.shared.links.reactorCount = w.engine.seats.length
  coherent : ∀ i seat, w.seat? i = some seat →
    (w.turn seat).Coherent i (w.engine.shared.Knows i) (w.Asked i)
  connects : ∀ i l, l.Leads i → (w.engine.shared.links.record l).connects = Deed.madeFor ds l

theorem Started.matched (started : Started w) (sound : w.Sound) (awake : w.Awake) :
    w.Matched [] where
  full peer records found := by
    rw [started.links] at found
    cases found
  count := by rw [started.links]
  coherent i seat found := by
    have default (l : Link) : w.engine.shared.links.record l = {} := by
      rw [started.links]
      rfl
    obtain ⟨-, -, channels, outbound⟩ := started.seats i seat found
    have absent (key : SlotKey) : (w.turn seat).serving? key = none := by
      rw [Turn.serving?, Turn.channel?, turn, channels]
      rfl
    refine ⟨sound.fit i seat found (awake i seat found), fun l knows => knows.leads, ?_, ?_, ?_, ?_⟩
    · intro l knows
      have peer := knows.peer
      rw [started.links] at peer
      cases peer
    · intro key l state here
      cases (absent key).symm.trans here
    · intro key l state here
      cases (absent key).symm.trans here
    · intro l _ _
      exact .inl (congrArg LinkRecord.state (default l))
  connects i l _ := by
    rw [started.links]
    rfl

/-- A known link of a reactor has a record. -/
theorem Matched.has (full : w.engine.shared.links.Full)
    (count : w.engine.shared.links.reactorCount = w.engine.seats.length)
    (found : w.seat? i = some seat) (knows : w.engine.shared.Knows i l) :
    w.engine.shared.links.Has l := by
  have inside : i < w.engine.seats.length := (List.getElem?_eq_some_iff.mp found).1
  exact full.has knows.peer (by rw [knows.index, count]; exact inside)

/-- What is asked for is not changed otherwise. -/
theorem Matched.asks (h : w.Matched ds) (asks : w.engine.shared.Asks w'.engine.shared)
    (seats : w'.engine.seats = w.engine.seats) (sound : w'.Sound) (awake : w'.Awake) :
    w'.Matched ds where
  full := asks.full h.full
  count := by rw [asks.links, h.count, seats]
  coherent i seat found := by
    have before : w.seat? i = some seat := by rw [seat?, ← seats]; exact found
    have coherent := h.coherent i seat before
    have leads {l : Link} {key : SlotKey} {state : LinkState}
        (here : (w.turn seat).serving? key = some (l, state)) : l.Leads i :=
      (coherent.known here).leads
    refine ⟨sound.fit i seat found (awake i seat found), fun l knows => knows.leads,
      fun l knows =>
        Matched.has (asks.full h.full) (by rw [asks.links, h.count, seats]) found knows,
      coherent.entry, ?_, ?_⟩
    · intro key l state here
      have was : w.engine.shared.links.state l = state := coherent.state key l state here
      rcases asks.record i l (leads here) with same | ⟨idle, -⟩
      · exact (congrArg LinkRecord.state same).trans was
      · obtain ⟨c, -, serving⟩ := Option.bind_eq_some_iff.mp here
        obtain ⟨-, ⟨-, rfl⟩ | ⟨-, rfl⟩⟩ := Channel.serving?_eq_some.mp serving
        all_goals cases was.symm.trans idle
    · intro l leads none
      rcases asks.record i l leads with same | ⟨-, connecting, mem⟩
      · have state : w'.engine.shared.links.state l = w.engine.shared.links.state l :=
          congrArg LinkRecord.state same
        show w'.engine.shared.links.state l = .idle
          ∨ w'.engine.shared.links.state l = .connecting ∧ _
        rw [state]
        exact (coherent.rest l leads none).imp_right (.imp_right (asks.queued i _))
      · exact .inr ⟨congrArg LinkRecord.state connecting, mem⟩
  connects i l leads := by
    rw [← h.connects i l leads]
    rcases asks.record i l leads with same | ⟨-, connecting, -⟩
    · rw [same]
    · rw [connecting]

/-- A reactor goes on.  It keeps its links coherent and leaves those of others alone. -/
theorem Matched.advance {t : Turn σ} {made : Option Link} {later : Link → Prop} (h : w.Matched ds)
    (found : w.seat? j = some seat) (sound : (w.advance j .asleep m handed).Sound)
    (awake : (w.advance j .asleep m handed).Awake)
    (links : t.shared.links = w.engine.shared.links)
    (coheres : t.Coheres j made (w.engine.shared.Knows j) later m.turn)
    (asked : ∀ l, later l → .connect l ∈ m.turn.shared.queued j)
    (kept : ∀ i, i ≠ j → ∀ task ∈ w.engine.shared.queued i, task ∈ m.turn.shared.queued i)
    (counted : ∀ l, Deed.madeFor ds' l = Deed.madeFor ds l + if made = some l then 1 else 0) :
    (w.advance j .asleep m handed).Matched ds' := by
  obtain ⟨coherent, changes⟩ := coheres
  rw [links] at changes
  have full : (w.advance j .asleep m handed).engine.shared.links.Full := changes.full h.full
  have count : (w.advance j .asleep m handed).engine.shared.links.reactorCount
      = (w.advance j .asleep m handed).engine.seats.length := by
    refine changes.count.trans (h.count.trans ?_)
    simp [World.advance]
  refine ⟨full, count, ?_, ?_⟩
  · intro i seat' found'
    have fit := sound.fit i seat' found' (awake i seat' found')
    have has (l : Link) (knows : (w.advance j .asleep m handed).engine.shared.Knows i l) :=
      Matched.has full count found' knows
    obtain ⟨rfl, rfl⟩ | ⟨same, found'⟩ := seat?_advance_cases found found'
    · exact ⟨fit, fun l knows => knows.leads, has, coherent.entry, coherent.state,
        fun l leads none => (coherent.rest l leads none).imp_right (.imp_right (asked l))⟩
    · have before := h.coherent i seat' found'
      have state {l : Link} (leads : l.Leads i) :
          (w.advance j .asleep m handed).engine.shared.links.state l
            = w.engine.shared.links.state l :=
        congrArg LinkRecord.state (changes.others l (by rw [leads.index]; exact same))
      refine ⟨fit, fun l knows => knows.leads, has, before.entry, ?_, ?_⟩
      · intro key l st here
        exact (state (before.known here).leads).trans (before.state key l st here)
      · intro l leads none
        refine (before.rest l leads none).imp (state leads).trans ?_
        exact fun rest => ⟨(state leads).trans rest.1, kept i same _ rest.2⟩
  · intro i l leads
    rw [counted, ← h.connects i l leads]
    exact changes.connects i l leads

/-- A step counts what it makes. -/
theorem madeFor_append (d : Option (Deed σ)) (ds : List (Deed σ)) (l : Link) :
    Deed.madeFor (d.toList ++ ds) l
      = Deed.madeFor ds l + if d.bind Deed.makes = some l then 1 else 0 := by
  cases d with
  | none => rfl
  | some d => simp [Deed.madeFor, List.countP_cons]

theorem Does.matched (does : Does w d w') (room : w.HasRoom) (sound : w.Sound) (awake : w'.Awake)
    (going : w'.Going) (distinct : w.engine.shared.links.Distinct) (h : w.Matched ds) :
    w'.Matched (d.toList ++ ds) := by
  have sound' := does.step.sound room sound
  obtain ⟨rfl, seats, asks⟩ | ⟨j, seat, found, running, ⟨rfl, m, rfl, rests⟩ | ⟨c, rest, rfl, rfl⟩
      | ⟨t, task, rfl, took, rfl⟩ | ⟨-, rfl⟩⟩ := does.inversion sound
  · exact h.asks asks seats sound' awake
  · exact h.advance found sound' awake (t := w.turn seat) rfl
      (.of_reactor (h.coherent j seat found) rests.channels rests.outbound rests.links)
      (fun l => rests.asks.queued j _) (fun i _ => rests.asks.queued i) (madeFor_append none ds)
  · have on := ((sound.fit j seat found running).onCompletion (room j seat found) c).evolves.shared
    exact h.advance found sound' awake (t := w.turn seat) rfl
      ((h.coherent j seat found).onCompletion (room j seat found) c)
      (fun l => on.queued j _) (fun i _ => on.queued i) (madeFor_append (some _) ds)
  · have before : t.Coherent j (w.engine.shared.Knows j)
        fun l => .connect l = task ∨ .connect l ∈ t.shared.queued j := by
      refine (Turn.Coheres.of_reactor (h.coherent j seat found) ?_ ?_ took.links).coherent.mono ?_
      · rw [took.reactor]
      · rw [took.reactor]
      · intro l asked
        have mem : .connect l ∈ (w.turn seat).shared.queued j := asked
        rw [took.own] at mem
        exact List.mem_cons.mp mem
    have known (l : Link) (about : task.link? = some l) : w.engine.shared.Knows j l := by
      refine sound.known j task l ?_ about
      have mem : task ∈ (w.turn seat).shared.queued j := took.own ▸ List.mem_cons_self
      exact mem
    have room' : t.reactor.channels.slots.length < Slab.maxSlots := by
      rw [took.reactor]
      exact room j seat found
    have before' : t.reactor.stopping = false := by
      rw [took.reactor]
      exact does.step.going room sound going j seat found
    have after : (t.onTask task).reactor.stopping = false := going j _ (seat?_advance_self found)
    have on := (before.fit.onTask room' task known).evolves.shared
    refine h.advance found sound' awake took.links (before.onTask room' ?_ known before' after)
      (fun l => on.queued j _) ?_ (madeFor_append (some _) ds)
    · exact fun l l' knows knows' same => knows.alike knows' distinct same
    · intro i other task' mem
      refine on.queued i task' ?_
      rw [took.others i other]
      exact mem
  · have ended := awake j _ (seat?_advance_self found)
    cases ended

theorem History.matched (history : History w₀ w ds) (started : Started w₀) (awake : w.Awake)
    (going : w.Going) (distinct : w.engine.shared.links.Distinct) : w.Matched ds := by
  induction history with
  | start => exact started.matched (Reachable.start _ started.toFresh).sound awake
  | step before room does ih =>
    have sound := (before.reachable started.toFresh).sound
    have distinct := distinct.keeps (does.step.keeps room sound)
    exact does.matched room sound awake going distinct (ih (does.step.awake room sound awake)
      (does.step.going room sound going) distinct)

/-! ## What is made while there is a channel -/

theorem link?_of_makes {t : Turn σ} {task : Task} (makes : t.makes task = some l) :
    task.link? = some l ∧ t.lacks l = true := by
  cases task with
  | connect l' | write l' =>
    simp only [Turn.makes] at makes
    split at makes
    · rename_i needs
      cases makes
      rw [Bool.and_eq_true] at needs
      exact ⟨rfl, needs.2⟩
    · cases makes
  | execute | forward | reply | stop => cases makes

/-- No channel is made for a link that has one. -/
theorem Matched.not_makes (h : w.Matched ds) (sound : w.Sound) (does : Does w d w')
    (found : w.seat? i = some seat) {key : SlotKey} (serves : (w.turn seat).Serves key l) :
    d.bind Deed.makes ≠ some l := by
  intro makes
  have coherent := h.coherent i seat found
  obtain ⟨state, here⟩ := Turn.serves_iff.mp serves
  obtain ⟨rfl, -⟩ | ⟨j, seat', found', -, ⟨rfl, -⟩ | ⟨c, rest, rfl, -⟩ | ⟨t, task, rfl, took, -⟩
      | ⟨rfl, -⟩⟩ := does.inversion sound
  · cases makes
  · cases makes
  · cases makes
  · obtain ⟨about, lacks⟩ := link?_of_makes makes
    have mem : task ∈ (w.turn seat').shared.queued j := took.own ▸ List.mem_cons_self
    have same : i = j :=
      (coherent.known here).index.symm.trans (sound.known j task l mem about).index
    subst same
    cases found.symm.trans found'
    obtain ⟨c, there, usable, -⟩ := serves
    have entry : t.reactor.outbound.get? l.endpoint = some key := by
      rw [took.reactor]
      exact coherent.entry key l state here
    have there : t.channel? key = some c := by
      rw [Turn.channel?, took.reactor]
      exact there
    cases lacks.symm.trans (Turn.lacks_of_usable entry there usable)
  · cases makes

/-- Whether a channel of reactor `i` connects for a link or is open. -/
def Served (i : Nat) (l : Link) (w : World σ) : Prop :=
  ∃ seat key, w.seat? i = some seat ∧ (w.turn seat).Serves key l

theorem History.connects_while (history : History w₀ w ds) (started : Started w₀)
    (leads : l.Leads i) (run : While (Served i l) w w') (awake : w'.Awake) (going : w'.Going)
    (distinct : w'.engine.shared.links.Distinct) :
    (w'.engine.shared.links.record l).connects = (w.engine.shared.links.record l).connects := by
  induction run with
  | refl => rfl
  | @tail w₁ w₂ before step ih =>
    obtain ⟨ds₁, earlier⟩ := history.while before
    obtain ⟨⟨seat, key, found, serves⟩, room, d, does⟩ := step
    have sound := (earlier.reachable started.toFresh).sound
    have awake' := does.step.awake room sound awake
    have going' := does.step.going room sound going
    have distinct' := distinct.keeps (does.step.keeps room sound)
    have matched := earlier.matched started awake' going' distinct'
    have later := (earlier.step room does).matched started awake going distinct
    rw [later.connects i l leads, madeFor_append,
      if_neg (matched.not_makes sound does found serves), ← matched.connects i l leads]
    exact ih awake' going' distinct'

end World

/-! ## Links and connections -/

/-- What a link and the channels of its reactor agree on. -/
structure Turn.Agrees {σ : Type} (t : Turn σ) (l : Link) : Prop where
  one : ∀ key k, t.Serves key l → t.Serves k l → key = k
  entry : ∀ key, t.reactor.outbound.get? l.endpoint = some key ↔ t.Serves key l
  isOpen : t.shared.links.state l = .open ↔
    ∃ key c, t.channel? key = some c ∧ c.link = some l ∧ c.state = .open
  connecting : ∀ key c, t.channel? key = some c → c.link = some l → c.state = .connecting →
    t.shared.links.state l = .connecting
  rest : (∀ key, ¬ t.Serves key l) →
    t.shared.links.state l = .idle ∨ .connect l ∈ t.shared.queued l.index

namespace World

variable {σ : Type} {w w₀ : World σ} {ds : List (Deed σ)} {i : Nat} {seat : Seat σ} {l : Link}

/-- In a history that nobody ended or wound down in, a known link has at most one channel
that connects or is open, which its entry names.  The link is open exactly if that channel
is, it connects if the channel does, and if there is none it is idle or asked for.  What
was counted for it are the channels that were made for it, and none is made as long as
there is one. -/
theorem one_connection (history : History w₀ w ds) (started : Started w₀) (awake : w.Awake)
    (going : w.Going) (distinct : w.engine.shared.links.Distinct) (found : w.seat? i = some seat)
    (knows : w.engine.shared.Knows i l) :
    (w.turn seat).Agrees l
    ∧ (w.engine.shared.links.record l).connects = Deed.madeFor ds l
    ∧ ∀ w', While (Served i l) w w' → w'.Awake → w'.Going → w'.engine.shared.links.Distinct →
      (w'.engine.shared.links.record l).connects = (w.engine.shared.links.record l).connects := by
  have matched := history.matched started awake going distinct
  have coherent := matched.coherent i seat found
  refine ⟨⟨fun key k here there => coherent.unique here there, ?_, ?_, ?_, ?_⟩,
    matched.connects i l knows.leads,
    fun w' run awake going distinct =>
      history.connects_while started knows.leads run awake going distinct⟩
  · intro key
    constructor
    · intro entry
      obtain ⟨l', serves, endpoint⟩ := coherent.fit.entry l.endpoint key entry
      obtain ⟨state, here⟩ := Turn.serves_iff.mp serves
      cases (coherent.known here).alike knows distinct endpoint
      exact serves
    · intro serves
      obtain ⟨state, here⟩ := Turn.serves_iff.mp serves
      exact coherent.entry key l state here
  · constructor
    · intro isOpen
      by_contra none
      refine absurd (coherent.rest l knows.leads ?_) ?_
      · rintro key ⟨c, there, connecting | opened, link⟩
        · have state := coherent.state key l .connecting
            (by simp [Turn.serving?, there, Channel.serving?_eq_some, link, connecting])
          cases isOpen.symm.trans state
        · exact none ⟨key, c, there, link, opened⟩
      · rintro (idle | ⟨connecting, -⟩)
        · cases isOpen.symm.trans idle
        · cases isOpen.symm.trans connecting
    · rintro ⟨key, c, there, link, opened⟩
      exact coherent.state key l .open
        (by simp [Turn.serving?, there, Channel.serving?_eq_some, link, opened])
  · intro key c there link connecting
    exact coherent.state key l .connecting
      (by simp [Turn.serving?, there, Channel.serving?_eq_some, link, connecting])
  · intro none
    refine (coherent.rest l knows.leads none).imp_right fun rest => ?_
    rw [knows.index]
    exact rest.2

/-! ## A call

The engine of `resting`, with the operations it has to have.  Its reactor runs the first
task of a call to another engine, and connects.
-/

/-- An engine with one reactor, before anything was asked of it. -/
def stationed : World Builtin.Item :=
  { resting with
    engine := { resting.engine with
      seats :=
        [{ reactor :=
             { index := 0, listener := some 3, localAddress := home,
               dispatcher := .new .builtin 64 }
           phase := .asleep }] } }

theorem started_stationed : Started stationed where
  size := rfl
  invocations := rfl
  queued i := by
    cases i with
    | zero => rfl
    | succ => rfl
  seats i seat found := by
    cases i with
    | zero =>
      cases found
      exact ⟨rfl, rfl, rfl, rfl⟩
    | succ => cases found
  links := rfl
  complete := of_alone (w := stationed) (p := fun seat => _) rfl Registry.complete_builtin

/-- The engine after a call. -/
def asking : World Builtin.Item :=
  { stationed with
    engine := (stationed.engine.invoke request).2
    calls := [((stationed.engine.invoke request).1.2, request)] }

/-- The engine after its reactor has run the task to connect. -/
def connecting : World Builtin.Item := asking.runTask 0

/-- The link of the call. -/
def outward : Link := { peer := away, index := 0, endpoint := .v4 0x7f000001 24000 }

/-- One channel was made for the link of the call. -/
theorem one_connection_of_call : ∃ ds, History stationed connecting ds ∧ connecting.Awake
    ∧ connecting.Going ∧ connecting.engine.shared.links.Distinct
    ∧ connecting.engine.shared.Knows 0 outward
    ∧ Deed.madeFor ds outward = 1
    ∧ ∃ seat, connecting.seat? 0 = some seat ∧ (connecting.turn seat).Agrees outward := by
  have called : History stationed asking [] :=
    .step .start (of_alone (w := stationed) rfl (by decide)) (.call stationed request)
  obtain ⟨ds, history⟩ := called.runTask (i := 0) (of_alone (w := asking) rfl (by decide))
    (of_alone (w := asking) (p := fun s => s.phase = .asleep) rfl rfl 0) rfl
  have awake : connecting.Awake := of_alone rfl rfl
  have going : connecting.Going := of_alone rfl rfl
  have only (p : Address) (known : (connecting.engine.shared.links.peers.get? p).isSome = true) :
      p = away := by
    obtain ⟨records, found⟩ := Option.isSome_iff_exists.mp known
    have mem := Assoc.mem_of_get? found
    have one : connecting.engine.shared.links.peers.entries
        = [(away, [{ state := .connecting, connects := 1 }])] := rfl
    rw [one] at mem
    cases List.mem_singleton.mp mem
    rfl
  have distinct : connecting.engine.shared.links.Distinct := fun p q _ _ known known' _ _ =>
    (only p known).trans (only q known').symm
  have knows : connecting.engine.shared.Knows 0 outward := ⟨rfl, rfl, rfl⟩
  obtain ⟨agrees, counted, -⟩ :=
    one_connection history started_stationed awake going distinct rfl knows
  exact ⟨ds, history, awake, going, distinct, knows, counted.symm.trans rfl, _, rfl, agrees⟩

end World

end PartitionEngine
