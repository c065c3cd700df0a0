import PartitionEngine.Proofs.Issuing

/-!
# What goes out on a line

The *line* of a reactor to an endpoint is the channel that its entry names.  A run in
which the line is not closed once something was written to it is a `World.Line`, with the
requests that were issued for it and with what its driver took.  The driver may take as
little as it likes at a time, but no more than it was offered (`Deed.Honest`).

On such a line whole messages are put into the channel.  The requests among them are
those that were issued, in order, without those that wait in the queue
(`World.Conveys`).  Every step keeps that, so what the driver took is the front of the
messages of a front of what was issued (`World.Line.taken`).
-/

namespace PartitionEngine

/-- The bytes of messages, one after the other. -/
def wire (threshold : Nat) (ms : List Frame) : Bytes :=
  ms.flatMap fun m => m.encodeMessage threshold

/-- The requests among messages. -/
def requestsOf (ms : List Frame) : List Frame := ms.filter fun m => !m.isResponse

theorem wire_append (threshold : Nat) (ms ms' : List Frame) :
    wire threshold (ms ++ ms') = wire threshold ms ++ wire threshold ms' :=
  List.flatMap_append

theorem requestsOf_append (ms ms' : List Frame) :
    requestsOf (ms ++ ms') = requestsOf ms ++ requestsOf ms' :=
  List.filter_append ..

/-- There is no request among responses. -/
theorem Responses.exists {threshold : Nat} {bytes : Bytes} (h : Responses threshold bytes) :
    ∃ ms, bytes = wire threshold ms ∧ requestsOf ms = [] ∧ ∀ m ∈ ms, m.Plain := by
  obtain ⟨ms, each, same⟩ := h
  refine ⟨ms, same, List.filter_eq_nil_iff.mpr fun m mem => ?_, fun m mem => (each m mem).1⟩
  simp [(each m mem).2]

/-- A message with no flags is a request. -/
theorem Frame.plain_of_flags {f : Frame} (none : f.flags = 0) :
    f.Plain ∧ requestsOf [f] = [f] := by
  refine ⟨by rw [Frame.Plain, none]; decide, ?_⟩
  have request : f.isResponse = false := by rw [Frame.isResponse, none]; decide
  simp [requestsOf, request]

theorem Outlet.taken_foldr_note (key : SlotKey) (events : List DriverEvent) (out : Outlet) :
    (events.foldr (note key) out).taken = out.taken := by
  induction events with
  | nil => rfl
  | cons event rest ih =>
    rw [List.foldr_cons, note]
    split
    · exact ih
    · exact ih

/-! ## Turns -/

namespace Turn

variable {σ : Type} {K : Link → Prop} {e : Endpoint} {key : SlotKey} {t t' : Turn σ}
  {put : Bytes} {out : Outlet}

/-- The channel to an endpoint. -/
def lineTo? (t : Turn σ) (e : Endpoint) : Option SlotKey := t.reactor.outbound.get? e

/-- What went out on the line to an endpoint when a reactor is done. -/
def outlet (t t' : Turn σ) (e : Endpoint) (handled : SlotKey → Outlet → Outlet) (out : Outlet) :
    Outlet :=
  match t'.lineTo? e with
  | some key => (t.asked t').foldr (Outlet.note key) (handled key out)
  | none => out

/-- Of the bytes that were put into the line to an endpoint, those that were not taken
wait.  Nothing was put into a line that is not there. -/
def Loads (t : Turn σ) (e : Endpoint) (put : Bytes) (out : Outlet) : Prop :=
  match t.lineTo? e with
  | some key => t.Accounts key put out
  | none => put = [] ∧ out = {}

theorem Loads.of_reactor (h : t.Loads e put out)
    (channels : t'.reactor.channels = t.reactor.channels)
    (outbound : t'.reactor.outbound = t.reactor.outbound) : t'.Loads e put out := by
  simp only [Loads, lineTo?, Accounts, channel?, channels, outbound] at h ⊢
  exact h

theorem loads_of_some (line : t.lineTo? e = some key) :
    t.Loads e put out ↔ t.Accounts key put out := by
  rw [Loads, line]

theorem loads_of_none (line : t.lineTo? e = none) :
    t.Loads e put out ↔ put = [] ∧ out = {} := by
  rw [Loads, line]

/-- What was taken is the front of what was put into a line. -/
theorem Loads.taken (h : t.Loads e put out) (fit : t.Fit K) : out.taken <+: put := by
  cases line : t.lineTo? e with
  | none =>
    obtain ⟨rfl, rfl⟩ := (loads_of_none line).mp h
    exact List.prefix_refl []
  | some key =>
    obtain ⟨l, ⟨c, found, usable, -⟩, -⟩ := fit.entry e key line
    have live : c.state.isClosed = false := by
      cases closed : c.state.isClosed with
      | false => rfl
      | true => exact absurd usable (not_isUsable_of_isClosed closed)
    exact ⟨_, ((loads_of_some line).mp h c found live).bytes.symm⟩

/-- A completion puts nothing but responses into a line that it leaves open. -/
theorem Loads.onCompletion (h : t.Loads e put out) (fit : t.Fit K)
    (room : t.reactor.channels.slots.length < Slab.maxSlots) (c : IoCompletion Token)
    (spares : ∀ key, t.lineTo? e = some key → (t.onCompletion c).lineTo? e = some key)
    (honest : ∀ key result, (t.onCompletion c).lineTo? e = some key → c.sent? key = some result →
      ∃ offered, out.offered = some offered ∧ result.toNat ≤ offered.length) :
    ∃ bytes, Responses t.config.fragmentThreshold bytes
      ∧ (t.onCompletion c).Loads e (put ++ bytes)
          (t.outlet (t.onCompletion c) e (fun key out => out.handled key c) out) := by
  cases line : t.lineTo? e with
  | none =>
    have after : (t.onCompletion c).lineTo? e = none := by
      cases line' : (t.onCompletion c).lineTo? e with
      | none => rfl
      | some key => cases line.symm.trans (entry_onCompletion line')
    obtain ⟨rfl, rfl⟩ := (loads_of_none line).mp h
    refine ⟨[], .nil _, (loads_of_none after).mpr ⟨rfl, ?_⟩⟩
    rw [outlet, after]
  | some key =>
    have after := spares key line
    obtain ⟨bytes, responses, accounts⟩ := accounts_onCompletion fit.exact room (fit.held line)
      ((loads_of_some line).mp h) c fun result => honest key result after
    refine ⟨bytes, responses, (loads_of_some after).mpr ?_⟩
    rw [outlet, after]
    exact accounts

/-- A task puts the bytes into a line that it carries for it.  Any other task puts nothing
but responses into it. -/
theorem Loads.onTask (h : t.Loads e put out) (fit : t.Fit K)
    (room : t.reactor.channels.slots.length < Slab.maxSlots) {task : Task}
    (known : ∀ l, task.link? = some l → K l)
    (spares : ∀ key, t.lineTo? e = some key → (t.onTask task).lineTo? e = some key)
    (kept : (task.bytesTo? e).isSome → ((t.onTask task).lineTo? e).isSome)
    (responds : ∀ channel bytes, task = .reply channel bytes →
      Responses t.config.fragmentThreshold bytes)
    (still : (t.onTask task).reactor.stopping = false) :
    ∃ bytes, (task.bytesTo? e = some bytes
        ∨ task.bytesTo? e = none ∧ Responses t.config.fragmentThreshold bytes)
      ∧ (t.onTask task).Loads e (put ++ bytes)
          (t.outlet (t.onTask task) e (fun _ out => out) out) := by
  cases line : t.lineTo? e with
  | some key =>
    have after := spares key line
    obtain ⟨bytes, puts, kind⟩ := puts_onTask fit room known line responds still
    refine ⟨bytes, kind, (loads_of_some after).mpr ?_⟩
    rw [outlet, after]
    exact puts.accounts put out ((loads_of_some line).mp h)
  | none =>
    obtain ⟨rfl, rfl⟩ := (loads_of_none line).mp h
    refine ⟨(task.bytesTo? e).getD [], ?_, ?_⟩
    · cases task.bytesTo? e with
      | none => exact .inr ⟨rfl, .nil _⟩
      | some bytes => exact .inl rfl
    · cases after : (t.onTask task).lineTo? e with
      | some key =>
        refine (loads_of_some after).mpr ?_
        rw [outlet, after]
        exact fit.accounts_made room known line after still
      | none =>
        refine (loads_of_none after).mpr ⟨?_, by rw [outlet, after]⟩
        cases bytes : task.bytesTo? e with
        | none => rfl
        | some => simp [bytes, after] at kept

end Turn

/-! ## Deeds -/

namespace Deed

variable {σ : Type}

/-- The bytes that the reactor was asked to send to an endpoint. -/
def bytesTo? (e : Endpoint) : Deed σ → Option Bytes
  | ran _ _ task => task.bytesTo? e
  | handled .. | ended .. => none

/-- How many bytes a send took on a channel that came back, or its error. -/
def sent? (key : SlotKey) : Deed σ → Option Int
  | handled _ _ c => c.sent? key
  | ran .. | ended .. => none

/-- What went out on the line of reactor `i` to an endpoint. -/
def outlet (d : Deed σ) (i : Nat) (e : Endpoint) (out : Outlet) : Outlet :=
  if d.reactor = i then
    d.before.outlet d.after e (fun key out => (d.sent? key).elim out out.back) out
  else out

/-- The line of reactor `i` to an endpoint is not closed, and is there when something is
written to it. -/
def Spares (d : Deed σ) (i : Nat) (e : Endpoint) : Prop :=
  d.reactor = i → (∀ key, d.before.lineTo? e = some key → d.after.lineTo? e = some key)
    ∧ ((d.bytesTo? e).isSome → (d.after.lineTo? e).isSome)

/-- A send comes back on the line if one is under way, and took no more than it was
offered. -/
def Honest (d : Deed σ) (i : Nat) (e : Endpoint) (out : Outlet) : Prop :=
  d.reactor = i → ∀ key result, d.after.lineTo? e = some key → d.sent? key = some result →
    ∃ offered, out.offered = some offered ∧ result.toNat ≤ offered.length

theorem outlet_of_ne (d : Deed σ) {i : Nat} (other : d.reactor ≠ i) (e : Endpoint)
    (out : Outlet) : d.outlet i e out = out := if_neg other

theorem outlet_handled (i : Nat) (t : Turn σ) (c : IoCompletion Token) (e : Endpoint)
    (out : Outlet) : (handled i t c).outlet i e out
      = t.outlet (t.onCompletion c) e (fun key out => out.handled key c) out := by
  rw [outlet, if_pos (show (handled i t c).reactor = i from rfl)]
  rfl

theorem outlet_ran (i : Nat) (t : Turn σ) (task : Task) (e : Endpoint) (out : Outlet) :
    (ran i t task).outlet i e out = t.outlet (t.onTask task) e (fun _ out => out) out := by
  rw [outlet, if_pos (show (ran i t task).reactor = i from rfl)]
  rfl

/-- Nothing more is taken when a reactor ends. -/
theorem taken_outlet_ended (j : Nat) (t : Turn σ) (i : Nat) (e : Endpoint) (out : Outlet) :
    ((ended j t).outlet i e out).taken = out.taken := by
  simp only [outlet, Turn.outlet]
  split
  · split
    · exact Outlet.taken_foldr_note ..
    · rfl
  · rfl

end Deed

/-! ## Worlds -/

namespace World

variable {σ : Type} {w w' w₀ : World σ} {i : Nat} {e : Endpoint} {order : List Frame}
  {out : Outlet} {ds : List (Deed σ)} {d : Deed σ}

/-- A run in which the line of reactor `i` to an endpoint is not closed once something was
written to it.  It begins when there is no line, with the requests that wait for one. -/
inductive Line (w₀ : World σ) (i : Nat) (e : Endpoint) : World σ → List Frame → Outlet → Prop where
  | start {w : World σ} {ds : List (Deed σ)} {waiting : List Frame} (history : History w₀ w ds)
      (absent : ∀ seat, w.seat? i = some seat → (w.turn seat).lineTo? e = none)
      (outgoing : w.engine.shared.outgoing i e
        = waiting.map fun f => f.encodeMessage w.engine.shared.config.fragmentThreshold)
      (requests : ∀ f ∈ waiting, f.flags = 0) : Line w₀ i e w waiting {}
  | call {w : World σ} {order : List Frame} {out : Outlet} (line : Line w₀ i e w order out)
      (room : w.HasRoom) (r : Request) :
      Line w₀ i e { w with
        engine := (w.engine.invoke r).2
        calls := ((w.engine.invoke r).1.2, r) :: w.calls }
        (order ++ w.engine.issued r i e) out
  | rest {w w' : World σ} {order : List Frame} {out : Outlet} (line : Line w₀ i e w order out)
      (room : w.HasRoom) (does : Does w none w') (silent : w'.calls = w.calls) :
      Line w₀ i e w' order out
  | deed {w w' : World σ} {order : List Frame} {out : Outlet} {d : Deed σ}
      (line : Line w₀ i e w order out) (room : w.HasRoom) (does : Does w (some d) w')
      (spares : d.Spares i e) (honest : d.Honest i e out) : Line w₀ i e w' order (d.outlet i e out)

theorem Line.history (line : Line w₀ i e w order out) : ∃ ds, History w₀ w ds := by
  induction line with
  | start history => exact ⟨_, history⟩
  | call _ room r ih =>
    obtain ⟨ds, history⟩ := ih
    exact ⟨_, history.step room (.call _ r)⟩
  | rest _ room does _ ih =>
    obtain ⟨ds, history⟩ := ih
    exact ⟨_, history.step room does⟩
  | deed _ room does _ _ ih =>
    obtain ⟨ds, history⟩ := ih
    exact ⟨_, history.step room does⟩

/-- Everything that was issued is a request. -/
theorem Line.flags (line : Line w₀ i e w order out) : ∀ f ∈ order, f.flags = 0 := by
  induction line with
  | start _ _ _ requests => exact requests
  | call _ _ r ih =>
    intro f mem
    rcases List.mem_append.mp mem with old | new
    · exact ih f old
    · simp only [Engine.issued] at new
      split at new
      · split at new
        · rw [List.mem_singleton.mp new]
          rfl
        · cases new
      · cases new
  | rest _ _ _ _ ih => exact ih
  | deed _ _ _ _ _ ih => exact ih

/-- Whole messages were put into a line.  The requests among them are those that were
issued, in order, without those that wait. -/
structure Conveys (w : World σ) (i : Nat) (e : Endpoint) (order : List Frame) (out : Outlet)
    (ms : List Frame) : Prop where
  plain : ∀ m ∈ ms, m.Plain
  passed : requestsOf ms <+: order
  taken : out.taken <+: wire w.engine.shared.config.fragmentThreshold ms
  running : ∀ seat, w.seat? i = some seat → seat.phase = .asleep → ∃ waiting,
    order = requestsOf ms ++ waiting
      ∧ w.engine.shared.outgoing i e
        = waiting.map (fun f => f.encodeMessage w.engine.shared.config.fragmentThreshold)
      ∧ (w.turn seat).Loads e (wire w.engine.shared.config.fragmentThreshold ms) out

namespace Conveys

variable {ms : List Frame}

/-- What leaves the line and what waits for it as they are. -/
theorem of_running {out' : Outlet} (h : w.Conveys i e order out ms)
    (config : w'.engine.shared.config = w.engine.shared.config) (taken : out'.taken = out.taken)
    (running : ∀ seat', w'.seat? i = some seat' → seat'.phase = .asleep → out' = out
      ∧ w'.engine.shared.outgoing i e = w.engine.shared.outgoing i e
      ∧ ∃ seat, w.seat? i = some seat ∧ seat.phase = .asleep
        ∧ seat'.reactor.channels = seat.reactor.channels
        ∧ seat'.reactor.outbound = seat.reactor.outbound) : w'.Conveys i e order out' ms where
  plain := h.plain
  passed := h.passed
  taken := by
    rw [config, taken]
    exact h.taken
  running seat' found' asleep' := by
    obtain ⟨rfl, same, seat, found, asleep, channels, outbound⟩ := running seat' found' asleep'
    obtain ⟨waiting, issued, queued, loads⟩ := h.running seat found asleep
    rw [config, same]
    exact ⟨waiting, issued, queued, loads.of_reactor channels outbound⟩

theorem start (absent : ∀ seat, w.seat? i = some seat → (w.turn seat).lineTo? e = none)
    (outgoing : w.engine.shared.outgoing i e
      = order.map fun f => f.encodeMessage w.engine.shared.config.fragmentThreshold) :
    w.Conveys i e order {} [] where
  plain := nofun
  passed := List.nil_prefix
  taken := List.nil_prefix
  running seat found _ :=
    ⟨order, rfl, outgoing, (Turn.loads_of_none (absent seat found)).mpr ⟨rfl, rfl⟩⟩

/-- What is issued waits behind the others. -/
theorem call (h : w.Conveys i e order out ms) (r : Request) :
    Conveys { w with
      engine := (w.engine.invoke r).2
      calls := ((w.engine.invoke r).1.2, r) :: w.calls }
      i e (order ++ w.engine.issued r i e) out ms := by
  have config : (w.engine.invoke r).2.shared.config = w.engine.shared.config :=
    (Engine.asks_invoke w.engine r).toPasses.config
  refine ⟨h.plain, h.passed.trans (List.prefix_append ..), ?_, fun seat found asleep => ?_⟩
  · rw [config]
    exact h.taken
  · obtain ⟨waiting, rfl, queued, loads⟩ := h.running seat found asleep
    refine ⟨waiting ++ w.engine.issued r i e, List.append_assoc .., ?_, ?_⟩
    · rw [config, Engine.outgoing_invoke, queued, List.map_append]
    · rw [config]
      exact loads.of_reactor rfl rfl

/-- Another reactor comes to a moment. -/
theorem elsewhere {j : Nat} {phase : Phase} {m : Moment σ} {handed : Option Handover}
    (h : w.Conveys i e order out ms) (other : j ≠ i)
    (config : m.turn.shared.config = w.engine.shared.config)
    (outgoing : m.turn.shared.outgoing i e = w.engine.shared.outgoing i e) :
    (w.advance j phase m handed).Conveys i e order out ms :=
  h.of_running config rfl fun seat found asleep => by
    rw [seat?_advance_of_ne (Ne.symm other)] at found
    exact ⟨rfl, outgoing, seat, found, asleep, rfl, rfl⟩

/-- The reactor of the line comes to a moment. -/
theorem advance {seat : Seat σ} {m : Moment σ} {handed : Option Handover} {ms' : List Frame}
    {out' : Outlet} {waiting : List Frame} (h : w.Conveys i e order out ms)
    (found : w.seat? i = some seat) (fit : m.turn.Fit (w.engine.shared.Knows i))
    (config : m.turn.shared.config = w.engine.shared.config) (plain : ∀ m ∈ ms', m.Plain)
    (issued : order = requestsOf (ms ++ ms') ++ waiting)
    (queued : m.turn.shared.outgoing i e
      = waiting.map fun f => f.encodeMessage w.engine.shared.config.fragmentThreshold)
    (loads : m.turn.Loads e (wire w.engine.shared.config.fragmentThreshold (ms ++ ms')) out') :
    (w.advance i .asleep m handed).Conveys i e order out' (ms ++ ms') where
  plain f mem := (List.mem_append.mp mem).elim (h.plain f) (plain f)
  passed := ⟨waiting, issued.symm⟩
  taken := by
    have same : (w.advance i .asleep m handed).engine.shared.config = w.engine.shared.config :=
      config
    rw [same]
    exact loads.taken fit
  running seat' found' _ := by
    cases (seat?_advance_self found).symm.trans found'
    have same : (w.advance i .asleep m handed).engine.shared.config = w.engine.shared.config :=
      config
    rw [same]
    exact ⟨waiting, issued, queued, loads⟩

/-- A completion is handled. -/
theorem handled {j : Nat} {seat : Seat σ} {c : IoCompletion Token}
    {rest : List (IoCompletion Token)} (h : w.Conveys i e order out ms) (sound : w.Sound)
    (room : w.HasRoom) (found : w.seat? j = some seat) (asleep : seat.phase = .asleep)
    (spares : (Deed.handled j (w.turn seat) c).Spares i e)
    (honest : (Deed.handled j (w.turn seat) c).Honest i e out) :
    ∃ ms', (w.advance j .asleep ⟨(w.turn seat).onCompletion c, rest⟩ none).Conveys i e order
      ((Deed.handled j (w.turn seat) c).outlet i e out) ms' := by
  have fit := sound.fit j seat found asleep
  have proceeds := fit.onCompletion (room j seat found) c
  have outgoing : ((w.turn seat).onCompletion c).shared.outgoing i e
      = w.engine.shared.outgoing i e :=
    Turn.Works.outgoing (Turn.works_all_onCompletion (w.turn seat) c) i e
  by_cases here : j = i
  · subst here
    obtain ⟨waiting, issued, queued, loads⟩ := h.running seat found asleep
    obtain ⟨bytes, responses, loads⟩ := loads.onCompletion fit (room j seat found) c
      (spares rfl).1 (honest rfl)
    obtain ⟨ms', rfl, none, plain⟩ := responses.exists
    have issued : order = requestsOf (ms ++ ms') ++ waiting := by
      rw [requestsOf_append, none, List.append_nil]
      exact issued
    refine ⟨ms ++ ms', h.advance found proceeds.fit proceeds.evolves.shared.config plain issued
      (outgoing.trans queued) ?_⟩
    rw [wire_append, Deed.outlet_handled]
    exact loads
  · rw [Deed.outlet_of_ne (.handled j (w.turn seat) c) here]
    exact ⟨ms, h.elsewhere here proceeds.evolves.shared.config outgoing⟩

/-- A task is run. -/
theorem ran {j : Nat} {seat : Seat σ} {t : Turn σ} {task : Task} {handed : Option Handover}
    (h : w.Conveys i e order out ms) (sound : w.Sound) (room : w.HasRoom)
    (requests : ∀ f ∈ order, f.flags = 0) (found : w.seat? j = some seat)
    (asleep : seat.phase = .asleep) (took : (w.turn seat).Took j task t)
    (responds : ∀ channel bytes, task = .reply channel bytes →
      Responses w.engine.shared.config.fragmentThreshold bytes)
    (still : (t.onTask task).reactor.stopping = false)
    (spares : (Deed.ran j t task).Spares i e) :
    ∃ ms', (w.advance j .asleep ⟨t.onTask task, []⟩ handed).Conveys i e order
      ((Deed.ran j t task).outlet i e out) ms' := by
  have fit := took.fit (sound.fit j seat found asleep)
  have roomy : t.reactor.channels.slots.length < Slab.maxSlots := by
    rw [took.reactor]
    exact room j seat found
  have known (l : Link) (about : task.link? = some l) : w.engine.shared.Knows j l := by
    have mem : task ∈ (w.turn seat).shared.queued j := took.own ▸ List.mem_cons_self
    exact sound.known j task l mem about
  have proceeds := fit.onTask roomy task known
  have config : (t.onTask task).shared.config = w.engine.shared.config :=
    proceeds.evolves.shared.config.trans took.config
  have outgoing : (t.onTask task).shared.outgoing i e = t.shared.outgoing i e :=
    Turn.Works.outgoing (Turn.works_all_onTask t task) i e
  obtain ⟨own, others⟩ := took.outgoing e
  by_cases here : j = i
  · subst here
    obtain ⟨waiting, issued, queued, loads⟩ := h.running seat found asleep
    have queued : (task.bytesTo? e).toList ++ t.shared.outgoing j e
        = waiting.map fun f => f.encodeMessage w.engine.shared.config.fragmentThreshold :=
      own.symm.trans queued
    have loads : t.Loads e _ out :=
      loads.of_reactor (by rw [took.reactor]) (by rw [took.reactor])
    have threshold : t.config.fragmentThreshold = w.engine.shared.config.fragmentThreshold :=
      congrArg Config.fragmentThreshold took.config
    obtain ⟨bytes, kind, loads⟩ := loads.onTask fit roomy known (spares rfl).1 (spares rfl).2
      (threshold ▸ responds) still
    rcases kind with carried | ⟨nothing, responses⟩
    · rw [carried] at queued
      obtain ⟨f, waiting, rfl, rfl, later⟩ := List.map_eq_cons_iff.mp queued.symm
      have flags : f.flags = 0 := requests f (issued ▸ List.mem_append_right _ List.mem_cons_self)
      obtain ⟨plain, request⟩ := Frame.plain_of_flags flags
      have issued : order = requestsOf (ms ++ [f]) ++ waiting := by
        rw [requestsOf_append, request, issued, List.append_assoc]
        rfl
      refine ⟨ms ++ [f], h.advance found proceeds.fit config (List.forall_mem_singleton.mpr plain)
        issued (outgoing.trans later.symm) ?_⟩
      rw [wire_append, Deed.outlet_ran]
      simpa [wire] using loads
    · have responses : Responses w.engine.shared.config.fragmentThreshold bytes :=
        threshold ▸ responses
      obtain ⟨ms', rfl, none, plain⟩ := responses.exists
      rw [nothing] at queued
      have issued : order = requestsOf (ms ++ ms') ++ waiting := by
        rw [requestsOf_append, none, List.append_nil]
        exact issued
      refine ⟨ms ++ ms', h.advance found proceeds.fit config plain issued
        (outgoing.trans queued) ?_⟩
      rw [wire_append, Deed.outlet_ran]
      exact loads
  · rw [Deed.outlet_of_ne (.ran j t task) here]
    exact ⟨ms, h.elsewhere here config (outgoing.trans (others i (Ne.symm here)))⟩

/-- A reactor ends. -/
theorem ended {j : Nat} {seat : Seat σ} (h : w.Conveys i e order out ms) (sound : w.Sound)
    (found : w.seat? j = some seat) :
    (w.advance j .ended ⟨(w.turn seat).finish, w.batches j⟩ none).Conveys i e order
      ((Deed.ended j (w.turn seat)).outlet i e out) ms := by
  have index : (w.turn seat).reactor.index = j := (sound.seats j seat found).1
  obtain ⟨-, -, ⟨s, takes, quiet⟩, -⟩ := Turn.finish_spec (w.turn seat)
  have config : (w.turn seat).finish.shared.config = w.engine.shared.config :=
    quiet.config.trans takes.config
  by_cases here : j = i
  · subst here
    refine h.of_running config (Deed.taken_outlet_ended ..) fun seat' found' asleep => ?_
    cases (seat?_advance_self found).symm.trans found'
    cases asleep
  · rw [Deed.outlet_of_ne (.ended j (w.turn seat)) here]
    exact h.elsewhere here config (Turn.outgoing_finish _ (index ▸ Ne.symm here) e)

/-- Others do something, or a reactor rests. -/
theorem rest (h : w.Conveys i e order out ms) (sound : w.Sound) (does : Does w none w')
    (silent : w'.calls = w.calls) : w'.Conveys i e order out ms := by
  have outgoing := does.outgoing silent i e
  obtain ⟨asks, seats⟩ := does.idle sound
  refine h.of_running asks.toPasses.config rfl fun seat' found' asleep => ?_
  obtain ⟨seat, found, phase, -, channels, outbound⟩ := seats i seat' found'
  exact ⟨rfl, outgoing, seat, found, phase.trans asleep, channels, outbound⟩

end Conveys

/-- What is handed back to a reactor are the frames of a response. -/
theorem Accounted.responses (h : w.Accounted ds) {j : Nat} {channel : ChannelKey} {bytes : Bytes}
    (mem : .reply channel bytes ∈ w.engine.shared.queued j) :
    Responses w.engine.shared.config.fragmentThreshold bytes := by
  have waits : .reply channel bytes ∈ (Books.of ds).waiting j :=
    h.books.waiting j ▸ List.mem_filter.mpr ⟨mem, rfl⟩
  obtain ⟨⟨id, place⟩, mem, task⟩ := List.mem_filterMap.mp waits
  have there : place ∈ (Books.of ds).places id :=
    List.mem_map.mpr ⟨_, List.mem_filter.mpr ⟨mem, decide_eq_true rfl⟩, rfl⟩
  obtain ⟨f, origin, -, right⟩ := h.books.right id place there
  cases place with
  | answered | lost => cases task
  | queued i task' =>
    simp only [Books.task?, Option.ite_none_right_eq_some] at task
    obtain ⟨-, same⟩ := task
    cases same
    rcases right with ⟨-, forward⟩ | ⟨-, -, bytes', ⟨result, answer⟩, same⟩
    · cases forward
    · cases same
      exact answer ▸ .of_encodeResponse w.engine.shared ..

theorem Line.conveys (line : Line w₀ i e w order out) (started : Started w₀) (going : w.Going) :
    ∃ ms, w.Conveys i e order out ms := by
  induction line with
  | start history absent outgoing => exact ⟨[], .start absent outgoing⟩
  | call line room r ih =>
    obtain ⟨ds, history⟩ := line.history
    have sound := (history.reachable started.toFresh).sound
    obtain ⟨ms, h⟩ := ih ((Does.call _ r).step.going room sound going)
    exact ⟨ms, h.call r⟩
  | rest line room does silent ih =>
    obtain ⟨ds, history⟩ := line.history
    have sound := (history.reachable started.toFresh).sound
    obtain ⟨ms, h⟩ := ih (does.step.going room sound going)
    exact ⟨ms, h.rest sound does silent⟩
  | deed line room does spares honest ih =>
    obtain ⟨ds, history⟩ := line.history
    have sound := (history.reachable started.toFresh).sound
    have before := does.step.going room sound going
    obtain ⟨ms, h⟩ := ih before
    obtain ⟨none, -⟩ | ⟨j, seat, found, asleep, ⟨none, -⟩ | ⟨c, rest, same, rfl⟩
        | ⟨t, task, same, took, rfl⟩ | ⟨same, rfl⟩⟩ := does.inversion sound
    · cases none
    · cases none
    · cases same
      exact h.handled sound room found asleep spares honest
    · cases same
      have accounted := history.accounted started before
      refine h.ran sound room line.flags found asleep took ?_ ?_ spares
      · rintro channel bytes rfl
        exact accounted.responses (took.own ▸ List.mem_cons_self)
      · exact going j _ (seat?_advance_self found)
    · cases same
      exact ⟨ms, h.ended sound found⟩

/-- What the driver of a line took is the front of the bytes of whole messages, and the
requests among these are a front of what was issued. -/
theorem Line.taken (line : Line w₀ i e w order out) (started : Started w₀) (going : w.Going) :
    ∃ ms : List Frame, (∀ m ∈ ms, m.Plain) ∧ requestsOf ms <+: order
      ∧ out.taken <+: wire w.engine.shared.config.fragmentThreshold ms := by
  obtain ⟨ms, h⟩ := line.conveys started going
  exact ⟨ms, h.plain, h.passed, h.taken⟩

end World

end PartitionEngine
