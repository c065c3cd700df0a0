import PartitionEngine.Proofs.Connections
import PartitionEngine.Proofs.Dispatching
import PartitionEngine.Proofs.Wires

/-!
# Requests run in the order of the calls

Two engines are at work.  The one issues requests over a link, and the driver of its line
takes bytes.  The other accepted the connection, and receives bytes on its channel.  All
that joins them is that what came in is a front of what was taken.

A `World.Inlet` is a run of the second engine, with the bytes that came in on the channel
and the requests of it that were run.  Every step keeps that a reactor has run a front of
the requests for it among those in the bytes (`World.Inlet.serves`).  With what a
line does on the other side, these are a front of what was issued (`World.link_order`).
-/

namespace PartitionEngine

namespace World

variable {σ τ : Type} {w w' w₀ : World σ} {origin : ChannelKey} {received : Bytes}
  {executed : List (Nat × Errand)}

/-- A channel is open, and nothing came in on it yet. -/
structure Opens (w : World σ) (origin : ChannelKey) : Prop where
  channel : ∀ seat, w.seat? origin.reactor = some seat → ∃ c,
    (w.turn seat).channel? origin.key = some c ∧ c.state = .open ∧ c.unread = []
      ∧ c.assembler = { maxMessage := w.engine.shared.config.maxMessageSize }
  absent : ∀ r, w.engine.shared.forwards r origin = []

/-- A run with a channel, from where it is open and empty.  It tells the bytes that came in
on the channel, and the requests of it that were run, with the reactors that ran them. -/
inductive Inlet (w₀ : World σ) (origin : ChannelKey) :
    World σ → Bytes → List (Nat × Errand) → Prop where
  | start {w : World σ} {ds : List (Deed σ)} (history : History w₀ w ds) (opens : w.Opens origin) :
      Inlet w₀ origin w [] []
  | rest {w w' : World σ} {received : Bytes} {executed : List (Nat × Errand)}
      (inlet : Inlet w₀ origin w received executed) (room : w.HasRoom) (does : Does w none w') :
      Inlet w₀ origin w' received executed
  | deed {w w' : World σ} {received : Bytes} {executed : List (Nat × Errand)} {d : Deed σ}
      (inlet : Inlet w₀ origin w received executed) (room : w.HasRoom) (does : Does w (some d) w')
      (retires : d.Retires origin) :
      Inlet w₀ origin w' (received ++ d.bytesOn origin) (executed ++ d.executedOn origin)

/-- What an inlet tells was served in its history, in that order. -/
theorem Inlet.ran (inlet : Inlet w₀ origin w received executed) :
    ∃ ds, History w₀ w ds ∧ ∀ r, (ranBy r executed).Sublist (servedBy r ds) := by
  induction inlet with
  | start history => exact ⟨_, history, fun _ => List.nil_sublist _⟩
  | rest _ room does ih =>
    obtain ⟨ds, history, ran⟩ := ih
    exact ⟨_, history.step room does, ran⟩
  | @deed _ _ _ _ d _ room does _ ih =>
    obtain ⟨ds, history, ran⟩ := ih
    refine ⟨_, history.step room does, fun r => ?_⟩
    rw [ranBy_append, Option.toList_some, servedBy_append]
    exact (ran r).append (ranBy_executedOn_sublist r d origin)

theorem Opens.receives (h : w.Opens origin) : w.Receives origin [] [] where
  front := ⟨[], false, _, [], .starved rfl, List.prefix_rfl⟩
  running seat found _ := by
    obtain ⟨c, there, isOpen, unread, assembler⟩ := h.channel seat found
    have heard : (w.turn seat).Heard _ (w.turn seat).config.maxFramePayload _ _ _ :=
      .start there isOpen
    rw [assembler, unread] at heard
    exact ⟨[], heard, rfl⟩

/-- Requests were taken off the channel, and each reactor has run a front of those for it. -/
theorem Inlet.serves (inlet : Inlet w₀ origin w received executed) (started : Started w₀)
    (going : w.Going) :
    ∃ arrived, w.Receives origin received arrived ∧ w.Delivers origin arrived executed := by
  induction inlet with
  | start _ opens => exact ⟨[], opens.receives, .start opens.absent⟩
  | rest inlet room does ih =>
    obtain ⟨ds, history, -⟩ := inlet.ran
    have sound := (history.reachable started.toFresh).sound
    obtain ⟨arrived, receives, delivers⟩ := ih (does.step.going room sound going)
    exact ⟨arrived, receives.rest sound does, delivers.rest sound does⟩
  | deed inlet room does retires ih =>
    obtain ⟨ds, history, -⟩ := inlet.ran
    have sound := (history.reachable started.toFresh).sound
    have before := does.step.going room sound going
    obtain ⟨arrived, receives, delivers⟩ := ih before
    exact ⟨_, receives.deed sound room does going retires,
      delivers.deed sound (history.accounted started before) room does before⟩

/-- Requests over one link are run in the order of the calls.  One engine issues `order`
over the line of its reactor `i`, which is not closed, and its driver takes bytes.  What
came in on a channel of another engine is a front of them.  If every payload and every
frame is within the limits of the other engine, the requests of the channel that a reactor
there has run are a front of those in `order` that are for it.  So none is run twice, or
before another that was issued first. -/
theorem link_order {caller₀ caller : World σ} {owner₀ owner : World τ} {i : Nat} {e : Endpoint}
    {order : List Frame} {out : Outlet} (started : Started caller₀)
    (line : Line caller₀ i e caller order out) (going : caller.Going) (started' : Started owner₀)
    (inlet : Inlet owner₀ origin owner received executed) (going' : owner.Going)
    (payloads : ∀ f ∈ order, f.payload.length ≤ owner.engine.shared.config.maxMessageSize)
    (frames : caller.engine.shared.config.fragmentThreshold
      ≤ owner.engine.shared.config.maxFramePayload)
    (positive : 0 < owner.engine.shared.config.maxFramePayload)
    (width : caller.engine.shared.config.fragmentThreshold < 2 ^ 32)
    (fifo : received <+: out.taken) (r : Nat) :
    ranBy r executed <+: owner.engine.shared.errandsFor r order := by
  obtain ⟨ms, plain, passed, taken⟩ := line.taken started going
  obtain ⟨arrived, receives, delivers⟩ := inlet.serves started' going'
  obtain ⟨rs, lost, a, left, reads, came⟩ := receives.front
  obtain ⟨all, readsAll, requests⟩ := exists_reads_wire (Nat.max_le.mpr ⟨frames, positive⟩) width
    plain fun m mem => payloads m (passed.subset mem)
  have arrivedFront : arrived <+: order :=
    (came.trans (requests ▸ requestsOf_messagesOf_prefix (fifo.trans taken) reads readsAll)).trans
      passed
  have ranFront : ranBy r executed <+: owner.engine.shared.errandsFor r arrived :=
    (List.prefix_append ..).trans (delivers.front r)
  exact ranFront.trans ((arrivedFront.filter _).map _)

/-! ## An echo that is called for

The engine of `stationed` calls for an echo, and for another when the first has gone out.
The engine of `twin` gets the first and runs it on its second reactor.
-/

theorem calls_advance (w : World σ) (i : Nat) (phase : Phase) (m : Moment σ)
    (handed : Option Handover) : (w.advance i phase m handed).calls = w.calls := rfl

/-- A call that `echo` is the request of. -/
def echoing : Request := { request with payload := [10] }

/-- The engine after the call. -/
def sending : World Builtin.Item :=
  { stationed with
    engine := (stationed.engine.invoke echoing).2
    calls := [((stationed.engine.invoke echoing).1.2, echoing)] }

/-- The channel to the other engine when it is made. -/
def dialing : Channel :=
  { Channel.outbound outward (64 * 1024 * 1024) with
    descriptor := some 16, connectInFlight := true, timers := 1, attempt := 1 }

/-- The channel when the echo waits in it. -/
def laden : Channel :=
  { dialing with writes := { chunks := { back := [echo.encode] }, queued := 19 } }

/-- The channel when it is connected and a send of the echo is under way. -/
def flushing : Channel :=
  { dialing with
    state := .open, writes := { chunks := { front := [echo.encode] }, queued := 19, inFlight := true },
    recvInFlight := true, connectInFlight := false }

/-- The engine when its reactor has a channel. -/
def sendingOn (c : Channel) (state : LinkState) (waiting : List Task) (ran : Nat)
    (driver : CompletionQueue) (invocations : InvocationTable)
    (batches : Nat → List (IoCompletion Token)) (handed : Nat → List Handover) :
    World Builtin.Item where
  host := { files := ⟨[(16, .socket)]⟩, nextDescriptor := 17 }
  engine :=
    { shared := { resting.engine.shared with
        invocations
        reactors :=
          [{ index := 0, queue := { tasks := { front := waiting }, mode := .blocking },
             stats := { connects := 1, tasks := ran } }]
        links := { reactorCount := 1, peers := ⟨[(away, [{ state, connects := 1 }])]⟩ } }
      seats :=
        [{ reactor :=
             { index := 0, listener := some 3, localAddress := home,
               dispatcher := .new .builtin 64,
               channels := { slots := [{ generation := 0, occupant := some c }] },
               outbound := ⟨[(outward.endpoint, ⟨0, 0⟩)]⟩, driver }
           phase := .asleep }] }
  batches
  calls := sending.calls
  handed

/-- The echo is written before the channel is connected, and is sent when it is. -/
theorem line_of_echo : ∃ w, Line stationed 0 outward.endpoint w [echo, .request 1 502 7 []]
      { taken := echo.encode }
    ∧ w.Going ∧ w.engine.shared.config = { reactorCount := 1 } := by
  have start : Line stationed 0 outward.endpoint stationed [] {} :=
    .start .start (fun seat found => by cases found; rfl) rfl nofun
  have issued : Line _ _ _ sending [echo] {} :=
    start.call (of_alone (w := stationed) rfl (by decide)) echoing
  -- Each world is given by its channel, so that no step has to go through those before.
  have dialed : Line _ _ _ (sendingOn dialing .connecting
      [.write outward echo.encode (some 501)] 1 _ _ _ _) [echo] {} :=
    (issued.deed (of_alone (w := sending) rfl (by decide)) (.run _ 0 _ _ _ rfl rfl rfl rfl)
      (fun _ => ⟨nofun, nofun⟩) (fun _ _ _ _ => nofun) :)
  have written : Line _ _ _ (sendingOn laden .connecting [] 2 _ _ _ _) [echo] {} :=
    (dialed.deed (of_alone rfl (by decide)) (.run _ 0 _ _ _ rfl rfl rfl rfl)
      (fun _ => ⟨fun _ line => line, fun _ => rfl⟩) (fun _ _ _ _ => nofun) :)
  have connected : Line _ _ _ (sendingOn laden .connecting [] 2 _ _ _ _) [echo] {} :=
    (written.rest (of_alone rfl (by decide)) (.drive _ 0 _
      { ready := [{ token := .ofChannel .connect ⟨0, 0⟩ 1, result := 0 }] } rfl rfl)
      (calls_advance ..) :)
  have taken : Line _ _ _ (sendingOn laden .connecting [] 2 {} _ _ _) [echo] {} :=
    (connected.rest (of_alone rfl (by decide)) (.take _ 0 _ 1 rfl rfl rfl) (calls_advance ..) :)
  have opened : Line _ _ _ (sendingOn flushing .open [] 2 _ _ _ _) [echo]
      { offered := some echo.encode } :=
    (taken.deed (of_alone rfl (by decide)) (.handle _ 0 _ _ _ rfl rfl rfl)
      (fun _ => ⟨fun _ line => line, nofun⟩) (fun _ _ _ _ => nofun) :)
  have flushed : Line _ _ _ (sendingOn flushing .open [] 2 _ _ _ _) [echo]
      { offered := some echo.encode } :=
    (opened.rest (of_alone rfl (by decide)) (.drive _ 0 _
      { ready := [{ token := .ofChannel .send ⟨0, 0⟩, result := 19 }] } rfl rfl)
      (calls_advance ..) :)
  have returned : Line _ _ _ (sendingOn flushing .open [] 2 {} _ _ _) [echo]
      { offered := some echo.encode } :=
    (flushed.rest (of_alone rfl (by decide)) (.take _ 0 _ 1 rfl rfl rfl) (calls_advance ..) :)
  have sent : Line _ _ _ _ [echo] { taken := echo.encode } :=
    (returned.deed (of_alone rfl (by decide)) (.handle _ 0 _ _ _ rfl rfl rfl)
      (fun _ => ⟨fun _ line => line, nofun⟩) (fun _ key result line sent => by
        cases line
        cases sent
        exact ⟨_, rfl, by decide⟩) :)
  exact ⟨_, (sent.call (of_alone rfl (by decide)) request :), of_alone rfl rfl, rfl⟩

/-- The echo comes in at the first reactor, and the second has run it. -/
theorem inlet_of_echo : ∃ w, Inlet twin caller w echo.encode [(1, echo.errand)]
    ∧ w.Going ∧ w.engine.shared.config = { reactorCount := 2 } := by
  have driven := History.start.step (of_pair (w := twin) rfl (by decide) (by decide))
    (.drive twin 0 _ arrivals rfl rfl)
  have taken := driven.step (of_pair rfl (by decide) (by decide)) (.take _ 0 _ 2 rfl rfl rfl)
  have accepted := taken.step (of_pair rfl (by decide) (by decide)) (.handle _ 0 _ _ _ rfl rfl rfl)
  have opened : Inlet twin caller _ [] [] := .start accepted
    { channel := fun seat found => by
        cases found
        exact ⟨_, rfl, rfl, rfl, rfl⟩
      absent := fun r => by
        cases r with
        | zero => rfl
        | succ r => cases r <;> rfl }
  have forwarded : Inlet _ _ _ echo.encode [] :=
    (opened.deed (of_pair rfl (by decide) (by decide)) (.handle _ 0 _ _ _ rfl rfl rfl)
      (fun _ gone => by cases gone) :)
  have ran : Inlet _ _ _ echo.encode [(1, echo.errand)] :=
    (forwarded.deed (of_pair rfl (by decide) (by decide)) (.run _ 1 _ _ _ rfl rfl rfl rfl) nofun :)
  exact ⟨_, ran, of_pair rfl rfl rfl, rfl⟩

/-- The second reactor has run the first of the two requests. -/
theorem link_order_of_echo : ∃ (sender owner : World Builtin.Item) (out : Outlet),
    Line stationed 0 outward.endpoint sender [echo, .request 1 502 7 []] out ∧ sender.Going
    ∧ Inlet twin caller owner echo.encode [(1, echo.errand)] ∧ owner.Going
    ∧ echo.encode <+: out.taken
    ∧ ranBy 1 [(1, echo.errand)]
      <+: owner.engine.shared.errandsFor 1 [echo, .request 1 502 7 []] := by
  obtain ⟨sender, line, going, config⟩ := line_of_echo
  obtain ⟨owner, inlet, going', config'⟩ := inlet_of_echo
  have fifo : echo.encode <+: ({ taken := echo.encode } : Outlet).taken := List.prefix_rfl
  refine ⟨sender, owner, _, line, going, inlet, going', fifo, ?_⟩
  refine link_order started_stationed line going started_twin inlet going' ?_ ?_ ?_ ?_ fifo 1
  · rw [config']
    decide
  · rw [config, config']
    decide
  · rw [config']
    decide
  · rw [config]
    decide

end World

end PartitionEngine
