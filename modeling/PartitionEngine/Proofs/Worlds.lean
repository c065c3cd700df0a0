import PartitionEngine.Proofs.Handovers
import Mathlib.Logic.Function.Basic

/-!
# Runs of an engine

A *world* is an engine at work, with what was asked of it and what its reactors
handed to channels.  In a step of a world somebody calls the engine or shuts it
down, a driver does what it likes, or a reactor makes a move.  The steps of
different reactors come in any order.

An invocation that waits is *backed*: its task is queued, or a live channel of its
link was handed its bytes.  Every step keeps that (`Step.sound`), as long as keys
can name the slots.
-/

namespace PartitionEngine

/-- Peers differ in where their reactors listen. -/
def Links.Distinct (links : Links) : Prop :=
  ∀ p q i e, (links.peers.get? p).isSome = true → (links.peers.get? q).isSome = true →
    p.reactorEndpoint? i = some e → q.reactorEndpoint? i = some e → p = q

theorem Links.Distinct.keeps {σ : Type} {s s' : Shared σ} (distinct : s'.links.Distinct)
    (keeps : s.Keeps s') : s.links.Distinct :=
  fun p q i e known known' => distinct p q i e (keeps.peers p known) (keeps.peers q known')

/-- A link is told by where it leads. -/
theorem Shared.Knows.alike {σ : Type} {s : Shared σ} {i : Nat} {l l' : Link} (h : s.Knows i l)
    (h' : s.Knows i l') (distinct : s.links.Distinct) (same : l.endpoint = l'.endpoint) : l = l' := by
  have peer := distinct l.peer l'.peer i l.endpoint h.peer h'.peer h.endpoint (same ▸ h'.endpoint)
  have index := h.index.trans h'.index.symm
  cases l
  cases l'
  cases peer
  cases index
  cases same
  rfl

/-- The reactor `i` takes tasks off its queue. -/
structure Shared.Takes {σ : Type} (i : Nat) (s s' : Shared σ) : Prop extends Keeps s s' where
  invocations : s'.invocations = s.invocations
  others : ∀ j, j ≠ i → s'.queued j = s.queued j
  own : ∀ task, task ∈ s'.queued i → task ∈ s.queued i

namespace Shared.Takes

variable {σ : Type} {i : Nat} {s s' s'' : Shared σ}

theorem refl (i : Nat) (s : Shared σ) : s.Takes i s :=
  ⟨.refl s, rfl, fun _ _ => rfl, fun _ mem => mem⟩

theorem trans (h : s.Takes i s') (h' : s'.Takes i s'') : s.Takes i s'' where
  toKeeps := h.toKeeps.trans h'.toKeeps
  invocations := h'.invocations.trans h.invocations
  others j apart := (h'.others j apart).trans (h.others j apart)
  own task mem := h.own task (h'.own task mem)

/-- The queue of a reactor changes, to one with no other tasks. -/
theorem handle {f : ReactorHandle → ReactorHandle}
    (own : ∀ r, s.reactor? i = some r → ∀ task, task ∈ (f r).queue.tasks.toList →
      task ∈ r.queue.tasks.toList) : s.Takes i (s.modifyReactor i f) where
  toKeeps := ⟨rfl, rfl, List.length_modify .., fun _ known => known⟩
  invocations := rfl
  others j apart := by rw [queued_modifyReactor, if_neg (Ne.symm apart)]
  own task mem := by
    rw [queued_modifyReactor, if_pos rfl] at mem
    simp only [queued]
    cases found : s.reactor? i with
    | none => simp [found] at mem
    | some r =>
      simp only [found] at mem
      exact own r found task mem

end Shared.Takes

/-- Whether a channel is there and was not closed. -/
def Turn.isLive {σ : Type} (t : Turn σ) (key : SlotKey) : Bool :=
  (t.channel? key).any fun c => !c.state.isClosed

theorem Turn.Serves.isLive {σ : Type} {t : Turn σ} {key : SlotKey} {l : Link}
    (h : t.Serves key l) : t.isLive key = true := by
  obtain ⟨c, found, usable, -⟩ := h
  rw [Turn.isLive, found]
  cases closed : c.state.isClosed with
  | false => simp [closed]
  | true => exact absurd usable (not_isUsable_of_isClosed closed)

/-- An engine at work. -/
structure World (σ : Type) where
  host : Host
  engine : Engine σ
  /-- The completions that each reactor took off its driver and has not handled. -/
  batches : Nat → List (IoCompletion Token) := fun _ => []
  /-- The calls that were made, with the numbers of their futures. -/
  calls : List (FutureId × Request) := []
  /-- What was handed to the live channels of each reactor. -/
  handed : Nat → List Handover := fun _ => []

namespace World

variable {σ : Type}

/-- A reactor, and where it is in its loop. -/
def seat? (w : World σ) (i : Nat) : Option (Seat σ) := w.engine.seats[i]?

/-- What a reactor sees. -/
def turn (w : World σ) (seat : Seat σ) : Turn σ :=
  { host := w.host, shared := w.engine.shared, reactor := seat.reactor }

/-- The world after a reactor has come to a moment. -/
def advance (w : World σ) (i : Nat) (phase : Phase) (m : Moment σ) (handed : Option Handover) :
    World σ :=
  { w with
    host := m.turn.host
    engine := {
      shared := m.turn.shared
      seats := w.engine.seats.set i { reactor := m.turn.reactor, phase } }
    batches := Function.update w.batches i m.batch
    handed := Function.update w.handed i
      ((handed.toList ++ w.handed i).filter fun h => m.turn.isLive h.key) }

/-- What may happen to an engine at work. -/
inductive Step : World σ → World σ → Prop where
  /-- Somebody makes a call. -/
  | call (w : World σ) (r : Request) :
      Step w { w with
        engine := (w.engine.invoke r).2
        calls := ((w.engine.invoke r).1.2, r) :: w.calls }
  /-- Somebody shuts the engine down. -/
  | shutdown (w : World σ) : Step w { w with engine := w.engine.shutdown }
  /-- The host changes, and who owns what. -/
  | change (w : World σ) (host : Host) (ownership : Ownership) :
      Step w { w with host, engine := w.engine.modifyShared fun s => { s with ownership } }
  /-- The handle of a reactor changes, but no task of it. -/
  | mark (w : World σ) (i : Nat) (f : ReactorHandle → ReactorHandle)
      (keep : ∀ r, (f r).queue.tasks = r.queue.tasks) :
      Step w { w with engine := w.engine.modifyShared fun s => s.modifyReactor i f }
  /-- The driver of a reactor does what it likes. -/
  | drive (w : World σ) (i : Nat) (seat : Seat σ) (driver : CompletionQueue)
      (found : w.seat? i = some seat) (running : seat.phase = .asleep) :
      Step w (w.advance i .asleep
        ⟨{ w.turn seat with reactor := { seat.reactor with driver } }, w.batches i⟩ none)
  /-- A reactor begins. -/
  | begin (w : World σ) (i : Nat) (seat : Seat σ)
      (found : w.seat? i = some seat) (running : seat.phase = .asleep) :
      Step w (w.advance i .asleep ⟨(w.turn seat).armWakeup.armAccept, w.batches i⟩ none)
  /-- A reactor goes on. -/
  | move (w : World σ) (i : Nat) (seat : Seat σ) (m : Moment σ) (handed : Option Handover)
      (found : w.seat? i = some seat) (running : seat.phase = .asleep)
      (move : Moment.Move ⟨w.turn seat, w.batches i⟩ handed m) :
      Step w (w.advance i .asleep m handed)
  /-- A reactor ends. -/
  | finish (w : World σ) (i : Nat) (seat : Seat σ)
      (found : w.seat? i = some seat) (running : seat.phase = .asleep) :
      Step w (w.advance i .ended ⟨(w.turn seat).finish, w.batches i⟩ none)

/-- An engine that was started and has done nothing. -/
structure Fresh (w : World σ) : Prop where
  size : w.engine.shared.reactors.length = w.engine.seats.length
  invocations : w.engine.shared.invocations.peers = .empty
  queued : ∀ i, w.engine.shared.queued i = []
  seats : ∀ i seat, w.seat? i = some seat → seat.reactor.index = i
    ∧ w.engine.shared.localAddress = some seat.reactor.localAddress
    ∧ seat.reactor.channels = {} ∧ seat.reactor.outbound = .empty

/-- The slots of each reactor can be named. -/
def HasRoom (w : World σ) : Prop :=
  ∀ i seat, w.seat? i = some seat → seat.reactor.channels.slots.length < Slab.maxSlots

/-- The worlds of the runs with room. -/
inductive Reachable : World σ → Prop where
  | start (w : World σ) (fresh : Fresh w) : Reachable w
  | step {w w' : World σ} (reached : Reachable w) (room : w.HasRoom) (step : Step w w') :
      Reachable w'

/-- A reactor holds a live channel of a link to a peer that was handed the bytes of
a request. -/
def Holds (w : World σ) (peer : Address) (id : UInt64) (i : Nat) (r : Request) : Prop :=
  ∃ seat key l, w.seat? i = some seat ∧ (w.turn seat).Serves key l ∧ l.peer = peer
    ∧ l.index = i ∧ ⟨key, peer, id, w.engine.shared.encodeRequest id r⟩ ∈ w.handed i

/-- The task of an invocation is queued on its reactor, or its bytes were handed to
a live channel there. -/
def Backed (w : World σ) (peer : Address) (id : UInt64) (i : Invocation) : Prop :=
  ∃ r, (i.future, r) ∈ w.calls
    ∧ (w.engine.shared.Queues peer id i.reactor r ∨ w.Holds peer id i.reactor r)

/-- What is kept in every run. -/
structure Sound (w : World σ) : Prop where
  size : w.engine.shared.reactors.length = w.engine.seats.length
  known : w.engine.shared.LinksKnown
  seats : ∀ i seat, w.seat? i = some seat → seat.reactor.index = i
    ∧ w.engine.shared.localAddress = some seat.reactor.localAddress
  fit : ∀ i seat, w.seat? i = some seat → seat.phase = .asleep →
    (w.turn seat).Fit (w.engine.shared.Knows i)
  routed : ∀ peer id i, w.engine.shared.invocations.Waits peer id i →
    i.reactor < w.engine.seats.length
  backed : w.engine.shared.links.Distinct → ∀ peer id i seat,
    w.engine.shared.invocations.Waits peer id i → w.seat? i.reactor = some seat →
    seat.phase = .asleep → seat.reactor.stopping = false → w.Backed peer id i

variable {w w' : World σ}

theorem Fresh.sound (fresh : Fresh w) : w.Sound where
  size := fresh.size
  known i task l mem := by
    rw [fresh.queued] at mem
    cases mem
  seats i seat found := ⟨(fresh.seats i seat found).1, (fresh.seats i seat found).2.1⟩
  fit i seat found _ := by
    obtain ⟨-, -, channels, outbound⟩ := fresh.seats i seat found
    have absent (key : SlotKey) : (w.turn seat).channel? key = none := by
      rw [Turn.channel?, turn, channels]
      rfl
    refine ⟨channels ▸ Slab.freeExact_empty, ?_, ?_⟩
    · intro e key entry
      rw [turn, outbound] at entry
      cases entry
    · intro key c l found
      cases (absent key).symm.trans found
  routed peer id i waits := by
    obtain ⟨p, found, -⟩ := waits
    rw [fresh.invocations] at found
    cases found
  backed _ peer id i seat waits := by
    obtain ⟨p, found, -⟩ := waits
    rw [fresh.invocations] at found
    cases found

/-! ## What is shared changes -/

/-- No invocation comes without its task. -/
theorem Sound.share (h : w.Sound) (on : w.engine.shared.Onward w'.engine.shared)
    (seats : w'.engine.seats = w.engine.seats) (handed : w'.handed = w.handed)
    (calls : ∀ call ∈ w.calls, call ∈ w'.calls) (known : w'.engine.shared.LinksKnown)
    (waits : ∀ peer id i, w'.engine.shared.invocations.Waits peer id i →
      w.engine.shared.invocations.Waits peer id i
      ∨ ∃ r, (i.future, r) ∈ w'.calls ∧ w'.engine.shared.Queues peer id i.reactor r) :
    w'.Sound where
  size := by rw [on.count, h.size, seats]
  known := known
  seats i seat found := by
    rw [seat?, seats] at found
    exact ⟨(h.seats i seat found).1, on.localAddress.trans (h.seats i seat found).2⟩
  fit i seat found running := by
    rw [seat?, seats] at found
    have fit : (w'.turn seat).Fit _ := (h.fit i seat found running).of_reactor rfl rfl
    exact fit.mono fun l knows => knows.keeps on.toKeeps
  routed peer id i here := by
    rcases waits peer id i here with before | ⟨r, -, task, mem, -⟩
    · exact seats ▸ h.routed peer id i before
    · have inside := Shared.lt_of_mem_queued mem
      rw [on.count, h.size, ← seats] at inside
      exact inside
  backed distinct peer id i seat here found running going := by
    rcases waits peer id i here with before | ⟨r, called, queued⟩
    · rw [seat?, seats] at found
      obtain ⟨r, called, queued | held⟩ :=
        h.backed (distinct.keeps on.toKeeps) peer id i seat before found running going
      · obtain ⟨task, mem, carries⟩ := queued
        exact ⟨r, calls _ called, .inl ⟨task, on.queued _ _ mem, carries.keeps on.toKeeps⟩⟩
      · obtain ⟨seat', key, l, found', serves, peer', index, mem⟩ := held
        refine ⟨r, calls _ called, .inr ⟨seat', key, l, ?_, ?_, peer', index, ?_⟩⟩
        · rw [seat?, seats]
          exact found'
        · exact serves.of_eq rfl
        · rw [handed, on.toKeeps.encodeRequest]
          exact mem
    · exact ⟨r, called, .inl queued⟩

/-! ## A reactor comes to a moment -/

variable {i j : Nat} {seat : Seat σ} {phase : Phase} {m : Moment σ} {handed : Option Handover}
  {s₁ : Shared σ}

theorem seat?_advance_self (found : w.seat? i = some seat) :
    (w.advance i phase m handed).seat? i = some { reactor := m.turn.reactor, phase } := by
  have inside := (List.getElem?_eq_some_iff.mp found).1
  simp [seat?, advance, inside]

theorem seat?_advance_of_ne (apart : j ≠ i) :
    (w.advance i phase m handed).seat? j = w.seat? j := by
  simp [seat?, advance, Ne.symm apart]

/-- The reactor that comes to a moment is found at it, and any other as it was. -/
theorem seat?_advance_cases {seat' : Seat σ} (found : w.seat? i = some seat)
    (found' : (w.advance i phase m handed).seat? j = some seat') :
    j = i ∧ seat' = { reactor := m.turn.reactor, phase } ∨ j ≠ i ∧ w.seat? j = some seat' := by
  by_cases same : j = i
  · subst same
    exact .inl ⟨rfl, Option.some.inj (found'.symm.trans (seat?_advance_self found))⟩
  · exact .inr ⟨same, (seat?_advance_of_ne same).symm.trans found'⟩

/-- The task of an invocation that goes through another reactor stays queued, and so
its channel stays. -/
theorem Backed.elsewhere {peer : Address} {id : UInt64} {inv : Invocation}
    (h : w.Backed peer id inv) (apart : inv.reactor ≠ i) (takes : w.engine.shared.Takes i s₁)
    (quiet : s₁.Quiet m.turn.shared) : (w.advance i phase m handed).Backed peer id inv := by
  have keeps := takes.toKeeps.trans quiet.toKeeps
  obtain ⟨r, called, ⟨task, mem, carries⟩ | ⟨seat, key, l, found, serves, peer', index, mem⟩⟩ := h
  · refine ⟨r, called, .inl ⟨task, quiet.queued _ _ ?_, carries.keeps keeps⟩⟩
    rw [takes.others _ apart]
    exact mem
  · refine ⟨r, called, .inr ⟨seat, key, l, ?_, serves.of_eq rfl, peer', index, ?_⟩⟩
    · rw [seat?_advance_of_ne apart]
      exact found
    · have same : (w.advance i phase m handed).engine.shared.encodeRequest id r
          = w.engine.shared.encodeRequest id r := keeps.encodeRequest id r
      rw [same]
      simpa [advance, Function.update_of_ne apart] using mem

theorem Sound.advance (h : w.Sound) (found : w.seat? i = some seat)
    (takes : w.engine.shared.Takes i s₁) (quiet : s₁.Quiet m.turn.shared)
    (index : m.turn.reactor.index = seat.reactor.index)
    (address : m.turn.reactor.localAddress = seat.reactor.localAddress)
    (fit : phase = .asleep → m.turn.Fit (m.turn.shared.Knows i))
    (backed : phase = .asleep → m.turn.reactor.stopping = false → m.turn.shared.links.Distinct →
      ∀ peer id inv, m.turn.shared.invocations.Waits peer id inv → inv.reactor = i →
        (w.advance i phase m handed).Backed peer id inv) :
    (w.advance i phase m handed).Sound where
  size := by
    have count := quiet.count.trans takes.count
    simpa [World.advance, count] using h.size
  known := quiet.known fun j task l mem about => by
    have mem : task ∈ w.engine.shared.queued j := by
      by_cases same : j = i
      · subst same
        exact takes.own task mem
      · exact takes.others j same ▸ mem
    exact (h.known j task l mem about).keeps takes.toKeeps
  seats j seat' found' := by
    have local' := quiet.localAddress.trans takes.localAddress
    obtain ⟨rfl, rfl⟩ | ⟨-, found'⟩ := seat?_advance_cases found found'
    · exact ⟨index.trans (h.seats j seat found).1,
        local'.trans ((h.seats j seat found).2.trans (congrArg some address.symm))⟩
    · exact ⟨(h.seats j seat' found').1, local'.trans (h.seats j seat' found').2⟩
  fit j seat' found' running := by
    obtain ⟨rfl, rfl⟩ | ⟨-, found'⟩ := seat?_advance_cases found found'
    · exact fit running
    · have other : Turn.Fit _ ((w.advance i phase m handed).turn seat') :=
        (h.fit j seat' found' running).of_reactor rfl rfl
      exact other.mono fun l knows => knows.keeps (takes.toKeeps.trans quiet.toKeeps)
  routed peer id inv waits := by
    have before := quiet.waits peer id inv waits
    rw [takes.invocations] at before
    simpa [World.advance] using h.routed peer id inv before
  backed distinct peer id inv seat' waits found' running going := by
    have before := quiet.waits peer id inv waits
    rw [takes.invocations] at before
    obtain ⟨same, rfl⟩ | ⟨same, found'⟩ := seat?_advance_cases found found'
    · exact backed running going distinct peer id inv waits same
    · have distinct := distinct.keeps (takes.toKeeps.trans quiet.toKeeps)
      exact (h.backed distinct peer id inv seat' before found' running going).elsewhere same takes
        quiet

/-- What an invocation is handed over with is noted. -/
theorem holds_advance {peer : Address} {id : UInt64} {r : Request} {key : SlotKey} {l : Link}
    (found : w.seat? i = some seat) (serves : m.turn.Serves key l) (peer' : l.peer = peer)
    (index : l.index = i)
    (mem : ⟨key, peer, id, m.turn.shared.encodeRequest id r⟩ ∈ handed.toList ++ w.handed i) :
    (w.advance i phase m handed).Holds peer id i r := by
  refine ⟨_, key, l, seat?_advance_self found, serves.of_eq rfl, peer', index, ?_⟩
  simp only [advance, Function.update_self, List.mem_filter]
  exact ⟨mem, serves.isLive⟩

/-- A reactor goes on.  It takes tasks off its queue, and evolves.  An invocation
that a task carried and that waits still was handed over. -/
structure Goes (w : World σ) (i : Nat) (seat : Seat σ) (t : Turn σ) (m : Moment σ)
    (handed : Option Handover) : Prop where
  takes : w.engine.shared.Takes i t.shared
  index : t.reactor.index = seat.reactor.index
  address : t.reactor.localAddress = seat.reactor.localAddress
  channels : t.reactor.channels = seat.reactor.channels
  stopping : t.reactor.stopping = seat.reactor.stopping
  proceeds : t.Proceeds (w.engine.shared.Knows i) m.turn
  taken : t.reactor.stopping = false → w.engine.shared.links.Distinct →
    ∀ task ∈ w.engine.shared.queued i, task ∉ t.shared.queued i → ∀ peer id inv r,
      m.turn.shared.invocations.Waits peer id inv → inv.reactor = i →
      t.shared.Carries peer id i r task → ∃ key l, m.turn.Serves key l ∧ l.peer = peer
        ∧ l.index = i ∧ handed = some ⟨key, peer, id, t.shared.encodeRequest id r⟩

namespace Goes

variable {t : Turn σ}

theorem keeps (goes : w.Goes i seat t m handed) : w.engine.shared.Keeps m.turn.shared :=
  goes.takes.toKeeps.trans goes.proceeds.evolves.shared.toKeeps

theorem waits (goes : w.Goes i seat t m handed) {peer : Address} {id : UInt64} {inv : Invocation}
    (waits : m.turn.shared.invocations.Waits peer id inv) :
    w.engine.shared.invocations.Waits peer id inv :=
  goes.takes.invocations ▸ goes.proceeds.evolves.shared.waits peer id inv waits

/-- A channel serves on, or its link is deserted. -/
theorem serves (goes : w.Goes i seat t m handed) {key : SlotKey} {l : Link}
    (serves : (w.turn seat).Serves key l) :
    m.turn.Serves key l ∨ m.turn.shared.Deserted l := by
  have before : t.Serves key l := serves.of_eq (by rw [Turn.channel?, goes.channels]; rfl)
  exact goes.proceeds.evolves.serves key l before

/-- An invocation that goes through the reactor stays backed.  Its channel serves on,
or it does not wait any longer.  Its task stays queued, or it is taken and handed
over. -/
theorem backed (goes : w.Goes i seat t m handed) (found : w.seat? i = some seat)
    (going : t.reactor.stopping = false) (distinct : w.engine.shared.links.Distinct)
    {peer : Address} {id : UInt64} {inv : Invocation} (h : w.Backed peer id inv)
    (via : inv.reactor = i) (waits : m.turn.shared.invocations.Waits peer id inv) :
    (w.advance i .asleep m handed).Backed peer id inv := by
  have on := goes.proceeds.evolves.shared
  obtain ⟨r, called, backed⟩ := h
  refine ⟨r, called, ?_⟩
  rw [via] at backed ⊢
  rcases backed with ⟨task, mem, carries⟩ | ⟨seat', key, l, found', serves, peer', index, mem⟩
  · by_cases stays : task ∈ t.shared.queued i
    · exact .inl ⟨task, on.queued i task stays, carries.keeps goes.keeps⟩
    · obtain ⟨key, l, serves, peer', index, handed⟩ := goes.taken going distinct task mem stays
        peer id inv r waits via (carries.keeps goes.takes.toKeeps)
      refine .inr (holds_advance found serves peer' index ?_)
      rw [handed, on.toKeeps.encodeRequest]
      exact List.mem_append_left _ (List.mem_singleton_self _)
  · cases found.symm.trans found'
    rcases goes.serves serves with serves | deserted
    · refine .inr (holds_advance found serves peer' index (List.mem_append_right _ ?_))
      rw [goes.keeps.encodeRequest]
      exact mem
    · exact absurd (via.trans index.symm) (deserted id inv (peer' ▸ waits))

theorem of_proceeds (proceeds : (w.turn seat).Proceeds (w.engine.shared.Knows i) m.turn) :
    w.Goes i seat (w.turn seat) m handed where
  takes := .refl i _
  index := rfl
  address := rfl
  channels := rfl
  stopping := rfl
  proceeds := proceeds
  taken _ _ _ mem gone := absurd mem gone

end Goes

theorem Sound.goes {t : Turn σ} (h : w.Sound) (found : w.seat? i = some seat)
    (running : seat.phase = .asleep) (goes : w.Goes i seat t m handed) :
    (w.advance i .asleep m handed).Sound := by
  obtain ⟨evolves, fit⟩ := goes.proceeds
  refine h.advance found goes.takes evolves.shared (evolves.index.trans goes.index)
    (evolves.address.trans goes.address)
    (fun _ => fit.mono fun l knows => knows.keeps goes.keeps)
    ?_
  intro _ going distinct peer id inv waits via
  have still : t.reactor.stopping = false := by
    cases stopping : t.reactor.stopping with
    | false => rfl
    | true => exact (evolves.stopping stopping).symm.trans going
  have distinct := distinct.keeps goes.keeps
  exact goes.backed found still distinct (h.backed distinct peer id inv seat (goes.waits waits)
    (via ▸ found) running (goes.stopping ▸ still)) via waits

end World

end PartitionEngine
