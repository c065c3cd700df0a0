import PartitionEngine.Proofs.Requests

/-!
# One response for a request

Over a history, books are kept of the requests that came in and of where each of them
is (`Books.of`).  They follow what the reactors did: a request enters when it is taken
off a channel, and moves when the task it is in is run or refused.

The books are in order throughout (`History.accounted`): the tasks in the queues that
pass something on are those of the books, in order, each request is in one place at
most, and that place is right for it.  One that has a response is in exactly one place
(`World.one_response`).
-/

namespace PartitionEngine

/-- The requests that came in, and where they are. -/
structure Books where
  /-- The requests, and the channels they came in on. -/
  received : List (Frame × ChannelKey) := []
  /-- The numbers of requests, and where these are.  What is in one queue has its order. -/
  slips : List (Nat × Place) := []

namespace Books

/-- The task that a slip is about, if it is in the queue of reactor `i`. -/
def task? (i : Nat) (slip : Nat × Place) : Option Task :=
  match slip.2 with
  | .queued j task => if j = i then some task else none
  | .answered .. | .lost => none

/-- The tasks about requests that are in the queue of a reactor. -/
def waiting (b : Books) (i : Nat) : List Task := b.slips.filterMap (task? i)

/-- The places where a request is. -/
def places (b : Books) (id : Nat) : List Place :=
  (b.slips.filter fun slip => slip.1 = id).map Prod.snd

/-- A slip for a request that is somewhere. -/
def slip (id : Nat) (place : Option Place) : List (Nat × Place) :=
  place.toList.map fun place => (id, place)

/-- A request comes in. -/
def enter (b : Books) (request : Frame × ChannelKey) (place : Option Place) : Books where
  received := b.received ++ [request]
  slips := b.slips ++ slip b.received.length place

/-- The first request in the queue of a reactor goes somewhere else. -/
def move (b : Books) (i : Nat) (place : Option Place) : Books :=
  { b with slips :=
      match b.slips.find? fun slip => (task? i slip).isSome with
      | none => b.slips
      | some (id, _) => (b.slips.eraseP fun slip => (task? i slip).isSome) ++ slip id place }

/-- The books after a reactor did something. -/
def after {σ : Type} (b : Books) : Deed σ → Books
  | .handled i t c => (t.followCompletion c).1.foldl
      (fun b r => b.enter (r.1, { reactor := i, key := c.token.key }) r.2) b
  | .ran i t task => if task.isRelay then b.move i (t.followTask task).1 else b
  | .ended i t => t.followFinish.foldl (fun b place => b.move i place) b

/-- The books of a history. -/
def of {σ : Type} : List (Deed σ) → Books
  | [] => {}
  | d :: ds => (of ds).after d

/-- The books are in order.  The tasks in the queues are `line`, every request is where it
is right for it, and it is there once. -/
structure Sound {σ : Type} (b : Books) (s : Shared σ) (line : Nat → List Task) : Prop where
  waiting : ∀ i, b.waiting i = line i
  right : ∀ id, ∀ place ∈ b.places id,
    ∃ f origin, b.received[id]? = some (f, origin) ∧ place.Right s f origin
  once : ∀ id, (b.places id).length ≤ 1
  answered : ∀ id f origin, b.received[id]? = some (f, origin) →
    isFireAndForget f.opcode = false → b.places id ≠ []

variable {σ : Type} {s s' : Shared σ} {b : Books} {line line' : Nat → List Task} {i : Nat}
  {task : Task} {rest : List Task} {place : Option Place} {f : Frame} {origin : ChannelKey}

/-! ## What comes in -/

theorem filterMap_slip (id : Nat) (place : Option Place) (i : Nat) :
    (slip id place).filterMap (task? i) = Shared.postsTo (postsOf place) i := by
  cases place with
  | none => rfl
  | some place =>
    cases place with
    | queued j task =>
      by_cases same : j = i <;> simp [slip, task?, postsOf, Place.posts, Shared.postsTo, same]
    | answered | lost => rfl

theorem places_slip (id id' : Nat) (place : Option Place) :
    ((slip id place).filter fun slip => slip.1 = id').map Prod.snd
      = if id = id' then place.toList else [] := by
  cases place with
  | none => simp [slip]
  | some place => by_cases same : id = id' <;> simp [slip, same]

theorem waiting_enter (b : Books) (request : Frame × ChannelKey) (place : Option Place) (i : Nat) :
    (b.enter request place).waiting i = b.waiting i ++ Shared.postsTo (postsOf place) i := by
  rw [waiting, enter, List.filterMap_append, filterMap_slip]
  rfl

theorem places_enter (b : Books) (request : Frame × ChannelKey) (place : Option Place) (id : Nat) :
    (b.enter request place).places id
      = b.places id ++ if b.received.length = id then place.toList else [] := by
  rw [places, enter, List.filter_append, List.map_append, places_slip]
  rfl

/-! ## What moves -/

/-- What moves is the first slip of the reactor. -/
theorem slips_move (front : b.waiting i = task :: rest) (place : Option Place) :
    ∃ before id after, b.slips = before ++ (id, .queued i task) :: after
      ∧ (∀ slip ∈ before, task? i slip = none) ∧ after.filterMap (task? i) = rest
      ∧ (b.move i place).slips = before ++ after ++ slip id place := by
  obtain ⟨before, ⟨id, here⟩, after, split, others, found, left⟩ :=
    List.filterMap_eq_cons_iff.mp front
  have here : here = .queued i task := by
    cases here with
    | queued j task' =>
      simp only [task?] at found
      split at found
      · rename_i same
        cases same
        cases found
        rfl
      · cases found
    | answered | lost => cases found
  subst here
  refine ⟨before, id, after, split, others, left, ?_⟩
  have none : before.find? (fun slip => (task? i slip).isSome) = none := by
    rw [List.find?_eq_none]
    intro slip mem
    simp [others slip mem]
  have found : b.slips.find? (fun slip => (task? i slip).isSome) = some (id, .queued i task) := by
    rw [split, List.find?_append, none]
    simp [task?]
  have erased : b.slips.eraseP (fun slip => (task? i slip).isSome) = before ++ after := by
    rw [split, List.eraseP_append_right _ fun slip mem => by simp [others slip mem]]
    simp [task?]
  simp only [move, found, erased]

theorem waiting_move (front : b.waiting i = task :: rest) (place : Option Place) (j : Nat) :
    (b.move i place).waiting j
      = (if j = i then rest else b.waiting j) ++ Shared.postsTo (postsOf place) j := by
  obtain ⟨before, id, after, split, others, left, moved⟩ := slips_move front place
  rw [waiting, moved, List.filterMap_append, filterMap_slip, List.filterMap_append]
  congr 1
  by_cases same : j = i
  · subst same
    rw [if_pos rfl, List.filterMap_eq_nil_iff.mpr others, left]
    rfl
  · have other : task? j (id, .queued i task) = none := if_neg (Ne.symm same)
    rw [if_neg same, waiting, split, List.filterMap_append, List.filterMap_cons_none other]

/-- A request is where it moved to, if it was in one place.  No other is anywhere else. -/
theorem places_move (front : b.waiting i = task :: rest) (place : Option Place) :
    ∃ id, .queued i task ∈ b.places id
      ∧ ((b.places id).length ≤ 1 → (b.move i place).places id = place.toList)
      ∧ ∀ id', id' ≠ id → (b.move i place).places id' = b.places id' := by
  obtain ⟨before, id, after, split, -, -, moved⟩ := slips_move front place
  have new (id' : Nat) : (b.move i place).places id'
      = (before.filter fun slip => slip.1 = id').map Prod.snd
      ++ (after.filter fun slip => slip.1 = id').map Prod.snd
      ++ if id = id' then place.toList else [] := by
    rw [places, moved, List.filter_append, List.map_append, places_slip, List.filter_append,
      List.map_append]
  refine ⟨id, ?_, ?_, ?_⟩
  · simp [places, split]
  · intro once
    have others : ((before.filter fun slip => slip.1 = id).map Prod.snd
        ++ (after.filter fun slip => slip.1 = id).map Prod.snd).length = 0 := by
      rw [places, split, List.filter_append, List.filter_cons_of_pos (by simp)] at once
      simp only [List.map_append, List.map_cons, List.length_append, List.length_cons] at once ⊢
      omega
    rw [new, if_pos rfl, List.length_eq_zero_iff.mp others, List.nil_append]
  · intro id' other
    rw [new, if_neg (Ne.symm other), places, split, List.filter_append, List.map_append,
      List.filter_cons_of_neg (by simpa using Ne.symm other), List.append_nil]

/-! ## Books in order -/

namespace Sound

/-- The queues are named differently. -/
theorem of_line (h : b.Sound s line) (same : ∀ i, line i = line' i) : b.Sound s line' :=
  { h with waiting := fun i => (h.waiting i).trans (same i) }

theorem empty {s : Shared σ} (nothing : ∀ i, s.relays i = []) : Sound {} s s.relays where
  waiting i := (nothing i).symm
  right id place mem := by cases mem
  once id := Nat.zero_le 1
  answered id f origin found := by cases found

theorem ages (h : b.Sound s line) (ages : s.Ages s') : b.Sound s' line :=
  { h with
    right := by
      intro id place mem
      obtain ⟨f, origin, found, right⟩ := h.right id place mem
      exact ⟨f, origin, found, right.ages ages⟩ }

/-- What is passed on is in the queues. -/
theorem passes {posts : List (Nat × Task)}
    (h : b.Sound s fun i => s.relays i ++ Shared.postsTo posts i) (passes : s.Passes posts s') :
    b.Sound s' s'.relays :=
  (h.ages passes.ages).of_line fun i => (passes.relays i).symm

/-- Nothing is passed on. -/
theorem passes_nil (h : b.Sound s s.relays) (passes : s.Passes [] s') : b.Sound s' s'.relays :=
  (h.of_line fun i => (List.append_nil (s.relays i)).symm).passes passes

theorem places_of_le (h : b.Sound s line) {id : Nat} (new : b.received.length ≤ id) :
    b.places id = [] := by
  rw [List.eq_nil_iff_forall_not_mem]
  intro place mem
  obtain ⟨f, origin, found, -⟩ := h.right id place mem
  exact absurd (List.getElem?_eq_some_iff.mp found).1 (Nat.not_lt.mpr new)

/-- One request is put where it is right for it, and nothing else changes. -/
theorem put {b' : Books} (h : b.Sound s line) (id : Nat) (placed : Placed s f origin place)
    (found : b'.received[id]? = some (f, origin)) (new : b'.places id = place.toList)
    (others : ∀ id', id' ≠ id → b'.received[id']? = b.received[id']?)
    (old : ∀ id', id' ≠ id → b'.places id' = b.places id') (waiting : ∀ i, b'.waiting i = line' i) :
    b'.Sound s line' := by
  refine ⟨waiting, ?_, ?_, ?_⟩
  · intro id' p mem
    by_cases same : id' = id
    · subst same
      rw [new] at mem
      cases Option.mem_toList.mp mem
      exact ⟨f, origin, found, placed⟩
    · rw [old id' same] at mem
      rw [others id' same]
      exact h.right id' p mem
  · intro id'
    by_cases same : id' = id
    · subst same
      rw [new]
      cases place <;> simp
    · rw [old id' same]
      exact h.once id'
  · intro id' f' origin' found' answered
    by_cases same : id' = id
    · subst same
      cases found.symm.trans found'
      exact placed.somewhere answered new
    · rw [old id' same]
      exact h.answered id' f' origin' (others id' same ▸ found') answered

/-- A request that comes in has a number that no other has. -/
theorem enter (h : b.Sound s line) (placed : Placed s f origin place) :
    (b.enter (f, origin) place).Sound s
      fun i => line i ++ Shared.postsTo (postsOf place) i := by
  refine h.put b.received.length placed ?_ ?_ ?_ ?_ ?_
  · simp [Books.enter]
  · rw [places_enter, h.places_of_le (Nat.le_refl _), if_pos rfl, List.nil_append]
  · intro id other
    rw [Books.enter, List.getElem?_append]
    split
    · rfl
    · rw [List.getElem?_eq_none (by simp; omega), List.getElem?_eq_none (by omega)]
  · intro id other
    rw [places_enter, if_neg (Ne.symm other), List.append_nil]
  · intro i
    rw [waiting_enter, h.waiting]

/-- The requests of a batch come in. -/
theorem enterAll {requests : List (Frame × Option Place)} (h : b.Sound s line)
    (placed : ∀ r ∈ requests, Placed s r.1 origin r.2) :
    (requests.foldl (fun b r => b.enter (r.1, origin) r.2) b).Sound s
      fun i => line i ++ Shared.postsTo (Turn.postsOfAll requests) i := by
  induction requests generalizing b line with
  | nil => exact h.of_line fun i => (List.append_nil _).symm
  | cons r rest ih =>
    refine (ih (h.enter (placed r List.mem_cons_self))
      fun r mem => placed r (List.mem_cons_of_mem _ mem)).of_line fun i => ?_
    rw [List.append_assoc, ← Shared.postsTo_append]
    rfl

/-- The first request in the queue of a reactor goes somewhere else, where it is right. -/
theorem move (h : b.Sound s line) (front : line i = task :: rest)
    (placed : ∀ f origin, (Place.queued i task).Right s f origin → Placed s f origin place) :
    (b.move i place).Sound s
      fun j => (if j = i then rest else line j) ++ Shared.postsTo (postsOf place) j := by
  have front := (h.waiting i).trans front
  obtain ⟨id, there, alone, old⟩ := places_move front place
  obtain ⟨f, origin, found, right⟩ := h.right id _ there
  refine h.put id (placed f origin right) found (alone (h.once id)) (fun _ _ => rfl) old fun j => ?_
  rw [waiting_move front, h.waiting]

/-- What is left in the queue of a reactor that ended is answered. -/
theorem moveAll {left : List Task} (thread : ThreadId) (dead : s.isAlive i = false)
    (h : b.Sound s fun j => (if j = i then left.filter Task.isRelay else []) ++ s.relays j) :
    ((s.followRefusals thread i left).1.foldl (fun b place => b.move i place) b).Sound
      (s.followRefusals thread i left).2 (s.followRefusals thread i left).2.relays := by
  -- The queue is worked off from its front, and what a refusal hands over comes behind
  -- what is left.
  induction left generalizing s b with
  | nil => exact h.of_line fun j => by simp [Shared.followRefusals]
  | cons task rest ih =>
    have passes := s.passes_followRefusal thread i task
    simp only [Shared.followRefusals]
    cases relay : task.isRelay with
    | false =>
      rw [if_neg (by simp)]
      rw [Shared.followRefusal_of_not_relay relay]
      refine ih dead (h.of_line fun j => ?_)
      rw [List.filter_cons_of_neg (by simp [relay])]
    | true =>
      rw [if_pos rfl]
      rw [List.filter_cons_of_pos relay] at h
      refine ih ((passes.alive i).trans dead) (((h.move (i := i) (by rw [if_pos rfl]; rfl)
        fun f origin => Shared.placed_followRefusal thread dead).ages passes.ages).of_line
          fun j => ?_)
      rw [passes.relays]
      by_cases same : j = i
      · subst same
        simp
      · simp [same]

end Sound

end Books

namespace World

variable {σ : Type} {w w' w₀ : World σ} {d : Option (Deed σ)} {ds : List (Deed σ)} {i : Nat}
  {seat : Seat σ} {m : Moment σ} {handed : Option Handover}

/-- The reactors at work have every operation, and the books are in order. -/
structure Accounted (w : World σ) (ds : List (Deed σ)) : Prop where
  complete : ∀ i seat, w.seat? i = some seat → seat.phase = .asleep →
    seat.reactor.dispatcher.pool.registry.Complete
  books : (Books.of ds).Sound w.engine.shared w.engine.shared.relays

theorem Started.accounted (started : Started w) : w.Accounted [] where
  complete i seat found _ := started.complete i seat found
  books := .empty fun i => by rw [Shared.relays, started.queued]; rfl

/-- A reactor comes to a moment, with its operations if it is still at work. -/
theorem Accounted.advance {phase : Phase} {ds' : List (Deed σ)} (h : w.Accounted ds)
    (found : w.seat? i = some seat) (running : seat.phase = .asleep)
    (registry : phase = .asleep → m.turn.reactor.dispatcher.pool.registry
      = seat.reactor.dispatcher.pool.registry)
    (books : (Books.of ds').Sound m.turn.shared m.turn.shared.relays) :
    (w.advance i phase m handed).Accounted ds' where
  complete j seat' found' running' := by
    obtain ⟨rfl, rfl⟩ | ⟨-, found'⟩ := seat?_advance_cases found found'
    · exact registry running' ▸ h.complete j seat found running
    · exact h.complete j seat' found' running'
  books := books

/-- The requests that come in with a completion enter the books. -/
theorem Accounted.handled (h : w.Accounted ds) (found : w.seat? i = some seat)
    (running : seat.phase = .asleep) (index : (w.turn seat).reactor.index = i)
    (c : IoCompletion Token) (rest : List (IoCompletion Token)) :
    (w.advance i .asleep ⟨(w.turn seat).onCompletion c, rest⟩ none).Accounted
      (.handled i (w.turn seat) c :: ds) := by
  obtain ⟨relays, placed⟩ :=
    Turn.placed_followCompletion (t := w.turn seat) c (h.complete i seat found running)
  rw [index] at placed
  exact h.advance found running (fun _ => relays.registry)
    ((h.books.enterAll placed).passes relays.passes)

/-- The request that a task is about moves. -/
theorem Accounted.ran {t : Turn σ} {task : Task} (h : w.Accounted ds)
    (found : w.seat? i = some seat) (running : seat.phase = .asleep)
    (index : seat.reactor.index = i) (going : seat.reactor.stopping = false)
    (took : (w.turn seat).Took i task t) :
    (w.advance i .asleep ⟨t.onTask task, []⟩ handed).Accounted (.ran i t task :: ds) := by
  have reactor : t.reactor = seat.reactor := took.reactor
  have complete : t.reactor.dispatcher.pool.registry.Complete :=
    reactor ▸ h.complete i seat found running
  have relays := Turn.relays_onTask complete task
  have books := h.books.ages took.ages
  refine h.advance found running (fun _ => relays.registry.trans (by rw [reactor])) ?_
  rw [Books.of, Books.after]
  split
  · rename_i relay
    obtain ⟨own, others⟩ := took.relays_of_relay relay
    have moved := books.move own fun f origin =>
      Turn.placed_followTask complete (reactor ▸ index) (reactor ▸ going)
    refine (moved.of_line fun j => ?_).passes relays.passes
    by_cases same : j = i
    · rw [if_pos same, same]
    · rw [if_neg same, others j same]
      rfl
  · rename_i plain
    have plain : task.isRelay = false := by simpa using plain
    have passes := relays.passes
    rw [Turn.followTask_of_not_relay plain] at passes
    exact (books.of_line fun j => (took.relays_of_not_relay plain j).symm).passes_nil passes

/-- What was in the queue of a reactor that ends is answered. -/
theorem Accounted.ended {rest : List (IoCompletion Token)} (h : w.Accounted ds)
    (found : w.seat? i = some seat) (running : seat.phase = .asleep)
    (index : (w.turn seat).reactor.index = i) :
    (w.advance i .ended ⟨(w.turn seat).finish, rest⟩ none).Accounted
      (.ended i (w.turn seat) :: ds) := by
  obtain ⟨reactors, config⟩ := (w.turn seat).reactors_finish
  rw [index] at reactors config
  have buried : (Books.of ds).Sound (w.engine.shared.bury i) fun j =>
      (if j = i then (w.engine.shared.queued i).filter Task.isRelay else [])
        ++ (w.engine.shared.bury i).relays j := by
    refine (h.books.ages (w.engine.shared.ages_bury i)).of_line fun j => ?_
    rw [Shared.relays, Shared.relays, Shared.queued_bury]
    by_cases same : j = i
    · simp [same]
    · simp [same]
  have dead : (w.engine.shared.bury i).isAlive i = false := by
    rw [Shared.isAlive_bury, if_pos rfl]
  have answered := buried.moveAll seat.reactor.thread dead
  refine h.advance found running (fun asleep => by cases asleep) ?_
  rw [Books.of, Books.after, Turn.followFinish, index]
  exact answered.passes_nil (.of_reactors config reactors)

/-- What a step does about requests is in the books. -/
theorem Does.accounted (does : Does w d w') (sound : w.Sound) (going : w.Going)
    (h : w.Accounted ds) : w'.Accounted (d.toList ++ ds) := by
  obtain ⟨rfl, seats, asks⟩ | ⟨i, seat, found, running, ⟨rfl, m, rfl, rests⟩ | ⟨c, rest, rfl, rfl⟩
      | ⟨t, task, rfl, took, rfl⟩ | ⟨rfl, rfl⟩⟩ := does.inversion sound
  · exact ⟨fun i seat found => h.complete i seat (by rw [seat?, ← seats]; exact found),
      h.books.passes_nil asks.toPasses⟩
  · exact h.advance found running (fun _ => by rw [rests.dispatcher]; rfl)
      (h.books.passes_nil rests.asks.toPasses)
  · exact h.handled found running (sound.seats i seat found).1 c rest
  · exact h.ran found running (sound.seats i seat found).1 (going i seat found) took
  · exact h.ended found running (sound.seats i seat found).1

theorem History.accounted (history : History w₀ w ds) (started : Started w₀) (going : w.Going) :
    w.Accounted ds := by
  induction history with
  | start => exact started.accounted
  | step before room does ih =>
    have sound := (before.reachable started.toFresh).sound
    have going := does.step.going room sound going
    exact does.accounted sound going (ih going)

/-- In a history that no reactor winds down in, the tasks in the queues that pass a request
or a response on are those of the books.  A request that has a response is in exactly one
place: it waits for the reactor it belongs to, its response waits for the reactor it came
in at or was handed to the channel it came in on, or that reactor is dead.  One that has
none is nowhere, or waits to be run.  The books tell what the reactors did and nothing else. -/
theorem one_response (history : History w₀ w ds) (started : Started w₀) (going : w.Going) :
    (∀ d ∈ ds, d.Followed)
    ∧ (∀ i, w.engine.shared.relays i = (Books.of ds).waiting i)
    ∧ ∀ id f origin, (Books.of ds).received[id]? = some (f, origin) →
      (isFireAndForget f.opcode = false → ∃ place, (Books.of ds).places id = [place]
        ∧ place.Right w.engine.shared f origin)
      ∧ (isFireAndForget f.opcode = true → (Books.of ds).places id = []
        ∨ (Books.of ds).places id
          = [.queued (w.engine.shared.reactorOf f.partition) (.forward f origin)]) := by
  have books := (history.accounted started going).books
  refine ⟨fun d _ => d.followed, fun i => (books.waiting i).symm, fun id f origin found => ?_⟩
  have right : ∀ place ∈ (Books.of ds).places id, place.Right w.engine.shared f origin := by
    intro place mem
    obtain ⟨f', origin', found', right⟩ := books.right id place mem
    cases found.symm.trans found'
    exact right
  have once := books.once id
  constructor
  · intro answered
    have somewhere := books.answered id f origin found answered
    cases here : (Books.of ds).places id with
    | nil => exact absurd here somewhere
    | cons place rest =>
      rw [here] at once right
      cases rest with
      | nil => exact ⟨place, rfl, right place List.mem_cons_self⟩
      | cons => simp at once
  · intro forgotten
    cases here : (Books.of ds).places id with
    | nil => exact .inl rfl
    | cons place rest =>
      rw [here] at once right
      cases rest with
      | nil => exact .inr (by rw [(right place List.mem_cons_self).forward forgotten])
      | cons => simp at once

/-! ## An echo

An engine has two reactors.  A request for a partition of the second comes in at the
first, which forwards it.
-/

/-- An engine with two reactors, before anything came in. -/
def twin : World Builtin.Item where
  host := {}
  engine :=
    { shared :=
        { config := { reactorCount := 2 }, registry := .builtin,
          reactors := [.new 0 {} .blocking, .new 1 {} .blocking], links := { reactorCount := 2 },
          started := true, localAddress := some home, live := 2 }
      seats := [3, 4].mapIdx fun index listener =>
        { reactor :=
            { index, listener := some listener, localAddress := home,
              dispatcher := .new .builtin 64 }
          phase := .asleep } }

/-- An echo of one byte, for a partition of the second reactor. -/
def echo : Frame := .request 1 501 7 [10]

/-- The channel that the echo comes in on. -/
def caller : ChannelKey := { reactor := 0, key := ⟨0, 0⟩ }

/-- A connection comes in at the first reactor, and the echo on it. -/
def arrivals : CompletionQueue :=
  { ready :=
      [{ token := .plain .accept, result := 9, remote := some (.v4 0x7f000001 25000) },
        { token := .ofChannel .recv caller.key, result := echo.encode.length,
          received := echo.encode }] }


/-- What holds of two reactors in their engine. -/
theorem of_pair {σ : Type} {w : World σ} {first second : Seat σ} {p : Seat σ → Prop}
    (pair : w.engine.seats = [first, second]) (one : p first) (two : p second) (i : Nat)
    (seat : Seat σ) (found : w.seat? i = some seat) : p seat := by
  have mem : seat ∈ w.engine.seats := List.mem_of_getElem? found
  rw [pair] at mem
  rcases List.mem_cons.mp mem with rfl | mem
  · exact one
  · cases List.mem_singleton.mp mem
    exact two

theorem started_twin : Started twin where
  size := rfl
  invocations := rfl
  queued i := by
    cases i with
    | zero => rfl
    | succ i =>
      cases i with
      | zero => rfl
      | succ => rfl
  seats i seat found := by
    cases i with
    | zero =>
      cases found
      exact ⟨rfl, rfl, rfl, rfl⟩
    | succ i =>
      cases i with
      | zero =>
        cases found
        exact ⟨rfl, rfl, rfl, rfl⟩
      | succ => cases found
  links := rfl
  complete :=
    of_pair (w := twin) (p := fun seat => _) rfl Registry.complete_builtin Registry.complete_builtin

/-- The second reactor has run the echo, and its response is on its way to the first. -/
theorem one_response_of_echo : ∃ w ds, History twin w ds ∧ w.Going
    ∧ (Books.of ds).received = [(echo, caller)]
    ∧ ∃ bytes, w.engine.shared.Answers echo bytes
      ∧ (Books.of ds).places 0 = [.queued 0 (.reply caller bytes)]
      ∧ w.engine.shared.relays 0 = [.reply caller bytes] := by
  have driven := History.start.step (of_pair (w := twin) rfl (by decide) (by decide))
    (.drive twin 0 _ arrivals rfl rfl)
  have taken := driven.step (of_pair rfl (by decide) (by decide)) (.take _ 0 _ 2 rfl rfl rfl)
  have accepted := taken.step (of_pair rfl (by decide) (by decide)) (.handle _ 0 _ _ _ rfl rfl rfl)
  have forwarded := accepted.step (of_pair rfl (by decide) (by decide))
    (.handle _ 0 _ _ _ rfl rfl rfl)
  have ran := forwarded.step (of_pair rfl (by decide) (by decide)) (.run _ 1 _ _ _ rfl rfl rfl rfl)
  obtain ⟨-, relays, placed⟩ := one_response ran started_twin (of_pair rfl rfl rfl)
  obtain ⟨place, here, right⟩ := (placed 0 echo caller rfl).1 (by decide)
  refine ⟨_, _, ran, of_pair rfl rfl rfl, rfl, _, ?_, rfl, (relays 0).trans rfl⟩
  cases here
  rcases right with ⟨-, forward⟩ | ⟨-, -, bytes, answers, reply⟩
  · cases forward
  · cases reply
    exact answers

end World

end PartitionEngine
