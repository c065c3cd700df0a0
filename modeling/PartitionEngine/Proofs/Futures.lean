import PartitionEngine.Proofs.Ledger

/-!
# Futures

A future that is not done is awaited: it belongs to one invocation in the table, and
what waits in the table has such a future (`Minded`).  Whatever is done to the table
keeps that, and leaves the results that are there alone (`Retains`).  Most of what is
done registers nothing either (`Settles`).

Unlike a ledger this needs no bound on the ids that are drawn.  Should the ids of a
peer come round, the invocation that gives way is failed.
-/

namespace PartitionEngine

namespace InvocationTable

/-- A future that is there and not done belongs to an invocation that waits.  What waits
has a future of its own, which is not done. -/
structure Minded (t : InvocationTable) : Prop where
  keyed : t.peers.Keyed
  pending : ∀ peer p, t.peers.get? peer = some p → p.pending.Keyed
  awaited : ∀ k, t.standing k = some none → ∃ peer id i, t.Waits peer id i ∧ i.future = k
  undone : ∀ peer id i, t.Waits peer id i → t.standing i.future = some none
  apart : ∀ peer id i peer' id' j, t.Waits peer id i → t.Waits peer' id' j →
    i.future = j.future → peer = peer' ∧ id = id'

/-- Futures stay, and so do results. -/
structure Retains (t t' : InvocationTable) : Prop where
  future : ∀ k, (t.standing k).isSome = true → (t'.standing k).isSome = true
  result : ∀ k r, t.standing k = some (some r) → t'.standing k = some (some r)
  minded : t.Minded → t'.Minded

/-- Nothing is registered. -/
structure Settles (t t' : InvocationTable) : Prop extends Retains t t' where
  waits : t.Shrinks t'

variable {t t' t'' : InvocationTable}

theorem Retains.refl (t : InvocationTable) : t.Retains t := ⟨fun _ h => h, fun _ _ h => h, id⟩

theorem Retains.trans (h : t.Retains t') (h' : t'.Retains t'') : t.Retains t'' where
  future k there := h'.future k (h.future k there)
  result k r there := h'.result k r (h.result k r there)
  minded m := h'.minded (h.minded m)

theorem Settles.refl (t : InvocationTable) : t.Settles t := ⟨.refl t, .refl t⟩

theorem Settles.trans (h : t.Settles t') (h' : t'.Settles t'') : t.Settles t'' :=
  ⟨h.toRetains.trans h'.toRetains, h.waits.trans h'.waits⟩

theorem minded_empty : Minded {} where
  keyed := Assoc.keyed_empty
  pending peer p found := by cases found
  awaited k there := by simp [standing, future?] at there
  undone _ _ _ waits := by
    obtain ⟨p, found, -⟩ := waits
    cases found
  apart _ _ _ _ _ _ waits := by
    obtain ⟨p, found, -⟩ := waits
    cases found

theorem standing_of_futures (same : t'.futures = t.futures) (k : FutureId) :
    t'.standing k = t.standing k := by
  simp only [standing, future?, same]

/-! ## Settling -/

/-- Delivering adds no future and replaces no result. -/
theorem standing_of_delivered {taken : List Invocation} {outcome : Outcome}
    (futures : t'.futures = (taken.foldl (fun t i => t.deliver i.future outcome) t).futures)
    (k : FutureId) :
    t'.standing k = t.standing k ∧ (∀ i ∈ taken, i.future = k → t.standing k ≠ some none)
      ∨ t.standing k = some none ∧ t'.standing k = some (some outcome)
        ∧ ∃ i ∈ taken, i.future = k := by
  rw [standing_of_futures futures k, standing_deliver_all]
  cases there : t.standing k with
  | none => exact .inl ⟨rfl, fun _ _ _ => nofun⟩
  | some r =>
    cases r with
    | some r =>
      refine .inl ⟨?_, fun _ _ _ => nofun⟩
      simp
    | none =>
      by_cases out : ∃ i ∈ taken, i.future = k
      · exact .inr ⟨rfl, by simp [out], out⟩
      · exact .inl ⟨by simp [out], fun i mem here => absurd ⟨i, mem, here⟩ out⟩

/-- Nothing comes if what a peer has was there before. -/
theorem shrinks_insert {peer : Address} {p : PeerInvocations} {q : Assoc UInt64 Invocation}
    (found : t.peers.get? peer = some p)
    (peers : t'.peers = t.peers.insert peer { p with pending := q })
    (rest : ∀ e ∈ q.entries, e ∈ p.pending.entries) : t.Shrinks t' := by
  intro k id i waits
  rcases waits_insert peers waits with ⟨rfl, mem⟩ | ⟨-, before⟩
  · exact (waits_iff found).mpr (rest _ mem)
  · exact before

/-- Invocations of a peer leave the table, and one outcome is delivered to all of them. -/
theorem Settles.takes (taken : List Invocation) {peer : Address} {p : PeerInvocations}
    {q : Assoc UInt64 Invocation} {outcome : Outcome} (found : t.peers.get? peer = some p)
    (peers : t'.peers = t.peers.insert peer { p with pending := q })
    (futures : t'.futures = (taken.foldl (fun t i => t.deliver i.future outcome) t).futures)
    (keyed : p.pending.Keyed → q.Keyed) (rest : ∀ e ∈ q.entries, e ∈ p.pending.entries)
    (out : p.pending.Keyed → ∀ e ∈ p.pending.entries, e ∈ q.entries ∨ e.2 ∈ taken)
    (gone : ∀ i ∈ taken, ∃ id, (id, i) ∈ p.pending.entries ∧ (id, i) ∉ q.entries) :
    t.Settles t' where
  future k there := by
    rcases standing_of_delivered futures k with ⟨same, -⟩ | ⟨-, done, -⟩
    · exact same ▸ there
    · rw [done]
      rfl
  result k r there := by
    rcases standing_of_delivered futures k with ⟨same, -⟩ | ⟨pending, -⟩
    · exact same.trans there
    · cases there.symm.trans pending
  minded m := by
    have held := m.pending peer p found
    have shrinks := shrinks_insert found peers rest
    refine ⟨peers ▸ m.keyed.insert _ _, ?_, ?_, ?_, fun k id i k' id' j waits waits' =>
      m.apart k id i k' id' j (shrinks k id i waits) (shrinks k' id' j waits')⟩
    · intro k p' found'
      rw [peers, Assoc.get?_insert] at found'
      split at found'
      · cases found'
        exact keyed held
      · exact m.pending k p' found'
    · intro k there
      rcases standing_of_delivered futures k with ⟨same, others⟩ | ⟨-, done, -⟩
      · obtain ⟨peer', id, i, waits, rfl⟩ := m.awaited k (same ▸ there)
        refine ⟨peer', id, i, (waits_insert_iff peers).mpr ?_, rfl⟩
        split
        · rename_i here
          subst here
          refine (out held (id, i) ((waits_iff found).mp waits)).resolve_right ?_
          exact fun mem => others i mem rfl (same ▸ there)
        · exact waits
      · cases there.symm.trans done
    · intro k id i waits
      have before := shrinks k id i waits
      rcases standing_of_delivered futures i.future with ⟨same, -⟩ | ⟨-, -, j, out, shared⟩
      · exact same.trans (m.undone k id i before)
      · -- what was taken has another future, as it does not wait any more
        obtain ⟨id', there, left⟩ := gone j out
        obtain ⟨rfl, rfl⟩ := m.apart peer id' j k id i ((waits_iff found).mpr there) before shared
        rw [held.value_unique there ((waits_iff found).mp before)] at left
        rw [waits_insert_iff peers, if_pos rfl] at waits
        exact absurd waits left
  waits := shrinks_insert found peers rest

theorem settles_complete (t : InvocationTable) (peer : Address) (id : UInt64) (outcome : Outcome) :
    t.Settles (t.complete peer id outcome).2 := by
  rcases t.complete_cases peer id outcome with ⟨unchanged, -⟩ | ⟨p, i, found, held, changed⟩
  · rw [unchanged]
    exact .refl t
  · rw [changed]
    refine .takes [i] found rfl rfl (fun keyed => keyed.erase id) ?_ ?_ ?_
    · intro e mem
      rw [Assoc.entries_erase] at mem
      exact (List.mem_filter.mp mem).1
    · intro keyed e mem
      by_cases same : e.1 = id
      · subst same
        refine .inr (List.mem_singleton.mpr ?_)
        exact keyed.value_unique mem (Assoc.mem_of_get? held)
      · refine .inl ?_
        rw [Assoc.entries_erase]
        exact List.mem_filter.mpr ⟨mem, decide_eq_true same⟩
    · intro j mem
      rw [List.mem_singleton.mp mem]
      exact ⟨id, Assoc.mem_of_get? held,
        Assoc.not_mem_of_get? (Assoc.get?_erase_self p.pending id) i⟩

theorem settles_failWhere (t : InvocationTable) (peer : Address) (e : Failure)
    (select : Invocation → Bool) : t.Settles (t.failWhere peer e select).2 := by
  unfold failWhere
  split
  · exact .refl t
  · rename_i p found
    refine .takes (p.pending.values.filter select) (q := p.pending.filter fun i => !select i) found
      (peers_deliver_all _ e _) (futures_deliver_all _ _ rfl) (fun keyed => keyed.filter _) ?_ ?_ ?_
    · exact fun entry mem => (List.mem_filter.mp mem).1
    · intro _ entry mem
      cases chosen : select entry.2 with
      | true =>
        exact .inr (List.mem_filter.mpr ⟨List.mem_map_of_mem (f := Prod.snd) mem, chosen⟩)
      | false => exact .inl (List.mem_filter.mpr ⟨mem, by simp [chosen]⟩)
    · intro i taken
      obtain ⟨waits, chosen⟩ := List.mem_filter.mp taken
      obtain ⟨⟨id, i⟩, mem, rfl⟩ := List.mem_map.mp waits
      exact ⟨id, mem, fun left => by simpa [chosen] using (List.mem_filter.mp left).2⟩

/-- A failure of many gets to a future that is not done, or leaves it as it is. -/
theorem standing_failWhere (t : InvocationTable) (peer : Address) (e : Failure)
    (select : Invocation → Bool) (k : FutureId) :
    (t.failWhere peer e select).2.standing k = t.standing k
      ∨ (t.failWhere peer e select).2.standing k = some (some (.error e)) := by
  unfold failWhere
  split
  · exact .inl rfl
  · rename_i p found
    exact (standing_of_delivered (futures_deliver_all (p.pending.values.filter select) (.error e)
      rfl) k).imp And.left fun changed => changed.2.1

theorem failEach_spec (peers : List Address) (t : InvocationTable) (e : Failure)
    (select : Invocation → Bool) :
    t.Settles (t.failEach peers e select)
      ∧ ∀ k, (t.failEach peers e select).standing k = t.standing k
        ∨ (t.failEach peers e select).standing k = some (some (.error e)) := by
  induction peers generalizing t with
  | nil => exact ⟨.refl t, fun _ => .inl rfl⟩
  | cons peer rest ih =>
    obtain ⟨settles, outcomes⟩ := ih (t.failWhere peer e select).2
    refine ⟨(settles_failWhere t peer e select).trans settles, fun k => ?_⟩
    rcases standing_failWhere t peer e select k with same | failed
    · rw [← same]
      exact outcomes k
    · exact .inr (settles.result k _ failed)

theorem failAnywhere_spec (t : InvocationTable) (e : Failure) (select : Invocation → Bool) :
    t.Settles (t.failAnywhere e select).2
      ∧ ∀ k, (t.failAnywhere e select).2.standing k = t.standing k
        ∨ (t.failAnywhere e select).2.standing k = some (some (.error e)) := by
  rw [snd_failAnywhere]
  exact failEach_spec _ t e select

/-- What was pending when everything is failed is failed, and nothing waits. -/
theorem failAll_spec (m : t.Minded) (e : Failure) :
    t.Settles (t.failAll e).2 ∧ (∀ peer id i, ¬ (t.failAll e).2.Waits peer id i)
      ∧ ∀ k, t.standing k = some none → (t.failAll e).2.standing k = some (some (.error e)) := by
  obtain ⟨settles, outcomes⟩ := t.failAnywhere_spec e fun _ => true
  have nothing (peer : Address) (id : UInt64) (i : Invocation) :
      ¬ (t.failAll e).2.Waits peer id i :=
    fun waits => by cases (waits_failAnywhere waits).2
  refine ⟨settles, nothing, fun k pending => ?_⟩
  refine (outcomes k).resolve_left fun same => ?_
  obtain ⟨peer, id, i, waits, -⟩ := (settles.minded m).awaited k (same.trans pending)
  exact nothing peer id i waits

/-! ## What waits under an id -/

/-- The invocation that is found under an id. -/
def find? (t : InvocationTable) (peer : Address) (id : UInt64) : Option Invocation :=
  (t.peers.get? peer).bind fun p => p.pending.get? id

/-- What is found under an id gets the outcome, unless it has one. -/
theorem standing_complete {peer : Address} {id : UInt64} {i : Invocation}
    (found : t.find? peer id = some i) (pending : t.standing i.future = some none)
    (outcome : Outcome) :
    (t.complete peer id outcome).2.standing i.future = some (some outcome) := by
  obtain ⟨p, here, waiting⟩ := Option.bind_eq_some_iff.mp found
  simp only [complete, here, waiting]
  refine (standing_deliver _ _ _ _).trans ((congrArg (Option.map _) pending).trans ?_)
  simp

/-- A failure of many gets to what is found under an id, if it is selected. -/
theorem standing_failWhere_of_find? {peer : Address} {id : UInt64} {i : Invocation} {e : Failure}
    {select : Invocation → Bool} (found : t.find? peer id = some i) (chosen : select i = true)
    (pending : t.standing i.future = some none) :
    (t.failWhere peer e select).2.standing i.future = some (some (.error e)) := by
  obtain ⟨p, here, waiting⟩ := Option.bind_eq_some_iff.mp found
  have taken : i ∈ p.pending.values.filter select :=
    List.mem_filter.mpr ⟨List.mem_map_of_mem (f := Prod.snd) (Assoc.mem_of_get? waiting), chosen⟩
  simp only [failWhere, here]
  refine (standing_deliver_all _ _ _ _).trans ((congrArg (Option.map _) pending).trans ?_)
  rw [Option.map_some, if_pos ⟨i, taken, rfl⟩]
  rfl

theorem find?_failWhere_of_ne {peer k : Address} {id : UInt64} (apart : k ≠ peer) (e : Failure)
    (select : Invocation → Bool) : (t.failWhere peer e select).2.find? k id = t.find? k id := by
  simp only [failWhere]
  split
  · rfl
  · simp only [find?, peers_deliver_all, Assoc.get?_insert, if_neg apart]

theorem standing_failAnywhere_of_find? {peer : Address} {id : UInt64} {i : Invocation}
    {e : Failure} {select : Invocation → Bool} (found : t.find? peer id = some i)
    (chosen : select i = true) (pending : t.standing i.future = some none) :
    (t.failAnywhere e select).2.standing i.future = some (some (.error e)) := by
  have reached (peers : List Address) (mem : peer ∈ peers) (s : InvocationTable)
      (found : s.find? peer id = some i) (pending : s.standing i.future = some none) :
      (s.failEach peers e select).standing i.future = some (some (.error e)) := by
    induction peers generalizing s with
    | nil => cases mem
    | cons first rest ih =>
      have settled (done : (s.failWhere first e select).2.standing i.future
          = some (some (.error e))) :
          ((s.failWhere first e select).2.failEach rest e select).standing i.future
            = some (some (.error e)) :=
        (failEach_spec rest _ e select).1.result _ _ done
      by_cases here : peer = first
      · subst here
        exact settled (standing_failWhere_of_find? found chosen pending)
      · rcases standing_failWhere s first e select i.future with same | failed
        · exact ih ((List.mem_cons.mp mem).resolve_left here) _
            ((find?_failWhere_of_ne here e select).trans found) (same.trans pending)
        · exact settled failed
  obtain ⟨p, here, -⟩ := Option.bind_eq_some_iff.mp found
  rw [snd_failAnywhere]
  exact reached _ (mem_keys_of_get? here) t found pending

/-! ## Registering -/

theorem settles_nextId (t : InvocationTable) (peer : Address) : t.Settles (t.nextId peer).2 where
  future _ there := there
  result _ _ there := there
  minded m := by
    refine ⟨m.keyed.insert _ _, ?_, ?_, ?_, ?_⟩
    · intro k p found
      simp only [nextId, Assoc.get?_insert] at found
      split at found
      · cases found
        cases before : t.peers.get? peer with
        | none => exact Assoc.keyed_empty
        | some p => exact m.pending peer p before
      · exact m.pending k p found
    · intro k there
      obtain ⟨peer', id, i, waits, here⟩ := m.awaited k there
      refine ⟨peer', id, i, (waits_insert_iff (t := t) rfl).mpr ?_, here⟩
      split
      · rename_i same
        subst same
        exact (waits_iff_getD t _ id i).mp waits
      · exact waits
    · exact fun k id i waits => m.undone k id i (shrinks_nextId t peer k id i waits)
    · exact fun k id i k' id' j waits waits' => m.apart k id i k' id' j
        (shrinks_nextId t peer k id i waits) (shrinks_nextId t peer k' id' j waits')
  waits := shrinks_nextId t peer

theorem standing_addFuture (t : InvocationTable) (f : InvocationFuture) (k : FutureId) :
    (t.addFuture f).2.standing k
      = if k = t.futures.size then some f.completion.result else t.standing k := by
  simp only [standing, future?, addFuture, Array.getElem?_push]
  split
  · rfl
  · rfl

theorem standing_size (t : InvocationTable) : t.standing t.futures.size = none := by
  simp [standing, future?]

/-- The next future belongs to nothing that waits. -/
theorem Minded.ne_size (m : t.Minded) {peer : Address} {id : UInt64} {i : Invocation}
    (waits : t.Waits peer id i) : i.future ≠ t.futures.size := by
  intro next
  have undone := m.undone peer id i waits
  rw [next, standing_size] at undone
  cases undone

/-- A future that is made with its result. -/
theorem retains_addFuture (t : InvocationTable) {f : InvocationFuture} {r : Outcome}
    (done : f.completion.result = some r) : t.Retains (t.addFuture f).2 where
  future k there := by
    rw [standing_addFuture]
    split
    · rfl
    · exact there
  result k r there := by
    rw [standing_addFuture, if_neg]
    · exact there
    · rintro rfl
      cases (standing_size t).symm.trans there
  minded m := by
    refine ⟨m.keyed, m.pending, fun k there => ?_, fun peer id i waits => ?_, m.apart⟩
    · rw [standing_addFuture, done] at there
      split at there
      · cases there
      · exact m.awaited k there
    · rw [standing_addFuture, if_neg (m.ne_size waits)]
      exact m.undone peer id i waits

/-- The invocation that gives way to a new one is failed. -/
theorem standing_abandon (t : InvocationTable) (i : Option Invocation) (k : FutureId) :
    (t.abandon i).standing k = t.standing k ∧ (∀ j ∈ i, j.future = k → t.standing k ≠ some none)
      ∨ t.standing k = some none ∧ (∃ r, (t.abandon i).standing k = some (some r))
        ∧ ∃ j ∈ i, j.future = k := by
  cases i with
  | none => exact .inl ⟨rfl, fun _ mem => by cases mem⟩
  | some i =>
    have failed : (t.abandon (some i)).futures
        = ([i].foldl (fun t i => t.deliver i.future (.error Completion.dropped)) t).futures := rfl
    rcases standing_of_delivered failed k with ⟨same, others⟩ | ⟨pending, done, j, mem, here⟩
    · refine .inl ⟨same, fun j mem => others j (List.mem_singleton.mpr ?_)⟩
      exact (Option.mem_some_iff.mp mem).symm
    · exact .inr ⟨pending, ⟨_, done⟩, i, rfl, List.mem_singleton.mp mem ▸ here⟩

/-- An invocation is entered under an id of a peer, with a new future.  One that waits there
gives way. -/
structure Enters (peer : Address) (id : UInt64) (i : Invocation) (t t' : InvocationTable) :
    Prop where
  peers : t'.peers = t.peers.insert peer { (t.peers.get? peer).getD {} with
    pending := ((t.peers.get? peer).getD {}).pending.insert id i }
  futures : ∃ f, f.completion.result = none
    ∧ t'.futures = ((t.addFuture f).2.abandon (t.find? peer id)).futures
  new : i.future = t.futures.size

namespace Enters

variable {peer k : Address} {id id' : UInt64} {i j : Invocation}

theorem waits_iff (h : Enters peer id i t t') :
    t'.Waits k id' j ↔ if k = peer ∧ id' = id then j = i else t.Waits k id' j := by
  rw [waits_insert_iff h.peers]
  by_cases same : k = peer
  · subst same
    rw [if_pos rfl, Assoc.insert, List.mem_cons, Assoc.entries_erase, List.mem_filter,
      ← waits_iff_getD]
    by_cases own : id' = id
    · simp [own]
    · simp [own]
  · rw [if_neg same, if_neg fun both => same both.1]

/-- The new future is not done.  One that is not done before is failed if its invocation gives
way. -/
theorem standing (h : Enters peer id i t t') (k : FutureId) :
    (t'.standing k = if k = t.futures.size then some none else t.standing k)
        ∧ (∀ j ∈ t.find? peer id, j.future = k → t'.standing k ≠ some none)
      ∨ (∃ r, t'.standing k = some (some r))
        ∧ (if k = t.futures.size then some none else t.standing k) = some none
        ∧ ∃ j ∈ t.find? peer id, j.future = k := by
  obtain ⟨f, waiting, futures⟩ := h.futures
  have added : (t.addFuture f).2.standing k
      = if k = t.futures.size then some none else t.standing k := by
    rw [standing_addFuture, waiting]
  rw [standing_of_futures futures, ← added]
  rcases standing_abandon (t.addFuture f).2 (t.find? peer id) k with
    ⟨same, others⟩ | ⟨pending, done, gone⟩
  · exact .inl ⟨same, same ▸ others⟩
  · exact .inr ⟨done, pending, gone⟩

/-- What gives way has waited. -/
theorem waits_of_find? (found : j ∈ t.find? peer id) : t.Waits peer id j := by
  obtain ⟨p, here, waiting⟩ := Option.bind_eq_some_iff.mp found
  exact ⟨p, here, Assoc.mem_of_get? waiting⟩

theorem find?_of_waits (m : t.Minded) (waits : t.Waits peer id j) : t.find? peer id = some j := by
  obtain ⟨p, found, mem⟩ := waits
  rw [find?, found, Option.bind_some]
  exact (m.pending peer p found).get?_eq_some_iff.mpr mem

theorem awaited (h : Enters peer id i t t') (m : t.Minded) (k : FutureId)
    (there : t'.standing k = some none) : ∃ peer id i, t'.Waits peer id i ∧ i.future = k := by
  rcases h.standing k with ⟨same, others⟩ | ⟨⟨r, done⟩, -⟩
  · rw [same] at there
    split at there
    · rename_i newest
      refine ⟨peer, id, i, h.waits_iff.mpr ?_, h.new.trans newest.symm⟩
      rw [if_pos ⟨rfl, rfl⟩]
    · rename_i older
      obtain ⟨peer', id', j, waits, rfl⟩ := m.awaited k there
      refine ⟨peer', id', j, h.waits_iff.mpr ?_, rfl⟩
      split
      · rename_i own
        obtain ⟨rfl, rfl⟩ := own
        refine absurd ?_ (others j (find?_of_waits m waits) rfl)
        rw [same, if_neg older]
        exact there
      · exact waits
  · cases there.symm.trans done

theorem undone (h : Enters peer id i t t') (m : t.Minded) (waits : t'.Waits k id' j) :
    t'.standing j.future = some none := by
  have waits := h.waits_iff.mp waits
  rcases h.standing j.future with ⟨same, -⟩ | ⟨-, -, gone, gives, shared⟩
  · rw [same]
    split at waits
    · rw [waits, if_pos h.new]
    · rw [if_neg (m.ne_size waits)]
      exact m.undone k id' j waits
  · have displaced := waits_of_find? gives
    split at waits
    · rw [waits, h.new] at shared
      exact absurd shared (m.ne_size displaced)
    · rename_i other
      obtain ⟨rfl, rfl⟩ := m.apart peer id gone k id' j displaced waits shared
      exact absurd ⟨rfl, rfl⟩ other

theorem apart (h : Enters peer id i t t') (m : t.Minded) {k' : Address} {id'' : UInt64}
    {j' : Invocation} (waits : t'.Waits k id' j) (waits' : t'.Waits k' id'' j')
    (shared : j.future = j'.future) : k = k' ∧ id' = id'' := by
  have waits := h.waits_iff.mp waits
  have waits' := h.waits_iff.mp waits'
  split at waits
  · rename_i own
    split at waits'
    · rename_i own'
      exact ⟨own.1.trans own'.1.symm, own.2.trans own'.2.symm⟩
    · rw [waits, h.new] at shared
      exact absurd shared.symm (m.ne_size waits')
  · split at waits'
    · rw [waits', h.new] at shared
      exact absurd shared (m.ne_size waits)
    · exact m.apart k id' j k' id'' j' waits waits' shared

theorem minded (h : Enters peer id i t t') (m : t.Minded) : t'.Minded where
  keyed := h.peers ▸ m.keyed.insert _ _
  pending k p found := by
    rw [h.peers, Assoc.get?_insert] at found
    split at found
    · cases found
      refine Assoc.Keyed.insert ?_ id i
      cases before : t.peers.get? peer with
      | none => exact Assoc.keyed_empty
      | some p => exact m.pending peer p before
    · exact m.pending k p found
  awaited := h.awaited m
  undone _ _ _ := h.undone m
  apart _ _ _ _ _ _ := h.apart m

theorem retains (h : Enters peer id i t t') : t.Retains t' where
  future k there := by
    rcases h.standing k with ⟨same, -⟩ | ⟨⟨r, done⟩, -⟩
    · rw [same]
      split
      · rfl
      · exact there
    · rw [done]
      rfl
  result k r there := by
    have older : k ≠ t.futures.size := by
      rintro rfl
      cases (standing_size t).symm.trans there
    rcases h.standing k with ⟨same, -⟩ | ⟨-, none, -⟩
    · rw [same, if_neg older]
      exact there
    · rw [if_neg older] at none
      cases there.symm.trans none
  minded := h.minded

end Enters

theorem find?_eq (t : InvocationTable) (peer : Address) (id : UInt64) :
    t.find? peer id = ((t.peers.get? peer).getD {}).pending.get? id := by
  rw [find?]
  cases t.peers.get? peer with
  | none => rfl
  | some p => rfl

theorem enters_register (t : InvocationTable) (peer : Address) (partition : Partition)
    (reactor : Nat) :
    ∃ i, Enters peer (t.nextId peer).1 i (t.nextId peer).2
      (t.register peer partition reactor).2.2 := by
  refine ⟨_, rfl, ⟨{ correlationId := (t.nextId peer).1 }, rfl, ?_⟩, rfl⟩
  rw [find?_eq]
  rfl

theorem retains_register (t : InvocationTable) (peer : Address) (partition : Partition)
    (reactor : Nat) : t.Retains (t.register peer partition reactor).2.2 := by
  obtain ⟨i, enters⟩ := t.enters_register peer partition reactor
  exact (settles_nextId t peer).toRetains.trans enters.retains

theorem isSome_standing_register (t : InvocationTable) (peer : Address) (partition : Partition)
    (reactor : Nat) :
    ((t.register peer partition reactor).2.2.standing
      (t.register peer partition reactor).2.1).isSome = true := by
  have inside (t : InvocationTable) (k : FutureId) :
      (t.standing k).isSome = true ↔ k < t.futures.size := by
    simp [standing, future?]
  have size (t : InvocationTable) (i : Option Invocation) :
      (t.abandon i).futures.size = t.futures.size := by
    cases i <;> simp [abandon, deliver]
  rw [inside]
  simp [register, size, addFuture]

end InvocationTable

end PartitionEngine
