import PartitionEngine.Proofs.Futures

/-!
# Settling invocations of one peer

An answer completes an invocation of the peer that gave it, and a connection that is lost
fails those that went through it.  Both settle invocations of one peer, each with a
result of its own (`InvocationTable.SettlesOf`), and leave those of other peers alone.
As no two invocations share a future, what still waits is still not done
(`SettlesOf.undone`).
-/

namespace PartitionEngine

namespace InvocationTable

variable {t t' t'' : InvocationTable} {peer : Address}

/-- Invocations of a peer are settled: those that there is a result for, and no other. -/
structure SettlesOf (peer : Address) (result : UInt64 → Invocation → Option Outcome)
    (t t' : InvocationTable) : Prop where
  minded : t'.Minded
  others : ∀ k, k ≠ peer → t'.peers.get? k = t.peers.get? k
  waits : ∀ id i, t'.Waits peer id i ↔ t.Waits peer id i ∧ result id i = none
  settled : ∀ id i r, t.Waits peer id i → result id i = some r →
    t'.standing i.future = some (some r)
  kept : ∀ k, (∀ id i, t.Waits peer id i → i.future = k → result id i = none) →
    t'.standing k = t.standing k

namespace SettlesOf

variable {result result' : UInt64 → Invocation → Option Outcome}

theorem refl (m : t.Minded) : SettlesOf peer (fun _ _ => none) t t where
  minded := m
  others _ _ := rfl
  waits _ _ := by simp
  settled _ _ _ _ := nofun
  kept _ _ := rfl

/-- The first result counts. -/
theorem trans (h : SettlesOf peer result t t') (h' : SettlesOf peer result' t' t'') :
    SettlesOf peer (fun id i => (result id i).or (result' id i)) t t'' where
  minded := h'.minded
  others k apart := (h'.others k apart).trans (h.others k apart)
  waits id i := by
    rw [h'.waits, h.waits, Option.or_eq_none_iff, and_assoc]
  settled id i r waits given := by
    cases first : result id i with
    | none =>
      rw [first, Option.none_or] at given
      exact h'.settled id i r ((h.waits id i).mpr ⟨waits, first⟩) given
    | some r' =>
      rw [first, Option.some_or] at given
      cases given
      have done := h.settled id i r waits first
      -- Nothing that waits has a future that is done, so later results do not reach this one.
      rw [h'.kept i.future, done]
      intro id' j waits' shared
      have undone := h.minded.undone peer id' j waits'
      rw [shared, done] at undone
      cases undone
  kept k none := by
    rw [h'.kept k, h.kept k]
    · exact fun id i waits here => (Option.or_eq_none_iff.mp (none id i waits here)).1
    · intro id i waits here
      exact (Option.or_eq_none_iff.mp (none id i ((h.waits id i).mp waits).1 here)).2

/-- Invocations leave the table, and one outcome is delivered to all of them. -/
theorem takes (m : t.Minded) (m' : t'.Minded) (taken : List Invocation) {p : PeerInvocations}
    {q : Assoc UInt64 Invocation} {outcome : Outcome} (found : t.peers.get? peer = some p)
    (peers : t'.peers = t.peers.insert peer { p with pending := q })
    (futures : t'.futures = (taken.foldl (fun t i => t.deliver i.future outcome) t).futures)
    (rest : ∀ id i, (id, i) ∈ q.entries ↔ (id, i) ∈ p.pending.entries ∧ result id i = none)
    (out : ∀ id i r, (id, i) ∈ p.pending.entries → result id i = some r →
      r = outcome ∧ i ∈ taken)
    (only : ∀ i ∈ taken, ∃ id, (id, i) ∈ p.pending.entries ∧ result id i ≠ none) :
    SettlesOf peer result t t' where
  minded := m'
  others k apart := by rw [peers, Assoc.get?_insert, if_neg apart]
  waits id i := by rw [waits_insert_iff peers, if_pos rfl, rest, waits_iff found]
  settled id i r waits given := by
    obtain ⟨rfl, mem⟩ := out id i r ((waits_iff found).mp waits) given
    rcases standing_of_delivered futures i.future with ⟨-, others⟩ | ⟨-, done, -⟩
    · exact absurd (m.undone peer id i waits) (others i mem rfl)
    · exact done
  kept k none := by
    rcases standing_of_delivered futures k with ⟨same, -⟩ | ⟨-, -, i, mem, here⟩
    · exact same
    · obtain ⟨id, waits, given⟩ := only i mem
      exact absurd (none id i ((waits_iff found).mpr waits) here) given

/-- What a peer has nothing of is as it was. -/
theorem of_absent (m : t.Minded) (none : ∀ id i, t.Waits peer id i → result id i = none) :
    SettlesOf peer result t t where
  minded := m
  others _ _ := rfl
  waits id i := ⟨fun waits => ⟨waits, none id i waits⟩, And.left⟩
  settled id i r waits given := by cases (none id i waits).symm.trans given
  kept _ _ := rfl

/-- What waits is not done, whether it is of the peer or of another. -/
theorem undone (h : SettlesOf peer result t t') {k : Address} {id : UInt64} {i : Invocation}
    (waits : t.Waits k id i) (apart : k = peer → result id i = none) :
    t'.Waits k id i ∧ t'.standing i.future = some none := by
  have stays : t'.Waits k id i := by
    by_cases same : k = peer
    · subst same
      exact (h.waits id i).mpr ⟨waits, apart rfl⟩
    · rw [Waits, h.others k same]
      exact waits
  exact ⟨stays, h.minded.undone k id i stays⟩

end SettlesOf

/-! ## Completing and failing -/

theorem settlesOf_complete (m : t.Minded) (peer : Address) (id : UInt64) (outcome : Outcome) :
    SettlesOf peer (fun id' _ => if id' = id then some outcome else none) t
      (t.complete peer id outcome).2 := by
  have m' := (settles_complete t peer id outcome).minded m
  rcases t.complete_cases peer id outcome with ⟨unchanged, absent⟩ | ⟨p, i, found, held, changed⟩
  · rw [unchanged]
    refine .of_absent m fun id' i waits => if_neg ?_
    rintro rfl
    exact absent i waits
  · rw [changed] at m' ⊢
    have keyed := m.pending peer p found
    refine .takes m m' [i] found rfl rfl (fun id' j => ?_) (fun id' j r mem given => ?_) ?_
    · rw [Assoc.entries_erase, List.mem_filter]
      simp
    · split at given
      · rename_i same
        subst same
        cases given
        exact ⟨rfl, List.mem_singleton.mpr (keyed.value_unique mem (Assoc.mem_of_get? held))⟩
      · cases given
    · intro j mem
      rw [List.mem_singleton.mp mem]
      exact ⟨id, Assoc.mem_of_get? held, by simp⟩

theorem settlesOf_failWhere (m : t.Minded) (peer : Address) (e : Failure)
    (select : Invocation → Bool) :
    SettlesOf peer (fun _ i => if select i then some (.error e) else none) t
      (t.failWhere peer e select).2 := by
  have m' := (settles_failWhere t peer e select).minded m
  revert m'
  unfold failWhere
  split
  · rename_i absent
    refine fun _ => .of_absent m ?_
    rintro id i ⟨p, found, -⟩
    cases absent.symm.trans found
  · rename_i p found
    refine fun m' => .takes m m' (p.pending.values.filter select) found (peers_deliver_all _ _ _)
      (futures_deliver_all _ _ rfl) (fun id i => ?_) (fun id i r mem given => ?_) ?_
    · show (id, i) ∈ p.pending.entries.filter _ ↔ _
      rw [List.mem_filter]
      simp
    · split at given
      · rename_i chosen
        cases given
        exact ⟨rfl, List.mem_filter.mpr ⟨List.mem_map_of_mem (f := Prod.snd) mem, chosen⟩⟩
      · cases given
    · intro i taken
      obtain ⟨waits, chosen⟩ := List.mem_filter.mp taken
      obtain ⟨⟨id, i⟩, mem, rfl⟩ := List.mem_map.mp waits
      exact ⟨id, mem, by simp [chosen]⟩

/-- The responses of a peer complete invocations, in order. -/
def answer (t : InvocationTable) (peer : Address) (fs : List Frame) : InvocationTable :=
  fs.foldl (fun t f => (t.complete peer f.correlationId f.outcome).2) t

/-- What the first of some responses with an id brings. -/
def answerTo (fs : List Frame) (id : UInt64) : Option Outcome :=
  (fs.find? fun f => f.correlationId = id).map Frame.outcome

theorem answer_append (t : InvocationTable) (peer : Address) (fs fs' : List Frame) :
    t.answer peer (fs ++ fs') = (t.answer peer fs).answer peer fs' := List.foldl_append

theorem settlesOf_answer (m : t.Minded) (peer : Address) (fs : List Frame) :
    SettlesOf peer (fun id _ => answerTo fs id) t (t.answer peer fs) := by
  induction fs generalizing t with
  | nil => exact .refl m
  | cons f rest ih =>
    have first := settlesOf_complete m peer f.correlationId f.outcome
    have later := first.trans (ih first.minded)
    have same : (fun id (_ : Invocation) => answerTo (f :: rest) id)
        = fun id _ => (if id = f.correlationId then some f.outcome else none).or
          (answerTo rest id) := by
      funext id _
      by_cases here : id = f.correlationId
      · simp [answerTo, here]
      · simp [answerTo, here, Ne.symm here]
    rw [same]
    exact later

end InvocationTable

end PartitionEngine
