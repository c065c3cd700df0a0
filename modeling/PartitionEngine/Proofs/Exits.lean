import Mathlib.Data.Nat.Digits.Defs
import PartitionEngine.Proofs.Dispatching
import PartitionEngine.Proofs.RemoteCalls
import PartitionEngine.Proofs.WindingDown

/-!
# The end of a reactor

A reactor that ends is dead with an empty queue.  Whoever waits for it is told: a request
that another reactor passed on to it is answered with an error record, if it is one that is
answered (`Shared.refusals`), and the invocations that go through it are failed.  Nobody
else hears of it (`Turn.ends_clean`).

What is left in the queue is answered task by task, so what a reactor is handed is
`filterMap` of the queue (`Shared.queued_followRefusals`).  The record is short, and reads as
one message whatever the threshold for fragments (`Shared.reads_refusal`).
-/

namespace PartitionEngine

/-! ## Messages that are short -/

/-- A threshold above the length of the payload makes no difference. -/
theorem Frame.encodeMessage_min (f : Frame) (threshold : Nat) :
    f.encodeMessage (min threshold f.payload.length) = f.encodeMessage threshold := by
  by_cases short : f.payload.length ≤ threshold
  · have whole : f.payload.length ≤ max threshold 1 := by omega
    simp only [encodeMessage, parts, Nat.min_eq_right short, whole, if_true,
      Nat.le_max_left f.payload.length 1]
  · rw [Nat.min_eq_left (by omega)]

/-- A message whose length has 32 bits reads as it was written, whatever the threshold. -/
theorem Channel.feedAll_of_short {c : Channel} {maxPayload maxMessage threshold : Nat}
    {f : Frame} {pieces : List Bytes} (idle : c.Idle maxMessage) (plain : f.Plain)
    (some_ : 0 < f.payload.length) (width : f.payload.length < 2 ^ 32)
    (frames : f.payload.length ≤ maxPayload) (room : f.payload.length ≤ maxMessage)
    (cut : pieces.flatten = f.encodeMessage threshold) :
    c.feedAll maxPayload pieces = { channel := c, messages := [.ok f], lost := false } := by
  have least : min threshold f.payload.length ≤ f.payload.length := Nat.min_le_right ..
  exact feedAll_encodeMessage idle.unread idle.assembler plain (by omega) (by omega) room
    (cut.trans (f.encodeMessage_min threshold).symm)

theorem Text.length_utf8_le (s : String) : (utf8 s).length ≤ 4 * s.length := by
  rw [utf8_eq, ← String.length_toList]
  induction s.toList with
  | nil => simp
  | cons c rest ih =>
    have one : (String.utf8EncodeChar c).length ≤ 4 := by
      rw [String.length_utf8EncodeChar]
      exact c.utf8Size_le_four
    rw [List.flatMap_cons, List.length_append, List.length_cons]
    omega

/-! ## What is left in a queue -/

namespace Shared

variable {σ : Type}

/-- The bytes that answer a request that was passed on to a reactor that has ended. -/
def refusalBytes (s : Shared σ) (index : Nat) (f : Frame) : Bytes :=
  (s.encodeResponse f.opcode f.correlationId f.partition (.error (unavailable index))).1

/-- What the reactor `j` is handed for a task that the reactor `index` has not run. -/
def refusal? (s : Shared σ) (index j : Nat) : Task → Option Task
  | .forward f replyTo =>
    if isFireAndForget f.opcode = false ∧ replyTo.reactor = j then
      some (.reply replyTo (s.refusalBytes index f))
    else none
  | _ => none

/-- What the reactor `j` is handed when the reactor `index` ends. -/
def refusals (s : Shared σ) (index j : Nat) : List Task :=
  if s.isAlive j then (s.queued index).filterMap (s.refusal? index j) else []

theorem refusal?_congr {s s' : Shared σ} (config : s'.config = s.config) (index j : Nat) :
    s'.refusal? index j = s.refusal? index j := by
  funext task
  simp only [refusal?, refusalBytes, encodeResponse, config]

/-- A task is handed to one reactor, if that is alive, and the others have what they had. -/
theorem queued_submit (s : Shared σ) (thread : ThreadId) (i : Nat) (task : Task) (j : Nat) :
    (s.submit thread i task).2.queued j
      = s.queued j ++ if i = j ∧ s.isAlive j then [task] else [] := by
  obtain ⟨r, -, -, taken⟩ | ⟨dead, e, refused⟩ := s.submit_cases thread i task
  · rw [taken, queued_submit_ok taken]
    by_cases here : i = j
    · subst here
      simp [alive_of_submit_ok taken]
    · simp [here]
  · have none : ¬ (i = j ∧ s.isAlive j) := by
      rintro ⟨rfl, alive⟩
      cases dead.symm.trans alive
    rw [refused, if_neg none, List.append_nil]

theorem queued_followRefusal (s : Shared σ) (thread : ThreadId) (index : Nat) (task : Task)
    (j : Nat) : (s.followRefusal thread index task).2.queued j
      = s.queued j ++ if s.isAlive j then (s.refusal? index j task).toList else [] := by
  cases task with
  | execute | connect | write | reply | stop => simp [followRefusal, refusal?]
  | forward f replyTo =>
    rw [snd_followRefusal_forward, refuseForward, refusal?]
    by_cases forgotten : isFireAndForget f.opcode
    · simp [forgotten]
    · rw [if_neg forgotten]
      refine (queued_submit ..).trans (congrArg (s.queued j ++ ·) ?_)
      by_cases here : replyTo.reactor = j
      · simp [here, forgotten, refusalBytes, encodeResponse]
      · simp [here]

/-- What is left in a queue is answered in order. -/
theorem queued_followRefusals (thread : ThreadId) (index : Nat) (left : List Task) (s : Shared σ)
    (j : Nat) : (s.followRefusals thread index left).2.queued j
      = s.queued j ++ if s.isAlive j then left.filterMap (s.refusal? index j) else [] := by
  induction left generalizing s with
  | nil => simp [followRefusals]
  | cons task rest ih =>
    have passes := s.passes_followRefusal thread index task
    refine (ih (s.followRefusal thread index task).2).trans ?_
    rw [queued_followRefusal, passes.alive, refusal?_congr passes.config, List.append_assoc]
    cases s.isAlive j with
    | false => simp
    | true => cases answer : s.refusal? index j task <;> simp [answer]

/-- A reactor has a number of 64 bits, so the record that tells of its end is short. -/
theorem length_unavailable {index : Nat} (word : index < 2 ^ 64) :
    (unavailable index).encode.length ≤ 161 := by
  have digits : (toString index).length ≤ 20 :=
    Nat.repr_length index 20 (by decide) (Nat.lt_trans word (by decide))
  have text := Text.length_utf8_le (unavailable index).message
  have before : "reactor ".length = 8 := rfl
  have after : " unavailable".length = 12 := rfl
  have message : (unavailable index).message.length = 8 + (toString index).length + 12 := by
    show ("reactor " ++ toString index ++ " unavailable").length = _
    rw [String.length_append, String.length_append, before, after]
  simp only [ErrorRecord.encode, List.length_cons]
  omega

/-- The answer reads as one message, the response to the request with the error record. -/
theorem reads_refusal (s : Shared σ) {index : Nat} (word : index < 2 ^ 64) (f : Frame) {c : Channel}
    {maxPayload maxMessage : Nat} {pieces : List Bytes} (idle : c.Idle maxMessage)
    (frames : 161 ≤ maxPayload) (room : 161 ≤ maxMessage)
    (cut : pieces.flatten = s.refusalBytes index f) :
    c.feedAll maxPayload pieces = { channel := c, lost := false
                                    messages := [.ok (.response f.opcode f.correlationId f.partition
                                      (.error (unavailable index)))] } := by
  have short := length_unavailable word
  exact Channel.feedAll_of_short (f := .response f.opcode f.correlationId f.partition _) idle
    (Frame.plain_response _ _ _ _) (Nat.succ_pos _) (Nat.lt_of_le_of_lt short (by decide))
    (Nat.le_trans short frames) (Nat.le_trans short room) cut

end Shared

/-! ## What goes through a reactor -/

namespace InvocationTable

variable {t : InvocationTable} {peer k : Address} {id : UInt64} {i : Invocation}

theorem waits_failWhere_iff (t : InvocationTable) (peer : Address) (e : Failure)
    (select : Invocation → Bool) :
    (t.failWhere peer e select).2.Waits k id i
      ↔ t.Waits k id i ∧ (k = peer → select i = false) := by
  refine ⟨waits_failWhere, fun ⟨waits, left⟩ => ?_⟩
  obtain ⟨p, there, mem⟩ := waits
  simp only [failWhere]
  split
  · exact ⟨p, there, mem⟩
  · rename_i q found
    refine (waits_insert_iff (t := t) (p := { q with pending := q.pending.filter fun i => !select i })
      (peers_deliver_all _ _ _)).mpr ?_
    split
    · rename_i here
      subst here
      cases found.symm.trans there
      exact List.mem_filter.mpr ⟨mem, by simp [left rfl]⟩
    · exact ⟨p, there, mem⟩

/-- Those that the test selects leave, and no other. -/
theorem waits_failAnywhere_iff (t : InvocationTable) (e : Failure) (select : Invocation → Bool) :
    (t.failAnywhere e select).2.Waits k id i ↔ t.Waits k id i ∧ select i = false := by
  refine ⟨waits_failAnywhere, fun ⟨waits, left⟩ => ?_⟩
  have stays (peers : List Address) (s : InvocationTable) (waits : s.Waits k id i) :
      (s.failEach peers e select).Waits k id i := by
    induction peers generalizing s with
    | nil => exact waits
    | cons peer rest ih => exact ih _ ((waits_failWhere_iff s peer e select).mpr ⟨waits, fun _ => left⟩)
  rw [snd_failAnywhere]
  exact stays _ t waits

/-- What a future gets when invocations of some peers are failed: the failure, if it was not
done and is one of theirs, and nothing otherwise. -/
def Fails (t t' : InvocationTable) (e : Failure) (chosen : Address → Invocation → Prop)
    (k : FutureId) : Prop :=
  t'.standing k = t.standing k
    ∧ (∀ peer id i, t.Waits peer id i → chosen peer i → i.future = k → t.standing k ≠ some none)
  ∨ t.standing k = some none ∧ t'.standing k = some (some (.error e))
    ∧ ∃ peer id i, t.Waits peer id i ∧ chosen peer i ∧ i.future = k

theorem fails_failWhere (t : InvocationTable) (peer : Address) (e : Failure)
    (select : Invocation → Bool) (k : FutureId) :
    t.Fails (t.failWhere peer e select).2 e (fun p i => p = peer ∧ select i = true) k := by
  simp only [failWhere]
  split
  · rename_i absent
    refine .inl ⟨rfl, ?_⟩
    rintro k id i ⟨p, found, -⟩ ⟨rfl, -⟩ _
    cases absent.symm.trans found
  · rename_i p found
    rcases standing_of_delivered (futures_deliver_all (p.pending.values.filter select) (.error e)
      rfl) k with ⟨same, others⟩ | ⟨pending, done, i, mem, here⟩
    · refine .inl ⟨same, ?_⟩
      rintro k id i waits ⟨rfl, chosen⟩ here
      refine others i (List.mem_filter.mpr ⟨?_, chosen⟩) here
      exact List.mem_map_of_mem (f := Prod.snd) ((waits_iff found).mp waits)
    · obtain ⟨waits, chosen⟩ := List.mem_filter.mp mem
      obtain ⟨⟨id, i⟩, entry, rfl⟩ := List.mem_map.mp waits
      exact .inr ⟨pending, done, peer, id, i, (waits_iff found).mpr entry, ⟨rfl, chosen⟩, here⟩

theorem fails_failEach (peers : List Address) (t : InvocationTable) (e : Failure)
    (select : Invocation → Bool) (k : FutureId) :
    t.Fails (t.failEach peers e select) e (fun p i => p ∈ peers ∧ select i = true) k := by
  induction peers generalizing t with
  | nil => exact .inl ⟨rfl, fun _ _ _ _ chosen => absurd chosen.1 List.not_mem_nil⟩
  | cons peer rest ih =>
    have later := ih (t.failWhere peer e select).2
    rcases t.fails_failWhere peer e select k with
      ⟨same, others⟩ | ⟨pending, done, p, id, i, waits, ⟨rfl, chosen⟩, here⟩
    · rcases later with ⟨same', others'⟩ | ⟨pending, done, p, id, i, waits, ⟨mem, chosen⟩, here⟩
      · refine .inl ⟨same'.trans same, fun p id i waits ⟨mem, chosen⟩ here => ?_⟩
        by_cases first : p = peer
        · exact others p id i waits ⟨first, chosen⟩ here
        · rw [← same]
          exact others' p id i ((waits_failWhere_iff t peer e select).mpr
            ⟨waits, fun same => absurd same first⟩)
            ⟨(List.mem_cons.mp mem).resolve_left first, chosen⟩ here
      · exact .inr ⟨same ▸ pending, done, p, id, i, (waits_failWhere waits).1,
          ⟨List.mem_cons_of_mem _ mem, chosen⟩, here⟩
    · refine .inr ⟨pending, ?_, p, id, i, waits, ⟨List.mem_cons_self, chosen⟩, here⟩
      rcases later with ⟨same, -⟩ | ⟨pending, -⟩
      · exact same.trans done
      · cases pending.symm.trans done

/-- Exactly the futures of those that the test selects are failed. -/
theorem fails_failAnywhere (t : InvocationTable) (e : Failure) (select : Invocation → Bool)
    (k : FutureId) : t.Fails (t.failAnywhere e select).2 e (fun _ i => select i = true) k := by
  rw [snd_failAnywhere]
  rcases t.fails_failEach t.peers.keys e select k with
    ⟨same, others⟩ | ⟨pending, done, peer, id, i, waits, ⟨-, chosen⟩, here⟩
  · refine .inl ⟨same, fun peer id i waits chosen here => ?_⟩
    have ⟨p, found, _⟩ := waits
    exact others peer id i waits ⟨mem_keys_of_get? found, chosen⟩ here
  · exact .inr ⟨pending, done, peer, id, i, waits, chosen, here⟩

end InvocationTable

/-! ## The end -/

namespace Turn

variable {σ : Type}

theorem invocations_finish (t : Turn σ) : t.finish.shared.invocations
    = (t.shared.invocations.failReactor t.reactor.index t.causeOfEnd).2 := by
  rw [t.finish_eq.2]

/-- The queue of a reactor that ends is lost.  The others are handed the answers to what they
had passed on to it. -/
theorem queued_finish (t : Turn σ) (j : Nat) : t.finish.shared.queued j
    = if j = t.reactor.index then []
      else t.shared.queued j ++ t.shared.refusals t.reactor.index j := by
  have answered : t.finish.shared.queued j
      = ((t.shared.bury t.reactor.index).followRefusals t.reactor.thread t.reactor.index
          (t.shared.queued t.reactor.index)).2.queued j := by
    simp only [Shared.queued, Shared.reactor?]
    rw [(reactors_finish t).1]
    rfl
  have same : (t.shared.bury t.reactor.index).refusal? t.reactor.index j
      = t.shared.refusal? t.reactor.index j := Shared.refusal?_congr rfl t.reactor.index j
  rw [answered, Shared.queued_followRefusals, Shared.queued_bury, Shared.isAlive_bury, same]
  by_cases own : j = t.reactor.index
  · simp [own]
  · simp only [own, if_false, Shared.refusals]

/-- Exactly the invocations that go through a reactor that ends wait no longer. -/
theorem waits_finish_iff (t : Turn σ) (peer : Address) (id : UInt64) (inv : Invocation) :
    t.finish.shared.invocations.Waits peer id inv
      ↔ t.shared.invocations.Waits peer id inv ∧ inv.reactor ≠ t.reactor.index := by
  rw [invocations_finish]
  refine (InvocationTable.waits_failAnywhere_iff ..).trans ?_
  simp

/-- Exactly their futures are failed. -/
theorem fails_finish (t : Turn σ) (k : FutureId) :
    t.shared.invocations.Fails t.finish.shared.invocations t.causeOfEnd
      (fun _ inv => inv.reactor = t.reactor.index) k := by
  have fails := t.shared.invocations.fails_failAnywhere t.causeOfEnd
    (fun inv => inv.reactor = t.reactor.index) k
  simp only [decide_eq_true_eq] at fails
  rw [invocations_finish]
  exact fails

/-- A reactor that ends is dead, and its queue is empty.  The other reactors are handed an
answer for each request in that queue that they had passed on, in the order of the queue,
and nothing else; the answer reads as one message, the response with an error record.
Exactly the invocations that go through the reactor are failed. -/
theorem ends_clean (t : Turn σ) (word : t.reactor.index < 2 ^ 64) :
    let i := t.reactor.index
    let s := t.shared
    let s' := t.finish.shared
    (s'.isAlive i = false ∧ s'.queued i = [])
    ∧ (∀ j, j ≠ i → s'.isAlive j = s.isAlive j ∧ s'.queued j = s.queued j ++ s.refusals i j)
    ∧ (∀ f : Frame, ∃ response : Frame,
      (response.opcode = f.opcode ∧ response.correlationId = f.correlationId
        ∧ response.partition = f.partition ∧ response.isResponse = true)
      ∧ (∃ record : ErrorRecord, record.code = .operationFailed
        ∧ response.outcome = .error (.remote record))
      ∧ ∀ (c : Channel) (maxPayload maxMessage : Nat) (pieces : List Bytes),
        c.Idle maxMessage → 161 ≤ maxPayload → 161 ≤ maxMessage →
        pieces.flatten = s.refusalBytes i f →
        c.feedAll maxPayload pieces = { channel := c, messages := [.ok response], lost := false })
    ∧ (∀ peer id inv, s'.invocations.Waits peer id inv
      ↔ s.invocations.Waits peer id inv ∧ inv.reactor ≠ i)
    ∧ (∀ peer id inv, s.invocations.Waits peer id inv → inv.reactor = i →
      s.invocations.standing inv.future = some none →
      s'.invocations.standing inv.future = some (some (.error t.causeOfEnd)))
    ∧ (∀ k, (∀ peer id inv, s.invocations.Waits peer id inv → inv.future = k → inv.reactor ≠ i) →
      s'.invocations.standing k = s.invocations.standing k)
    ∧ (s.invocations.Minded → ∀ peer id inv, s.invocations.Waits peer id inv → inv.reactor ≠ i →
      s'.invocations.standing inv.future = some none) := by
  intro i s s'
  have alive := isAlive_finish t
  refine ⟨⟨?_, ?_⟩, fun j other => ⟨?_, ?_⟩, fun f => ?_, t.waits_finish_iff, ?_, ?_, ?_⟩
  · rw [alive, if_pos rfl]
  · rw [queued_finish, if_pos rfl]
  · rw [alive, if_neg other]
  · rw [queued_finish, if_neg other]
  · refine ⟨.response f.opcode f.correlationId f.partition (.error (Shared.unavailable i)),
      ⟨rfl, rfl, rfl, ?_⟩, ⟨Shared.unavailable i, rfl, Frame.outcome_response _ _ _ _⟩, ?_⟩
    · show ((Flag.response ||| Flag.error) &&& Flag.response != 0) = true
      decide
    · intro c maxPayload maxMessage pieces idle frames room cut
      exact s.reads_refusal word f idle frames room cut
  · intro peer id inv here routed pending
    rcases t.fails_finish inv.future with ⟨-, others⟩ | ⟨-, done, -⟩
    · exact absurd pending (others peer id inv here routed rfl)
    · exact done
  · intro k apart
    rcases t.fails_finish k with ⟨same, -⟩ | ⟨-, -, peer, id, inv, here, routed, rfl⟩
    · exact same
    · exact absurd routed (apart peer id inv here rfl)
  · intro minded peer id inv here other
    exact ((settles_finish t).invocations.minded minded).undone peer id inv
      ((t.waits_finish_iff peer id inv).mpr ⟨here, other⟩)

/-- A reactor with a task to stop and a request that reactor 1 has passed on to it. -/
def burdened : Turn Unit where
  host := {}
  shared :=
    let base : Shared Unit :=
      { config := { reactorCount := 2 }, registry := .empty, links := { reactorCount := 2 },
        reactors := [.new 0 {} .blocking, .new 1 {} .blocking] }
    ((base.submit 0 0 .stop).2.submit 0 0
      (.forward (.request 1 501 8 [10, 20]) { reactor := 1, key := ⟨3, 0⟩ })).2
  reactor := { index := 0, listener := none, localAddress := default, dispatcher := .new .empty 64 }

/-- The burdened reactor ends.  Reactor 1 is handed the answer to its request. -/
theorem ends_clean_of_burdened :
    burdened.reactor.index < 2 ^ 64 ∧ burdened.finish.shared.queued 0 = []
      ∧ burdened.finish.shared.queued 1
        = [.reply { reactor := 1, key := ⟨3, 0⟩ }
            (burdened.shared.refusalBytes 0 (.request 1 501 8 [10, 20]))] := by
  have word : burdened.reactor.index < 2 ^ 64 := by decide
  obtain ⟨⟨-, empty⟩, handed, -⟩ := burdened.ends_clean word
  exact ⟨word, empty, (handed 1 (by decide)).2⟩

end Turn

end PartitionEngine
