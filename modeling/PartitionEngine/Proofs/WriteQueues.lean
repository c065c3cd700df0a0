import PartitionEngine.Channel.WriteQueue
import Mathlib.Data.List.Induction

/-!
# The laws of write queues

A write queue is a byte string.  `bytes_push`, `nextSend_some`, `nextSend_none` and
`bytes_consume` say what each operation does to it.  Merging chunks keeps the order of the
bytes (`flatten_coalesce`), and makes a first chunk that is no longer than the limit, or
than it was (`front_coalesce`).  It panics if the limit is more than a buffer holds
(`nextSend_eq_none_iff`).

`WriteQueue.Use` keeps account of a queue in use: what was pushed, what sends took, and what
the send under way was offered.  Whatever is done to the queue and in whatever order, what
was pushed is what was taken and what is left (`Use.bytes_conserved`).  As long as every
send takes something, the queue runs empty.
-/

namespace PartitionEngine

namespace WriteQueue

variable {q q' : WriteQueue} {limit : Nat}

/-! ## Bytes -/

theorem bytes_push (q : WriteQueue) (chunk : Bytes) : (q.push chunk).bytes = q.bytes ++ chunk := by
  simp only [push]
  split
  · rename_i empty
    rw [List.isEmpty_iff.mp empty, List.append_nil]
  · simp [bytes]

theorem inFlight_push (q : WriteQueue) (chunk : Bytes) :
    (q.push chunk).inFlight = q.inFlight := by
  simp only [push]
  split <;> rfl

theorem flatten_gather (limit size : Nat) (chunks : List Bytes) :
    (gather limit size chunks).1.flatten ++ (gather limit size chunks).2.flatten
      = chunks.flatten := by
  induction chunks generalizing size with
  | nil => rfl
  | cons chunk rest ih =>
    simp only [gather]
    split
    · rfl
    · rw [List.flatten_cons, List.append_assoc, ih, List.flatten_cons]

/-- Merging either leaves the chunks, or puts the front of them into one. -/
theorem coalesce_cases {chunks merged : List Bytes} (h : coalesce limit chunks = some merged) :
    merged = chunks ∨ ∃ first second rest, chunks = first :: second :: rest ∧ first.length < limit
      ∧ merged = (gather limit 0 chunks).1.flatten :: (gather limit 0 chunks).2 := by
  simp only [coalesce] at h
  split at h
  · rename_i first second rest
    split at h
    · rename_i short
      split at h
      · cases h
      · exact .inr ⟨first, second, rest, rfl, short, (Option.some.inj h).symm⟩
    · exact .inl (Option.some.inj h).symm
  · exact .inl (Option.some.inj h).symm

/-- Merging chunks keeps the order of the bytes. -/
theorem flatten_coalesce {chunks merged : List Bytes} (h : coalesce limit chunks = some merged) :
    merged.flatten = chunks.flatten := by
  obtain rfl | ⟨_, _, _, -, -, rfl⟩ := coalesce_cases h
  · rfl
  · rw [List.flatten_cons, flatten_gather]

/-- What a send starts with: nothing, as one is under way, or the chunks as they are merged. -/
theorem nextSend_cases {next : Option Bytes × WriteQueue} (h : q.nextSend limit = some next) :
    (q.inFlight = true ∧ next = (none, q))
    ∨ q.inFlight = false ∧ ∃ chunks, coalesce limit q.chunks.toList = some chunks
      ∧ ((chunks = [] ∧ next = (none, { q with chunks := .ofList chunks }))
        ∨ ∃ first rest, chunks = first :: rest ∧ next = (some (first.take maxSend),
          { q with chunks := .ofList chunks, inFlight := true })) := by
  simp only [nextSend] at h
  split at h
  · rename_i sending
    exact .inl ⟨sending, (Option.some.inj h).symm⟩
  · rename_i idle
    obtain ⟨chunks, merged, rfl⟩ := Option.map_eq_some_iff.mp h
    refine .inr ⟨by simpa using idle, chunks, merged, ?_⟩
    cases chunks with
    | nil => exact .inl ⟨rfl, rfl⟩
    | cons first rest => exact .inr ⟨first, rest, rfl, rfl⟩

/-- A send that starts is offered the front of what waits. -/
theorem nextSend_some {bytes : Bytes} (next : q.nextSend limit = some (some bytes, q')) :
    q.inFlight = false ∧ q'.inFlight = true ∧ q'.bytes = q.bytes
      ∧ ∃ first rest, q'.chunks.toList = first :: rest ∧ bytes = first.take maxSend := by
  obtain ⟨-, same⟩ | ⟨idle, chunks, merged, ⟨-, same⟩ | ⟨first, rest, rfl, same⟩⟩ :=
    nextSend_cases next
  · cases same
  · cases same
  · cases same
    exact ⟨idle, rfl, by simpa [WriteQueue.bytes] using flatten_coalesce merged, first, rest,
      by simp, rfl⟩

/-- Nothing is sent if a send is under way, or nothing waits. -/
theorem nextSend_none (next : q.nextSend limit = some (none, q')) :
    q'.inFlight = q.inFlight ∧ q'.bytes = q.bytes
      ∧ (q.inFlight = true → q'.chunks = q.chunks) := by
  obtain ⟨-, same⟩ | ⟨idle, chunks, merged, ⟨rfl, same⟩ | ⟨first, rest, -, same⟩⟩ :=
    nextSend_cases next
  · cases same
    exact ⟨rfl, rfl, fun _ => rfl⟩
  · cases same
    exact ⟨rfl, by simpa [bytes] using flatten_coalesce merged, by simp [idle]⟩
  · cases same

/-- If nothing is sent although bytes wait, a send is under way. -/
theorem inFlight_of_nextSend_none (next : q.nextSend limit = some (none, q'))
    (waits : q'.isEmpty = false) : q'.inFlight = true := by
  obtain ⟨sending, same⟩ | ⟨-, chunks, -, ⟨rfl, same⟩ | ⟨first, rest, -, same⟩⟩ :=
    nextSend_cases next
  · cases same
    exact sending
  · cases same
    simp [isEmpty, Fifo.isEmpty_eq] at waits
  · cases same

/-- What a send took was the front, and the rest waits. -/
theorem bytes_consume {first : Bytes} {rest : List Bytes} (front : q.chunks.toList = first :: rest)
    (n : Nat) : q.bytes = first.take n ++ (q.consume n).bytes := by
  simp only [consume]
  split
  · rename_i none
    rw [(Fifo.pop?_eq_none_iff _).mp none] at front
    cases front
  · rename_i first' rest' popped
    have parts := Fifo.toList_of_pop? popped
    cases front.symm.trans parts
    simp only [bytes, parts, List.flatten_cons]
    split
    · rename_i empty
      have whole : first.take n = first := by
        rw [← List.append_nil (first.take n), ← List.isEmpty_iff.mp empty, List.take_append_drop]
      rw [whole]
    · rw [Fifo.toList_pushFront, List.flatten_cons, ← List.append_assoc, List.take_append_drop]

theorem inFlight_consume (q : WriteQueue) (n : Nat) : (q.consume n).inFlight = false := by
  simp only [consume]
  split <;> rfl

/-! ## Chunks -/

/-- The first chunk. -/
def front (q : WriteQueue) : Bytes := q.chunks.toList.headD []

theorem bytes_eq_consume (q : WriteQueue) (n : Nat) :
    q.bytes = q.front.take n ++ (q.consume n).bytes := by
  cases chunks : q.chunks.toList with
  | cons first rest =>
    rw [front, chunks]
    exact bytes_consume chunks n
  | nil =>
    have none : q.chunks.pop? = none := (Fifo.pop?_eq_none_iff _).mpr chunks
    have same : (q.consume n).bytes = q.bytes := by simp [consume, none, bytes]
    rw [same, front, chunks]
    simp

theorem gather_suffix (limit size : Nat) (chunks : List Bytes) :
    (gather limit size chunks).2 <:+ chunks := by
  induction chunks generalizing size with
  | nil => exact List.suffix_rfl
  | cons chunk rest ih =>
    simp only [gather]
    split
    · exact List.suffix_rfl
    · exact (ih _).trans (List.suffix_cons ..)

/-- What is gathered behind some bytes stays within the limit, unless nothing is. -/
theorem length_gather (limit : Nat) {size : Nat} (some : size ≠ 0) (chunks : List Bytes) :
    size + (gather limit size chunks).1.flatten.length ≤ max limit size := by
  induction chunks generalizing size with
  | nil => exact Nat.le_max_right ..
  | cons chunk rest ih =>
    simp only [gather]
    split
    · exact Nat.le_max_right ..
    · rename_i fits
      have fits : size + chunk.length ≤ limit := Nat.not_lt.mp fun beyond => fits ⟨some, beyond⟩
      have more : size + chunk.length + (gather limit (size + chunk.length) rest).1.flatten.length
          ≤ max limit (size + chunk.length) := ih (by omega)
      rw [Nat.max_eq_left fits] at more
      rw [List.flatten_cons, List.length_append, ← Nat.add_assoc]
      exact Nat.le_trans more (Nat.le_max_left ..)

/-- Merging chunks makes no empty chunk. -/
theorem filled_coalesce {chunks merged : List Bytes} (filled : ∀ chunk ∈ chunks, chunk ≠ [])
    (h : coalesce limit chunks = some merged) : ∀ chunk ∈ merged, chunk ≠ [] := by
  obtain rfl | ⟨first, second, rest, rfl, -, rfl⟩ := coalesce_cases h
  · exact filled
  · simp only [gather, ne_eq, not_true_eq_false, false_and, if_false, Nat.zero_add]
    refine List.forall_mem_cons.mpr ⟨?_, fun chunk mem => ?_⟩
    · have first := filled first List.mem_cons_self
      simp [first]
    · refine filled chunk (List.mem_cons_of_mem _ ?_)
      exact (gather_suffix limit first.length (second :: rest)).subset mem

/-- Merging makes a first chunk that is no longer than the limit, or leaves it. -/
theorem front_coalesce {chunks merged : List Bytes} (filled : ∀ chunk ∈ chunks, chunk ≠ [])
    (h : coalesce limit chunks = some merged) :
    (merged.headD []).length ≤ max limit (chunks.headD []).length := by
  obtain rfl | ⟨first, second, rest, rfl, -, rfl⟩ := coalesce_cases h
  · exact Nat.le_max_right ..
  · have some : first.length ≠ 0 := by
      simpa using filled first List.mem_cons_self
    have bound := length_gather limit some (second :: rest)
    simpa [gather] using bound

/-! ## Panics -/

/-- Merging panics if there is something to merge and no room for the limit. -/
theorem coalesce_eq_none_iff (chunks : List Bytes) : coalesce limit chunks = none
    ↔ maxCapacity < limit ∧ 2 ≤ chunks.length ∧ (chunks.headD []).length < limit := by
  match chunks with
  | [] | [_] => simp [coalesce]
  | first :: second :: rest =>
    simp only [coalesce]
    split
    · rename_i short
      split
      · rename_i beyond
        simp [beyond, short]
      · rename_i fits
        simp [fits]
    · rename_i long
      simp [long]

theorem nextSend_eq_none_iff : q.nextSend limit = none
    ↔ q.inFlight = false ∧ maxCapacity < limit ∧ 2 ≤ q.chunks.toList.length
      ∧ q.front.length < limit := by
  simp only [nextSend]
  split
  · rename_i sending
    simp [sending]
  · rename_i idle
    rw [Option.map_eq_none_iff, coalesce_eq_none_iff, front]
    simp [idle]

/-- Within the room there is, no send panics. -/
theorem exists_nextSend (q : WriteQueue) (fits : limit ≤ maxCapacity) :
    ∃ next, q.nextSend limit = some next := by
  refine Option.ne_none_iff_exists'.mp fun panics => ?_
  obtain ⟨-, beyond, -⟩ := nextSend_eq_none_iff.mp panics
  exact absurd fits (Nat.not_le.mpr beyond)

/-- No chunk is empty, and the bytes are counted. -/
structure Sound (q : WriteQueue) : Prop where
  filled : ∀ chunk ∈ q.chunks.toList, chunk ≠ []
  queued : q.queued = q.bytes.length

namespace Sound

theorem empty : ({} : WriteQueue).Sound := ⟨nofun, rfl⟩

theorem front_eq_nil (h : q.Sound) : q.front = [] ↔ q.bytes = [] := by
  rw [front, bytes]
  have filled := h.filled
  cases chunks : q.chunks.toList with
  | nil => simp
  | cons first rest =>
    have first : first ≠ [] := filled first (chunks ▸ List.mem_cons_self)
    simp [first]

theorem isEmpty_iff (h : q.Sound) : q.isEmpty = true ↔ q.queued = 0 := by
  have filled := h.filled
  rw [h.queued, isEmpty, Fifo.isEmpty_eq, List.length_eq_zero_iff, bytes]
  cases chunks : q.chunks.toList with
  | nil => simp
  | cons first rest =>
    have first : first ≠ [] := filled first (chunks ▸ List.mem_cons_self)
    simp [first]

theorem push (h : q.Sound) (chunk : Bytes) : (q.push chunk).Sound where
  filled other mem := by
    simp only [WriteQueue.push] at mem
    split at mem
    · exact h.filled other mem
    · rename_i some
      rw [Fifo.toList_push, List.mem_append, List.mem_singleton] at mem
      rcases mem with mem | rfl
      · exact h.filled other mem
      · simpa using some
  queued := by
    rw [bytes_push, List.length_append, ← h.queued]
    simp only [WriteQueue.push]
    split
    · rename_i none
      rw [List.isEmpty_iff.mp none]
      rfl
    · rfl

theorem nextSend (h : q.Sound) {next : Option Bytes × WriteQueue}
    (starts : q.nextSend limit = some next) : next.2.Sound := by
  have sound {chunks : List Bytes} (merged : coalesce limit q.chunks.toList = some chunks)
      (inFlight : Bool) : Sound { q with chunks := .ofList chunks, inFlight } := by
    refine ⟨by simpa using filled_coalesce h.filled merged, ?_⟩
    rw [bytes, Fifo.toList_ofList, flatten_coalesce merged]
    exact h.queued
  obtain ⟨-, rfl⟩ | ⟨-, chunks, merged, ⟨-, rfl⟩ | ⟨_, _, -, rfl⟩⟩ := nextSend_cases starts
  · exact h
  · exact sound merged _
  · exact sound merged _

theorem consume (h : q.Sound) (n : Nat) : (q.consume n).Sound := by
  have split := congrArg List.length (q.bytes_eq_consume n)
  have filled := h.filled
  rw [List.length_append, List.length_take, ← h.queued] at split
  simp only [WriteQueue.consume] at split ⊢
  cases popped : q.chunks.pop? with
  | none => exact ⟨h.filled, h.queued⟩
  | some parts =>
    obtain ⟨first, rest⟩ := parts
    have chunks := Fifo.toList_of_pop? popped
    simp only [popped, front, chunks, List.headD_cons] at split ⊢
    rw [chunks] at filled
    obtain ⟨-, filled⟩ := List.forall_mem_cons.mp filled
    refine ⟨?_, show q.queued - min n first.length = _ by omega⟩
    split
    · exact filled
    · rename_i left
      rw [Fifo.toList_pushFront]
      exact List.forall_mem_cons.mpr ⟨by simpa using left, filled⟩

theorem abortSend (h : q.Sound) : q.abortSend.Sound := ⟨h.filled, h.queued⟩

/-- A send starts, unless one is under way or nothing waits. -/
theorem idle_iff (h : q.Sound) {next : Option Bytes × WriteQueue}
    (starts : q.nextSend limit = some next) :
    next.1 = none ↔ q.inFlight = true ∨ q.queued = 0 := by
  rw [h.queued, bytes]
  obtain ⟨sending, rfl⟩ | ⟨idle, chunks, merged, ⟨rfl, rfl⟩ | ⟨first, rest, rfl, rfl⟩⟩ :=
    nextSend_cases starts
  · simp [sending]
  · simp [← flatten_coalesce merged]
  · have first : first ≠ [] := filled_coalesce h.filled merged first List.mem_cons_self
    rw [← flatten_coalesce merged]
    simp [idle, first]

/-- A send is offered the front of what waits: something, and not more than the limit or the
first chunk. -/
theorem offered (h : q.Sound) {offered : Bytes}
    (starts : q.nextSend limit = some (some offered, q')) :
    offered <+: q.bytes ∧ 1 ≤ offered.length
      ∧ offered.length ≤ min maxSend (max limit q.front.length) := by
  obtain ⟨-, same⟩ | ⟨-, chunks, merged, ⟨-, same⟩ | ⟨first, rest, rfl, same⟩⟩ :=
    nextSend_cases starts
  · cases same
  · cases same
  · cases same
    have some : first ≠ [] := filled_coalesce h.filled merged first List.mem_cons_self
    have some : 1 ≤ first.length := List.length_pos_iff.mpr some
    refine ⟨?_, ?_, ?_⟩
    · rw [bytes, ← flatten_coalesce merged]
      exact (List.take_prefix ..).trans (List.prefix_append ..)
    · rw [List.length_take]
      exact Nat.le_min.mpr ⟨by decide, some⟩
    · rw [List.length_take]
      exact Nat.le_min.mpr ⟨Nat.min_le_left ..,
        Nat.le_trans (Nat.min_le_right ..) (front_coalesce h.filled merged)⟩

end Sound

/-! ## Queues in use -/

/-- What is done to a write queue. -/
inductive Op where
  | push (chunk : Bytes)
  | nextSend (limit : Nat)
  | consume (n : Nat)
  | abortSend

/-- What an operation adds to a queue. -/
def Op.pushed : Op → Bytes
  | .push chunk => chunk
  | .nextSend _ | .consume _ | .abortSend => []

/-- A write queue in use. -/
structure Use where
  queue : WriteQueue := {}
  /-- The bytes that sends took. -/
  taken : Bytes := []
  /-- What the send under way was offered. -/
  offered : Option Bytes := none

namespace Use

variable {u : Use}

/-- A send takes from the first chunk, and no more than that holds.  One that panics as it
starts leaves the queue. -/
def apply (u : Use) : Op → Use
  | .push chunk => { u with queue := u.queue.push chunk }
  | .nextSend limit =>
    match u.queue.nextSend limit with
    | none => u
    | some (offered, queue) => { u with queue, offered := offered.or u.offered }
  | .consume n =>
    { queue := u.queue.consume n, taken := u.taken ++ u.queue.front.take n, offered := none }
  | .abortSend => { u with queue := u.queue.abortSend, offered := none }

/-- A new queue after some operations. -/
def after (ops : List Op) : Use := ops.foldl apply {}

theorem after_concat (ops : List Op) (op : Op) : after (ops ++ [op]) = (after ops).apply op := by
  rw [after, List.foldl_append]
  rfl

/-- What was pushed was taken or is left, and the send under way was offered the front of
what is left. -/
structure Sound (u : Use) (pushed : Bytes) : Prop where
  queue : u.queue.Sound
  bytes : u.taken ++ u.queue.bytes = pushed
  sending : u.queue.inFlight = u.offered.isSome
  front : ∀ offered, u.offered = some offered → offered <+: u.queue.bytes

theorem Sound.nextSend {pushed : Bytes} (h : u.Sound pushed) (limit : Nat) :
    (u.apply (.nextSend limit)).Sound pushed := by
  cases next : u.queue.nextSend limit with
  | none =>
    simp only [Use.apply, next]
    exact h
  | some next' =>
    obtain ⟨offer, q'⟩ := next'
    have queue := h.queue.nextSend next
    simp only [Use.apply, next]
    cases offer with
    | none =>
      obtain ⟨sending, bytes, -⟩ := nextSend_none next
      exact ⟨queue, bytes ▸ h.bytes, sending.trans h.sending, bytes ▸ h.front⟩
    | some offered =>
      obtain ⟨-, sending, bytes, -⟩ := nextSend_some next
      refine ⟨queue, bytes ▸ h.bytes, sending, fun offered' same => ?_⟩
      cases same
      rw [bytes]
      exact (h.queue.offered next).1

/-- Each operation keeps the account. -/
theorem Sound.apply {pushed : Bytes} (h : u.Sound pushed) (op : Op) :
    (u.apply op).Sound (pushed ++ op.pushed) := by
  cases op with
  | push chunk =>
    refine ⟨h.queue.push chunk, ?_, ?_, fun offered under => ?_⟩
    · rw [Use.apply, bytes_push, ← List.append_assoc, h.bytes]
      rfl
    · exact (inFlight_push ..).trans h.sending
    · rw [Use.apply, bytes_push]
      exact (h.front offered under).trans (List.prefix_append ..)
  | nextSend limit =>
    rw [Op.pushed, List.append_nil]
    exact h.nextSend limit
  | consume n =>
    refine ⟨h.queue.consume n, ?_, inFlight_consume .., nofun⟩
    rw [Use.apply, List.append_assoc, ← bytes_eq_consume, h.bytes]
    exact (List.append_nil _).symm
  | abortSend =>
    refine ⟨h.queue.abortSend, ?_, rfl, nofun⟩
    exact h.bytes.trans (List.append_nil _).symm

theorem sound_after (ops : List Op) : (after ops).Sound (ops.flatMap Op.pushed) := by
  induction ops using List.reverseRecOn with
  | nil => exact ⟨.empty, rfl, rfl, nofun⟩
  | append_singleton ops op ih =>
    rw [after_concat, List.flatMap_append, List.flatMap_singleton]
    exact ih.apply op

/-! ## Running empty -/

/-- A send that takes bytes. -/
def sending (round : Nat × Nat) : List Op := [.nextSend round.1, .consume round.2]

theorem taken_nextSend (u : Use) (limit : Nat) : (u.apply (.nextSend limit)).taken = u.taken := by
  simp only [apply]
  split <;> rfl

/-- With a send that takes something, less is left, unless nothing was. -/
theorem Sound.round {pushed : Bytes} (h : u.Sound pushed) {round : Nat × Nat}
    (takes : 1 ≤ round.2) :
    (((u.apply (.nextSend round.1)).apply (.consume round.2)).queue.queued
      ≤ u.queue.queued - 1) := by
  have before := h.nextSend round.1
  have after := before.apply (.consume round.2)
  have merged : (u.apply (.nextSend round.1)).queue.queued = u.queue.queued := by
    rw [before.queue.queued, h.queue.queued]
    have same := before.bytes.trans h.bytes.symm
    rw [taken_nextSend] at same
    exact congrArg List.length (List.append_cancel_left same)
  have split := congrArg List.length ((u.apply (.nextSend round.1)).queue.bytes_eq_consume round.2)
  rw [List.length_append, ← before.queue.queued, merged, List.length_take] at split
  have left : ((u.apply (.nextSend round.1)).queue.consume round.2).bytes.length
      = ((u.apply (.nextSend round.1)).apply (.consume round.2)).queue.queued :=
    after.queue.queued.symm
  rw [left] at split
  have some : (u.apply (.nextSend round.1)).queue.front.length = 0 → u.queue.queued = 0 := by
    intro none
    rw [← merged, before.queue.queued, List.length_eq_zero_iff]
    exact before.queue.front_eq_nil.mp (List.length_eq_zero_iff.mp none)
  omega

theorem after_append (ops later : List Op) :
    after (ops ++ later) = later.foldl apply (after ops) := List.foldl_append ..

/-- As many sends that take something as bytes are left take all of them. -/
theorem queued_rounds (ops : List Op) (rounds : List (Nat × Nat))
    (take : ∀ round ∈ rounds, 1 ≤ round.2) :
    (after (ops ++ rounds.flatMap sending)).queue.queued
      ≤ (after ops).queue.queued - rounds.length := by
  induction rounds generalizing ops with
  | nil => simp
  | cons round rounds ih =>
    obtain ⟨takes, take⟩ := List.forall_mem_cons.mp take
    have less := (sound_after ops).round takes
    have rest := ih (ops ++ sending round) take
    rw [List.append_assoc] at rest
    have now : after (ops ++ sending round)
        = ((after ops).apply (.nextSend round.1)).apply (.consume round.2) := after_append ..
    rw [now] at rest
    rw [List.flatMap_cons, List.length_cons]
    omega

/-! ## The law -/

/-- Whatever is done to a write queue, the bytes that sends took and those that are left are
the bytes that were pushed, in that order.  Those that are left are counted, and the queue is
empty exactly if there are none.  The send under way was offered the front of them.

The start of a send panics exactly if none is under way, chunks are to be merged, and the
limit is more than a buffer holds.  If it does not, a send starts exactly if none is under way
and bytes are left, and is offered at least one of them, and no more than the first chunk holds
or the limit allows.  So if every send takes something, and no limit is too large, as many
sends as there are bytes left take them all. -/
theorem bytes_conserved (ops : List Op) :
    (after ops).taken ++ (after ops).queue.bytes = ops.flatMap Op.pushed
    ∧ (after ops).queue.queued = (after ops).queue.bytes.length
    ∧ ((after ops).queue.isEmpty = true ↔ (after ops).queue.queued = 0)
    ∧ (∀ offered, (after ops).offered = some offered → offered <+: (after ops).queue.bytes)
    ∧ (∀ limit, (after ops).queue.nextSend limit = none
        ↔ (after ops).offered = none ∧ maxCapacity < limit
          ∧ 2 ≤ (after ops).queue.chunks.toList.length ∧ (after ops).queue.front.length < limit)
    ∧ (∀ limit next, (after ops).queue.nextSend limit = some next →
        (next.1 = none ↔ (after ops).offered.isSome = true ∨ (after ops).queue.queued = 0)
        ∧ ∀ offered, next.1 = some offered →
          offered <+: (after ops).queue.bytes ∧ 1 ≤ offered.length
            ∧ offered.length ≤ min maxSend (max limit (after ops).queue.front.length))
    ∧ ∀ rounds : List (Nat × Nat),
        (∀ round ∈ rounds, round.1 ≤ maxCapacity ∧ 1 ≤ round.2) →
        (after ops).queue.queued ≤ rounds.length →
        (after (ops ++ rounds.flatMap sending)).queue.isEmpty = true
          ∧ (after (ops ++ rounds.flatMap sending)).taken = ops.flatMap Op.pushed := by
  have h := sound_after ops
  refine ⟨h.bytes, h.queue.queued, h.queue.isEmpty_iff, h.front, fun limit => ?_,
    fun limit next starts => ⟨?_, fun offered same => ?_⟩, fun rounds take enough => ?_⟩
  · rw [nextSend_eq_none_iff, h.sending, Option.isSome_eq_false_iff, Option.isNone_iff_eq_none]
  · rw [← h.sending]
    exact h.queue.idle_iff starts
  · obtain ⟨_, queue⟩ := next
    cases same
    exact h.queue.offered starts
  · have less := queued_rounds ops rounds fun round mem => (take round mem).2
    have done := sound_after (ops ++ rounds.flatMap sending)
    have none : (after (ops ++ rounds.flatMap sending)).queue.queued = 0 := by omega
    have nothing : (rounds.flatMap sending).flatMap Op.pushed = [] := by
      simp [List.flatMap_assoc, sending, Op.pushed]
    refine ⟨done.queue.isEmpty_iff.mpr none, ?_⟩
    have left : (after (ops ++ rounds.flatMap sending)).queue.bytes = [] := by
      rw [← List.length_eq_zero_iff, ← done.queue.queued, none]
    have all := done.bytes
    rw [left, List.append_nil, List.flatMap_append, nothing, List.append_nil] at all
    exact all

/-- A send takes two of three bytes.  The third goes out with the next chunk, and three more
sends of at least one byte take all. -/
theorem bytes_conserved_of_short_send : ∃ ops : List Op,
    ops.flatMap Op.pushed = [1, 2, 3, 4, 5] ∧ (after ops).taken = [1, 2]
    ∧ (after ops).offered = some [3, 4, 5] ∧ [3, 4, 5] <+: (after ops).queue.bytes
    ∧ (after (ops ++ [(0, 1), (2, 1), (4, 1)].flatMap sending)).taken = [1, 2, 3, 4, 5] := by
  obtain ⟨-, -, -, front, -, -, drained⟩ := bytes_conserved
    [.push [1, 2, 3], .push [], .push [4, 5], .nextSend 4, .consume 2, .nextSend 8]
  exact ⟨_, rfl, rfl, rfl, front _ rfl, (drained _ (by decide) (by decide)).2⟩

/-- Two chunks wait and no send is under way, but none starts: a limit is more than a buffer
holds. -/
theorem nextSend_panics : ∃ ops : List Op, ∃ limit,
    ops.flatMap Op.pushed = [0xaa, 0xbb] ∧ (after ops).taken = [] ∧ (after ops).offered = none
    ∧ (after ops).queue.queued = 2 ∧ (after ops).queue.nextSend limit = none :=
  ⟨[.push [0xaa], .push [0xbb]], maxCapacity + 1, rfl, rfl, rfl, rfl, by decide⟩

end Use

end WriteQueue

end PartitionEngine
