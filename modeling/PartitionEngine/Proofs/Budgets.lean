import PartitionEngine.Proofs.Entries
import PartitionEngine.Proofs.Reassembly

/-!
# The budget of an assembler

An assembler counts the bytes of its open streams as it goes, and never adds them up.
The count is right after any frames, well-formed or not, and after a connection was
cleared (`Balanced.used`).

What comes of a frame is one of eight things (`Takes`).  It may leave the assembler alone,
discard the stream of its key, or be appended to that stream, which the last part then
discards.  So a balance is kept if discarding and appending keep it (`Balanced.discard`,
`Balanced.appended`).
-/

namespace PartitionEngine.Assembler

/-! ## What a frame does -/

/-- The stream that a part goes to: the one under its key, or a new one if there is none
and there may be one more. -/
def Offers (a : Assembler) (f : Frame) (m : PartialMessage) : Prop :=
  a.streams.get? (keyOf f) = some m
    ∨ a.streams.get? (keyOf f) = none ∧ a.pending < maxOpenStreams ∧ m = .ofFirst f

/-- The assembler once a part was appended to its stream. -/
def appended (a : Assembler) (f : Frame) (m : PartialMessage) : Assembler :=
  { a with
    streams := a.streams.insert (keyOf f) (m.append f.payload)
    buffered := a.buffered + f.payload.length }

/-- What comes of a frame, and what it leaves. -/
inductive Takes (a : Assembler) (f : Frame) :
    Except FrameError (Option Frame) → Assembler → Prop where
  | reserved {bits : UInt8} (invalid : f.validate = .error (.reservedFlags bits)) :
    Takes a f (.error (.reservedFlags bits)) a
  | stray (valid : f.validate = .ok ()) (whole : f.isFragment = false)
    (final : f.isFinal = true) : Takes a f (.error .finalWithoutFragment) a
  | whole (valid : f.validate = .ok ()) (whole : f.isFragment = false)
    (plain : f.isFinal = false) : Takes a f (.ok (some f)) a
  | full (valid : f.validate = .ok ()) (part : f.isFragment = true)
    (closed : a.streams.get? (keyOf f) = none) (many : maxOpenStreams ≤ a.pending) :
    Takes a f (.error (.tooManyStreams maxOpenStreams)) a
  | mismatch {m : PartialMessage} (part : f.isFragment = true) (offers : a.Offers f m)
    (other : m.opcode ≠ f.opcode ∨ m.partition ≠ f.partition) :
    Takes a f (.error (.fragmentMismatch f.correlationId)) (a.discard (keyOf f))
  | tooLarge {m : PartialMessage} (part : f.isFragment = true) (offers : a.Offers f m)
    (beyond : a.maxMessage < a.buffered + f.payload.length) :
    Takes a f (.error (.messageTooLarge f.correlationId a.maxMessage)) (a.discard (keyOf f))
  | more {m : PartialMessage} (part : f.isFragment = true) (offers : a.Offers f m)
    (room : a.buffered + f.payload.length ≤ a.maxMessage) :
    Takes a f (.ok none) (a.appended f m)
  | last {m : PartialMessage} {message : Frame} (part : f.isFragment = true)
    (offers : a.Offers f m) (room : a.buffered + f.payload.length ≤ a.maxMessage) :
    Takes a f (.ok (some message)) ((a.appended f m).discard (keyOf f))

variable {a : Assembler} {f : Frame} {m : PartialMessage}

theorem takes_acceptPart (part : f.isFragment = true) (offers : a.Offers f m) :
    Takes a f (a.acceptPart f m).1 (a.acceptPart f m).2 := by
  simp only [acceptPart]
  split
  · rename_i other
    exact .mismatch part offers other
  · split
    · rename_i beyond
      exact .tooLarge part offers beyond
    · rename_i within
      have room : a.buffered + f.payload.length ≤ a.maxMessage := Nat.le_of_not_lt within
      split
      · exact .last part offers room
      · exact .more part offers room

theorem takes_accept (a : Assembler) (f : Frame) : Takes a f (a.accept f).1 (a.accept f).2 := by
  cases valid : f.validate with
  | error e =>
    simp only [accept, valid]
    cases e with
    | reservedFlags bits => exact .reserved valid
    | payloadTooLarge | finalWithoutFragment | fragmentMismatch | messageTooLarge
    | tooManyStreams | malformedErrorRecord =>
      simp only [Frame.validate] at valid
      split at valid <;> cases valid
  | ok =>
    cases part : f.isFragment with
    | false =>
      simp only [accept, valid, part, Bool.not_false, ↓reduceIte]
      split
      · rename_i final
        exact .stray valid part final
      · rename_i plain
        exact .whole valid part (Bool.eq_false_iff.mpr plain)
    | true =>
      rw [accept_of_isFragment part valid]
      cases held : a.streams.get? (keyOf f) with
      | some m => exact takes_acceptPart part (.inl held)
      | none =>
        simp only
        split
        · exact .full valid part held ‹_›
        · exact takes_acceptPart part (.inr ⟨held, Nat.lt_of_not_le ‹_›, rfl⟩)

theorem get?_streams_accept_of_ne (a : Assembler) (f : Frame) {k : StreamKey}
    (other : k ≠ keyOf f) : (a.accept f).2.streams.get? k = a.streams.get? k := by
  rw [get?_streams_accept, if_neg]
  rw [Bool.and_eq_true, decide_eq_true_eq]
  exact fun own => other own.2.symm

/-- An error takes the stream of the frame away, or leaves everything as it was. -/
theorem accept_error {e : FrameError} (failed : (a.accept f).1 = .error e) :
    if discards e then (a.accept f).2.streams.get? (keyOf f) = none else (a.accept f).2 = a := by
  have takes := takes_accept a f
  generalize (a.accept f).1 = result, (a.accept f).2 = a' at takes failed ⊢
  cases takes with
  | reserved | stray | full =>
    cases failed
    rfl
  | mismatch | tooLarge =>
    cases failed
    exact (get?_streams_discard ..).trans (if_pos rfl)
  | whole | more | last => cases failed

theorem accept_tooManyStreams_iff {n : Nat} :
    (a.accept f).1 = .error (.tooManyStreams n)
      ↔ n = maxOpenStreams ∧ f.validate = .ok () ∧ f.isFragment = true
        ∧ a.streams.get? (keyOf f) = none ∧ maxOpenStreams ≤ a.pending := by
  constructor
  · intro failed
    have takes := takes_accept a f
    generalize (a.accept f).1 = result, (a.accept f).2 = a' at takes failed
    cases takes with
    | full valid part closed many =>
      cases failed
      exact ⟨rfl, valid, part, closed, many⟩
    | reserved | stray | whole | mismatch | tooLarge | more | last => cases failed
  · rintro ⟨rfl, valid, part, closed, many⟩
    rw [accept_of_isFragment part valid, closed]
    simp only [if_pos many]

/-! ## Balance -/

/-- The payload bytes that are held under a key. -/
def held (a : Assembler) (key : StreamKey) : Nat :=
  (a.streams.get? key).elim 0 fun m => m.payload.length

/-- The count of bytes is right, and the limits are kept. -/
structure Balanced (a : Assembler) : Prop where
  keyed : a.streams.Keyed
  exact : a.buffered = a.streams.total fun m => m.payload.length
  within : a.buffered ≤ a.maxMessage
  few : a.pending ≤ maxOpenStreams

namespace Balanced

theorem empty (maxMessage : Nat) : Balanced { maxMessage } where
  keyed := Assoc.keyed_empty
  exact := rfl
  within := Nat.zero_le _
  few := Nat.zero_le _

theorem discard (h : a.Balanced) (key : StreamKey) : (a.discard key).Balanced := by
  have total := h.keyed.total_erase key fun m => m.payload.length
  have size := h.keyed.total_erase key fun _ => 1
  rw [← Assoc.size_eq_total, ← Assoc.size_eq_total] at size
  unfold Assembler.discard
  split
  · rename_i m found
    rw [found, Option.elim_some, m.length_payload, ← h.exact] at total
    refine ⟨h.keyed.erase key, (Nat.eq_sub_of_add_eq total).symm,
      Nat.le_trans (Nat.sub_le ..) h.within, Nat.le_trans ?_ h.few⟩
    rw [pending, pending, ← size]
    exact Nat.le_add_right ..
  · exact h

theorem appended (h : a.Balanced) (offers : a.Offers f m)
    (room : a.buffered + f.payload.length ≤ a.maxMessage) : (a.appended f m).Balanced := by
  have keyed : (a.appended f m).streams.Keyed := h.keyed.insert _ _
  have here : (a.appended f m).streams.get? (keyOf f) = some (m.append f.payload) := by
    rw [Assembler.appended, Assoc.get?_insert, if_pos rfl]
  have elsewhere : ∀ j, j ≠ keyOf f → (a.appended f m).streams.get? j = a.streams.get? j := by
    intro j other
    rw [Assembler.appended, Assoc.get?_insert, if_neg other]
  have total := h.keyed.total_of_agree keyed elsewhere fun m => m.payload.length
  have size := h.keyed.total_of_agree keyed elsewhere fun _ => 1
  rw [here, Option.elim_some] at total size
  rw [← Assoc.size_eq_total, ← Assoc.size_eq_total] at size
  rw [m.payload_append, List.length_append] at total
  have exact := h.exact
  have few := h.few
  rw [pending] at few
  have buffered : (a.appended f m).buffered = a.buffered + f.payload.length := rfl
  obtain found | ⟨absent, vacant, rfl⟩ := offers
  · rw [found, Option.elim_some] at total size
    refine ⟨keyed, by omega, room, ?_⟩
    rw [pending]
    omega
  · have empty : (PartialMessage.ofFirst f).payload.length = 0 := rfl
    rw [absent, Option.elim_none] at total size
    rw [pending] at vacant
    refine ⟨keyed, by omega, room, ?_⟩
    rw [pending]
    omega

/-- A frame keeps the balance, whatever comes of it. -/
theorem accept (h : a.Balanced) (f : Frame) : (a.accept f).2.Balanced := by
  have takes := takes_accept a f
  generalize (a.accept f).1 = result, (a.accept f).2 = a' at takes
  cases takes with
  | reserved | stray | whole | full => exact h
  | mismatch | tooLarge => exact h.discard _
  | more _ offers room => exact h.appended offers room
  | last _ offers room => exact (h.appended offers room).discard _

/-- What is held under the key of a frame changes as the count does.  Nothing is taken off
the count that was not in it. -/
theorem accounts (h : a.Balanced) (f : Frame) :
    (a.accept f).2.buffered + a.held (keyOf f)
      = a.buffered + (a.accept f).2.held (keyOf f) := by
  rw [h.exact, (h.accept f).exact]
  exact h.keyed.total_of_agree (h.accept f).keyed
    (fun _ other => get?_streams_accept_of_ne a f other) _

/-- The open streams, one by one. -/
theorem exists_names (h : a.Balanced) :
    ∃ names : Finset StreamKey, (∀ k, k ∈ names ↔ a.streams.get? k ≠ none)
      ∧ a.pending = names.card ∧ a.buffered = ∑ k ∈ names, a.held k :=
  ⟨a.streams.keys.toFinset, fun _ => List.mem_toFinset.trans Assoc.mem_keys_iff,
    h.keyed.size_eq_card, h.exact.trans (h.keyed.total_eq_sum _)⟩

end Balanced

/-! ## The life of an assembler -/

/-- What a connection does with its assembler. -/
inductive Use where
  /-- It feeds a frame that came in. -/
  | accept (f : Frame)
  /-- It gives up all streams. -/
  | clear

def use (a : Assembler) : Use → Assembler
  | .accept f => (a.accept f).2
  | .clear => a.clear

/-- The assembler after some uses. -/
def used (a : Assembler) (us : List Use) : Assembler := us.foldl use a

theorem maxMessage_discard (a : Assembler) (key : StreamKey) :
    (a.discard key).maxMessage = a.maxMessage := by
  unfold discard
  split
  · rfl
  · rfl

theorem maxMessage_accept (a : Assembler) (f : Frame) :
    (a.accept f).2.maxMessage = a.maxMessage := by
  have takes := takes_accept a f
  generalize (a.accept f).1 = result, (a.accept f).2 = a' at takes
  cases takes with
  | reserved | stray | whole | full | more => rfl
  | mismatch | tooLarge => exact maxMessage_discard ..
  | last => exact maxMessage_discard ..

theorem Balanced.used (h : a.Balanced) (us : List Use) :
    (a.used us).Balanced ∧ (a.used us).maxMessage = a.maxMessage := by
  induction us generalizing a with
  | nil => exact ⟨h, rfl⟩
  | cons u us ih =>
    cases u with
    | accept f =>
      obtain ⟨later, limit⟩ := ih (h.accept f)
      exact ⟨later, limit.trans (maxMessage_accept a f)⟩
    | clear => exact ih ⟨Assoc.keyed_empty, rfl, Nat.zero_le _, Nat.zero_le _⟩

/-- After any uses the count is what the open streams hold, and within the limit, and there
are no more streams than may be open.  A frame touches no stream but its own, and changes
the count by what its own stream changes.  An error leaves everything as it was, or takes
the stream of the frame away, and it is for the number of streams exactly if the frame is
a sound part that would open one too many. -/
theorem accounts_of_uses (maxMessage : Nat) (us : List Use) :
    let a := used { maxMessage } us
    (∃ names : Finset StreamKey, (∀ k, k ∈ names ↔ a.streams.get? k ≠ none)
      ∧ a.pending = names.card ∧ a.buffered = ∑ k ∈ names, a.held k)
    ∧ a.pending ≤ 64 ∧ a.buffered ≤ maxMessage
    ∧ ∀ f, let a' := (a.accept f).2
      a'.buffered + a.held (keyOf f) = a.buffered + a'.held (keyOf f)
      ∧ (∀ k, k ≠ keyOf f → a'.streams.get? k = a.streams.get? k)
      ∧ (∀ e, (a.accept f).1 = .error e →
        if discards e then a'.streams.get? (keyOf f) = none else a' = a)
      ∧ ∀ n, (a.accept f).1 = .error (.tooManyStreams n)
        ↔ n = 64 ∧ f.validate = .ok () ∧ f.isFragment = true
          ∧ a.streams.get? (keyOf f) = none ∧ a.pending = 64 := by
  obtain ⟨h, limit⟩ := (Balanced.empty maxMessage).used us
  refine ⟨h.exists_names, h.few, Nat.le_trans h.within (Nat.le_of_eq limit), fun f =>
    ⟨h.accounts f, fun _ other => get?_streams_accept_of_ne _ f other,
      fun _ failed => accept_error failed, fun n => accept_tooManyStreams_iff.trans ?_⟩⟩
  have few := h.few
  rw [maxOpenStreams] at few ⊢
  constructor
  · rintro ⟨rfl, valid, part, closed, many⟩
    exact ⟨rfl, valid, part, closed, Nat.le_antisymm few many⟩
  · rintro ⟨rfl, valid, part, closed, many⟩
    exact ⟨rfl, valid, part, closed, many.ge⟩

end PartitionEngine.Assembler
