import PartitionEngine.Proofs.Arrivals
import PartitionEngine.Proofs.Messages

/-!
# Reading the messages of a wire

The bytes of whole messages, one after the other, are read message by message.  A request
that fits into the limit comes out as it was.  A response may be longer than the limit.
Then some of its parts are refused, but the stream goes on, and what comes out of it is a
response (`exists_reads_message`).  So the requests that are read are those that were
written (`exists_reads_wire`), and what is read of the front of a wire is a front of them
(`requestsOf_messagesOf_prefix`).
-/

namespace PartitionEngine

/-- What may come of a part of a message: an error that the stream survives, or a message
in the same direction. -/
def Frame.Yields (f : Frame) : Except FrameError (Option Frame) → Prop
  | .ok none => True
  | .ok (some m) => m.isResponse = f.isResponse
  | .error e => e.corruptsStream = false

namespace Assembler

variable {maxMessage : Nat} {f : Frame} {a : Assembler}

/-- An assembler that holds parts of one message at most. -/
def Alone (maxMessage : Nat) (f : Frame) (a : Assembler) : Prop :=
  a = { maxMessage } ∨ ∃ parts, a = holding maxMessage (keyOf f) (f.partial parts)

/-- A part of the only message is added to it, or it is thrown away with the others. -/
theorem Alone.accept (plain : f.Plain) (alone : Alone maxMessage f a) (isLast : Bool)
    (payload : Bytes) : ∃ result a', a.accept (f.part isLast payload) = (result, a')
      ∧ f.Yields result ∧ Alone maxMessage f a' ∧ (isLast = true → a' = { maxMessage }) := by
  obtain ⟨valid, fragment, -, -, flags⟩ := plain.part isLast payload
  have opened : PartialMessage.ofFirst (f.part isLast payload) = f.partial [] := by
    rw [PartialMessage.ofFirst, flags]
    rfl
  -- Either way the part is added to what is held, which may be nothing.
  obtain ⟨parts, limit, buffered, only, taken, dropped⟩ : ∃ parts, a.maxMessage = maxMessage
      ∧ a.buffered = (f.partial parts).length ∧ (a.streams.erase (keyOf f)).entries = []
      ∧ a.accept (f.part isLast payload) = a.acceptPart (f.part isLast payload) (f.partial parts)
      ∧ a.discard (keyOf f) = { maxMessage } := by
    rcases alone with rfl | ⟨parts, rfl⟩
    · refine ⟨[], rfl, rfl, rfl, ?_, rfl⟩
      rw [Assembler.accept, valid]
      simp only [fragment, Bool.not_true, Bool.false_eq_true, ↓reduceIte, Assoc.get?_empty, opened]
      rfl
    · refine ⟨parts, rfl, rfl, by simp [holding, Assoc.entries_erase], ?_, discard_holding _ _ _⟩
      have found : (holding maxMessage (keyOf f) (f.partial parts)).streams.get?
          (keyOf (f.part isLast payload)) = some (f.partial parts) := by
        rw [keyOf_part plain]
        simp [holding, Assoc.get?]
      rw [Assembler.accept, valid]
      simp only [fragment, Bool.not_true, Bool.false_eq_true, ↓reduceIte, found]
  by_cases room : (f.partial parts).length + payload.length ≤ maxMessage
  · have added := acceptPart_part plain isLast limit buffered only room
    rw [taken, added]
    cases isLast with
    | true => exact ⟨_, _, rfl, rfl, .inl rfl, fun _ => rfl⟩
    | false => exact ⟨_, _, rfl, trivial, .inr ⟨_, rfl⟩, fun last => by cases last⟩
  · have same : ¬ ((f.partial parts).opcode ≠ (f.part isLast payload).opcode ∨
        (f.partial parts).partition ≠ (f.part isLast payload).partition) := by
      simp [Frame.partial, Frame.part]
    have beyond : maxMessage < a.buffered + (f.part isLast payload).payload.length := by
      rw [buffered]
      exact Nat.lt_of_not_le room
    refine ⟨.error (.messageTooLarge f.correlationId maxMessage), { maxMessage }, ?_, rfl, .inl rfl,
      fun _ => rfl⟩
    rw [taken]
    simp only [acceptPart, if_neg same, keyOf_part plain, dropped, limit, if_pos beyond]
    rfl

end Assembler

/-! ## Messages -/

section

variable {maxPayload maxMessage threshold : Nat} {f : Frame}

/-- One more frame is read. -/
theorem Reads.frame {a a' a'' : Assembler} {g : Frame} {rest left : Bytes}
    {result : Except FrameError (Option Frame)} {rs : List (Except FrameError Frame)}
    (fits : g.Fits maxPayload) (accepted : a.accept g = (result, a')) (yields : f.Yields result)
    (later : Reads maxPayload a' rest rs false a'' left)
    (same : ∀ m ∈ messagesOf rs, m.isResponse = f.isResponse) :
    ∃ rs', Reads maxPayload a (g.encode ++ rest) rs' false a'' left
      ∧ ∀ m ∈ messagesOf rs', m.isResponse = f.isResponse := by
  have taken := decode_encode fits rest
  cases result with
  | error e => exact ⟨.error e :: rs, .refused taken accepted yields later, same⟩
  | ok message =>
    cases message with
    | none => exact ⟨rs, .part taken accepted later, same⟩
    | some m =>
      refine ⟨.ok m :: rs, .message taken accepted later, fun m' mem => ?_⟩
      rcases List.mem_cons.mp mem with rfl | mem
      · exact yields
      · exact same m' mem

/-- After the last part nothing is held. -/
theorem exists_reads_parts (plain : f.Plain) (last : Bytes) {firsts : List Bytes}
    (fits : ∀ p ∈ firsts ++ [last], p.length ≤ maxPayload ∧ p.length < 2 ^ 32) {a : Assembler}
    (alone : a.Alone maxMessage f) : ∃ rs, Reads maxPayload a
      ((firsts.map (f.part false) ++ [f.part true last]).flatMap Frame.encode) rs false
      { maxMessage } [] ∧ ∀ m ∈ messagesOf rs, m.isResponse = f.isResponse := by
  induction firsts generalizing a with
  | nil =>
    obtain ⟨result, a', accepted, yields, -, done⟩ := alone.accept plain true last
    cases done rfl
    have ended : Reads maxPayload { maxMessage } [] [] false { maxMessage } [] := .starved rfl
    exact Reads.frame (g := f.part true last) (fits last (by simp)) accepted yields ended
      (List.forall_mem_nil _)
  | cons p rest ih =>
    obtain ⟨result, a', accepted, yields, alone', -⟩ := alone.accept plain false p
    obtain ⟨rs, later, same⟩ := ih (fun q mem => fits q (by simp at mem ⊢; tauto)) alone'
    rw [List.map_cons, List.cons_append, List.flatMap_cons]
    exact Reads.frame (g := f.part false p) (fits p (by simp)) accepted yields later same

/-- A message is read to its end, however long it is, and what comes out goes in its
direction. -/
theorem exists_reads_message (plain : f.Plain) (frames : max threshold 1 ≤ maxPayload)
    (width : threshold < 2 ^ 32) : ∃ rs, Reads maxPayload { maxMessage } (f.encodeMessage threshold)
      rs false { maxMessage } [] ∧ ∀ m ∈ messagesOf rs, m.isResponse = f.isResponse := by
  by_cases short : f.payload.length ≤ max threshold 1
  · rw [Frame.encodeMessage, Frame.parts_of_short short, List.flatMap_cons, List.flatMap_nil]
    exact Reads.frame ⟨by omega, by omega⟩ (plain.accept _) rfl (.starved rfl)
      (List.forall_mem_nil _)
  · obtain ⟨firsts, last, parts, -, each, -⟩ := Frame.parts_of_long (Nat.lt_of_not_le short)
    have fits : ∀ p ∈ firsts ++ [last], p.length ≤ maxPayload ∧ p.length < 2 ^ 32 := by
      intro p mem
      obtain ⟨-, size⟩ := each p mem
      exact ⟨by omega, by omega⟩
    rw [Frame.encodeMessage, parts]
    exact exists_reads_parts plain last fits (.inl rfl)

/-! ## Wires -/

/-- The requests that are read off a wire are those that were written, if they fit into the
limit. -/
theorem exists_reads_wire (frames : max threshold 1 ≤ maxPayload) (width : threshold < 2 ^ 32)
    {ms : List Frame} (plain : ∀ m ∈ ms, m.Plain)
    (room : ∀ m ∈ requestsOf ms, m.payload.length ≤ maxMessage) :
    ∃ rs, Reads maxPayload { maxMessage } (wire threshold ms) rs false { maxMessage } []
      ∧ requestsOf (messagesOf rs) = requestsOf ms := by
  induction ms with
  | nil => exact ⟨[], .starved rfl, rfl⟩
  | cons m ms ih =>
    have split : requestsOf (m :: ms) = requestsOf [m] ++ requestsOf ms :=
      requestsOf_append [m] ms
    obtain ⟨later, reads', requests'⟩ := ih (fun m mem => plain m (List.mem_cons_of_mem _ mem))
      fun m mem => room m (split ▸ List.mem_append_right _ mem)
    obtain ⟨first, reads, requests⟩ : ∃ rs, Reads maxPayload { maxMessage }
        (m.encodeMessage threshold) rs false { maxMessage } []
          ∧ requestsOf (messagesOf rs) = requestsOf [m] := by
      have plain := plain m List.mem_cons_self
      cases response : m.isResponse with
      | false =>
        have own : m ∈ requestsOf (m :: ms) := by simp [requestsOf, response]
        exact ⟨[.ok m], reads_encodeMessage plain frames width (room m own), rfl⟩
      | true =>
        obtain ⟨rs, reads, same⟩ : ∃ rs, Reads maxPayload { maxMessage } (m.encodeMessage threshold)
            rs false { maxMessage } [] ∧ ∀ r ∈ messagesOf rs, r.isResponse = m.isResponse :=
          exists_reads_message plain frames width
        refine ⟨rs, reads, ?_⟩
        have none : requestsOf (messagesOf rs) = [] := by
          simp only [requestsOf, List.filter_eq_nil_iff]
          intro r mem
          simp [same r mem, response]
        rw [none]
        simp [requestsOf, response]
    refine ⟨first ++ later, reads.append reads', ?_⟩
    rw [requestsOf_messagesOf_append, requests, requests', ← split]

/-- What is read of a front is a front of what is read. -/
theorem requestsOf_messagesOf_prefix {a a₁ a₂ : Assembler} {front bytes left₁ left₂ : Bytes}
    {lost₁ lost₂ : Bool} {rs₁ rs₂ : List (Except FrameError Frame)} (prior : front <+: bytes)
    (some : Reads maxPayload a front rs₁ lost₁ a₁ left₁)
    (all : Reads maxPayload a bytes rs₂ lost₂ a₂ left₂) :
    requestsOf (messagesOf rs₁) <+: requestsOf (messagesOf rs₂) := by
  obtain ⟨more, rfl⟩ := prior
  obtain ⟨rs, lost, a', left, reads⟩ := some.exists_more more
  obtain ⟨rfl, -⟩ := reads.unique all
  exact ⟨_, (requestsOf_messagesOf_append rs₁ rs).symm⟩

end

end PartitionEngine
