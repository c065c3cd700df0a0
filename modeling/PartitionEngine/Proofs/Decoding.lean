import PartitionEngine.Channel.Basic
import PartitionEngine.Proofs.Streams

/-!
# Decoding to the end

Bytes that come from anywhere are taken for frames, one after another, until bytes are
missing or an error comes up (`Decodes`).  Every frame takes a header off, so this ends
(`decodes_decodeFrom`), and it can end in one way only (`Decodes.unique`).

What came out, written again, and what is left are the bytes that were read.  What is
left tells why there is no more (`Decodes.answer`).  So a reader that waits for bytes
holds less than a header and a payload (`length_of_starved`).
-/

namespace PartitionEngine

/-- Taking frames off a buffer until bytes are missing or an error comes up: the frames,
the error if there is one, and the buffer at the end. -/
inductive Decodes (maxPayload : Nat) :
    Bytes → List Frame → Option FrameError → Bytes → Prop where
  | starved {buffer} :
    decode maxPayload buffer = .ok none →
    Decodes maxPayload buffer [] none buffer
  | failed {buffer e} :
    decode maxPayload buffer = .error e →
    Decodes maxPayload buffer [] (some e) buffer
  | frame {buffer rest left f fs error} :
    decode maxPayload buffer = .ok (some (f, rest)) →
    Decodes maxPayload rest fs error left →
    Decodes maxPayload buffer (f :: fs) error left

variable {maxPayload : Nat} {bytes left : Bytes} {fs : List Frame} {error : Option FrameError}

/-- A bound on the number of frames that the length of the bytes allows is never reached. -/
theorem decodes_decodeFrom {bound : Nat} (enough : bytes.length < bound * headerLength) :
    Decodes maxPayload bytes (decodeFrom maxPayload bound bytes []).frames
      (decodeFrom maxPayload bound bytes []).error
      (decodeFrom maxPayload bound bytes []).rest := by
  induction bound generalizing bytes with
  | zero =>
    rw [Nat.zero_mul] at enough
    exact absurd enough (Nat.not_lt_zero _)
  | succ bound ih =>
    cases answer : decode maxPayload bytes with
    | error e =>
      simp only [decodeFrom, answer]
      exact .failed answer
    | ok got =>
      cases got with
      | none =>
        simp only [decodeFrom, answer]
        exact .starved answer
      | some got =>
        obtain ⟨f, rest⟩ := got
        have shorter := length_of_decode answer
        rw [Nat.succ_mul] at enough
        rw [decodeFrom_of_some bound answer]
        exact .frame answer (ih (by omega))

namespace Decodes

/-- The bytes decide what comes of them. -/
theorem unique {fs' : List Frame} {error' : Option FrameError} {left' : Bytes}
    (read : Decodes maxPayload bytes fs error left)
    (read' : Decodes maxPayload bytes fs' error' left') :
    fs' = fs ∧ error' = error ∧ left' = left := by
  induction read generalizing fs' with
  | starved answer =>
    cases read' with
    | starved => exact ⟨rfl, rfl, rfl⟩
    | failed answer' => cases answer.symm.trans answer'
    | frame answer' => cases answer.symm.trans answer'
  | failed answer =>
    cases read' with
    | starved answer' => cases answer.symm.trans answer'
    | failed answer' =>
      cases answer.symm.trans answer'
      exact ⟨rfl, rfl, rfl⟩
    | frame answer' => cases answer.symm.trans answer'
  | frame answer _ ih =>
    cases read' with
    | starved answer' => cases answer.symm.trans answer'
    | failed answer' => cases answer.symm.trans answer'
    | frame answer' later =>
      cases answer.symm.trans answer'
      obtain ⟨rfl, rfl, rfl⟩ := ih later
      exact ⟨rfl, rfl, rfl⟩

/-- The buffer at the end is the one that the last answer was about. -/
theorem answer (read : Decodes maxPayload bytes fs error left) :
    decode maxPayload left = error.elim (.ok none) .error := by
  induction read with
  | starved answer => exact answer
  | failed answer => exact answer
  | frame _ _ ih => exact ih

theorem error_eq_none_iff (read : Decodes maxPayload bytes fs error left) :
    error = none ↔ decode maxPayload left = .ok none := by
  rw [read.answer]
  cases error <;> simp

theorem error_eq_some_iff (read : Decodes maxPayload bytes fs error left) {e : FrameError} :
    error = some e ↔ decode maxPayload left = .error e := by
  rw [read.answer]
  cases error <;> simp

end Decodes

/-- A buffer for which bytes are missing is short. -/
theorem length_of_starved (starved : decode maxPayload bytes = .ok none) :
    bytes.length < headerLength + maxPayload := by
  obtain short | ⟨h, rest, rfl, within, short⟩ := decode_eq_none_iff.mp starved
  · exact Nat.lt_add_right _ short
  · rw [List.length_append, Header.length_encode]
    omega

/-- A channel that holds what is left says the same, and goes on holding it. -/
theorem Channel.nextMessage_of_decodes (read : Decodes maxPayload bytes fs error left)
    {c : Channel} (holds : c.unread = left) :
    c.nextMessage maxPayload = (error.elim (.ok none) .error, c) := by
  have answer := read.answer
  subst holds
  simp only [nextMessage, readMessage, answer]
  cases error <;> rfl

/-- Decoding any bytes to the end, under any limit, is exact.  It ends, in one way, with a
bound on its steps that is never reached.  The frames as they are written and the bytes
that are left are what was read, and no payload is beyond the limit.  It ends without an
error exactly if what is left lacks bytes of its header or of an admissible payload, and
with one exactly if what is left starts with a header that announces too much.  Either
way what is left stays where it is. -/
theorem decoding_exact (maxPayload : Nat) (bytes : Bytes) :
    ∃ (fs : List Frame) (error : Option FrameError) (left : Bytes),
      (∀ fs' error' left', Decodes maxPayload bytes fs' error' left'
        ↔ fs' = fs ∧ error' = error ∧ left' = left)
      ∧ (∀ bound, bytes.length < bound * headerLength →
        decodeFrom maxPayload bound bytes [] = { frames := fs, error, rest := left })
      ∧ fs.flatMap Frame.encode ++ left = bytes
      ∧ (∀ f ∈ fs, f.payload.length ≤ maxPayload)
      ∧ (error = none ↔ left.length < headerLength
        ∨ ∃ (h : Header) (rest : Bytes), left = h.encode ++ rest
          ∧ h.payloadLength.toNat ≤ maxPayload ∧ rest.length < h.payloadLength.toNat)
      ∧ (error = none → left.length < headerLength + maxPayload)
      ∧ (∀ e, error = some e ↔ ∃ (h : Header) (rest : Bytes), left = h.encode ++ rest
        ∧ maxPayload < h.payloadLength.toNat
        ∧ e = .payloadTooLarge h.payloadLength.toNat maxPayload)
      ∧ decode maxPayload left = error.elim (.ok none) .error
      ∧ ∀ c : Channel, c.unread = left →
        c.nextMessage maxPayload = (error.elim (.ok none) .error, c) := by
  have enough : bytes.length < (bytes.length / headerLength + 1) * headerLength := by
    rw [Nat.succ_mul]
    exact Nat.lt_div_mul_add (by decide)
  have read : Decodes maxPayload bytes (decodeAll maxPayload bytes).frames
      (decodeAll maxPayload bytes).error (decodeAll maxPayload bytes).rest :=
    decodes_decodeFrom enough
  obtain ⟨whole, fits⟩ := encode_decodeAll maxPayload bytes
  generalize decodeAll maxPayload bytes = d at read whole fits
  refine ⟨d.frames, d.error, d.rest, fun fs' error' left' => ⟨read.unique, ?_⟩, ?_, whole.symm,
    fun f mem => (fits f mem).1, read.error_eq_none_iff.trans decode_eq_none_iff,
    fun ended => length_of_starved (read.error_eq_none_iff.mp ended),
    fun e => read.error_eq_some_iff.trans decode_eq_error_iff, read.answer,
    fun c => Channel.nextMessage_of_decodes read⟩
  · rintro ⟨rfl, rfl, rfl⟩
    exact read
  · intro bound enough'
    obtain ⟨frames, error, rest⟩ := read.unique (decodes_decodeFrom enough')
    generalize decodeFrom maxPayload bound bytes [] = d' at frames error rest
    cases d'
    simp only at frames error rest
    rw [frames, error, rest]

end PartitionEngine
