import PartitionEngine.Proofs.Codec
import PartitionEngine.Wire.Stream

/-!
# Reading streams of frames

What comes of a stream of frames does not depend on how it is cut into pieces.
After each piece the frames that are whole are out, and what is left of the
bytes is the front of the next frame (`decodeAll_front`).  So a stream is read
without an error, and to its end, if it is what frames that fit are written as
(`decodePieces_encode`), and only then (`encode_decodePieces`).
-/

namespace PartitionEngine

variable {maxPayload : Nat}

/-! ## Reading what was written -/

/-- Taking frames off goes on where it stopped. -/
theorem decodeFrom_eq (bound : Nat) (bytes : Bytes) (done : List Frame) :
    decodeFrom maxPayload bound bytes done
      = { decodeFrom maxPayload bound bytes [] with
          frames := done.reverse ++ (decodeFrom maxPayload bound bytes []).frames } := by
  induction bound generalizing bytes done with
  | zero => simp [decodeFrom]
  | succ bound ih =>
    rw [decodeFrom, decodeFrom]
    split
    · simp
    · rename_i f rest taken
      rw [ih rest (f :: done), ih rest [f]]
      simp
    · simp

theorem decodeFrom_of_some {bytes rest : Bytes} {f : Frame} (bound : Nat)
    (taken : decode maxPayload bytes = .ok (some (f, rest))) :
    decodeFrom maxPayload (bound + 1) bytes []
      = { decodeFrom maxPayload bound rest [] with
          frames := f :: (decodeFrom maxPayload bound rest []).frames } := by
  rw [decodeFrom, taken]
  exact decodeFrom_eq bound rest [f]

/-- Of the front of a stream the frames that are whole are taken off.  Bytes are missing
for the next one. -/
theorem decodeFrom_front {fs : List Frame} (fit : ∀ f ∈ fs, f.Fits maxPayload)
    {bytes more : Bytes} (stream : bytes ++ more = fs.flatMap Frame.encode) {bound : Nat}
    (enough : bytes.length < bound * headerLength) :
    ∃ out later left, fs = out ++ later
      ∧ decodeFrom maxPayload bound bytes [] = { frames := out, rest := left }
      ∧ left ++ more = later.flatMap Frame.encode ∧ decode maxPayload left = .ok none := by
  induction fs generalizing bytes bound with
  | nil =>
    obtain ⟨rfl, -⟩ := List.append_eq_nil_iff.mp stream
    refine ⟨[], [], [], rfl, ?_, stream, rfl⟩
    cases bound <;> rfl
  | cons f fs ih =>
    obtain ⟨bound, rfl⟩ : ∃ n, bound = n + 1 :=
      ⟨bound - 1, by cases bound <;> simp at enough ⊢⟩
    have whole : decode maxPayload (bytes ++ more) = .ok (some (f, fs.flatMap Frame.encode)) := by
      rw [stream]
      exact decode_encode (fit f List.mem_cons_self) _
    cases taken : decode maxPayload bytes with
    | error e =>
      cases (decode_append_error taken more).symm.trans whole
    | ok got =>
      cases got with
      | none =>
        refine ⟨[], f :: fs, bytes, rfl, ?_, stream, taken⟩
        rw [decodeFrom, taken]
        rfl
      | some got =>
        obtain ⟨g, rest⟩ := got
        obtain ⟨rfl, rest_stream⟩ : g = f ∧ rest ++ more = fs.flatMap Frame.encode := by
          have same := (decode_append taken more).symm.trans whole
          injection same with same
          injection same with same
          exact Prod.mk.inj same
        have shorter := length_of_decode taken
        obtain ⟨out, later, left, rfl, frames, later_stream, starved⟩ :=
          ih (fun f mem => fit f (List.mem_cons_of_mem _ mem)) rest_stream
            (by rw [Nat.add_mul] at enough; omega : rest.length < bound * headerLength)
        refine ⟨g :: out, later, left, rfl, ?_, later_stream, starved⟩
        rw [decodeFrom_of_some bound taken, frames]

theorem decodeAll_front {fs : List Frame} (fit : ∀ f ∈ fs, f.Fits maxPayload)
    {bytes more : Bytes} (stream : bytes ++ more = fs.flatMap Frame.encode) :
    ∃ out later left, fs = out ++ later
      ∧ decodeAll maxPayload bytes = { frames := out, rest := left }
      ∧ left ++ more = later.flatMap Frame.encode ∧ decode maxPayload left = .ok none :=
  decodeFrom_front fit stream (by
    rw [Nat.add_mul, Nat.one_mul]
    exact Nat.lt_div_mul_add (by decide : 0 < headerLength))

/-- No frame can be taken off nothing, and a stream of which nothing is left is at its end. -/
theorem eq_nil_of_starved {fs : List Frame} (fit : ∀ f ∈ fs, f.Fits maxPayload)
    (starved : decode maxPayload (fs.flatMap Frame.encode) = .ok none) : fs = [] := by
  cases fs with
  | nil => rfl
  | cons f fs =>
    rw [List.flatMap_cons, decode_encode (fit f List.mem_cons_self)] at starved
    cases starved

/-- A whole stream is taken off at once. -/
theorem decodeAll_encode {fs : List Frame} (fit : ∀ f ∈ fs, f.Fits maxPayload) :
    decodeAll maxPayload (fs.flatMap Frame.encode) = { frames := fs, rest := [] } := by
  obtain ⟨out, later, left, rfl, frames, stream, starved⟩ :=
    decodeAll_front fit (List.append_nil _)
  rw [List.append_nil] at stream
  subst stream
  obtain rfl := eq_nil_of_starved (fun f mem => fit f (List.mem_append_right _ mem)) starved
  rw [frames, List.append_nil]
  rfl

theorem decodePieces_encode {fs : List Frame} (fit : ∀ f ∈ fs, f.Fits maxPayload)
    {buffer : Bytes} {pieces : List Bytes} (starved : decode maxPayload buffer = .ok none)
    (stream : buffer ++ pieces.flatten = fs.flatMap Frame.encode) :
    decodePieces maxPayload buffer pieces = { frames := fs, rest := [] } := by
  induction pieces generalizing buffer fs with
  | nil =>
    rw [List.flatten_nil, List.append_nil] at stream
    subst stream
    obtain rfl := eq_nil_of_starved fit starved
    rfl
  | cons piece pieces ih =>
    rw [List.flatten_cons, ← List.append_assoc] at stream
    obtain ⟨out, later, left, rfl, frames, later_stream, starved⟩ := decodeAll_front fit stream
    have rest := ih (fun f mem => fit f (List.mem_append_right _ mem)) starved later_stream
    simp only [decodePieces, frames, rest]

/-! ## Only what was written is read -/

theorem encode_decodeFrom (maxPayload bound : Nat) (bytes : Bytes) :
    bytes = (decodeFrom maxPayload bound bytes []).frames.flatMap Frame.encode
        ++ (decodeFrom maxPayload bound bytes []).rest
      ∧ ∀ f ∈ (decodeFrom maxPayload bound bytes []).frames, f.Fits maxPayload := by
  induction bound generalizing bytes with
  | zero => simp [decodeFrom]
  | succ bound ih =>
    cases taken : decode maxPayload bytes with
    | error e => simp [decodeFrom, taken]
    | ok got =>
      cases got with
      | none => simp [decodeFrom, taken]
      | some got =>
        obtain ⟨f, rest⟩ := got
        obtain ⟨whole, fits⟩ := decode_eq_some_iff.mp taken
        obtain ⟨later, fit⟩ := ih rest
        rw [decodeFrom_of_some bound taken]
        refine ⟨?_, List.forall_mem_cons.mpr ⟨fits, fit⟩⟩
        rw [List.flatMap_cons, List.append_assoc, ← later]
        exact whole

theorem encode_decodeAll (maxPayload : Nat) (bytes : Bytes) :
    bytes = (decodeAll maxPayload bytes).frames.flatMap Frame.encode
        ++ (decodeAll maxPayload bytes).rest
      ∧ ∀ f ∈ (decodeAll maxPayload bytes).frames, f.Fits maxPayload :=
  encode_decodeFrom maxPayload _ bytes

/-- The frames that come out and the bytes that are left make up what was read. -/
theorem encode_decodePieces (maxPayload : Nat) (buffer : Bytes) (pieces : List Bytes)
    (sound : (decodePieces maxPayload buffer pieces).error = none) :
    buffer ++ pieces.flatten
        = (decodePieces maxPayload buffer pieces).frames.flatMap Frame.encode
          ++ (decodePieces maxPayload buffer pieces).rest
      ∧ ∀ f ∈ (decodePieces maxPayload buffer pieces).frames, f.Fits maxPayload := by
  induction pieces generalizing buffer with
  | nil => simp [decodePieces]
  | cons piece pieces ih =>
    obtain ⟨now, fitsNow⟩ := encode_decodeAll maxPayload (buffer ++ piece)
    simp only [decodePieces] at sound ⊢
    generalize decodeAll maxPayload (buffer ++ piece) = d at now fitsNow sound ⊢
    cases failed : d.error with
    | some e =>
      rw [failed] at sound
      cases failed.symm.trans sound
    | none =>
      rw [failed] at sound
      obtain ⟨later, fitsLater⟩ := ih d.rest sound
      refine ⟨?_, fun f mem => (List.mem_append.mp mem).elim (fitsNow f) (fitsLater f)⟩
      rw [List.flatten_cons, ← List.append_assoc, now, List.append_assoc, later,
        List.flatMap_append, List.append_assoc]

/-! ## Round trip -/

/-- Frames come out of a stream, in order, without an error and with nothing left, exactly
if they fit and the stream is what they are written as.  How the stream is cut into
pieces does not matter. -/
theorem decodePieces_eq_iff (maxPayload : Nat) (fs : List Frame) (pieces : List Bytes) :
    decodePieces maxPayload [] pieces = { frames := fs, rest := [] }
      ↔ (∀ f ∈ fs, f.payload.length ≤ maxPayload ∧ f.payload.length < 2 ^ 32)
        ∧ pieces.flatten = fs.flatMap Frame.encode := by
  constructor
  · intro read
    have sound := encode_decodePieces maxPayload [] pieces (by rw [read])
    rw [read] at sound
    obtain ⟨stream, fit⟩ := sound
    exact ⟨fit, by simpa using stream⟩
  · rintro ⟨fit, stream⟩
    exact decodePieces_encode fit rfl stream

end PartitionEngine
