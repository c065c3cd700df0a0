import PartitionEngine.Wire.Assembler
import Mathlib.Algebra.BigOperators.Group.List.Basic
import Mathlib.Data.List.Induction

/-!
# What a reassembled message carries

Frames are fed to a fresh assembler one after another.  The parts of one key fall
into *runs*, each ending at its final part.  `openRun` is the run that is under
way after some frames.  The assembler does not keep runs.  It keeps, for each key,
the parts it took since it last gave the stream up, whether by completing it or by
an error.  `kept` reads these parts off the frames and their results, and
`get?_streams_after` says that the open streams are exactly what is kept.

An error that discards a stream is forgotten at once.  The parts that follow open
the stream again, and the final part completes what they amount to.
`message_carries_run_iff` says when a part completes a message, and that the
message carries its whole run exactly if no part of the run was refused.
`partial_message_comes_out` is a run of which only the last part comes out.
-/

namespace PartitionEngine

theorem PartialMessage.payload_append (m : PartialMessage) (part : Bytes) :
    (m.append part).payload = m.payload ++ part := by
  simp [append, payload]

theorem PartialMessage.length_payload (m : PartialMessage) : m.payload.length = m.length := by
  simp [length, payload, ← List.sum_eq_foldl, List.sum_reverse]

theorem PartialMessage.length_append (m : PartialMessage) (part : Bytes) :
    (m.append part).length = m.length + part.length := by
  rw [← length_payload, payload_append, List.length_append, length_payload]

namespace Assembler

/-! ## Feeding frames -/

/-- A frame that was fed, with what came of it. -/
structure Receipt where
  frame : Frame
  result : Except FrameError (Option Frame)

namespace Receipt

/-- Whether the frame is a part of the message under a key. -/
def isPartOf (r : Receipt) (key : StreamKey) : Bool := r.frame.isFragment && keyOf r.frame = key

/-- Whether the frame was taken. -/
def isTaken (r : Receipt) : Bool := r.result.isOk

end Receipt

/-- The assembler after some frames. -/
def after (a : Assembler) (fs : List Frame) : Assembler := fs.foldl (fun a f => (a.accept f).2) a

/-- The frames with their results, in order. -/
def receipts (a : Assembler) : List Frame → List Receipt
  | [] => []
  | f :: rest => ⟨f, (a.accept f).1⟩ :: receipts (a.accept f).2 rest

theorem after_concat (a : Assembler) (fs : List Frame) (f : Frame) :
    a.after (fs ++ [f]) = ((a.after fs).accept f).2 := by
  simp [after]

theorem receipts_concat (a : Assembler) (fs : List Frame) (f : Frame) :
    a.receipts (fs ++ [f]) = a.receipts fs ++ [⟨f, ((a.after fs).accept f).1⟩] := by
  induction fs generalizing a with
  | nil => rfl
  | cons g rest ih => simpa [receipts, after] using ih (a.accept g).2

/-! ## Runs, and what is kept of them -/

/-- The run under way once one more frame has come. -/
def extendRun (key : StreamKey) (run : List Receipt) (r : Receipt) : List Receipt :=
  if r.isPartOf key then if r.frame.isFinal then [] else run ++ [r] else run

/-- The parts under a key since its last final part. -/
def openRun (key : StreamKey) (rs : List Receipt) : List Receipt := rs.foldl (extendRun key) []

/-- The errors that take a stream away. -/
def discards : FrameError → Bool
  | .fragmentMismatch _ | .messageTooLarge .. => true
  | _ => false

/-- The parts kept once one more frame has come.  A message that is complete is
given out, and the two errors of parts that do not fit discard the stream. -/
def extendKept (key : StreamKey) (kept : List Receipt) (r : Receipt) : List Receipt :=
  if r.isPartOf key then
    match r.result with
    | .ok none => kept ++ [r]
    | .ok (some _) => []
    | .error e => if discards e then [] else kept
  else kept

/-- The parts under a key that were taken since the stream was last given up. -/
def kept (key : StreamKey) (rs : List Receipt) : List Receipt := rs.foldl (extendKept key) []

theorem openRun_concat (key : StreamKey) (rs : List Receipt) (r : Receipt) :
    openRun key (rs ++ [r]) = extendRun key (openRun key rs) r := by
  simp [openRun]

theorem kept_concat (key : StreamKey) (rs : List Receipt) (r : Receipt) :
    kept key (rs ++ [r]) = extendKept key (kept key rs) r := by
  simp [kept]

/-- The payloads of parts, in order. -/
def payloadOf (rs : List Receipt) : Bytes := (rs.map fun r => r.frame.payload).flatten

/-- The stream that holds some parts.  There is none without parts. -/
def streamOf : List Receipt → Option PartialMessage
  | [] => none
  | first :: rest =>
    some ((first :: rest).foldl (fun m r => m.append r.frame.payload) (.ofFirst first.frame))

theorem streamOf_concat (rs : List Receipt) (r : Receipt) :
    streamOf (rs ++ [r]) = some (((streamOf rs).getD (.ofFirst r.frame)).append r.frame.payload) := by
  cases rs with
  | nil => rfl
  | cons first rest => simp [streamOf]

/-- Appending parts leaves the opcode, the partition and the flags of the first. -/
theorem foldl_append_eq (m : PartialMessage) (rs : List Receipt) :
    rs.foldl (fun m r => m.append r.frame.payload) m
      = { m with parts := (rs.map fun r => r.frame.payload).reverse ++ m.parts } := by
  induction rs generalizing m with
  | nil => rfl
  | cons r rest ih =>
    rw [List.foldl_cons, ih]
    simp [PartialMessage.append]

theorem payload_streamOf {rs : List Receipt} {m : PartialMessage} (h : streamOf rs = some m) :
    m.payload = payloadOf rs := by
  cases rs with
  | nil => cases h
  | cons first rest =>
    simp only [streamOf, foldl_append_eq, Option.some.injEq] at h
    subst h
    simp [PartialMessage.payload, PartialMessage.ofFirst, payloadOf]

/-! ## What one frame does to the streams -/

theorem get?_streams_discard (a : Assembler) (key k : StreamKey) :
    (a.discard key).streams.get? k = if k = key then none else a.streams.get? k := by
  simp only [discard]
  cases held : a.streams.get? key with
  | none =>
    by_cases same : k = key
    · simp [same, held]
    · simp [same]
  | some m => simp [Assoc.get?_erase]

/-- A part that is taken is appended to its stream.  Whatever else comes of a part
that is fit to be looked at closes the stream. -/
theorem get?_streams_acceptPart (a : Assembler) (f : Frame) (m : PartialMessage) (k : StreamKey) :
    (a.acceptPart f m).2.streams.get? k =
      if k = keyOf f then
        match (a.acceptPart f m).1 with
        | .ok none => some (m.append f.payload)
        | _ => none
      else a.streams.get? k := by
  simp only [acceptPart]
  split
  · simp [get?_streams_discard]
  · split
    · simp [get?_streams_discard]
    · split
      · by_cases same : k = keyOf f
        · simp [get?_streams_discard, same]
        · simp [get?_streams_discard, same, Assoc.get?_insert]
      · simp [Assoc.get?_insert]

/-- The errors of a part that is fit to be looked at. -/
theorem acceptPart_error {a : Assembler} {f : Frame} {m : PartialMessage} {e : FrameError}
    (h : (a.acceptPart f m).1 = .error e) :
    e = .fragmentMismatch f.correlationId ∨ e = .messageTooLarge f.correlationId a.maxMessage := by
  simp only [acceptPart] at h
  split at h
  · exact .inl (Except.error.inj h).symm
  · split at h
    · exact .inr (Except.error.inj h).symm
    · split at h <;> cases h

/-- A frame that is no part leaves the assembler as it is. -/
theorem accept_of_not_isFragment {a : Assembler} {f : Frame} (h : f.isFragment = false) :
    (a.accept f).2 = a := by
  simp only [accept]
  split
  · rfl
  · rw [h]
    by_cases final : f.isFinal = true
    · simp [final]
    · simp [final]

/-- The stream of a key after one more frame.  Only a part under the key changes
it.  An error for its flags, or for the number of open streams, leaves it. -/
theorem get?_streams_accept (a : Assembler) (f : Frame) (k : StreamKey) :
    (a.accept f).2.streams.get? k =
      if f.isFragment && keyOf f = k then
        match (a.accept f).1 with
        | .ok none => some (((a.streams.get? k).getD (.ofFirst f)).append f.payload)
        | .ok (some _) => none
        | .error e => if discards e then none else a.streams.get? k
      else a.streams.get? k := by
  cases part : f.isFragment with
  | false => simp [accept_of_not_isFragment part]
  | true =>
    by_cases reserved : f.flags &&& ~~~Flag.known = 0
    · have looked (m : PartialMessage) (hm : (a.streams.get? (keyOf f)).getD (.ofFirst f) = m) :
          (a.acceptPart f m).2.streams.get? k =
            if keyOf f = k then
              match (a.acceptPart f m).1 with
              | .ok none => some (((a.streams.get? k).getD (.ofFirst f)).append f.payload)
              | .ok (some _) => none
              | .error e => if discards e then none else a.streams.get? k
            else a.streams.get? k := by
        rw [get?_streams_acceptPart]
        by_cases same : keyOf f = k
        · subst same
          rw [if_pos rfl, if_pos rfl, hm]
          cases result : (a.acceptPart f m).1 with
          | ok given => cases given <;> rfl
          | error e =>
            rcases acceptPart_error result with rfl | rfl
            · simp [discards]
            · simp [discards]
        · rw [if_neg same, if_neg (Ne.symm same)]
      simp only [accept, Frame.validate]
      simp only [reserved, part, ↓reduceIte, Bool.not_true, Bool.false_eq_true, Bool.true_and,
        decide_eq_true_eq]
      cases held : a.streams.get? (keyOf f) with
      | some m => exact looked m (by simp [held])
      | none =>
        by_cases full : maxOpenStreams ≤ a.pending
        · simp [full, discards]
        · simpa [full] using looked (.ofFirst f) (by simp [held])
    · simp only [accept, Frame.validate]
      simp [reserved, discards]

/-- The open streams are what is kept of the frames fed. -/
theorem get?_streams_after (maxMessage : Nat) (fs : List Frame) (key : StreamKey) :
    (after { maxMessage } fs).streams.get? key
      = streamOf (kept key (receipts { maxMessage } fs)) := by
  induction fs using List.reverseRecOn with
  | nil => rfl
  | append_singleton fs f ih =>
    rw [after_concat, receipts_concat, get?_streams_accept, kept_concat, extendKept, ih]
    show (if Receipt.isPartOf ⟨f, ((after { maxMessage } fs).accept f).1⟩ key then _ else _) = _
    split
    · cases ((after { maxMessage } fs).accept f).1 with
      | ok given =>
        cases given with
        | none => exact (streamOf_concat (kept key _) ⟨f, .ok none⟩).symm
        | some m => rfl
      | error e =>
        cases gone : discards e with
        | true => simp [gone, streamOf]
        | false => simp [gone]
    · rfl

/-! ## When a part completes a message -/

/-- What a part has to fit: the opcode and the partition of the first part kept,
or the number of open streams if none is kept, and the limit for bytes. -/
def Fits (a : Assembler) (kept : List Receipt) (f : Frame) : Prop :=
  (match kept with
    | [] => a.pending < maxOpenStreams
    | first :: _ => first.frame.opcode = f.opcode ∧ first.frame.partition = f.partition)
  ∧ a.buffered + f.payload.length ≤ a.maxMessage

theorem acceptPart_eq_some_iff {a : Assembler} {f : Frame} {m : PartialMessage} {out : Frame} :
    (a.acceptPart f m).1 = .ok (some out) ↔
      m.opcode = f.opcode ∧ m.partition = f.partition
      ∧ a.buffered + f.payload.length ≤ a.maxMessage ∧ f.isFinal = true
      ∧ out = { opcode := m.opcode, correlationId := f.correlationId, partition := m.partition,
                flags := m.flags, payload := (m.append f.payload).payload } := by
  simp only [acceptPart]
  split
  · rename_i changed
    simp only [reduceCtorEq, false_iff]
    rintro ⟨opcode, partition, -⟩
    rcases changed with other | other
    · exact other opcode
    · exact other partition
  · rename_i same
    rw [not_or, not_not, not_not] at same
    split
    · rename_i large
      simp only [reduceCtorEq, false_iff]
      rintro ⟨-, -, room, -⟩
      omega
    · rename_i room
      split
      · rename_i final
        simp only [same, final, Nat.not_lt.mp room, true_and, Except.ok.injEq, Option.some.injEq,
          PartialMessage.append]
        exact eq_comm
      · rename_i more
        simp [more]

/-- A part goes to the message it belongs to, or opens one. -/
theorem accept_of_isFragment {a : Assembler} {f : Frame} (part : f.isFragment = true)
    (valid : f.validate = .ok ()) :
    a.accept f =
      match a.streams.get? (keyOf f) with
      | some m => a.acceptPart f m
      | none =>
        if maxOpenStreams ≤ a.pending then (.error (.tooManyStreams maxOpenStreams), a)
        else a.acceptPart f (.ofFirst f) := by
  simp only [accept]
  rw [valid, part]
  rfl

/-- A part completes a message exactly if it is the last one and fits.  Whether a
part before it was refused does not matter. -/
theorem accept_eq_some_iff {a : Assembler} {f : Frame} (part : f.isFragment = true)
    {held : List Receipt} (open' : a.streams.get? (keyOf f) = streamOf held) :
    (∃ m, (a.accept f).1 = .ok (some m)) ↔
      f.validate = .ok () ∧ f.isFinal = true ∧ a.Fits held f := by
  cases valid : f.validate with
  | error e => simp [accept, valid]
  | ok _ =>
    rw [accept_of_isFragment part valid, open']
    cases held with
    | nil =>
      by_cases full : maxOpenStreams ≤ a.pending
      · simp [streamOf, Fits, full, Nat.not_lt.mpr full]
      · simp [streamOf, Fits, full, Nat.not_le.mp full, acceptPart_eq_some_iff,
          PartialMessage.ofFirst, and_comm]
    | cons first rest =>
      simp only [streamOf, foldl_append_eq, acceptPart_eq_some_iff, exists_and_left,
        exists_eq, and_true, Fits, PartialMessage.ofFirst, true_and]
      tauto

/-- A message that a part completes carries what is kept and the part itself. -/
theorem payload_of_accept {a : Assembler} {f m : Frame} (part : f.isFragment = true)
    {held : List Receipt} (open' : a.streams.get? (keyOf f) = streamOf held)
    (given : (a.accept f).1 = .ok (some m)) : m.payload = payloadOf held ++ f.payload := by
  have valid : f.validate = .ok () := ((accept_eq_some_iff part open').mp ⟨m, given⟩).1
  rw [accept_of_isFragment part valid, open'] at given
  cases stream : streamOf held with
  | some first =>
    rw [stream] at given
    obtain ⟨-, -, -, -, rfl⟩ := acceptPart_eq_some_iff.mp given
    exact (PartialMessage.payload_append _ _).trans (by rw [payload_streamOf stream])
  | none =>
    have empty : held = [] := by
      cases held with
      | nil => rfl
      | cons first rest => cases stream
    rw [stream] at given
    simp only at given
    split at given
    · cases given
    · obtain ⟨-, -, -, -, rfl⟩ := acceptPart_eq_some_iff.mp given
      subst empty
      exact PartialMessage.payload_append _ _

/-- Only a last part completes a message. -/
theorem isFinal_of_accept {a : Assembler} {f m : Frame} (part : f.isFragment = true)
    (given : (a.accept f).1 = .ok (some m)) : f.isFinal = true := by
  cases valid : f.validate with
  | error e => simp [accept, valid] at given
  | ok _ =>
    rw [accept_of_isFragment part valid] at given
    split at given
    · exact (acceptPart_eq_some_iff.mp given).2.2.2.1
    · split at given
      · cases given
      · exact (acceptPart_eq_some_iff.mp given).2.2.2.1

/-! ## Runs that come out whole -/

/-- Everything kept was taken. -/
theorem isTaken_of_mem_kept {key : StreamKey} {rs : List Receipt} {r : Receipt}
    (h : r ∈ kept key rs) : r.isTaken = true := by
  induction rs using List.reverseRecOn with
  | nil => cases h
  | append_singleton rs last ih =>
    rw [kept_concat, extendKept] at h
    split at h
    · split at h
      · rename_i taken
        rcases List.mem_append.mp h with earlier | here
        · exact ih earlier
        · rw [List.mem_singleton.mp here, Receipt.isTaken, taken]
          rfl
      · cases h
      · split at h
        · cases h
        · exact ih h
    · exact ih h

/-- A run under way is kept to its last part exactly if all of it was taken. -/
theorem openRun_isSuffix_iff (maxMessage : Nat) (fs : List Frame) (key : StreamKey) :
    openRun key (receipts { maxMessage } fs) <:+ kept key (receipts { maxMessage } fs)
      ↔ ∀ r ∈ openRun key (receipts { maxMessage } fs), r.isTaken = true := by
  constructor
  · intro suffix r mem
    exact isTaken_of_mem_kept (suffix.mem mem)
  · induction fs using List.reverseRecOn with
    | nil => exact fun _ => List.suffix_refl _
    | append_singleton fs f ih =>
      rw [receipts_concat, openRun_concat, kept_concat]
      simp only [extendRun, extendKept]
      split
      · rename_i part
        split
        · exact fun _ => List.nil_suffix
        · rename_i more
          intro taken
          have last := taken _ (List.mem_append_right _ (List.mem_singleton_self _))
          have earlier := ih fun r mem => taken r (List.mem_append_left _ mem)
          cases result : ((after { maxMessage } fs).accept f).1 with
          | error e => simp [Receipt.isTaken, result, Except.isOk, Except.toBool] at last
          | ok given =>
            cases given with
            | none =>
              obtain ⟨before, whole⟩ := earlier
              exact ⟨before, by rw [← whole, List.append_assoc]⟩
            | some m =>
              -- only a last part completes a message, and this one is not the last
              have fragment : f.isFragment = true := by
                simp only [Receipt.isPartOf, Bool.and_eq_true] at part
                exact part.1
              exact absurd (isFinal_of_accept fragment result) more
      · exact ih

/-- A last part completes a message exactly if it is sound and fits what is kept.
The message carries what is kept and that part.  This is the whole run exactly if
no part of the run was refused. -/
theorem message_carries_run_iff (maxMessage : Nat) (fs : List Frame) (f : Frame)
    (part : f.isFragment = true) :
    (∀ m, ((after { maxMessage } fs).accept f).1 = .ok (some m) →
      m.payload = payloadOf (kept (keyOf f) (receipts { maxMessage } fs)) ++ f.payload)
    ∧ ((∃ m, ((after { maxMessage } fs).accept f).1 = .ok (some m)) ↔
      f.validate = .ok () ∧ f.isFinal = true
      ∧ (after { maxMessage } fs).Fits (kept (keyOf f) (receipts { maxMessage } fs)) f)
    ∧ (openRun (keyOf f) (receipts { maxMessage } fs)
          <:+ kept (keyOf f) (receipts { maxMessage } fs) ↔
      ∀ r ∈ openRun (keyOf f) (receipts { maxMessage } fs), r.isTaken = true) := by
  have stream := get?_streams_after maxMessage fs (keyOf f)
  refine ⟨fun m given => payload_of_accept part stream given, accept_eq_some_iff part stream, ?_⟩
  exact openRun_isSuffix_iff maxMessage fs (keyOf f)

/-- Three parts of one byte each, of which two fit into a limit of two. -/
def threeParts : List Frame :=
  [0xaa, 0xbb, 0xcc].map fun byte =>
    { opcode := 1, correlationId := 501, partition := 7, flags := Flag.fragment, payload := [byte] }

/-- The last part of their message. -/
def fourthPart : Frame :=
  { opcode := 1, correlationId := 501, partition := 7, flags := Flag.fragment ||| Flag.final,
    payload := [0xdd] }

/-- The third part discards the first two, and the last one comes out alone. -/
theorem message_of_fourthPart :
    fourthPart.isFragment = true
    ∧ (∀ m, ((after { maxMessage := 2 } threeParts).accept fourthPart).1 = .ok (some m) →
      m.payload = [0xdd])
    ∧ ∃ m, ((after { maxMessage := 2 } threeParts).accept fourthPart).1 = .ok (some m) := by
  obtain ⟨carried, comes, -⟩ := message_carries_run_iff 2 threeParts fourthPart (by decide)
  have fits : (after { maxMessage := 2 } threeParts).Fits [] fourthPart := ⟨by decide, by decide⟩
  refine ⟨by decide, fun m given => (carried m given).trans (by decide), ?_⟩
  exact comes.mpr ⟨by decide, by decide, fits⟩

/-- A message comes out although a part of its run was refused. -/
theorem partial_message_comes_out :
    ¬ ∀ (maxMessage : Nat) (fs : List Frame) (f m : Frame), f.isFragment = true →
      ((after { maxMessage } fs).accept f).1 = .ok (some m) →
      ∀ r ∈ openRun (keyOf f) (receipts { maxMessage } fs), r.isTaken = true := by
  intro whole
  have taken := whole 2 threeParts fourthPart
    { opcode := 1, correlationId := 501, partition := 7, flags := 0, payload := [0xdd] }
    (by decide) rfl
  revert taken
  decide

end Assembler

end PartitionEngine
