import PartitionEngine.Channel.Feed
import PartitionEngine.Proofs.Codec
import PartitionEngine.Proofs.Reassembly

/-!
# Received pieces

What a channel makes of received bytes depends on the bytes alone and not on how
they were cut into pieces.  `Reads` says, frame by frame and without a bound on
their number, what an assembler makes of a byte string.  It is a function of the
string (`Reads.unique`, `exists_reads`), and reading two strings one after the other
is reading them at once (`Reads.append`).  `feed_of_reads` and `feedAll_of_reads` say
that a channel reads like this.

An error of a single frame takes that frame off, and before it only parts that were taken
(`nextMessage_error`).  `feedAll_of_flatten_eq` puts this together: two ways of
cutting a stream are told apart by nothing, up to the first error that loses it.
-/

namespace PartitionEngine

/-- What taking frames off a byte string gives, until bytes are missing or the
stream is lost: messages and errors of single frames, whether the stream is lost,
the assembler afterwards, and the bytes that are left. -/
inductive Reads (maxPayload : Nat) :
    Assembler → Bytes → List (Except FrameError Frame) → Bool → Assembler → Bytes → Prop where
  | starved {a bytes} :
    decode maxPayload bytes = .ok none →
    Reads maxPayload a bytes [] false a bytes
  | garbled {a bytes e} :
    decode maxPayload bytes = .error e →
    Reads maxPayload a bytes [.error e] true a bytes
  | part {a a' a'' bytes rest left f ms lost} :
    decode maxPayload bytes = .ok (some (f, rest)) →
    a.accept f = (.ok none, a') →
    Reads maxPayload a' rest ms lost a'' left →
    Reads maxPayload a bytes ms lost a'' left
  | message {a a' a'' bytes rest left f m ms lost} :
    decode maxPayload bytes = .ok (some (f, rest)) →
    a.accept f = (.ok (some m), a') →
    Reads maxPayload a' rest ms lost a'' left →
    Reads maxPayload a bytes (.ok m :: ms) lost a'' left
  | refused {a a' a'' bytes rest left f e ms lost} :
    decode maxPayload bytes = .ok (some (f, rest)) →
    a.accept f = (.error e, a') →
    e.corruptsStream = false →
    Reads maxPayload a' rest ms lost a'' left →
    Reads maxPayload a bytes (.error e :: ms) lost a'' left
  | broken {a a' bytes rest f e} :
    decode maxPayload bytes = .ok (some (f, rest)) →
    a.accept f = (.error e, a') →
    e.corruptsStream = true →
    Reads maxPayload a bytes [.error e] true a' rest

namespace Reads

variable {maxPayload : Nat}

/-- Reading ends: every frame takes bytes off. -/
theorem exists_reads (maxPayload : Nat) (a : Assembler) (bytes : Bytes) :
    ∃ ms lost a' left, Reads maxPayload a bytes ms lost a' left := by
  induction hn : bytes.length using Nat.strongRecOn generalizing a bytes with
  | _ n ih =>
    subst hn
    cases taken : decode maxPayload bytes with
    | error e => exact ⟨_, _, _, _, .garbled taken⟩
    | ok got =>
      cases got with
      | none => exact ⟨_, _, _, _, .starved taken⟩
      | some got =>
        obtain ⟨f, rest⟩ := got
        have shorter : rest.length < bytes.length := by
          have := length_of_decode taken
          simp only [headerLength] at this
          omega
        obtain ⟨ms, lost, a', left, later⟩ := ih _ shorter (a.accept f).2 rest rfl
        cases result : (a.accept f).1 with
        | ok m =>
          cases m with
          | none => exact ⟨_, _, _, _, .part taken (Prod.ext result rfl) later⟩
          | some m => exact ⟨_, _, _, _, .message taken (Prod.ext result rfl) later⟩
        | error e =>
          cases corrupts : e.corruptsStream with
          | false => exact ⟨_, _, _, _, .refused taken (Prod.ext result rfl) corrupts later⟩
          | true => exact ⟨_, _, _, _, .broken taken (Prod.ext result rfl) corrupts⟩

/-- Nothing more can be taken off what is left. -/
theorem left_starved {a a' : Assembler} {bytes left : Bytes} {ms : List (Except FrameError Frame)}
    (h : Reads maxPayload a bytes ms false a' left) : decode maxPayload left = .ok none := by
  generalize hl : false = lost at h
  induction h with
  | starved missing => exact missing
  | garbled => cases hl
  | part _ _ _ ih => exact ih hl
  | message _ _ _ ih => exact ih hl
  | refused _ _ _ _ ih => exact ih hl
  | broken => cases hl

/-- Reading goes on where it stopped for want of bytes. -/
theorem append {a a' a'' : Assembler} {bytes more left left' : Bytes} {lost : Bool}
    {ms ms' : List (Except FrameError Frame)} (h : Reads maxPayload a bytes ms false a' left)
    (h' : Reads maxPayload a' (left ++ more) ms' lost a'' left') :
    Reads maxPayload a (bytes ++ more) (ms ++ ms') lost a'' left' := by
  generalize hl : false = going at h
  induction h with
  | starved => exact h'
  | garbled => cases hl
  | part taken accepted _ ih => exact .part (decode_append taken more) accepted (ih h' hl)
  | message taken accepted _ ih => exact .message (decode_append taken more) accepted (ih h' hl)
  | refused taken accepted kept _ ih =>
    exact .refused (decode_append taken more) accepted kept (ih h' hl)
  | broken => cases hl

/-- After the stream is lost, what comes later does not matter. -/
theorem append_lost {a a' : Assembler} {bytes left : Bytes} {ms : List (Except FrameError Frame)}
    (h : Reads maxPayload a bytes ms true a' left) (more : Bytes) :
    Reads maxPayload a (bytes ++ more) ms true a' (left ++ more) := by
  generalize hl : true = going at h
  induction h with
  | starved => cases hl
  | garbled failed => exact hl ▸ .garbled (decode_append_error failed more)
  | part taken accepted _ ih => exact .part (decode_append taken more) accepted (ih hl)
  | message taken accepted _ ih => exact .message (decode_append taken more) accepted (ih hl)
  | refused taken accepted kept _ ih =>
    exact .refused (decode_append taken more) accepted kept (ih hl)
  | broken taken accepted corrupts =>
    exact hl ▸ .broken (decode_append taken more) accepted corrupts

/-- Only the last of what was read loses the stream, if it is lost. -/
theorem ends {a a' : Assembler} {bytes left : Bytes} {lost : Bool}
    {ms : List (Except FrameError Frame)} (h : Reads maxPayload a bytes ms lost a' left) :
    ∃ before, (∀ e, .error e ∈ before → e.corruptsStream = false)
      ∧ (lost = false ∧ ms = before
        ∨ lost = true ∧ ∃ e, ms = before ++ [.error e] ∧ e.corruptsStream = true) := by
  induction h with
  | starved => exact ⟨[], nofun, .inl ⟨rfl, rfl⟩⟩
  | @garbled _ _ e failed => exact ⟨[], nofun, .inr ⟨rfl, e, rfl, corruptsStream_of_decode failed⟩⟩
  | part _ _ _ ih => exact ih
  | @message _ _ _ _ _ _ _ m _ _ _ _ _ ih =>
    obtain ⟨before, single, rest⟩ := ih
    refine ⟨.ok m :: before, fun e mem => single e ?_, ?_⟩
    · exact (List.mem_cons.mp mem).resolve_left nofun
    · rcases rest with ⟨lost, rfl⟩ | ⟨lost, e, rfl, corrupts⟩
      · exact .inl ⟨lost, rfl⟩
      · exact .inr ⟨lost, e, rfl, corrupts⟩
  | @refused _ _ _ _ _ _ _ e _ _ _ _ kept _ ih =>
    obtain ⟨before, single, rest⟩ := ih
    refine ⟨.error e :: before, fun e' mem => ?_, ?_⟩
    · rcases List.mem_cons.mp mem with same | mem
      · cases same
        exact kept
      · exact single e' mem
    · rcases rest with ⟨lost, rfl⟩ | ⟨lost, e, rfl, corrupts⟩
      · exact .inl ⟨lost, rfl⟩
      · exact .inr ⟨lost, e, rfl, corrupts⟩
  | @broken _ _ _ _ _ e _ _ corrupts => exact ⟨[], nofun, .inr ⟨rfl, e, rfl, corrupts⟩⟩

end Reads

namespace Channel

variable {maxPayload : Nat}

/-- With room for all frames the bound on their number does not matter. -/
theorem readMessage_bound {bound bound' : Nat} {a : Assembler} {bytes : Bytes}
    (enough : bytes.length < bound) (enough' : bytes.length < bound') :
    readMessage maxPayload bound a bytes = readMessage maxPayload bound' a bytes := by
  induction bound generalizing a bytes bound' with
  | zero => omega
  | succ bound ih =>
    obtain ⟨bound', rfl⟩ : ∃ n, bound' = n + 1 := ⟨bound' - 1, by omega⟩
    rw [readMessage, readMessage]
    cases taken : decode maxPayload bytes with
    | error e => rfl
    | ok got =>
      cases got with
      | none => rfl
      | some got =>
        obtain ⟨f, rest⟩ := got
        have := length_of_decode taken
        simp only [headerLength] at this
        have later (a : Assembler) : readMessage maxPayload bound a rest
            = readMessage maxPayload bound' a rest := ih (by omega) (by omega)
        simp only [later]

/-- The channel with its buffers in another state. -/
def reading (c : Channel) (a : Assembler) (bytes : Bytes) : Channel :=
  { c with assembler := a, unread := bytes }

theorem nextMessage_reading (c : Channel) (a : Assembler) (bytes : Bytes) :
    (c.reading a bytes).nextMessage maxPayload
      = ((readMessage maxPayload (bytes.length + 1) a bytes).1,
          c.reading (readMessage maxPayload (bytes.length + 1) a bytes).2.1
            (readMessage maxPayload (bytes.length + 1) a bytes).2.2) := rfl

/-- A part that completes nothing is passed over. -/
theorem nextMessage_of_part (c : Channel) {a a' : Assembler} {bytes rest : Bytes} {f : Frame}
    (taken : decode maxPayload bytes = .ok (some (f, rest)))
    (accepted : a.accept f = (.ok none, a')) :
    (c.reading a bytes).nextMessage maxPayload = (c.reading a' rest).nextMessage maxPayload := by
  have := length_of_decode taken
  simp only [headerLength] at this
  have same : readMessage maxPayload (bytes.length + 1) a bytes
      = readMessage maxPayload (rest.length + 1) a' rest := by
    rw [readMessage]
    simp only [taken, accepted]
    exact readMessage_bound (by omega) (by omega)
  rw [nextMessage_reading, nextMessage_reading, same]

theorem nextMessage_of_accept (c : Channel) {a a' : Assembler} {bytes rest : Bytes} {f : Frame}
    {result : Except FrameError (Option Frame)} (ends : result ≠ .ok none)
    (taken : decode maxPayload bytes = .ok (some (f, rest)))
    (accepted : a.accept f = (result, a')) :
    (c.reading a bytes).nextMessage maxPayload = (result, c.reading a' rest) := by
  rw [nextMessage_reading, readMessage]
  simp only [taken, accepted]
  cases result with
  | error e => rfl
  | ok m =>
    cases m with
    | none => exact absurd rfl ends
    | some m => rfl

theorem takeFrom_congr {c c' : Channel}
    (same : c.nextMessage maxPayload = c'.nextMessage maxPayload)
    {bound : Nat} {done : List (Except FrameError Frame)} :
    takeFrom maxPayload (bound + 1) c done = takeFrom maxPayload (bound + 1) c' done := by
  rw [takeFrom, takeFrom, same]

theorem takeFrom_of_reads (c : Channel) {a a' : Assembler} {bytes left : Bytes} {lost : Bool}
    {ms : List (Except FrameError Frame)} (h : Reads maxPayload a bytes ms lost a' left)
    {bound : Nat} (enough : bytes.length < bound) (done : List (Except FrameError Frame)) :
    takeFrom maxPayload bound (c.reading a bytes) done
      = { channel := c.reading a' left, messages := done.reverse ++ ms, lost } := by
  induction h generalizing bound done with
  | starved missing =>
    obtain ⟨bound, rfl⟩ : ∃ n, bound = n + 1 := ⟨bound - 1, by omega⟩
    rw [takeFrom, nextMessage_reading, readMessage]
    simp only [missing, List.append_nil]
  | garbled failed =>
    obtain ⟨bound, rfl⟩ : ∃ n, bound = n + 1 := ⟨bound - 1, by omega⟩
    rw [takeFrom, nextMessage_reading, readMessage]
    simp only [failed, corruptsStream_of_decode failed, ↓reduceIte, List.reverse_cons]
  | part taken accepted later ih =>
    obtain ⟨bound, rfl⟩ : ∃ n, bound = n + 1 := ⟨bound - 1, by omega⟩
    have := length_of_decode taken
    simp only [headerLength] at this
    rw [takeFrom_congr (nextMessage_of_part c taken accepted), ih (by omega) done]
  | message taken accepted later ih =>
    obtain ⟨bound, rfl⟩ : ∃ n, bound = n + 1 := ⟨bound - 1, by omega⟩
    have := length_of_decode taken
    simp only [headerLength] at this
    rw [takeFrom, nextMessage_of_accept c (by simp) taken accepted]
    simp only [ih (show _ < bound by omega), List.reverse_cons, List.append_assoc,
      List.singleton_append]
  | refused taken accepted kept later ih =>
    obtain ⟨bound, rfl⟩ : ∃ n, bound = n + 1 := ⟨bound - 1, by omega⟩
    have := length_of_decode taken
    simp only [headerLength] at this
    rw [takeFrom, nextMessage_of_accept c (by simp) taken accepted]
    simp only [kept, ih (show _ < bound by omega), List.reverse_cons, List.append_assoc,
      List.singleton_append, Bool.false_eq_true, ↓reduceIte]
  | broken taken accepted corrupts =>
    obtain ⟨bound, rfl⟩ : ∃ n, bound = n + 1 := ⟨bound - 1, by omega⟩
    rw [takeFrom, nextMessage_of_accept c (by simp) taken accepted]
    simp only [corrupts, ↓reduceIte, List.reverse_cons]

theorem feed_of_reads (c : Channel) {a a' : Assembler} {bytes more left : Bytes} {lost : Bool}
    {ms : List (Except FrameError Frame)} (h : Reads maxPayload a (bytes ++ more) ms lost a' left) :
    (c.reading a bytes).feed maxPayload more
      = { channel := c.reading a' left, messages := ms, lost } :=
  takeFrom_of_reads c h (Nat.lt_succ_self _) []

end Channel

/-- Reading is a function of the bytes. -/
theorem Reads.unique {maxPayload : Nat} {a a₁ a₂ : Assembler} {bytes left₁ left₂ : Bytes}
    {lost₁ lost₂ : Bool} {ms₁ ms₂ : List (Except FrameError Frame)}
    (h₁ : Reads maxPayload a bytes ms₁ lost₁ a₁ left₁)
    (h₂ : Reads maxPayload a bytes ms₂ lost₂ a₂ left₂) :
    ms₁ = ms₂ ∧ lost₁ = lost₂ ∧ a₁ = a₂ ∧ left₁ = left₂ := by
  have one := Channel.takeFrom_of_reads (.accepted none default 0) h₁ (Nat.lt_succ_self _) []
  have two := Channel.takeFrom_of_reads (.accepted none default 0) h₂ (Nat.lt_succ_self _) []
  obtain ⟨buffers, messages, lost⟩ := Fed.mk.inj (one.symm.trans two)
  exact ⟨messages, lost, congrArg Channel.assembler buffers, congrArg Channel.unread buffers⟩

namespace Channel

/-- However the bytes are cut into pieces, the channel reads what they are
together.  If the stream is lost the pieces after that are not looked at. -/
theorem feedAll_of_reads (c : Channel) {maxPayload : Nat} {a a' : Assembler} {bytes left : Bytes}
    {lost : Bool} {ms : List (Except FrameError Frame)} {pieces : List Bytes}
    (idle : decode maxPayload bytes = .ok none)
    (h : Reads maxPayload a (bytes ++ pieces.flatten) ms lost a' left) :
    ((c.reading a bytes).feedAll maxPayload pieces).messages = ms ∧
    ((c.reading a bytes).feedAll maxPayload pieces).lost = lost ∧
    (lost = false →
      ((c.reading a bytes).feedAll maxPayload pieces).channel = c.reading a' left) := by
  induction pieces generalizing a bytes ms with
  | nil =>
    rw [List.flatten_nil, List.append_nil] at h
    obtain ⟨rfl, rfl, rfl, rfl⟩ := h.unique (.starved idle)
    exact ⟨rfl, rfl, fun _ => rfl⟩
  | cons piece rest ih =>
    rw [List.flatten_cons, ← List.append_assoc] at h
    obtain ⟨ms₁, lost₁, a₁, left₁, first⟩ := Reads.exists_reads maxPayload a (bytes ++ piece)
    rw [feedAll, feed_of_reads c first]
    cases lost₁ with
    | true =>
      obtain ⟨rfl, rfl, -, -⟩ := h.unique (first.append_lost rest.flatten)
      exact ⟨rfl, rfl, nofun⟩
    | false =>
      obtain ⟨ms₂, lost₂, a₂, left₂, second⟩ :=
        Reads.exists_reads maxPayload a₁ (left₁ ++ rest.flatten)
      obtain ⟨rfl, rfl, rfl, rfl⟩ := h.unique (first.append second)
      obtain ⟨messages, lost, buffers⟩ := ih first.left_starved second
      exact ⟨congrArg (ms₁ ++ ·) messages, lost, buffers⟩

/-! ## What an error takes off -/

/-- Before the frame that an error is about only parts were taken, of messages that are
not whole. -/
theorem readMessage_error {bound : Nat} {a a' : Assembler} {bytes left : Bytes} {e : FrameError}
    (read : readMessage maxPayload bound a bytes = (.error e, a', left))
    (single : e.corruptsStream = false) :
    ∃ parts f, bytes = (parts ++ [f]).flatMap Frame.encode ++ left
      ∧ (∀ r ∈ a.receipts parts, r.result = .ok none)
      ∧ (a.after parts).accept f = (.error e, a') := by
  induction bound generalizing a bytes with
  | zero => cases read
  | succ bound ih =>
    rw [readMessage] at read
    cases taken : decode maxPayload bytes with
    | error e' =>
      rw [taken] at read
      cases read
      cases (corruptsStream_of_decode taken).symm.trans single
    | ok got =>
      cases got with
      | none =>
        rw [taken] at read
        cases read
      | some got =>
        obtain ⟨f, rest⟩ := got
        obtain ⟨whole, -⟩ := decode_eq_some_iff.mp taken
        simp only [taken] at read
        cases accepted : a.accept f with
        | mk result a₁ =>
          rw [accepted] at read
          cases result with
          | error e' =>
            cases read
            exact ⟨[], f, by simpa using whole, nofun, accepted⟩
          | ok given =>
            cases given with
            | some m => cases read
            | none =>
              obtain ⟨parts, g, later, quiet, refused⟩ := ih read
              refine ⟨f :: parts, g, ?_, ?_, ?_⟩
              · rw [whole, later]
                simp
              · rw [Assembler.receipts, accepted]
                exact List.forall_mem_cons.mpr ⟨rfl, quiet⟩
              · rw [← refused, Assembler.after, List.foldl_cons, accepted]
                rfl

theorem nextMessage_error {c c' : Channel} {e : FrameError}
    (next : c.nextMessage maxPayload = (.error e, c')) (single : e.corruptsStream = false) :
    ∃ parts f, c.unread = (parts ++ [f]).flatMap Frame.encode ++ c'.unread
      ∧ (∀ r ∈ c.assembler.receipts parts, r.result = .ok none)
      ∧ (c.assembler.after parts).accept f = (.error e, c'.assembler) := by
  simp only [nextMessage] at next
  cases read : readMessage maxPayload (c.unread.length + 1) c.assembler c.unread with
  | mk result rest =>
    rw [read] at next
    cases next
    exact readMessage_error read single

/-! ## Two ways of cutting a stream -/

/-- Two ways of cutting a stream into pieces give the same messages and errors, up to the
first error that loses the stream.  If there is none, the channel is the same afterwards,
and bytes are missing for the next message.  An error that does not lose the stream
takes exactly one frame off, after parts that were taken. -/
theorem feedAll_of_flatten_eq (maxPayload : Nat) (c : Channel) (a : Assembler)
    {pieces pieces' : List Bytes} (same : pieces.flatten = pieces'.flatten) :
    let one := (c.reading a []).feedAll maxPayload pieces
    let two := (c.reading a []).feedAll maxPayload pieces'
    one.messages = two.messages ∧ one.lost = two.lost
    ∧ (one.lost = false → one.channel = two.channel
        ∧ one.channel.nextMessage maxPayload = (.ok none, one.channel))
    ∧ (∃ before, (∀ e, .error e ∈ before → e.corruptsStream = false)
        ∧ (one.lost = false ∧ one.messages = before
          ∨ one.lost = true ∧ ∃ e, one.messages = before ++ [.error e] ∧ e.corruptsStream = true))
    ∧ ∀ (c c' : Channel) (e : FrameError), c.nextMessage maxPayload = (.error e, c') →
        e.corruptsStream = false →
        ∃ parts f, c.unread = (parts ++ [f]).flatMap Frame.encode ++ c'.unread
          ∧ (∀ r ∈ c.assembler.receipts parts, r.result = .ok none)
          ∧ (c.assembler.after parts).accept f = (.error e, c'.assembler) := by
  intro one two
  obtain ⟨ms, lost, a', left, reads⟩ := Reads.exists_reads maxPayload a ([] ++ pieces.flatten)
  have missing : decode maxPayload [] = .ok none := rfl
  obtain ⟨messages, going, channel⟩ := feedAll_of_reads c missing reads
  obtain ⟨messages', going', channel'⟩ := feedAll_of_reads c missing (same ▸ reads)
  refine ⟨messages.trans messages'.symm, going.trans going'.symm, fun sound => ?_, ?_,
    fun _ _ _ => nextMessage_error⟩
  · have sound := going.symm.trans sound
    subst sound
    have starved := reads.left_starved
    refine ⟨(channel rfl).trans (channel' rfl).symm, ?_⟩
    rw [show one.channel = c.reading a' left from channel rfl, nextMessage_reading, readMessage]
    simp only [starved]
  · obtain ⟨before, single, rest⟩ := reads.ends
    exact ⟨before, single, by rwa [← messages, ← going] at rest⟩

/-- A frame with a flag without a meaning, a part, the last part under another opcode, and
the front of a header that announces too much. -/
def hostile : Bytes :=
  let part : Frame := { opcode := 1, correlationId := 501, partition := 7, flags := Flag.fragment,
                        payload := [0xaa] }
  { part with flags := 0x80 }.encode ++ part.encode
    ++ { part with opcode := 2, flags := Flag.fragment ||| Flag.final }.encode
    ++ [1, 0, 0, 0, 0, 0, 0, 1, 0xf5, 0, 0, 0, 7, 0, 0, 0]

/-- The frames that are refused are told of, however the stream is cut. -/
theorem feedAll_hostile :
    [hostile].flatten = (hostile.map fun b => [b]).flatten
    ∧ ((Channel.accepted none default 8).feedAll 16 (hostile.map fun b => [b])).messages
      = [.error (.reservedFlags 0x80), .error (.fragmentMismatch 501)]
    ∧ ((Channel.accepted none default 8).feedAll 16 (hostile.map fun b => [b])).lost = false := by
  have same : [hostile].flatten = (hostile.map fun b => [b]).flatten := by decide
  obtain ⟨messages, lost, -⟩ :=
    feedAll_of_flatten_eq 16 (.accepted none default 8) { maxMessage := 8 } same
  have whole : (Channel.accepted none default 8).feedAll 16 [hostile]
      = { channel := ((Channel.accepted none default 8).feedAll 16 [hostile]).channel
          messages := [.error (.reservedFlags 0x80), .error (.fragmentMismatch 501)] } := rfl
  refine ⟨same, ?_, ?_⟩
  · exact messages.symm.trans (congrArg Fed.messages whole)
  · exact lost.symm.trans (congrArg Fed.lost whole)

end Channel

end PartitionEngine
