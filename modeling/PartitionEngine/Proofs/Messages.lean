import PartitionEngine.Proofs.Segmentation

/-!
# Whole messages

A message that was written in parts is read as the message it was.  The parts of
one message reach an assembler that holds no other stream, so its state between
two parts is the stream of that message alone (`Assembler.holding`).  After the
last part nothing is held.
-/

namespace PartitionEngine

namespace Frame

/-- The flags of a whole message: it is a request or a response, possibly with an
error record. -/
def Plain (f : Frame) : Prop := f.flags &&& ~~~(Flag.response ||| Flag.error) = 0

theorem Plain.flags_mem {f : Frame} (h : f.Plain) : f.flags ∈ ([0, 1, 8, 9] : List UInt8) := by
  have every : ∀ n : Fin 256, UInt8.ofNat n &&& ~~~(Flag.response ||| Flag.error) = 0 →
      UInt8.ofNat n ∈ ([0, 1, 8, 9] : List UInt8) := by
    decide +kernel
  have byte := every ⟨f.flags.toNat, f.flags.toNat_lt⟩
  rw [UInt8.ofNat_toNat] at byte
  exact byte h

/-- What the flags of a whole message say. -/
theorem Plain.whole {f : Frame} (h : f.Plain) :
    f.validate = .ok () ∧ f.isFragment = false ∧ f.isFinal = false := by
  have every : ∀ b ∈ ([0, 1, 8, 9] : List UInt8), b &&& ~~~Flag.known = 0 ∧
      (b &&& Flag.fragment != 0) = false ∧ (b &&& Flag.final != 0) = false := by decide +kernel
  obtain ⟨reserved, fragment, final⟩ := every f.flags h.flags_mem
  exact ⟨by rw [validate, reserved]; rfl, fragment, final⟩

/-- A message that comes whole is taken as it is. -/
theorem Plain.accept {f : Frame} (h : f.Plain) (a : Assembler) : a.accept f = (.ok (some f), a) := by
  obtain ⟨valid, fragment, final⟩ := h.whole
  rw [Assembler.accept, valid]
  simp [fragment, final]

/-- What the flags of a part say. -/
theorem Plain.part {f : Frame} (h : f.Plain) (isLast : Bool) (payload : Bytes) :
    (f.part isLast payload).validate = .ok () ∧ (f.part isLast payload).isFragment = true ∧
    (f.part isLast payload).isFinal = isLast ∧ (f.part isLast payload).isResponse = f.isResponse ∧
    (f.part isLast payload).flags &&& ~~~(Flag.fragment ||| Flag.final) = f.flags := by
  have every : ∀ b ∈ ([0, 1, 8, 9] : List UInt8), ∀ isLast : Bool,
      let marked := b ||| Flag.fragment ||| (if isLast then Flag.final else 0)
      marked &&& ~~~Flag.known = 0 ∧ (marked &&& Flag.fragment != 0) = true ∧
      (marked &&& Flag.final != 0) = isLast ∧
      (marked &&& Flag.response != 0) = (b &&& Flag.response != 0) ∧
      marked &&& ~~~(Flag.fragment ||| Flag.final) = b := by decide +kernel
  obtain ⟨reserved, fragment, final, response, flags⟩ := every f.flags h.flags_mem isLast
  exact ⟨by rw [validate, Frame.part, reserved]; rfl, fragment, final, response, flags⟩

end Frame

namespace Assembler

/-- An assembler that holds one stream. -/
def holding (maxMessage : Nat) (key : StreamKey) (m : PartialMessage) : Assembler :=
  { streams := ⟨[(key, m)]⟩, buffered := m.length, maxMessage }

end Assembler

/-- The message whose parts so far are these pieces of a frame's payload, the last
one first. -/
def Frame.partial (f : Frame) (parts : List Bytes) : PartialMessage :=
  { opcode := f.opcode, partition := f.partition, flags := f.flags, parts }

namespace Assembler

variable {maxMessage : Nat} {f : Frame}

theorem discard_holding (maxMessage : Nat) (key : StreamKey) (m : PartialMessage) :
    (holding maxMessage key m).discard key = { maxMessage } := by
  have erased : (⟨[(key, m)]⟩ : Assoc StreamKey PartialMessage).erase key = .empty := by
    simp [Assoc.erase, Assoc.contains, Assoc.empty]
  simp [discard, holding, Assoc.get?, erased]

/-- A part goes to the stream of its message. -/
theorem keyOf_part (plain : f.Plain) (isLast : Bool) (payload : Bytes) :
    keyOf (f.part isLast payload) = keyOf f := by
  rw [keyOf, keyOf, (plain.part isLast payload).2.2.2.1]
  rfl

theorem length_partial (f : Frame) (payload : Bytes) (parts : List Bytes) :
    (f.partial (payload :: parts)).length = (f.partial parts).length + payload.length :=
  (f.partial parts).length_append payload

/-- An assembler with more bytes of one stream. -/
def grow (a : Assembler) (f : Frame) (parts : List Bytes) (payload : Bytes) : Assembler :=
  { a with
    streams := a.streams.insert (keyOf f) (f.partial (payload :: parts))
    buffered := a.buffered + payload.length }

/-- A part for which there is room is added to its stream.  The last one completes the
message, and the stream is given up. -/
theorem acceptPart_of_room (plain : f.Plain) {a : Assembler} (parts : List Bytes)
    {payload : Bytes} (isLast : Bool) (room : a.buffered + payload.length ≤ a.maxMessage) :
    a.acceptPart (f.part isLast payload) (f.partial parts)
      = if isLast then
          (.ok (some { f with payload := (payload :: parts).reverse.flatten }),
            (a.grow f parts payload).discard (keyOf f))
        else (.ok none, a.grow f parts payload) := by
  have same : ¬ ((f.partial parts).opcode ≠ (f.part isLast payload).opcode ∨
      (f.partial parts).partition ≠ (f.part isLast payload).partition) := by
    simp [Frame.partial, Frame.part]
  have within : ¬ a.maxMessage < a.buffered + (f.part isLast payload).payload.length :=
    Nat.not_lt.mpr room
  have grown : (f.partial parts).append (f.part isLast payload).payload
      = f.partial (payload :: parts) := rfl
  simp only [acceptPart, if_neg same, if_neg within, keyOf_part plain,
    (plain.part isLast payload).2.2.1, grown]
  rfl

/-- If there is no other stream, what is held is the stream of the message. -/
theorem acceptPart_part (plain : f.Plain) {a : Assembler} {parts : List Bytes} {payload : Bytes}
    (isLast : Bool) (limit : a.maxMessage = maxMessage)
    (buffered : a.buffered = (f.partial parts).length)
    (alone : (a.streams.erase (keyOf f)).entries = [])
    (room : (f.partial parts).length + payload.length ≤ maxMessage) :
    a.acceptPart (f.part isLast payload) (f.partial parts)
      = if isLast then
          (.ok (some { f with payload := (payload :: parts).reverse.flatten }), { maxMessage })
        else (.ok none, holding maxMessage (keyOf f) (f.partial (payload :: parts))) := by
  have held : a.grow f parts payload
      = holding maxMessage (keyOf f) (f.partial (payload :: parts)) := by
    rw [grow, holding, Assoc.insert, alone, length_partial f payload parts, buffered, limit]
  rw [acceptPart_of_room plain parts isLast (by rw [buffered, limit]; exact room), held,
    discard_holding]

/-- The first part opens a stream. -/
theorem accept_first (plain : f.Plain) {payload : Bytes} (room : payload.length ≤ maxMessage) :
    accept { maxMessage } (f.part false payload)
      = (.ok none, holding maxMessage (keyOf f) (f.partial [payload])) := by
  obtain ⟨valid, fragment, -, -, flags⟩ := plain.part false payload
  have opened : PartialMessage.ofFirst (f.part false payload) = f.partial [] := by
    rw [PartialMessage.ofFirst, flags]
    rfl
  rw [accept, valid]
  simp only [fragment, Bool.not_true, Bool.false_eq_true, ↓reduceIte, Assoc.get?_empty, opened]
  exact acceptPart_part plain false rfl rfl rfl
    (by simpa [Frame.partial, PartialMessage.length] using room)

/-- A later part is added to the stream. -/
theorem accept_part (plain : f.Plain) {parts : List Bytes} {payload : Bytes} (isLast : Bool)
    (room : (f.partial parts).length + payload.length ≤ maxMessage) :
    accept (holding maxMessage (keyOf f) (f.partial parts)) (f.part isLast payload)
      = if isLast then
          (.ok (some { f with payload := (payload :: parts).reverse.flatten }), { maxMessage })
        else (.ok none, holding maxMessage (keyOf f) (f.partial (payload :: parts))) := by
  obtain ⟨valid, fragment, -, -, -⟩ := plain.part isLast payload
  have found : (holding maxMessage (keyOf f) (f.partial parts)).streams.get?
      (keyOf (f.part isLast payload)) = some (f.partial parts) := by
    rw [keyOf_part plain]
    simp [holding, Assoc.get?]
  rw [accept, valid]
  simp only [fragment, Bool.not_true, Bool.false_eq_true, ↓reduceIte, found]
  exact acceptPart_part plain isLast rfl rfl (by simp [holding, Assoc.entries_erase]) room

end Assembler

/-! ## Reading a message -/

/-- The parts after the first one are read into its stream until the last one
completes the message. -/
theorem reads_parts {maxPayload maxMessage : Nat} {f : Frame} (plain : f.Plain) (last : Bytes)
    {firsts seen : List Bytes}
    (fits : ∀ p ∈ firsts ++ [last], p.length ≤ maxPayload ∧ p.length < 2 ^ 32)
    (room : (f.partial seen).length + (firsts.flatten ++ last).length ≤ maxMessage) :
    Reads maxPayload (.holding maxMessage (Assembler.keyOf f) (f.partial seen))
      ((firsts.map (f.part false) ++ [f.part true last]).flatMap Frame.encode)
      [.ok { f with payload := seen.reverse.flatten ++ (firsts.flatten ++ last) }] false
      { maxMessage } [] := by
  induction firsts generalizing seen with
  | nil =>
    have roomLast : (f.partial seen).length + last.length ≤ maxMessage := by simpa using room
    have accepted := Assembler.accept_part plain true roomLast
    have whole : (last :: seen).reverse.flatten = seen.reverse.flatten ++ ([].flatten ++ last) := by
      simp
    rw [if_pos rfl, whole] at accepted
    exact .message (decode_encode (f := f.part true last) (fits last (by simp)) []) accepted
      (.starved rfl)
  | cons p rest ih =>
    have total := Assembler.length_partial f p seen
    rw [List.flatten_cons, List.append_assoc, List.length_append] at room
    have roomPart : (f.partial seen).length + p.length ≤ maxMessage := by omega
    have roomRest : (f.partial (p :: seen)).length + (rest.flatten ++ last).length
        ≤ maxMessage := by omega
    have accepted := Assembler.accept_part plain false roomPart
    have later := ih (fun q mem => fits q (by simp at mem ⊢; tauto)) roomRest
    rw [List.reverse_cons, List.flatten_append, List.flatten_singleton, List.append_assoc,
      ← List.append_assoc p, ← List.flatten_cons] at later
    rw [List.map_cons, List.cons_append, List.flatMap_cons]
    exact .part (decode_encode (f := f.part false p) (fits p (by simp)) _) accepted later

/-- A message that fits into the limits is read as it was written. -/
theorem reads_encodeMessage {maxPayload maxMessage threshold : Nat} {f : Frame} (plain : f.Plain)
    (frames : max threshold 1 ≤ maxPayload) (width : threshold < 2 ^ 32)
    (room : f.payload.length ≤ maxMessage) :
    Reads maxPayload { maxMessage } (f.encodeMessage threshold) [.ok f] false
      { maxMessage } [] := by
  have nothing : decode maxPayload [] = .ok none := rfl
  by_cases short : f.payload.length ≤ max threshold 1
  · have fits : f.Fits maxPayload := ⟨by omega, by omega⟩
    have taken := decode_encode fits []
    rw [Frame.encodeMessage, Frame.parts_of_short short, List.flatMap_singleton]
    rw [List.append_nil] at taken
    exact .message taken (plain.accept _) (.starved nothing)
  · obtain ⟨firsts, last, parts, whole, each, -⟩ := Frame.parts_of_long (Nat.lt_of_not_le short)
    have fits : ∀ p ∈ firsts ++ [last], p.length ≤ maxPayload ∧ p.length < 2 ^ 32 := by
      intro p mem
      obtain ⟨-, size⟩ := each p mem
      exact ⟨by omega, by omega⟩
    cases firsts with
    | nil =>
      have size := (each last (by simp)).2
      rw [List.flatten_nil, List.nil_append] at whole
      exact absurd (whole ▸ size) short
    | cons first rest =>
      rw [List.flatten_cons, List.append_assoc] at whole
      have total : first.length + (rest.flatten ++ last).length = f.payload.length := by
        rw [← whole]
        simp only [List.length_append]
      have opened : Assembler.accept { maxMessage } (f.part false first)
          = (.ok none, .holding maxMessage (Assembler.keyOf f) (f.partial [first])) :=
        Assembler.accept_first plain (by omega)
      have roomRest : (f.partial [first]).length + (rest.flatten ++ last).length ≤ maxMessage := by
        have alone : (f.partial [first]).length = first.length := by
          simp [Frame.partial, PartialMessage.length]
        omega
      have fitsRest : ∀ p ∈ rest ++ [last], p.length ≤ maxPayload ∧ p.length < 2 ^ 32 :=
        fun p mem => fits p (List.mem_cons_of_mem _ mem)
      have later := reads_parts plain last fitsRest roomRest
      rw [List.reverse_singleton, List.flatten_singleton, whole] at later
      rw [Frame.encodeMessage, parts, List.map_cons, List.cons_append, List.flatMap_cons]
      exact .part (decode_encode (f := f.part false first) (fits first (by simp)) _) opened later

/-- A channel whose buffers are empty gets exactly the message, however its bytes
are cut into pieces, and its buffers are empty again. -/
theorem Channel.feedAll_encodeMessage {c : Channel} {maxPayload maxMessage threshold : Nat}
    {f : Frame} {pieces : List Bytes} (unread : c.unread = [])
    (assembler : c.assembler = { maxMessage })
    (plain : f.Plain) (frames : max threshold 1 ≤ maxPayload) (width : threshold < 2 ^ 32)
    (room : f.payload.length ≤ maxMessage) (cut : pieces.flatten = f.encodeMessage threshold) :
    c.feedAll maxPayload pieces = { channel := c, messages := [.ok f], lost := false } := by
  have buffers : c.reading { maxMessage } [] = c := by
    rw [← assembler, ← unread]
    rfl
  have reads := reads_encodeMessage plain frames width room
  rw [← cut, ← List.nil_append pieces.flatten] at reads
  obtain ⟨messages, lost, channel⟩ := Channel.feedAll_of_reads c rfl reads
  rw [buffers] at messages lost channel
  have channel := channel rfl
  generalize c.feedAll maxPayload pieces = fed at messages lost channel
  cases fed
  cases messages
  cases lost
  cases channel
  rfl

end PartitionEngine
