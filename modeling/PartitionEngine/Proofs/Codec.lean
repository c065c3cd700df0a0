import PartitionEngine.Wire.Codec
import Mathlib.Algebra.Group.Nat.Defs
import Mathlib.Data.List.Basic

/-!
# Reading frames back

What `Frame.encode` writes, `decode` takes off again and leaves the bytes after
it alone (`decode_encode`).  The only bounds are the limit for payloads and the
width of the length field.

A byte string either lacks bytes, or starts with a header that announces too
much, or starts with a frame.  Each of the three answers of `decode` tells which
(`decode_eq_none_iff`, `decode_eq_error_iff`, `decode_eq_some_iff`).  So neither
a frame nor an error depends on bytes that come later (`decode_append`,
`decode_append_error`).
-/

namespace PartitionEngine

/-! ## Numerals -/

theorem valuesOf_pos (width : Nat) : 0 < valuesOf width := by
  induction width with
  | zero => exact Nat.one_pos
  | succ width ih => exact Nat.mul_pos ih (by decide)

/-- Only the last digits are written. -/
theorem bigEndian_add_mul (width n k : Nat) :
    bigEndian width (k * valuesOf width + n) = bigEndian width n := by
  induction width generalizing n k with
  | zero => rfl
  | succ width ih =>
    have moved : k * valuesOf (width + 1) + n = k * 256 * valuesOf width + n := by
      rw [valuesOf, Nat.mul_assoc, Nat.mul_comm (valuesOf width)]
    have digit : UInt8.ofNat ((k * 256 * valuesOf width + n) / valuesOf width)
        = UInt8.ofNat (n / valuesOf width) := by
      rw [Nat.mul_comm, Nat.mul_add_div (valuesOf_pos width), UInt8.ofNat_add, UInt8.ofNat_mul]
      simp
    rw [bigEndian, bigEndian, moved, ih, digit]

theorem ofBigEndian_cons (b : UInt8) (bytes : Bytes) :
    ofBigEndian (b :: bytes) = b.toNat * valuesOf bytes.length + ofBigEndian bytes := by
  have started (acc : Nat) : bytes.foldl (fun n b => n * 256 + b.toNat) acc
      = acc * valuesOf bytes.length + ofBigEndian bytes := by
    induction bytes generalizing acc with
    | nil => simp [ofBigEndian, valuesOf]
    | cons c rest ih =>
      rw [ofBigEndian, List.foldl_cons, List.foldl_cons, Nat.zero_mul, Nat.zero_add, ih, ih c.toNat,
        List.length_cons, valuesOf, Nat.add_mul, Nat.mul_assoc, Nat.mul_comm 256, Nat.add_assoc]
  simpa [ofBigEndian] using started b.toNat

theorem ofBigEndian_lt (bytes : Bytes) : ofBigEndian bytes < valuesOf bytes.length := by
  induction bytes with
  | nil => exact Nat.one_pos
  | cons b rest ih =>
    have digit : b.toNat < 256 := b.toNat_lt
    rw [ofBigEndian_cons, List.length_cons, valuesOf]
    calc b.toNat * valuesOf rest.length + ofBigEndian rest
        < b.toNat * valuesOf rest.length + valuesOf rest.length := Nat.add_lt_add_left ih _
      _ = (b.toNat + 1) * valuesOf rest.length := (Nat.succ_mul ..).symm
      _ ≤ valuesOf rest.length * 256 := by
        rw [Nat.mul_comm]
        exact Nat.mul_le_mul_left _ digit

/-- What is read is written as it was. -/
theorem bigEndian_ofBigEndian (bytes : Bytes) :
    bigEndian bytes.length (ofBigEndian bytes) = bytes := by
  induction bytes with
  | nil => rfl
  | cons b rest ih =>
    have below := ofBigEndian_lt rest
    have first : (b.toNat * valuesOf rest.length + ofBigEndian rest) / valuesOf rest.length
        = b.toNat := by
      rw [Nat.mul_comm, Nat.mul_add_div (valuesOf_pos _), Nat.div_eq_of_lt below, Nat.add_zero]
    rw [ofBigEndian_cons, List.length_cons, bigEndian, bigEndian_add_mul, ih, first,
      UInt8.ofNat_toNat]

/-! ## Headers -/

theorem bigEndian_four (n : Nat) : bigEndian 4 n
    = [UInt8.ofNat (n / 16777216), UInt8.ofNat (n / 65536), UInt8.ofNat (n / 256),
      UInt8.ofNat n] := by
  simp [bigEndian, valuesOf]

theorem bigEndian_eight (n : Nat) : bigEndian 8 n
    = [UInt8.ofNat (n / 72057594037927936), UInt8.ofNat (n / 281474976710656),
        UInt8.ofNat (n / 1099511627776), UInt8.ofNat (n / 4294967296),
        UInt8.ofNat (n / 16777216), UInt8.ofNat (n / 65536), UInt8.ofNat (n / 256),
        UInt8.ofNat n] := by
  simp [bigEndian, valuesOf]

theorem Header.decode?_encode (h : Header) (rest : Bytes) :
    decode? (h.encode ++ rest) = some (h, rest) := by
  have id := ofBigEndian_bigEndian 8 h.correlationId.toNat
  have partition := ofBigEndian_bigEndian 4 h.partition.toUInt32.toNat
  have length := ofBigEndian_bigEndian 4 h.payloadLength.toNat
  rw [bigEndian_eight] at id
  rw [bigEndian_four] at partition length
  simp only [encode, bigEndian_eight, bigEndian_four, List.cons_append, List.nil_append, decode?]
  rw [id, partition, length]
  simp [valuesOf]

/-- A header is written in one way only. -/
theorem Header.eq_encode_of_decode? {bytes rest : Bytes} {h : Header}
    (found : decode? bytes = some (h, rest)) : bytes = h.encode ++ rest := by
  unfold decode? at found
  split at found
  · rename_i opcode c0 c1 c2 c3 c4 c5 c6 c7 p0 p1 p2 p3 flags l0 l1 l2 l3 tail
    cases found
    have id := bigEndian_ofBigEndian [c0, c1, c2, c3, c4, c5, c6, c7]
    have partition := bigEndian_ofBigEndian [p0, p1, p2, p3]
    have length := bigEndian_ofBigEndian [l0, l1, l2, l3]
    have idWidth := ofBigEndian_lt [c0, c1, c2, c3, c4, c5, c6, c7]
    have partitionWidth := ofBigEndian_lt [p0, p1, p2, p3]
    have lengthWidth := ofBigEndian_lt [l0, l1, l2, l3]
    simp only [List.length_cons, List.length_nil, Nat.zero_add, Nat.reduceAdd]
      at id partition length idWidth partitionWidth lengthWidth
    simp only [encode, UInt64.toNat_ofNat_of_lt' idWidth, UInt32.toNat_ofNat_of_lt' lengthWidth,
      UInt32.toUInt32_toInt32, UInt32.toNat_ofNat_of_lt' partitionWidth, id, partition, length]
    rfl
  · cases found

theorem Header.length_encode (h : Header) : h.encode.length = headerLength := by
  simp only [encode, List.length_cons, List.length_append, length_bigEndian, headerLength]

/-- Bytes that are enough for a header start with one. -/
theorem Header.exists_eq_encode {bytes : Bytes} (enough : headerLength ≤ bytes.length) :
    ∃ (h : Header) (rest : Bytes), bytes = h.encode ++ rest := by
  cases found : decode? bytes with
  | some got => exact ⟨got.1, got.2, eq_encode_of_decode? found⟩
  | none =>
    simp only [headerLength] at enough
    unfold decode? at found
    split at found
    · cases found
    · rename_i short
      refine (short bytes[0] bytes[1] bytes[2] bytes[3] bytes[4] bytes[5] bytes[6] bytes[7]
        bytes[8] bytes[9] bytes[10] bytes[11] bytes[12] bytes[13] bytes[14] bytes[15] bytes[16]
        bytes[17] (bytes.drop 18) ?_).elim
      simp only [List.getElem_cons_drop]
      exact List.drop_zero.symm

theorem Header.decode?_of_short {bytes : Bytes} (short : bytes.length < headerLength) :
    decode? bytes = none := by
  cases found : decode? bytes with
  | none => rfl
  | some got =>
    have whole := congrArg List.length (eq_encode_of_decode? found)
    rw [List.length_append, length_encode] at whole
    omega

/-! ## Frames -/

/-- A frame that a reader with the limit takes: the payload is within the limit,
and the header can tell its length. -/
def Frame.Fits (maxPayload : Nat) (f : Frame) : Prop :=
  f.payload.length ≤ maxPayload ∧ f.payload.length < 2 ^ 32

/-- The frame with a header and a payload. -/
def Header.frame (h : Header) (payload : Bytes) : Frame :=
  { opcode := h.opcode, correlationId := h.correlationId, partition := h.partition,
    flags := h.flags, payload }

theorem Header.encode_frame {h : Header} {payload : Bytes}
    (whole : payload.length = h.payloadLength.toNat) :
    (h.frame payload).encode = h.encode ++ payload := by
  simp only [Frame.encode, Frame.header, frame, whole, UInt32.ofNat_toNat]

theorem Frame.length_encode (f : Frame) : f.encode.length = headerLength + f.payload.length := by
  rw [encode, List.length_append, Header.length_encode]

/-! ## Taking a frame off -/

section Decode

variable {maxPayload : Nat} {bytes rest : Bytes} {f : Frame} {e : FrameError}

/-- After a header the length that it announces decides. -/
theorem decode_header (maxPayload : Nat) (h : Header) (rest : Bytes) :
    decode maxPayload (h.encode ++ rest)
      = if maxPayload < h.payloadLength.toNat then
          .error (.payloadTooLarge h.payloadLength.toNat maxPayload)
        else if rest.length < h.payloadLength.toNat then .ok none
        else .ok (some (h.frame (rest.take h.payloadLength.toNat),
          rest.drop h.payloadLength.toNat)) := by
  have missing : (rest.take h.payloadLength.toNat).length < h.payloadLength.toNat
      ↔ rest.length < h.payloadLength.toNat := by
    rw [List.length_take]
    omega
  rw [decode, Header.decode?_encode]
  simp only [missing]
  rfl

theorem decode_of_short (short : bytes.length < headerLength) :
    decode maxPayload bytes = .ok none := by
  rw [decode, Header.decode?_of_short short]

/-- Bytes are missing if there is no whole header, or if what it announces is within the
limit and not all there, and only then. -/
theorem decode_eq_none_iff :
    decode maxPayload bytes = .ok none
      ↔ bytes.length < headerLength
        ∨ ∃ (h : Header) (rest : Bytes), bytes = h.encode ++ rest
          ∧ h.payloadLength.toNat ≤ maxPayload ∧ rest.length < h.payloadLength.toNat := by
  constructor
  · intro starved
    by_cases short : bytes.length < headerLength
    · exact .inl short
    · obtain ⟨h, rest, rfl⟩ := Header.exists_eq_encode (Nat.not_lt.mp short)
      rw [decode_header] at starved
      split at starved
      · cases starved
      · rename_i within
        split at starved
        · rename_i missing
          exact .inr ⟨h, rest, rfl, Nat.not_lt.mp within, missing⟩
        · cases starved
  · rintro (short | ⟨h, rest, rfl, within, missing⟩)
    · exact decode_of_short short
    · rw [decode_header, if_neg (Nat.not_lt.mpr within), if_pos missing]

/-- Decoding fails on a header that announces more than the limit, and only there. -/
theorem decode_eq_error_iff :
    decode maxPayload bytes = .error e
      ↔ ∃ (h : Header) (rest : Bytes), bytes = h.encode ++ rest
        ∧ maxPayload < h.payloadLength.toNat
        ∧ e = .payloadTooLarge h.payloadLength.toNat maxPayload := by
  constructor
  · intro failed
    by_cases short : bytes.length < headerLength
    · rw [decode_of_short short] at failed
      cases failed
    · obtain ⟨h, rest, rfl⟩ := Header.exists_eq_encode (Nat.not_lt.mp short)
      rw [decode_header] at failed
      split at failed
      · rename_i beyond
        cases failed
        exact ⟨h, rest, rfl, beyond, rfl⟩
      · split at failed
        · cases failed
        · cases failed
  · rintro ⟨h, rest, rfl, beyond, rfl⟩
    rw [decode_header, if_pos beyond]

theorem decode_encode (fits : f.Fits maxPayload) (rest : Bytes) :
    decode maxPayload (f.encode ++ rest) = .ok (some (f, rest)) := by
  obtain ⟨limit, width⟩ := fits
  have length : (f.header f.flags f.payload.length).payloadLength.toNat = f.payload.length :=
    UInt32.toNat_ofNat_of_lt' width
  have whole : ¬ (f.payload ++ rest).length < f.payload.length := by
    rw [List.length_append]
    omega
  rw [Frame.encode, List.append_assoc, decode_header, length, if_neg (Nat.not_lt.mpr limit),
    if_neg whole, List.take_left, List.drop_left]
  rfl

/-- Exactly the frames that fit are taken off, and exactly the bytes they are written in. -/
theorem decode_eq_some_iff :
    decode maxPayload bytes = .ok (some (f, rest))
      ↔ bytes = f.encode ++ rest ∧ f.Fits maxPayload := by
  constructor
  · intro taken
    by_cases short : bytes.length < headerLength
    · rw [decode_of_short short] at taken
      cases taken
    · obtain ⟨h, tail, rfl⟩ := Header.exists_eq_encode (Nat.not_lt.mp short)
      rw [decode_header] at taken
      split at taken
      · cases taken
      · rename_i within
        split at taken
        · cases taken
        · rename_i enough
          cases taken
          have whole : (tail.take h.payloadLength.toNat).length = h.payloadLength.toNat :=
            List.length_take_of_le (Nat.not_lt.mp enough)
          refine ⟨?_, ?_, ?_⟩
          · rw [Header.encode_frame whole, List.append_assoc, List.take_append_drop]
          · exact Nat.le_trans (Nat.le_of_eq whole) (Nat.not_lt.mp within)
          · exact Nat.lt_of_le_of_lt (Nat.le_of_eq whole) h.payloadLength.toNat_lt
  · rintro ⟨rfl, fits⟩
    exact decode_encode fits rest

theorem decode_append (taken : decode maxPayload bytes = .ok (some (f, rest))) (more : Bytes) :
    decode maxPayload (bytes ++ more) = .ok (some (f, rest ++ more)) := by
  obtain ⟨rfl, fits⟩ := decode_eq_some_iff.mp taken
  rw [List.append_assoc]
  exact decode_encode fits _

theorem decode_append_error (failed : decode maxPayload bytes = .error e) (more : Bytes) :
    decode maxPayload (bytes ++ more) = .error e := by
  obtain ⟨h, rest, rfl, beyond, same⟩ := decode_eq_error_iff.mp failed
  exact decode_eq_error_iff.mpr ⟨h, rest ++ more, List.append_assoc .., beyond, same⟩

/-- The bytes that a frame takes up are gone. -/
theorem length_of_decode (taken : decode maxPayload bytes = .ok (some (f, rest))) :
    rest.length + headerLength ≤ bytes.length := by
  obtain ⟨rfl, -⟩ := decode_eq_some_iff.mp taken
  rw [List.length_append, Frame.length_encode]
  omega

/-- An error of the decoder loses the stream. -/
theorem corruptsStream_of_decode (failed : decode maxPayload bytes = .error e) :
    e.corruptsStream = true := by
  obtain ⟨h, rest, rfl, -, rfl⟩ := decode_eq_error_iff.mp failed
  rfl

end Decode

/-! ## The parts of a message -/

theorem cut_eq (size bound : Nat) (bytes : Bytes) (done : List Bytes) :
    cut size bound bytes done = done.reverse ++ cut size bound bytes [] := by
  induction bound generalizing bytes done with
  | zero => simp [cut]
  | succ bound ih =>
    cases bytes with
    | nil => simp [cut]
    | cons b rest =>
      rw [cut, cut, ih _ (_ :: done), ih _ [_]]
      · simp
      · simp
      · simp

/-- With room for all pieces the bound does not matter. -/
theorem cut_bound {size : Nat} (positive : 0 < size) {bound bound' : Nat} {bytes : Bytes}
    (enough : bytes.length ≤ bound) (enough' : bytes.length ≤ bound') :
    cut size bound bytes [] = cut size bound' bytes [] := by
  induction bound generalizing bytes bound' with
  | zero =>
    obtain rfl : bytes = [] := List.length_eq_zero_iff.mp (by omega)
    cases bound' <;> rfl
  | succ bound ih =>
    cases bytes with
    | nil => cases bound' <;> rfl
    | cons b rest =>
      cases bound' with
      | zero => simp at enough'
      | succ bound' =>
        have shorter : ((b :: rest).drop size).length + 1 ≤ (b :: rest).length := by
          rw [List.length_drop, List.length_cons]
          omega
        have same : cut size bound ((b :: rest).drop size) []
            = cut size bound' ((b :: rest).drop size) [] := ih (by omega) (by omega)
        rw [cut, cut, cut_eq, cut_eq size bound' _ [_], same]
        · simp
        · simp

@[simp] theorem pieces_nil (size : Nat) : pieces size [] = [] := rfl

theorem pieces_of_ne_nil {size : Nat} (positive : 0 < size) {bytes : Bytes}
    (nonempty : bytes ≠ []) :
    pieces size bytes = bytes.take size :: pieces size (bytes.drop size) := by
  obtain ⟨b, rest, rfl⟩ := List.exists_cons_of_ne_nil nonempty
  have fewer : ((b :: rest).drop size).length ≤ rest.length := by
    rw [List.length_drop, List.length_cons]
    omega
  rw [pieces, List.length_cons, cut, cut_eq, pieces]
  · rw [cut_bound positive fewer (Nat.le_refl _)]
    rfl
  · simp

/-- The pieces make up the bytes, none is empty and none is longer than the size,
and there are as many as the size fits into the length, rounded up. -/
theorem pieces_spec {size : Nat} (positive : 0 < size) (bytes : Bytes) :
    (pieces size bytes).flatten = bytes ∧ (∀ p ∈ pieces size bytes, p ≠ [] ∧ p.length ≤ size) ∧
      (pieces size bytes).length = (bytes.length + size - 1) / size := by
  induction hn : bytes.length using Nat.strongRecOn generalizing bytes with
  | _ n ih =>
    subst hn
    by_cases empty : bytes = []
    · subst empty
      refine ⟨rfl, by simp, ?_⟩
      rw [pieces_nil, List.length_nil, List.length_nil, Nat.zero_add, Nat.div_eq_of_lt (by omega)]
    · have longer : 0 < bytes.length := List.length_pos_iff.mpr empty
      obtain ⟨whole, each, count⟩ := ih (bytes.drop size).length
        (by rw [List.length_drop]; omega) (bytes.drop size) rfl
      rw [pieces_of_ne_nil positive empty]
      refine ⟨?_, ?_, ?_⟩
      · rw [List.flatten_cons, whole, List.take_append_drop]
      · intro p mem
        rcases List.mem_cons.mp mem with rfl | mem
        · refine ⟨?_, List.length_take_le _ _⟩
          rw [← List.length_pos_iff, List.length_take]
          omega
        · exact each p mem
      · rw [List.length_cons, count, List.length_drop]
        by_cases more : size ≤ bytes.length
        · rw [show bytes.length - size + size - 1 = bytes.length - 1 by omega,
            show bytes.length + size - 1 = bytes.length - 1 + size by omega,
            Nat.add_div_right _ positive]
        · rw [show bytes.length - size + size - 1 = size - 1 by omega,
            show bytes.length + size - 1 = bytes.length - 1 + size by omega,
            Nat.add_div_right _ positive, Nat.div_eq_of_lt (by omega), Nat.div_eq_of_lt (by omega)]

namespace Frame

/-- A part of a message. -/
def part (f : Frame) (isLast : Bool) (payload : Bytes) : Frame :=
  { f with
    flags := f.flags ||| Flag.fragment ||| (if isLast then Flag.final else 0)
    payload }

theorem parts_of_short {f : Frame} {threshold : Nat} (short : f.payload.length ≤ max threshold 1) :
    f.parts threshold = [f] := by
  rw [parts, if_pos short]

/-- A message that is too long for one frame goes out in parts of which the last
one is marked. -/
theorem parts_of_long {f : Frame} {threshold : Nat} (long : max threshold 1 < f.payload.length) :
    ∃ firsts last, f.parts threshold = firsts.map (f.part false) ++ [f.part true last] ∧
      firsts.flatten ++ last = f.payload ∧
      (∀ p ∈ firsts ++ [last], p ≠ [] ∧ p.length ≤ max threshold 1) ∧
      firsts.length + 1 = (f.payload.length + max threshold 1 - 1) / max threshold 1 := by
  have positive : 0 < max threshold 1 := Nat.lt_of_lt_of_le Nat.one_pos (Nat.le_max_right _ _)
  obtain ⟨whole, each, count⟩ := pieces_spec positive f.payload
  have nonempty : pieces (max threshold 1) f.payload ≠ [] := by
    rintro none_left
    rw [none_left] at whole
    rw [← whole] at long
    simp at long
  obtain ⟨firsts, last, split⟩ :
      ∃ firsts last, pieces (max threshold 1) f.payload = firsts ++ [last] :=
    ⟨_, _, (List.dropLast_append_getLast nonempty).symm⟩
  rw [split] at whole each count
  rw [List.length_append, List.length_singleton] at count
  refine ⟨firsts, last, ?_, by simpa using whole, each, count⟩
  rw [parts, if_neg (by omega), split, ← count]
  refine List.ext_getElem (by simp) fun i inside _ => ?_
  rw [List.length_mapIdx, List.length_append, List.length_singleton] at inside
  rw [List.getElem_mapIdx]
  by_cases at_last : i = firsts.length
  · subst at_last
    simp [part]
  · have among : i < firsts.length := by omega
    simp [part, among, at_last]

end Frame

end PartitionEngine
