import PartitionEngine.Wire.Frame

/-!
# Frames as bytes

Writing a frame, cutting a message into frames, and taking the first frame off
a byte string.

A message whose payload is longer than the threshold goes out as parts of that
length.  Every part carries the flag `fragment`, and the last one also `final`.

`decode` takes one frame off the front.  It gives no frame as long as bytes are
missing, and an error as soon as a header announces more than the limit.
-/

namespace PartitionEngine

namespace Header

def encode (h : Header) : Bytes :=
  h.opcode :: bigEndian 8 h.correlationId.toNat ++ bigEndian 4 h.partition.toUInt32.toNat
    ++ h.flags :: bigEndian 4 h.payloadLength.toNat

/-- The header at the front of a byte string, and the bytes after it. -/
def decode? : Bytes → Option (Header × Bytes)
  | opcode :: c0 :: c1 :: c2 :: c3 :: c4 :: c5 :: c6 :: c7 :: p0 :: p1 :: p2 :: p3 :: flags
      :: l0 :: l1 :: l2 :: l3 :: rest =>
    some ({
      opcode
      correlationId := UInt64.ofNat (ofBigEndian [c0, c1, c2, c3, c4, c5, c6, c7])
      partition := (UInt32.ofNat (ofBigEndian [p0, p1, p2, p3])).toInt32
      flags
      payloadLength := UInt32.ofNat (ofBigEndian [l0, l1, l2, l3]) }, rest)
  | _ => none

end Header

namespace Frame

/-- The header of a frame with given flags and payload length.  The length field
has 32 bits. -/
def header (f : Frame) (flags : UInt8) (payloadLength : Nat) : Header :=
  { opcode := f.opcode, correlationId := f.correlationId, partition := f.partition, flags,
    payloadLength := UInt32.ofNat payloadLength }

def encode (f : Frame) : Bytes := (f.header f.flags f.payload.length).encode ++ f.payload

end Frame

/-- The pieces of a byte string after those already cut off, which come last
first.  The first argument bounds the number of pieces. -/
def cut (size : Nat) : (bound : Nat) → Bytes → List Bytes → List Bytes
  | 0, _, done => done.reverse
  | _, [], done => done.reverse
  | bound + 1, bytes, done => cut size bound (bytes.drop size) (bytes.take size :: done)

/-- A byte string in pieces of `size` bytes, the last one shorter if need be.
There is no empty piece. -/
def pieces (size : Nat) (bytes : Bytes) : List Bytes := cut size bytes.length bytes []

namespace Frame

/-- The frames a message goes out as: itself if its payload is within the
threshold, taken as at least 1, and parts of that length otherwise. -/
def parts (f : Frame) (threshold : Nat) : List Frame :=
  let size := max threshold 1
  let length := f.payload.length
  if length ≤ size then [f]
  else
    let count := (length + size - 1) / size
    (pieces size f.payload).mapIdx fun i payload =>
      { f with
        flags := f.flags ||| Flag.fragment ||| (if i + 1 = count then Flag.final else 0)
        payload }

def encodeMessage (f : Frame) (threshold : Nat) : Bytes := (f.parts threshold).flatMap Frame.encode

end Frame

/-- The first frame of a byte string and the bytes after it.  `none` as long as
bytes of the frame are missing. -/
def decode (maxPayload : Nat) (bytes : Bytes) : Except FrameError (Option (Frame × Bytes)) :=
  match Header.decode? bytes with
  | none => .ok none
  | some (h, rest) =>
    let length := h.payloadLength.toNat
    if maxPayload < length then .error (.payloadTooLarge length maxPayload)
    else
      let payload := rest.take length
      if payload.length < length then .ok none
      else .ok (some ({
        opcode := h.opcode, correlationId := h.correlationId, partition := h.partition,
        flags := h.flags, payload }, rest.drop length))

end PartitionEngine
