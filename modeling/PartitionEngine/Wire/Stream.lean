import PartitionEngine.Wire.Codec

/-!
# Streams of frames

Taking all the frames off the front of a byte string.  What is left is either the
front of a frame, or starts with a header that announces too much.
-/

namespace PartitionEngine

/-- What was taken off a byte string. -/
structure Decoded where
  frames : List Frame := []
  /-- Why decoding cannot go on, if it cannot. -/
  error : Option FrameError := none
  rest : Bytes

/-- Takes frames off a byte string until bytes are missing or an error comes up.
The first argument bounds their number; the frames already taken come last
first. -/
def decodeFrom (maxPayload : Nat) : (bound : Nat) → Bytes → List Frame → Decoded
  | 0, bytes, done => { frames := done.reverse, rest := bytes }
  | bound + 1, bytes, done =>
    match decode maxPayload bytes with
    | .ok none => { frames := done.reverse, rest := bytes }
    | .ok (some (frame, rest)) => decodeFrom maxPayload bound rest (frame :: done)
    | .error e => { frames := done.reverse, error := some e, rest := bytes }

/-- Takes frames off a byte string until bytes are missing or an error comes up. -/
def decodeAll (maxPayload : Nat) (bytes : Bytes) : Decoded :=
  decodeFrom maxPayload (bytes.length / headerLength + 1) bytes []

/-- Appends pieces to a buffer one after another, and takes the frames off after
each, until an error comes up. -/
def decodePieces (maxPayload : Nat) : (buffer : Bytes) → List Bytes → Decoded
  | buffer, [] => { rest := buffer }
  | buffer, piece :: pieces =>
    let now := decodeAll maxPayload (buffer ++ piece)
    match now.error with
    | some _ => now
    | none =>
      let later := decodePieces maxPayload now.rest pieces
      { later with frames := now.frames ++ later.frames }

end PartitionEngine
