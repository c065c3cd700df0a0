import PartitionEngine.Assoc
import PartitionEngine.Wire.Frame

/-!
# Putting messages together

One assembler belongs to one connection.  It keeps a stream for every message
of which a part has come and the last part has not.  A stream is named by its
direction and its correlation id: the peer chooses the ids of requests and we
choose those of responses, so both may use the same id.

The payloads of all open streams count against one limit, and at most
`maxOpenStreams` streams are open.  An error concerns one frame, and drops the
stream that the frame belongs to if the parts no longer fit.
-/

namespace PartitionEngine

/-- The streams one connection may hold open. -/
def maxOpenStreams : Nat := 64

/-- The name of a stream. -/
structure StreamKey where
  isResponse : Bool
  correlationId : UInt64
  deriving DecidableEq

/-- A message of which some parts have come. -/
structure PartialMessage where
  /-- The opcode of the first part. -/
  opcode : UInt8
  partition : Partition
  /-- The flags of the first part, without those of parts. -/
  flags : UInt8
  /-- The payloads of the parts, the last one first. -/
  parts : List Bytes := []

namespace PartialMessage

def payload (m : PartialMessage) : Bytes := m.parts.reverse.flatten

def length (m : PartialMessage) : Nat := (m.parts.map List.length).foldl (· + ·) 0

def append (m : PartialMessage) (part : Bytes) : PartialMessage := { m with parts := part :: m.parts }

/-- The message a first part opens. -/
def ofFirst (f : Frame) : PartialMessage :=
  { opcode := f.opcode, partition := f.partition,
    flags := f.flags &&& ~~~(Flag.fragment ||| Flag.final) }

end PartialMessage

/-- The open streams of a connection. -/
structure Assembler where
  streams : Assoc StreamKey PartialMessage := .empty
  /-- The payload bytes the open streams hold. -/
  buffered : Nat := 0
  /-- The limit for them. -/
  maxMessage : Nat

namespace Assembler

def pending (a : Assembler) : Nat := a.streams.size

def clear (a : Assembler) : Assembler := { a with streams := .empty, buffered := 0 }

def discard (a : Assembler) (key : StreamKey) : Assembler :=
  match a.streams.get? key with
  | some m => { a with streams := a.streams.erase key, buffered := a.buffered - m.length }
  | none => a

/-- The stream a part belongs to. -/
def keyOf (f : Frame) : StreamKey := ⟨f.isResponse, f.correlationId⟩

/-- Takes a part of the message `m`.  The last part completes the message. -/
def acceptPart (a : Assembler) (f : Frame) (m : PartialMessage) :
    Except FrameError (Option Frame) × Assembler :=
  let key := keyOf f
  if m.opcode ≠ f.opcode ∨ m.partition ≠ f.partition then
    (.error (.fragmentMismatch f.correlationId), a.discard key)
  else if a.maxMessage < a.buffered + f.payload.length then
    (.error (.messageTooLarge f.correlationId a.maxMessage), a.discard key)
  else
    let m := m.append f.payload
    let a := { a with
      streams := a.streams.insert key m
      buffered := a.buffered + f.payload.length }
    if f.isFinal then
      (.ok (some { opcode := m.opcode, correlationId := f.correlationId,
                   partition := m.partition, flags := m.flags, payload := m.payload }),
        a.discard key)
    else (.ok none, a)

/-- Takes a frame.  Gives the whole message if the frame is one or completes
one, and `none` while its stream stays open. -/
def accept (a : Assembler) (f : Frame) : Except FrameError (Option Frame) × Assembler :=
  match f.validate with
  | .error e => (.error e, a)
  | .ok () =>
    if !f.isFragment then
      if f.isFinal then (.error .finalWithoutFragment, a) else (.ok (some f), a)
    else
      match a.streams.get? (keyOf f) with
      | some m => a.acceptPart f m
      | none =>
        if maxOpenStreams ≤ a.pending then (.error (.tooManyStreams maxOpenStreams), a)
        else a.acceptPart f (.ofFirst f)

end Assembler

end PartitionEngine
