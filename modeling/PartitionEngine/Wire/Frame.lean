import PartitionEngine.Failure
import PartitionEngine.Text.Utf8

/-!
# Frames

A frame is a header of 18 bytes and a payload.  The header holds the opcode,
the correlation id, the partition, the flags and the length of the payload, in
1, 8, 4, 1 and 4 bytes, each with the most significant byte first.

A response carries the flag `response`.  If the operation failed it also carries
`error`, and its payload is an error record: the code in one byte and the
message in UTF-8.
-/

namespace PartitionEngine

def headerLength : Nat := 18

/-! ## Flags -/

namespace Flag

def response : UInt8 := 0x01
/-- The frame is a part of a message. -/
def fragment : UInt8 := 0x02
/-- The frame is the last part of a message. -/
def final : UInt8 := 0x04
def error : UInt8 := 0x08
/-- Every flag with a meaning. -/
def known : UInt8 := 0x0F

end Flag

/-! ## Errors -/

/-- What is wrong with a frame. -/
inductive FrameError where
  /-- The header announces more than the limit. -/
  | payloadTooLarge (length limit : Nat)
  | reservedFlags (bits : UInt8)
  /-- The last part of a message that has no parts. -/
  | finalWithoutFragment
  /-- A part with another opcode or partition than the first part. -/
  | fragmentMismatch (correlationId : UInt64)
  /-- The parts exceed the limit for messages. -/
  | messageTooLarge (correlationId : UInt64) (limit : Nat)
  | tooManyStreams (limit : Nat)
  | malformedErrorRecord
  deriving DecidableEq

namespace FrameError

/-- Two hexadecimal digits after `0x`. -/
def hexByte (b : UInt8) : String :=
  String.ofList ['0', 'x', Nat.digitChar (b.toNat / 16), Nat.digitChar (b.toNat % 16)]

def kind : FrameError → String
  | payloadTooLarge .. => "PayloadTooLarge"
  | reservedFlags _ => "ReservedFlags"
  | finalWithoutFragment => "FinalWithoutFragment"
  | fragmentMismatch _ => "FragmentMismatch"
  | messageTooLarge .. => "MessageTooLarge"
  | tooManyStreams _ => "TooManyStreams"
  | malformedErrorRecord => "MalformedErrorRecord"

def message : FrameError → String
  | payloadTooLarge length limit =>
    "payload length " ++ toString length ++ " exceeds limit " ++ toString limit
  | reservedFlags bits => "reserved flag bits set: " ++ hexByte bits
  | finalWithoutFragment => "final-fragment flag on an unfragmented frame"
  | fragmentMismatch cid =>
    "fragment stream " ++ toString cid.toNat ++ " changed opcode or partition"
  | messageTooLarge cid limit =>
    "reassembled message " ++ toString cid.toNat ++ " exceeds " ++ toString limit ++ " bytes"
  | tooManyStreams limit => "more than " ++ toString limit ++ " fragment streams open"
  | malformedErrorRecord => "malformed error record"

/-- Whether the connection has to go.  Either the frame boundaries are lost, or
the peer holds too many messages open.  Any other error concerns one frame. -/
def corruptsStream : FrameError → Bool
  | payloadTooLarge .. | tooManyStreams _ => true
  | _ => false

end FrameError

/-- The failure a frame error is reported as. -/
def Failure.ofFrameError (e : FrameError) : Failure := .protocol e.message

/-! ## Headers and frames -/

/-- What the first 18 bytes of a frame say. -/
structure Header where
  opcode : UInt8
  correlationId : UInt64
  partition : Partition
  flags : UInt8
  payloadLength : UInt32
  deriving DecidableEq

/-- A frame. -/
structure Frame where
  opcode : UInt8
  /-- The id that ties a response to its request. -/
  correlationId : UInt64
  partition : Partition
  flags : UInt8 := 0
  payload : Bytes
  deriving DecidableEq

namespace Frame

def request (opcode : UInt8) (correlationId : UInt64) (partition : Partition) (payload : Bytes) :
    Frame :=
  { opcode, correlationId, partition, payload }

def isResponse (f : Frame) : Bool := f.flags &&& Flag.response != 0

def isFragment (f : Frame) : Bool := f.flags &&& Flag.fragment != 0

def isFinal (f : Frame) : Bool := f.flags &&& Flag.final != 0

def isError (f : Frame) : Bool := f.flags &&& Flag.error != 0

def encodedLength (f : Frame) : Nat := headerLength + f.payload.length

/-- Refuses flags without a meaning. -/
def validate (f : Frame) : Except FrameError Unit :=
  let reserved := f.flags &&& ~~~Flag.known
  if reserved = 0 then .ok () else .error (.reservedFlags reserved)

end Frame

/-! ## Error records -/

namespace ErrorRecord

def encode (r : ErrorRecord) : Bytes := r.code.byte :: utf8 r.message

/-- Reads an error record.  Bytes of the message that are not UTF-8 are replaced. -/
def decode : Bytes → Except FrameError ErrorRecord
  | [] => .error .malformedErrorRecord
  | b :: message =>
    match ErrorCode.ofByte? b with
    | some code => .ok ⟨code, Text.decodeLenient message⟩
    | none => .error .malformedErrorRecord

end ErrorRecord

namespace Frame

/-- The response to a request, with the answer or with an error record. -/
def response (opcode : UInt8) (correlationId : UInt64) (partition : Partition) :
    Except ErrorRecord Bytes → Frame
  | .ok payload => { opcode, correlationId, partition, flags := Flag.response, payload }
  | .error record =>
    { opcode, correlationId, partition, flags := Flag.response ||| Flag.error,
      payload := record.encode }

/-- The result a response brings to the caller. -/
def outcome (f : Frame) : Outcome :=
  if f.isError then
    match ErrorRecord.decode f.payload with
    | .ok record => .error (.remote record)
    | .error e => .error (.ofFrameError e)
  else .ok f.payload

end Frame

end PartitionEngine
