import PartitionEngine.Channel.Slab
import PartitionEngine.Channel.WriteQueue
import PartitionEngine.Link
import PartitionEngine.Wire.Assembler
import PartitionEngine.Wire.Codec

/-!
# Channels

A connection with its buffers, owned by one reactor.  A channel is accepted, or
made for a link.  It knows which of its operations are on their way.  A closed
channel stays until the last of them has come back.

Nothing is sent or received here.  Received bytes are appended with `received`,
and `nextMessage` takes messages off them.
-/

namespace PartitionEngine

/-- What a channel is good for. -/
inductive ChannelState where
  | connecting
  | open
  /-- The channel waits for its last operation. -/
  | closing
  | closed
  deriving DecidableEq

namespace ChannelState

def name : ChannelState → String
  | connecting => "Connecting"
  | .open => "Open"
  | closing => "Closing"
  | closed => "Closed"

def named? (name : String) : Option ChannelState :=
  [connecting, .open, closing, closed].find? fun s => s.name = name

def isClosed (s : ChannelState) : Bool := s = closing || s = closed

end ChannelState

/-- The name of a channel for other reactors. -/
structure ChannelKey where
  reactor : Nat
  key : SlotKey
  deriving DecidableEq

/-- The timers a channel can count. -/
def maxTimers : Nat := 255

/-- The attempts a channel can number. -/
def maxAttempts : Nat := 4294967295

/-- A connection with its buffers. -/
structure Channel where
  descriptor : Option Nat := none
  state : ChannelState
  remote : Endpoint
  link : Option Link := none
  /-- Received bytes that have not been taken. -/
  unread : Bytes := []
  assembler : Assembler
  writes : WriteQueue := {}
  recvInFlight : Bool := false
  connectInFlight : Bool := false
  /-- The timers of connection attempts that have not come back. -/
  timers : UInt8 := 0
  /-- The number of the connection attempt, from 1 on. -/
  attempt : UInt32 := 0
  /-- Whether the attempt was given up because of its timer. -/
  timedOut : Bool := false

namespace Channel

def accepted (descriptor : Option Nat) (remote : Endpoint) (maxMessage : Nat) : Channel :=
  { descriptor, state := .open, remote, assembler := { maxMessage } }

/-- The channel of a connection that is to be made. -/
def outbound (link : Link) (maxMessage : Nat) : Channel :=
  { state := .connecting, remote := link.endpoint, link := some link, assembler := { maxMessage } }

def isOutbound (c : Channel) : Bool := c.link.isSome

/-- The operations that have not come back. -/
def opsInFlight (c : Channel) : Nat :=
  c.recvInFlight.toNat + c.writes.inFlight.toNat + c.connectInFlight.toNat + c.timers.toNat

def received (c : Channel) (bytes : Bytes) : Channel := { c with unread := c.unread ++ bytes }

/-- Takes frames off a byte string until a message is whole, an error comes up
or bytes are missing.  A frame with an error is taken off, unless it cannot be
told where it ends.  The first argument bounds the number of frames. -/
def readMessage (maxPayload : Nat) : (bound : Nat) → Assembler → Bytes →
    Except FrameError (Option Frame) × Assembler × Bytes
  | 0, assembler, unread => (.ok none, assembler, unread)
  | bound + 1, assembler, unread =>
    match decode maxPayload unread with
    | .error e => (.error e, assembler, unread)
    | .ok none => (.ok none, assembler, unread)
    | .ok (some (frame, rest)) =>
      match assembler.accept frame with
      | (.error e, assembler) => (.error e, assembler, rest)
      | (.ok (some message), assembler) => (.ok (some message), assembler, rest)
      | (.ok none, assembler) => readMessage maxPayload bound assembler rest

/-- Takes the next message.  `none` as long as bytes are missing.  After an
error that corrupts the stream the channel has to go; any other concerns one
frame. -/
def nextMessage (c : Channel) (maxPayload : Nat) : Except FrameError (Option Frame) × Channel :=
  let (result, assembler, unread) :=
    readMessage maxPayload (c.unread.length + 1) c.assembler c.unread
  (result, { c with assembler, unread })

end Channel

end PartitionEngine
