import PartitionEngine.Channel.Basic

/-!
# Feeding channels

Everything a channel makes of received bytes: messages, and the errors of single
frames, up to the first error that loses the stream.  And everything a write
queue sends until it is empty.
-/

namespace PartitionEngine

/-- What a channel makes of received bytes. -/
structure Fed where
  channel : Channel
  messages : List (Except FrameError Frame) := []
  /-- Whether the stream is lost. -/
  lost : Bool := false

namespace Channel

/-- Takes messages until bytes are missing or the stream is lost.  The first
argument bounds their number; those already taken come last first. -/
def takeFrom (maxPayload : Nat) : (bound : Nat) → Channel → List (Except FrameError Frame) → Fed
  | 0, c, done => { channel := c, messages := done.reverse }
  | bound + 1, c, done =>
    match c.nextMessage maxPayload with
    | (.ok none, c) => { channel := c, messages := done.reverse }
    | (.ok (some f), c) => takeFrom maxPayload bound c (.ok f :: done)
    | (.error e, c) =>
      if e.corruptsStream then
        { channel := c, messages := (.error e :: done).reverse, lost := true }
      else takeFrom maxPayload bound c (.error e :: done)

/-- Receives bytes and takes the messages in them. -/
def feed (c : Channel) (maxPayload : Nat) (bytes : Bytes) : Fed :=
  let c := c.received bytes
  takeFrom maxPayload (c.unread.length + 1) c []

/-- Receives pieces one after another, until the stream is lost. -/
def feedAll (c : Channel) (maxPayload : Nat) : List Bytes → Fed
  | [] => { channel := c }
  | piece :: rest =>
    let fed := c.feed maxPayload piece
    if fed.lost then fed
    else
      let later := feedAll fed.channel maxPayload rest
      { later with messages := fed.messages ++ later.messages }

end Channel

/-- What a write queue sent. -/
structure Drained where
  queue : WriteQueue
  taken : List Bytes := []
  /-- The length of what each send was offered and of what it took. -/
  sends : List (Nat × Nat) := []

namespace WriteQueue

/-- Sends until nothing is left, each send taking at most the limit for its
number.  The first argument bounds the number of sends.  `none` is a panic. -/
def drainFrom (coalesce : Nat) (limit : Nat → Nat) : (bound : Nat) → WriteQueue → Nat →
    List Bytes → List (Nat × Nat) → Option Drained
  | 0, queue, _, taken, sends => some { queue, taken := taken.reverse, sends := sends.reverse }
  | bound + 1, queue, i, taken, sends =>
    match queue.nextSend coalesce with
    | none => none
    | some (none, queue) => some { queue, taken := taken.reverse, sends := sends.reverse }
    | some (some offered, queue) =>
      let part := offered.take (limit i)
      drainFrom coalesce limit bound (queue.consume part.length) (i + 1) (part :: taken)
        ((offered.length, part.length) :: sends)

def drain (q : WriteQueue) (coalesce : Nat) (limit : Nat → Nat) : Option Drained :=
  drainFrom coalesce limit (q.queued + 1) q 0 [] []

end WriteQueue

end PartitionEngine
