import PartitionEngine.Reactor.Closing

/-!
# Receiving, serving and sending

An open channel always has a receive under way, and a send as long as bytes
wait.  Received bytes are taken apart into messages.  A request for a partition
of this reactor is run at once; any other is forwarded to the reactor that
serves it.  A response completes the invocation it belongs to, which is looked
up under the peer of the channel's link.
-/

namespace PartitionEngine

namespace Turn

variable {σ : Type}

/-! ## Sending -/

/-- Starts a send on an open channel, unless one is under way or nothing waits. -/
def flush (t : Turn σ) (key : SlotKey) : Turn σ :=
  match t.channel? key with
  | none => t
  | some c =>
    if c.state ≠ .open then t
    else match c.writes.nextSend t.config.writeCoalesceBytes with
      | none => t.panic
      | some (none, writes) => t.putChannel key { c with writes }
      | some (some bytes, writes) =>
        let t := t.putChannel key { c with writes }
        match t.submit (.ofChannel .send key) (.send c.descriptor bytes) with
        | (.ok (), t) => t
        | (.error e, t) =>
          (t.modifyChannel key fun c => { c with writes := c.writes.abortSend }).close key e

/-- Queues bytes on a channel.  They are dropped if the channel has been closed. -/
def write (t : Turn σ) (key : SlotKey) (bytes : Bytes) : Turn σ :=
  match t.channel? key with
  | none => t
  | some c =>
    if c.state.isClosed then t
    else (t.putChannel key { c with writes := c.writes.push bytes }).flush key

/-- A send has come back. -/
def onSend (t : Turn σ) (key : SlotKey) (result : Int) : Turn σ :=
  match t.channel? key with
  | none => t
  | some c =>
    if result < 0 then
      (t.putChannel key { c with writes := c.writes.abortSend }).close key (.ofErrno "send" result)
    else (t.putChannel key { c with writes := c.writes.consume result.toNat }).flush key

/-! ## Serving -/

/-- The frames of a response, as bytes.  They are counted. -/
def encodeResponse (t : Turn σ) (opcode : UInt8) (correlationId : UInt64) (partition : Partition)
    (result : Except ErrorRecord Bytes) : Bytes × Turn σ :=
  let (bytes, frames) := t.shared.encodeResponse opcode correlationId partition result
  (bytes, t.count fun s => { s with framesOut := s.framesOut + frames })

/-- Runs a request.  Gives the response as bytes, unless the operation has none. -/
def execute (t : Turn σ) (f : Frame) : Option Bytes × Turn σ :=
  let (result, dispatcher) :=
    t.reactor.dispatcher.dispatch f.opcode f.partition f.correlationId f.payload
  let t := { t with reactor := { t.reactor with dispatcher } }
  match result with
  | none => (none, t)
  | some result =>
    let (bytes, t) := t.encodeResponse f.opcode f.correlationId f.partition result
    (some bytes, t)

def onRequest (t : Turn σ) (key : SlotKey) (f : Frame) : Turn σ :=
  let owner := t.shared.reactorOf f.partition
  if owner = t.reactor.index then
    match t.execute f with
    | (some bytes, t) => t.write key bytes
    | (none, t) => t
  else
    match t.submitTask owner (.forward f { reactor := t.reactor.index, key }) with
    | (.ok (), t) => t
    | (.error e, t) =>
      if isFireAndForget f.opcode then t
      else
        let (bytes, t) := t.encodeResponse f.opcode f.correlationId f.partition
          (.error ⟨.operationFailed, e.message⟩)
        t.write key bytes

/-- Completes the invocation a response belongs to.  A response on an accepted
channel belongs to none, and once the engine shuts down responses are dropped. -/
def onResponse (t : Turn σ) (key : SlotKey) (f : Frame) : Turn σ :=
  match (t.channel? key).bind Channel.link with
  | none => t
  | some l =>
    if t.shared.shuttingDown then t
    else t.modifyInvocations fun table => (table.complete l.peer f.correlationId f.outcome).2

def onFrame (t : Turn σ) (key : SlotKey) (f : Frame) : Turn σ :=
  if f.isResponse then t.onResponse key f else t.onRequest key f

/-! ## Receiving -/

/-- Starts a receive on an open channel, unless one is under way.  Room for it is made
in the read buffer first. -/
def postRecv (t : Turn σ) (key : SlotKey) : Turn σ :=
  match t.channel? key with
  | none => t
  | some c =>
    if c.state ≠ .open ∨ c.recvInFlight then t
    else if maxCapacity < t.config.readBufferSize then t.panic
    else match t.submit (.ofChannel .recv key) (.recv c.descriptor t.config.readBufferSize) with
      | (.ok (), t) => t.modifyChannel key fun c => { c with recvInFlight := true }
      | (.error e, t) => t.close key e

/-- Takes the messages off a channel until bytes are missing or the channel is
closed.  The first argument bounds their number. -/
def drainFrames : (bound : Nat) → SlotKey → Turn σ → Turn σ
  | 0, _, t => t
  | bound + 1, key, t =>
    match t.channel? key with
    | none => t
    | some c =>
      if c.state ≠ .open then t
      else match c.nextMessage t.config.maxFramePayload with
        | (.ok none, c) => t.putChannel key c
        | (.ok (some f), c) =>
          let t := (t.putChannel key c).count fun s => { s with messagesIn := s.messagesIn + 1 }
          (t.onFrame key f).andThen (drainFrames bound key)
        | (.error e, c) =>
          let t := t.putChannel key c
          if e.corruptsStream then t.close key (.ofFrameError e) else drainFrames bound key t

/-- A receive has come back. -/
def onRecv (t : Turn σ) (key : SlotKey) (result : Int) (received : Bytes) : Turn σ :=
  match t.channel? key with
  | none => t
  | some c =>
    let c := { c with recvInFlight := false }
    let t := t.putChannel key c
    if c.state ≠ .open then t
    else if result = 0 then
      t.close key (.transport (c.remote.text ++ " closed the connection"))
    else if result < 0 then
      t.close key (.ofErrno "recv" result)
    else
      let c := c.received received
      (drainFrames (c.unread.length + 1) key (t.putChannel key c)).andThen (·.postRecv key)

end Turn

end PartitionEngine
