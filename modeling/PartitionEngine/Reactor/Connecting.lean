import PartitionEngine.Reactor.Transfer

/-!
# Connecting

A channel for a link connects in attempts.  Each has a timer, and the pause
before the next one grows with their number.  When no attempt is left, the
channel is closed with the reason of the last failure.

An attempt carries its number, so a timer that comes late does not touch a later
attempt.
-/

namespace PartitionEngine

namespace Turn

variable {σ : Type}

/-- Counts a timer of a channel.  The count panics rather than start over. -/
def countTimer (t : Turn σ) (key : SlotKey) : Turn σ :=
  match t.channel? key with
  | none => t
  | some c =>
    if c.timers.toNat = maxTimers then t.panic
    else t.putChannel key { c with timers := c.timers + 1 }

/-- Submits a timer for a channel, and counts it. -/
def submitTimer (t : Turn σ) (key : SlotKey) (token : Token) (after : Nat) :
    Except Failure Unit × Turn σ :=
  match t.submit token (.timeout after) with
  | (.ok (), t) => (.ok (), t.countTimer key)
  | (.error e, t) => (.error e, t)

/-- An attempt has failed.  The next one is put off by a timer.  If there is
none, or the timer is refused, the channel is closed. -/
def connectFailed (t : Turn σ) (key : SlotKey) (reason : String) : Turn σ :=
  match t.channel? key with
  | none => t
  | some c =>
    let giveUp := fun (t : Turn σ) => t.close key (.connect c.remote reason)
    if c.attempt ≤ t.config.connectRetries ∧ !t.reactor.stopping then
      match t.config.pauseAfter? c.attempt with
      | none => t.panic
      | some pause =>
        match t.submitTimer key (.ofChannel .retryTimer key c.attempt.toUInt8) pause with
        | (.ok (), t) => t
        | (.error _, t) => giveUp t
    else giveUp t

/-- Submits the connect of an attempt, on a new socket, and its timer.  The
attempt goes on without the timer if that is refused. -/
def submitConnect (t : Turn σ) (key : SlotKey) (c : Channel) (socket : Nat) : Turn σ :=
  let attempt := c.attempt.toUInt8
  match t.submit (.ofChannel .connect key attempt) (.connect (some socket) c.remote) with
  | (.error e, t) => (t.closeSocket (some socket)).connectFailed key e.message
  | (.ok (), t) =>
    let t := t.modifyChannel key fun c =>
      { c with descriptor := some socket, connectInFlight := true }
    (t.submitTimer key (.ofChannel .connectTimeout key attempt) t.config.connectTimeout).2

/-- Starts the next attempt.  Its number panics rather than start over. -/
def startConnect (t : Turn σ) (key : SlotKey) : Turn σ :=
  match t.channel? key with
  | none => t
  | some c =>
    if c.attempt.toNat = maxAttempts then t.panic
    else
      let c := { c with attempt := c.attempt + 1, timedOut := false }
      let t := t.putChannel key c
      match t.host.openSocket with
      | .error e => t.connectFailed key e.text
      | .ok (socket, host) => { t with host }.submitConnect key c socket

/-- Makes the channel of a link, which no attempt was made for. -/
def makeChannel (t : Turn σ) (l : Link) : SlotKey × Turn σ :=
  let (key, t) := t.addChannel (.outbound l t.config.maxMessageSize)
  let outbound := t.reactor.outbound.insert l.endpoint key
  (key, { t with reactor := { t.reactor with outbound } }
    |>.modifyLinks (fun links => links.connectStarted l)
    |>.count fun s => { s with connects := s.connects + 1 })

/-- The channel of a link, made and connected if there is none that can be used.
`none` if connecting failed at once. -/
def outboundChannel (t : Turn σ) (l : Link) : Option SlotKey × Turn σ :=
  let usable := (t.reactor.outbound.get? l.endpoint).filter fun key =>
    match t.channel? key with
    | some c => c.state = .connecting || c.state = .open
    | none => false
  match usable with
  | some key => (some key, t)
  | none =>
    let (key, t) := t.makeChannel l
    let t := t.startConnect key
    match t.channel? key with
    | some c => (if c.state = .connecting then some key else none, t)
    | none => (none, t)

/-- The connection of a channel is there. -/
def openChannel (t : Turn σ) (key : SlotKey) (c : Channel) : Turn σ :=
  let t := t.putChannel key { c with state := .open }
  let t := match c.link with
    | some l => t.modifyLinks fun links => links.markOpen l
    | none => t
  (t.postRecv key).andThen (·.flush key)

/-- Cancels the timer of an attempt, if the channel has one. -/
def cancelTimer (t : Turn σ) (key : SlotKey) (c : Channel) (attempt : UInt8) : Turn σ :=
  if c.timers > 0 then t.cancel (.ofChannel .connectTimeout key attempt) else t

/-- The connect of an attempt has come back. -/
def onConnect (t : Turn σ) (key : SlotKey) (attempt : UInt8) (result : Int) : Turn σ :=
  match t.channel? key with
  | none => t
  | some c =>
    let c := { c with connectInFlight := false }
    let t := t.putChannel key c
    if c.state ≠ .connecting then t
    else
      let t := t.cancelTimer key c attempt
      if result = 0 then t.openChannel key c
      else
        let reason := if c.timedOut then "timed out after " ++ Text.span t.config.connectTimeout
          else (Failure.ofErrno "connect" result).message
        (t.closeSocket c.descriptor |>.putChannel key { c with descriptor := none })
          |>.connectFailed key reason

def timerDone (c : Channel) : Channel := { c with timers := c.timers - min c.timers 1 }

/-- The timer of an attempt has come back. -/
def onConnectTimeout (t : Turn σ) (key : SlotKey) (attempt : UInt8) (result : Int) : Turn σ :=
  match t.channel? key with
  | none => t
  | some c =>
    let c := timerDone c
    let t := t.putChannel key c
    if result ≠ 0 ∨ attempt ≠ c.attempt.toUInt8 ∨ c.state ≠ .connecting ∨ !c.connectInFlight then t
    else (t.putChannel key { c with timedOut := true }).cancel (.ofChannel .connect key attempt)

/-- The pause before an attempt is over. -/
def onRetryTimer (t : Turn σ) (key : SlotKey) (result : Int) : Turn σ :=
  match t.channel? key with
  | none => t
  | some c =>
    let c := timerDone c
    let t := t.putChannel key c
    if result ≠ 0 ∨ c.state ≠ .connecting then t else t.startConnect key

end Turn

end PartitionEngine
