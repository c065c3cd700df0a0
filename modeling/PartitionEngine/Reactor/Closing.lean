import PartitionEngine.Reactor.Basic

/-!
# Closing channels

A channel that is closed shuts its socket, and cancels what it has under way.
It leaves the slab with the last operation that comes back.  The channel of a
link takes the invocations that went through it along, and leaves the link idle.
-/

namespace PartitionEngine

namespace Channel

/-- The operations that closing a channel cancels. -/
def cancelTokens (c : Channel) (key : SlotKey) : List Token :=
  let attempt := c.attempt.toUInt8
  (if c.recvInFlight then [.ofChannel .recv key] else [])
    ++ (if c.writes.inFlight then [.ofChannel .send key] else [])
    ++ (if c.connectInFlight then [.ofChannel .connect key attempt] else [])
    ++ (if c.timers > 0 then
          [.ofChannel .connectTimeout key attempt, .ofChannel .retryTimer key attempt]
        else [])

/-- The channel after it has been closed. -/
def beginClose (c : Channel) : Channel :=
  { c with state := .closing, assembler := c.assembler.clear }

end Channel

namespace Turn

variable {σ : Type}

/-- Removes a closing channel with nothing under way. -/
def releaseIfDone (t : Turn σ) (key : SlotKey) : Turn σ :=
  match t.channel? key with
  | none => t
  | some c =>
    if c.state = .closing ∧ c.opsInFlight = 0 then
      let (_, channels) := t.reactor.channels.remove key.slot
      { t with reactor := { t.reactor with channels } }.closeSocket c.descriptor
    else t

/-- Forgets the channel of a link, and fails the invocations that went through
it. -/
def abandonLink (t : Turn σ) (key : SlotKey) (l : Link) (cause : Failure) : Turn σ :=
  let outbound := t.reactor.outbound
  let outbound := if outbound.get? l.endpoint = some key then outbound.erase l.endpoint else outbound
  { t with reactor := { t.reactor with outbound } }
    |>.modifyInvocations (fun table => (table.failRouted l.peer l.index cause).2)
    |>.modifyLinks (fun links => links.reset l)

/-- Closes a channel, and leaves it in the slab. -/
def shut (t : Turn σ) (key : SlotKey) (c : Channel) (cause : Failure) : Turn σ :=
  let t := t.putChannel key c.beginClose
    |>.shutdown c.descriptor
    |>.cancelAll (c.cancelTokens key)
    |>.count fun s => { s with closed := s.closed + 1 }
  match c.link with
  | some l => t.abandonLink key l cause
  | none => t

/-- Closes a channel, unless it has been closed. -/
def close (t : Turn σ) (key : SlotKey) (cause : Failure) : Turn σ :=
  match t.channel? key with
  | none => t
  | some c =>
    if c.state.isClosed then t else (t.shut key c cause).releaseIfDone key

end Turn

end PartitionEngine
