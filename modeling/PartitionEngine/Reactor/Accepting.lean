import PartitionEngine.Reactor.Transfer

/-!
# Waking up and accepting

A reactor keeps a read on its wakeup signal under way, and an accept on its
listener.  Both are submitted again as soon as they come back, until the reactor
winds down.
-/

namespace PartitionEngine

namespace Turn

variable {σ : Type}

/-- Submits the read on the wakeup signal. -/
def armWakeup (t : Turn σ) : Turn σ :=
  match t.submit (.plain .wakeup) (.read none 8) with
  | (.ok (), t) => { t with reactor := { t.reactor with wakeArmed := true } }
  | (.error _, t) => t

/-- The read on the wakeup signal has come back. -/
def onWakeup (t : Turn σ) : Turn σ :=
  let t := { t with reactor := { t.reactor with wakeArmed := false } }
  if t.reactor.stopping then t else t.armWakeup

/-- Submits an accept, if there is a listener and none is under way. -/
def armAccept (t : Turn σ) : Turn σ :=
  if t.reactor.listener.isNone ∨ t.reactor.acceptArmed ∨ t.reactor.stopping then t
  else match t.submit (.plain .accept) (.accept t.reactor.listener) with
    | (.ok (), t) => { t with reactor := { t.reactor with acceptArmed := true } }
    | (.error _, t) => t

/-- Makes a channel of an accepted connection.  It is dropped if the other side
cannot be told. -/
def adopt (t : Turn σ) (socket : Nat) (remote : Option Endpoint) : Turn σ :=
  match remote with
  | none => t.closeSocket (some socket)
  | some remote =>
    let (key, t) := t.addChannel (.accepted (some socket) remote t.config.maxMessageSize)
    (t.count fun s => { s with accepted := s.accepted + 1 }).postRecv key

def onAccept (t : Turn σ) (result : Int) (remote : Option Endpoint) : Turn σ :=
  let t := { t with reactor := { t.reactor with acceptArmed := false } }
  if result < 0 then t.armAccept
  else if t.reactor.stopping then t.closeSocket (some result.toNat)
  else (t.adopt result.toNat remote).andThen armAccept

end Turn

end PartitionEngine
