import PartitionEngine.System.Host

/-!
# Questions to sockets

What a socket tells about itself: the endpoints of its connection and the error
that is pending.  A socket without endpoints has no options of the transport
either.
-/

namespace PartitionEngine

namespace Host

/-- The failure of a call on a descriptor that stands for no socket. -/
def notASocket (h : Host) (d : Option Nat) : IoFailure :=
  .os (if (h.file? d).isSome then Errno.notSocket else Errno.badDescriptor)

/-- The failure to name the endpoint of a socket that has none. -/
def noEndpoint : IoFailure := .custom "InvalidData" "unsupported address family"

def setOptions (h : Host) (d : Option Nat) : Except IoFailure Unit :=
  match h.file? d with
  | some (.stream { ends := none, .. }) => .error (.os Errno.notSupported)
  | some (.stream _) | some (.listener ..) | some .socket => .ok ()
  | _ => .error (h.notASocket d)

def localEndpoint (h : Host) (d : Option Nat) : Except IoFailure Endpoint :=
  match h.file? d with
  | some (.stream s) => (s.ends.map Prod.fst).elim (.error noEndpoint) .ok
  | some (.listener endpoint _) => .ok endpoint
  | some .socket => .ok (.v4 0 0)
  | _ => .error (h.notASocket d)

def peerEndpoint (h : Host) (d : Option Nat) : Except IoFailure Endpoint :=
  match h.file? d with
  | some (.stream s) => (s.ends.map Prod.snd).elim (.error noEndpoint) .ok
  | some (.listener ..) | some .socket => .error (.os Errno.notConnected)
  | _ => .error (h.notASocket d)

/-- The error that is pending at a socket, 0 if there is none. -/
def pendingError (h : Host) (d : Option Nat) : Except IoFailure Int :=
  match h.file? d with
  | some (.stream s) => .ok (s.fault.getD 0)
  | some (.listener ..) | some .socket => .ok 0
  | _ => .error (h.notASocket d)

end Host

end PartitionEngine
