import PartitionEngine.Assoc
import PartitionEngine.Failure

/-!
# Links

The connection from one of our reactors to the reactor with the same index of a
peer.  A link records whether a connection exists or is being made; the
connection itself belongs to the reactor.  The links of a peer are made together
and stay.
-/

namespace PartitionEngine

/-- Where the connection of a link is. -/
inductive LinkState where
  | idle
  | connecting
  | open
  deriving DecidableEq

namespace LinkState

def name : LinkState → String
  | idle => "Idle"
  | connecting => "Connecting"
  | .open => "Open"

end LinkState

/-- The name of a link, and where it leads. -/
structure Link where
  peer : Address
  /-- The index of the reactor, ours and the peer's. -/
  index : Nat
  /-- Where the peer's reactor listens. -/
  endpoint : Endpoint
  deriving DecidableEq

/-- What is known about a link. -/
structure LinkRecord where
  state : LinkState := .idle
  connects : Nat := 0

/-- The links of all peers. -/
structure Links where
  reactorCount : Nat
  peers : Assoc Address (List LinkRecord) := .empty

namespace Links

/-- The first index below the number of reactors for which a peer has no port. -/
def unreachableIndex? (links : Links) (peer : Address) : Option Nat :=
  (List.range links.reactorCount).find? fun i => (peer.reactorEndpoint? i).isNone

/-- Makes the links of a peer, unless they are there. -/
def addPeer (links : Links) (peer : Address) : Except Failure Links :=
  if links.peers.contains peer then .ok links
  else match links.unreachableIndex? peer with
    | some i => .error (.config ("no port for reactor " ++ toString i ++ " of " ++ peer.text))
    | none => .ok { links with
        peers := links.peers.insert peer (List.replicate links.reactorCount {}) }

def link (links : Links) (peer : Address) (index : Nat) : Except Failure Link × Links :=
  match links.addPeer peer with
  | .error e => (.error e, links)
  | .ok links =>
    match if index < links.reactorCount then peer.reactorEndpoint? index else none with
    | some endpoint => (.ok { peer, index, endpoint }, links)
    | none => (.error (.config ("reactor index " ++ toString index ++ " out of range")), links)

def record (links : Links) (l : Link) : LinkRecord :=
  ((links.peers.get? l.peer).getD []).getD l.index {}

def state (links : Links) (l : Link) : LinkState := (links.record l).state

def modify (links : Links) (l : Link) (f : LinkRecord → LinkRecord) : Links :=
  match links.peers.get? l.peer with
  | some records => { links with peers := links.peers.insert l.peer (records.modify l.index f) }
  | none => links

def setState (links : Links) (l : Link) (state : LinkState) : Links :=
  links.modify l fun r => { r with state }

def connectStarted (links : Links) (l : Link) : Links :=
  links.modify l fun r =>
    { connects := r.connects + 1, state := if r.state = .idle then .connecting else r.state }

def markOpen (links : Links) (l : Link) : Links := links.setState l .open

def reset (links : Links) (l : Link) : Links := links.setState l .idle

/-- The connections started to any reactor of a peer. -/
def connectRequests (links : Links) (peer : Address) : Nat :=
  (((links.peers.get? peer).getD []).map LinkRecord.connects).foldl (· + ·) 0

end Links

end PartitionEngine
