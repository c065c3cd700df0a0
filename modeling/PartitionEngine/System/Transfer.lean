import PartitionEngine.Io.Kernel
import PartitionEngine.System.Host

/-!
# Reading, writing and connecting

What the host does when an operation is attempted on an open file, and when a
file is ready for one.  No attempt waits: one that cannot go on is blocked.
-/

namespace PartitionEngine

namespace Host

/-! ## Attempts -/

/-- The bytes that one direction of a connection holds at most. -/
def streamCapacity : Nat := 212992

/-- Takes bytes off a connection.  At the end of the stream there are none. -/
def recvStream (h : Host) (d : Nat) (s : Stream) (room : Nat) : Attempt × Host :=
  match s.inbox, s.fault with
  | _ :: _, _ =>
    let bytes := s.inbox.take room
    (.done { result := bytes.length, received := bytes },
      h.setFile d (.stream { s with inbox := s.inbox.drop room }))
  | [], some errno => (.failure errno, h.setFile d (.stream { s with fault := none }))
  | [], none => (if h.isOver s then .success 0 else .blocked, h)

def recv (h : Host) (d : Descriptor) (room : Nat) : Attempt × Host :=
  match d, h.file? d with
  | some d, some (.stream s) => h.recvStream d s room
  | _, none => (.failure Errno.badDescriptor, h)
  | _, some (.counter _) => (.failure Errno.notSocket, h)
  | _, some _ => (.failure Errno.notConnected, h)

/-- Reads a counter as 8 bytes, and sets it to 0. -/
def readCounter (h : Host) (d count room : Nat) : Attempt × Host :=
  if room < 8 then (.failure Errno.invalidArgument, h)
  else if count = 0 then (.blocked, h)
  else (.done { result := 8, received := littleEndian 8 count }, h.setFile d (.counter 0))

def countUp (h : Host) (d : Descriptor) (n : Nat) : Host :=
  match d, h.file? d with
  | some d, some (.counter count) => h.setFile d (.counter (count + n))
  | _, _ => h

def read (h : Host) (d : Descriptor) (room : Nat) : Attempt × Host :=
  match d, h.file? d with
  | some d, some (.counter count) => h.readCounter d count room
  | some d, some (.stream s) => if room = 0 then (.success 0, h) else h.recvStream d s room
  | _, _ => h.recv d room

/-- The bytes that wait at the other end of a connection. -/
def backlogBytes (h : Host) (s : Stream) : Nat :=
  match h.stream? s.far with
  | some far => far.inbox.length
  | none => 0

/-- Sends bytes, as many as there is room for. -/
def sendStream (h : Host) (s : Stream) (bytes : Bytes) : Attempt × Host :=
  let used := h.backlogBytes s
  if h.isOver s then (.failure Errno.brokenPipe, h)
  else if bytes.isEmpty then (.success 0, h)
  else if streamCapacity ≤ used then (.blocked, h)
  else
    let taken := bytes.take (streamCapacity - used)
    (.success taken.length, h.modifyStream s.far fun far => { far with inbox := far.inbox ++ taken })

def send (h : Host) (d : Descriptor) (bytes : Bytes) : Attempt × Host :=
  match h.file? d with
  | some (.stream s) => h.sendStream s bytes
  | none => (.failure Errno.badDescriptor, h)
  | some (.counter _) => (.failure Errno.notSocket, h)
  | some _ => (.failure Errno.brokenPipe, h)

def accept (h : Host) (d : Descriptor) : Attempt × Host :=
  match d, h.file? d with
  | some d, some (.listener e (first :: rest)) =>
    (.done { result := first, remote := ((h.stream? first).bind Stream.ends).map Prod.snd },
      h.setFile d (.listener e rest))
  | _, some (.listener _ []) => (.blocked, h)
  | _, none => (.failure Errno.badDescriptor, h)
  | _, some (.counter _) => (.failure Errno.notSocket, h)
  | _, some _ => (.failure Errno.invalidArgument, h)

def connectTo (h : Host) (d listener : Nat) (e : Endpoint) : Attempt × Host :=
  match h.files.get? listener with
  | some (.listener own backlog) =>
    let (far, h) := h.join d (some (h.endpointFor (.ofIp e.ip 0), e))
    (.success 0, h.setFile listener (.listener own (backlog ++ [far])))
  | _ => (.failure Errno.connectionRefused, h)

def connect (h : Host) (d : Descriptor) (e : Endpoint) : Attempt × Host :=
  match d, h.file? d, h.unreachable with
  | some d, some .socket, none =>
    match h.listener? e with
    | some listener => h.connectTo d listener e
    | none => (.failure Errno.connectionRefused, h)
  | _, some .socket, some errno => (.failure errno, h)
  | _, none, _ => (.failure Errno.badDescriptor, h)
  | _, some (.counter _), _ => (.failure Errno.notSocket, h)
  | _, some _, _ => (.failure Errno.isConnected, h)

/-- Attempts an operation.  A connection is made at once or not at all. -/
def attempt (op : IoOp) (_connecting : Bool) (h : Host) : Attempt × Host :=
  match op with
  | .accept d => h.accept d
  | .connect d e => h.connect d e
  | .recv d room => h.recv d room
  | .send d bytes => h.send d bytes
  | .read d room => h.read d room
  | .timeout _ => (.success 0, h)

/-! ## Readiness -/

/-- Whether a read on a connection would go on. -/
def isReadable (h : Host) (s : Stream) : Bool :=
  !s.inbox.isEmpty || s.fault.isSome || h.isOver s

/-- Whether a connection counts as ready for sending: at most a quarter of it is
full, or it is over. -/
def isWritable (h : Host) (s : Stream) : Bool :=
  decide (h.backlogBytes s * 4 ≤ streamCapacity) || h.isOver s

def isReady (h : Host) (i : Interest) : Bool :=
  match h.file? i.descriptor with
  | some (.stream s) => if i.forWriting then h.isWritable s else h.isReadable s
  | some (.listener _ backlog) => !i.forWriting && !backlog.isEmpty
  | some (.counter count) => if i.forWriting then true else decide (0 < count)
  | some .socket => true
  | none => i.descriptor.isSome

/-- Waits until a file is ready.  If none is, all of the time passes.  Polling
more files than the process may hold open is an error. -/
def poll (interests : List Interest) (limit : Option Nat) (h : Host) :
    Except Int (List Bool) × Host :=
  if (h.descriptorLimit.map fun n => decide (n < interests.length)).getD false then
    (.error Errno.invalidArgument, h)
  else
    let ready := interests.map h.isReady
    let pause := if ready.any id then 0 else limit.getD 0
    (.ok ready, { h with clock := h.clock + pause * 1000000 })

/-- The host as the system that a driver polls. -/
def kernel : Kernel Host where
  now := fun h => (h.clock, h)
  attempt := attempt
  poll := poll

end Host

end PartitionEngine
