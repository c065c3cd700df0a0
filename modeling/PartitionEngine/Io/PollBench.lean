import PartitionEngine.Io.PollDriver
import PartitionEngine.System.Transfer

/-!
# A polling driver on a bench

A polling driver with open files that have names.  Of a pair of sockets the driver
works on one end, and whoever sits at the bench on the other.
-/

namespace PartitionEngine

/-- A polling driver with the files it works on. -/
structure PollBench where
  host : Host
  driver : PollDriver Nat := {}
  names : Assoc String Nat := .empty

namespace PollBench

/-! ## Files -/

def hold (b : PollBench) (name : String) (opened : Nat × Host) : PollBench :=
  { b with host := opened.2, names := b.names.insert name opened.1 }

/-- The descriptor of a name, on which the driver works. -/
def near (b : PollBench) (name : String) : Descriptor := b.names.get? name

def far (b : PollBench) (name : String) : Descriptor :=
  ((b.near name).bind b.host.stream?).map Stream.far

def openPair (b : PollBench) (name : String) : PollBench :=
  let ((near, _), host) := b.host.openPair
  b.hold name (near, host)

def openListener (b : PollBench) (name : String) : PollBench :=
  b.hold name (b.host.add (.listener (b.host.endpointFor (.ofIp .loopback 0)) []))

def openCounter (b : PollBench) (name : String) : PollBench := b.hold name (b.host.add (.counter 0))

def fire (b : PollBench) (name : String) : PollBench :=
  { b with host := b.host.countUp (b.near name) 1 }

/-- An endpoint that nobody listens on. -/
def deadEnd : Endpoint := .ofIp .loopback 1

/-- Where a listener listens, or else an endpoint that nobody listens on. -/
def target (b : PollBench) (name : String) : Endpoint :=
  match b.host.file? (b.near name) with
  | some (.listener endpoint _) => endpoint
  | _ => deadEnd

/-- Connects to a listener.  Gives the error number if that fails. -/
def dial (b : PollBench) (name : String) : Except Int PollBench :=
  let (socket, host) := b.host.add .socket
  match host.connect (some socket) (b.target name) with
  | (.done { result := .ofNat _, .. }, host) => .ok { b with host }
  | (.done { result := .negSucc n, .. }, _) => .error (n + 1)
  | _ => .error Errno.inProgress

/-! ## The other end -/

def act (b : PollBench) (op : IoOp) : Attempt × PollBench :=
  let (attempt, host) := b.host.attempt op false
  (attempt, { b with host })

def farWrite (b : PollBench) (name : String) (bytes : Bytes) : PollBench :=
  (b.act (.send (b.far name) bytes)).2

/-- Reads at the other end.  `none` if there is nothing to read yet. -/
def farRead (b : PollBench) (name : String) (room : Nat) : Option Bytes × PollBench :=
  match b.act (.recv (b.far name) room) with
  | (.done r, b) => (some r.received, b)
  | (_, b) => (none, b)

def farClose (b : PollBench) (name : String) : PollBench :=
  { b with host := b.host.close (b.far name) }

/-- Writes zeros on the driver's end until no more are taken. -/
def fill (b : PollBench) (name : String) : PollBench :=
  (b.act (.send (b.near name) (List.replicate Host.streamCapacity 0))).2

def farDrain (b : PollBench) (name : String) : Bytes × PollBench :=
  let (bytes, b) := b.farRead name Host.streamCapacity
  (bytes.getD [], b)

/-! ## The driver -/

/-- The operation of a kind on a named file.  A connect takes a new socket. -/
def operation (b : PollBench) (kind : IoKind) (name : String) (room after : Nat) (bytes : Bytes) :
    IoOp × PollBench :=
  let d := b.near name
  match kind with
  | .accept => (.accept d, b)
  | .recv => (.recv d room, b)
  | .read => (.read d room, b)
  | .send => (.send d bytes, b)
  | .timeout => (.timeout after, b)
  | .connect =>
    let (socket, host) := b.host.add .socket
    (.connect (some socket) (b.target name), { b with host })

def submit (b : PollBench) (token : Nat) (op : IoOp) : PollBench :=
  let (driver, host) := b.driver.submit Host.kernel token op b.host
  { b with driver, host }

def cancel (b : PollBench) (token : Nat) : PollBench := { b with driver := b.driver.cancel token }

def maxPolls : Nat := 100000

/-- Waits while the process may hold so many files open.  `none` if the wait would
not end. -/
def wait (b : PollBench) (minimum : Nat) (limit : Option Nat) :
    Option (Except Failure Nat) × PollBench :=
  let host := { b.host with descriptorLimit := limit }
  let (result, driver, host) := b.driver.wait Host.kernel maxPolls minimum host
  (result, { b with driver, host := { host with descriptorLimit := none } })

def drain (b : PollBench) (limit : Nat) : List (IoCompletion Nat) × PollBench :=
  let (taken, driver) := b.driver.drain limit
  (taken, { b with driver })

end PollBench

end PartitionEngine
