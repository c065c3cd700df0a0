import PartitionEngine.Assoc
import PartitionEngine.Net.Endpoint
import PartitionEngine.System.IoFailure

/-!
# The host

What a program finds on the machine it runs on: the processors, the clock,
which endpoints can be listened on, whether the network carries connections,
and the files the process has open.

A connection has two ends, and each is an open file that keeps what has arrived
and was not read.  An end whose other end was shut down or closed is at the end
of its stream once its bytes are read.
-/

namespace PartitionEngine

/-- One end of a connection. -/
structure Stream where
  /-- The descriptor of the other end. -/
  far : Nat
  /-- What has arrived and was not read. -/
  inbox : Bytes := []
  isShut : Bool := false
  /-- The error that is reported once, when no bytes are left to read. -/
  fault : Option Int := none
  /-- The endpoints of this end and of the other, if they have any. -/
  ends : Option (Endpoint × Endpoint) := none

/-- What a descriptor stands for. -/
inductive OpenFile where
  /-- One end of a connection. -/
  | stream (s : Stream)
  /-- A socket that neither listens nor is connected. -/
  | socket
  /-- A listener, with the connections nobody has accepted yet. -/
  | listener (endpoint : Endpoint) (backlog : List Nat)
  /-- A counter that is read as a whole. -/
  | counter (count : Nat)

/-- The machine a program runs on. -/
structure Host where
  cpus : Nat := 1
  /-- The reading of the clock, in nanoseconds. -/
  clock : Nat := 0
  /-- The highest number of descriptors the process may hold, if there is a limit. -/
  descriptorLimit : Option Nat := none
  /-- The error every attempt to connect ends in, on a network without routes. -/
  unreachable : Option Int := none
  /-- Endpoints that cannot be listened on, with the error number for each. -/
  taken : List (Endpoint × Int) := []
  files : Assoc Nat OpenFile := .empty
  /-- The next descriptor to hand out. -/
  nextDescriptor : Nat := 16

namespace Host

instance : Inhabited Host := ⟨{}⟩

/-- A host whose network has no routes: any endpoint can be listened on, and
every attempt to connect is told at once that the network is unreachable. -/
def isolated : Host := { unreachable := some Errno.networkUnreachable }

/-! ## Descriptors -/

/-- The descriptors a process has from the start. -/
def standardDescriptors : Nat := 3

/-- Whether the process may open another descriptor. -/
def canOpen (h : Host) : Bool :=
  match h.descriptorLimit with
  | some limit => standardDescriptors < limit
  | none => true

def add (h : Host) (file : OpenFile) : Nat × Host :=
  (h.nextDescriptor,
    { h with files := h.files.insert h.nextDescriptor file, nextDescriptor := h.nextDescriptor + 1 })

def openFile (h : Host) (file : OpenFile) : Except IoFailure (Nat × Host) :=
  if h.canOpen then .ok (h.add file) else .error (.os Errno.tooManyFiles)

def openSocket (h : Host) : Except IoFailure (Nat × Host) := h.openFile .socket

def file? (h : Host) (descriptor : Option Nat) : Option OpenFile := descriptor.bind h.files.get?

def setFile (h : Host) (descriptor : Nat) (file : OpenFile) : Host :=
  { h with files := h.files.insert descriptor file }

/-- The end of a connection a descriptor stands for. -/
def stream? (h : Host) (descriptor : Nat) : Option Stream :=
  match h.files.get? descriptor with
  | some (.stream s) => some s
  | _ => none

def modifyStream (h : Host) (descriptor : Nat) (f : Stream → Stream) : Host :=
  match h.stream? descriptor with
  | some s => h.setFile descriptor (.stream (f s))
  | none => h

/-! ## Connections -/

/-- Makes a connection between a descriptor and a new one. -/
def join (h : Host) (near : Nat) (ends : Option (Endpoint × Endpoint)) : Nat × Host :=
  let (far, h) := h.add (.stream { far := near, ends := ends.map Prod.swap })
  (far, h.setFile near (.stream { far, ends }))

/-- A pair of connected sockets without endpoints. -/
def openPair (h : Host) : (Nat × Nat) × Host :=
  let (near, h) := h.add .socket
  let (far, h) := h.join near none
  ((near, far), h)

/-- Whether nothing more can come from the other end, and nothing can be sent
there. -/
def isOver (h : Host) (s : Stream) : Bool :=
  s.isShut || match h.stream? s.far with
    | some far => far.isShut
    | none => true

/-- Shuts a socket down in both directions. -/
def shutdown (h : Host) : Option Nat → Host
  | some d => h.modifyStream d fun s => { s with isShut := true }
  | none => h

/-- Closes one descriptor.  Bytes that were not read are a fault at the other
end. -/
def closeOne (h : Host) (descriptor : Nat) : Host :=
  let h' := { h with files := h.files.erase descriptor }
  match h.stream? descriptor with
  | some { far, inbox := _ :: _, .. } =>
    h'.modifyStream far fun s => { s with fault := some Errno.connectionReset }
  | _ => h'

/-- Closes a descriptor.  With a listener go the connections in its backlog. -/
def close (h : Host) : Option Nat → Host
  | none => h
  | some d =>
    match h.files.get? d with
    | some (.listener _ backlog) => backlog.foldl closeOne (h.closeOne d)
    | _ => h.closeOne d

/-! ## Listeners -/

def listeners (h : Host) : List (Nat × Endpoint) :=
  h.files.entries.filterMap fun (d, file) =>
    match file with
    | .listener endpoint _ => some (d, endpoint)
    | _ => none

def listener? (h : Host) (e : Endpoint) : Option Nat :=
  (h.listeners.find? fun l => l.2 = e).map Prod.fst

/-- Why an endpoint cannot be listened on, if it cannot.  Port 0 stands for any
port that is free. -/
def listenError? (h : Host) (e : Endpoint) : Option Int :=
  if e.port = 0 then none
  else if (h.listener? e).isSome then some Errno.addressInUse
  else (h.taken.find? fun row => row.1 = e).map Prod.snd

/-- The first of the ports for any use. -/
def firstFreePort : Nat := 32768

/-- The endpoint a listener gets that asked for `e`. -/
def endpointFor (h : Host) (e : Endpoint) : Endpoint :=
  if e.port = 0 then .ofIp e.ip (UInt16.ofNat (firstFreePort + h.nextDescriptor % firstFreePort))
  else e

/-- Opens a listener on exactly one endpoint. -/
def listen (h : Host) (e : Endpoint) : Except IoFailure (Nat × Host) :=
  match h.openFile (.listener (h.endpointFor e) []) with
  | .error failure => .error failure
  | .ok opened =>
    match h.listenError? e with
    | some errno => .error (.os errno)
    | none => .ok opened

end Host

end PartitionEngine
