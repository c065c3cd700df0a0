import PartitionEngine.Net.Ip

/-!
# Endpoints and member addresses

An endpoint is an internet address and a port.  In version 6 it also has a flow
label and a scope.  Endpoints are ordered by version, address, port, flow label
and scope.  `Endpoint.sockaddr` is the record the operating system takes.

A member of a cluster is named by the endpoint of its reactor 0.  Its reactor
`i` listens `i` ports higher, at an endpoint without flow label and scope.
-/

namespace PartitionEngine

/-- An internet address and a port. -/
inductive Endpoint where
  | v4 (ip : UInt32) (port : UInt16)
  | v6 (ip : BitVec 128) (port : UInt16) (flow : UInt32) (scope : UInt32)
  deriving DecidableEq

namespace Endpoint

/-- The endpoint at an address and a port, without flow label and scope. -/
def ofIp : Ip → UInt16 → Endpoint
  | .v4 bits, port => .v4 bits port
  | .v6 bits, port => .v6 bits port 0 0

instance : Inhabited Endpoint := ⟨ofIp default 0⟩

def ip : Endpoint → Ip
  | .v4 ip _ => .v4 ip
  | .v6 ip .. => .v6 ip

def port : Endpoint → UInt16
  | .v4 _ port => port
  | .v6 _ port .. => port

/-- The text of an endpoint.  A scope other than 0 stands after `%`. -/
def text : Endpoint → String
  | .v4 ip port => Ip.textV4 ip ++ ":" ++ toString port.toNat
  | .v6 ip port _ scope =>
    let zone := if scope = 0 then "" else "%" ++ toString scope.toNat
    "[" ++ Ip.textV6 ip ++ zone ++ "]:" ++ toString port.toNat

/-- The numbers endpoints are compared by, the first that differs deciding. -/
def orderKey : Endpoint → List Nat
  | .v4 ip port => [4, ip.toNat, port.toNat]
  | .v6 ip port flow scope => [6, ip.toNat, port.toNat, flow.toNat, scope.toNat]

/-- Whether an endpoint comes before another or is equal to it. -/
def le (a b : Endpoint) : Bool := !(b.orderKey < a.orderKey)

/-- Endpoints in order, each once. -/
def sortUnique (es : List Endpoint) : List Endpoint :=
  (es.mergeSort le).foldr (fun e row => if row.head? = some e then row else e :: row) []

/-- The address record the operating system takes: the family, the port with
the high byte first, and the address.  Version 4 is padded to 16 bytes; version
6 has the flow label before the address and the scope after it. -/
def sockaddr : Endpoint → Bytes
  | .v4 ip port => littleEndian 2 2 ++ bigEndian 2 port.toNat ++ bigEndian 4 ip.toNat
      ++ List.replicate 8 0
  | .v6 ip port flow scope => littleEndian 2 10 ++ bigEndian 2 port.toNat
      ++ littleEndian 4 flow.toNat ++ bigEndian 16 ip.toNat ++ littleEndian 4 scope.toNat

end Endpoint

/-- The address of a cluster member, the endpoint of its reactor 0. -/
structure Address where
  /-- The endpoint of reactor 0. -/
  endpoint : Endpoint
  deriving DecidableEq

namespace Address

instance : Inhabited Address := ⟨⟨default⟩⟩

def ofIp (ip : Ip) (port : UInt16) : Address := ⟨.ofIp ip port⟩

def ip (a : Address) : Ip := a.endpoint.ip

def port (a : Address) : UInt16 := a.endpoint.port

def text (a : Address) : String := a.endpoint.text

/-- Where a member's reactor listens, if there is such a port. -/
def reactorEndpoint? (a : Address) (index : Nat) : Option Endpoint :=
  if a.port.toNat + index < 65536 then
    some (.ofIp a.ip (UInt16.ofNat (a.port.toNat + index)))
  else none

end Address

end PartitionEngine
