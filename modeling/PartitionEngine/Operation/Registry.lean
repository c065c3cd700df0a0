import PartitionEngine.Operation.Basic

/-!
# Opcodes, registries and pools

An opcode is the byte by which a request names its operation.  A registry says
which operation each byte stands for.  The opcodes of `Opcode` are the ones
that have to be there.

A pool keeps instances for reuse, up to a capacity for each opcode.
-/

namespace PartitionEngine

/-- The operations every member serves. -/
inductive Opcode where
  | ping
  | echo
  | tableUpsert
  | tableSelectByKey
  | tableEvict
  deriving DecidableEq

namespace Opcode

def all : List Opcode := [ping, echo, tableUpsert, tableSelectByKey, tableEvict]

def byte : Opcode → UInt8
  | ping => 0
  | echo => 1
  | tableUpsert => 2
  | tableSelectByKey => 3
  | tableEvict => 4

def ofByte? (b : UInt8) : Option Opcode := all.find? fun op => op.byte = b

def name : Opcode → String
  | ping => "Ping"
  | echo => "Echo"
  | tableUpsert => "TableUpsert"
  | tableSelectByKey => "TableSelectByKey"
  | tableEvict => "TableEvict"

/-- Whether the caller does not wait for an answer. -/
def isFireAndForget (op : Opcode) : Bool := op = tableEvict

end Opcode

/-- Whether a byte is the opcode of an operation without an answer. -/
def isFireAndForget (opcode : UInt8) : Bool :=
  match Opcode.ofByte? opcode with
  | some op => op.isFireAndForget
  | none => false

/-- The operation each opcode byte stands for. -/
structure Registry (σ : Type) where
  operation? : UInt8 → Option (Operation σ)

namespace Registry

variable {σ : Type}

def empty : Registry σ := ⟨fun _ => none⟩

/-- The registry with an operation for one more byte. -/
def register (r : Registry σ) (opcode : UInt8) (operation : Operation σ) : Registry σ :=
  ⟨fun b => if b = opcode then some operation else r.operation? b⟩

/-- The bytes that stand for an operation, in order. -/
def opcodes (r : Registry σ) : List UInt8 :=
  ((List.range 256).map UInt8.ofNat).filter fun b => (r.operation? b).isSome

/-- Refuses a registry without an operation for some of the given opcodes. -/
def requireAll (r : Registry σ) (required : List Opcode) : Except Failure Unit :=
  match required.filter fun op => (r.operation? op.byte).isNone with
  | [] => .ok ()
  | missing => .error (.config ("no operation registered for "
      ++ ", ".intercalate (missing.map Opcode.name)))

end Registry

/-- Instances kept for reuse. -/
structure Pool (σ : Type) where
  registry : Registry σ
  /-- The instances of one opcode that are kept. -/
  capacity : Nat
  /-- The instances kept for each opcode, the last one released first. -/
  free : Assoc UInt8 (List (Instance σ)) := .empty
  created : Nat := 0

namespace Pool

variable {σ : Type}

def kept (p : Pool σ) (opcode : UInt8) : List (Instance σ) := (p.free.get? opcode).getD []

/-- An instance for an opcode, if the opcode is registered. -/
def acquire (p : Pool σ) (opcode : UInt8) : Option (Instance σ) × Pool σ :=
  match p.kept opcode with
  | i :: rest => (some i, { p with free := p.free.insert opcode rest })
  | [] =>
    match p.registry.operation? opcode with
    | some operation => (some (.new operation), { p with created := p.created + 1 })
    | none => (none, p)

/-- Takes an instance back.  It is reset if it is kept. -/
def release (p : Pool σ) (opcode : UInt8) (i : Instance σ) : Pool σ :=
  if (p.kept opcode).length < p.capacity then
    { p with free := p.free.insert opcode (i.reset :: p.kept opcode) }
  else p

end Pool

end PartitionEngine
