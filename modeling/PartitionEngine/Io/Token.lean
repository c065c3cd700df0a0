import PartitionEngine.Bytes
import PartitionEngine.Channel.Slab

/-!
# Tokens

The name of an operation in flight.  A token is a word of 64 bits: what the
operation is for, the number of the connection attempt, and the key of the
channel, in 8, 8, 16 and 32 bits.  Operations that belong to no channel have
zeros there.
-/

namespace PartitionEngine

/-- What an operation is for. -/
inductive Purpose where
  | wakeup
  | accept
  | drainTimer
  | recv
  | send
  | connect
  | connectTimeout
  | retryTimer
  deriving DecidableEq

namespace Purpose

def all : List Purpose :=
  [wakeup, accept, drainTimer, recv, send, connect, connectTimeout, retryTimer]

def byte : Purpose → UInt8
  | wakeup => 1
  | accept => 2
  | drainTimer => 3
  | recv => 4
  | send => 5
  | connect => 6
  | connectTimeout => 7
  | retryTimer => 8

def ofByte? (b : UInt8) : Option Purpose := all.find? fun p => p.byte = b

def isChannel : Purpose → Bool
  | wakeup | accept | drainTimer => false
  | recv | send | connect | connectTimeout | retryTimer => true

end Purpose

/-- The name of an operation in flight. -/
structure Token where
  kind : UInt8
  /-- The number of the connection attempt, in 8 bits. -/
  attempt : UInt8 := 0
  generation : UInt16 := 0
  slot : UInt32 := 0
  deriving DecidableEq

namespace Token

/-- The token of an operation that belongs to no channel. -/
def plain (p : Purpose) : Token := { kind := p.byte }

def ofChannel (p : Purpose) (key : SlotKey) (attempt : UInt8 := 0) : Token :=
  { kind := p.byte, attempt, generation := key.generation, slot := key.slot }

/-- What the operation is for, if the kind is known. -/
def purpose? (t : Token) : Option Purpose := Purpose.ofByte? t.kind

def key (t : Token) : SlotKey := ⟨t.slot, t.generation⟩

/-- The bytes of a token, most significant first. -/
def bytes (t : Token) : Bytes :=
  t.kind :: t.attempt :: bigEndian 2 t.generation.toNat ++ bigEndian 4 t.slot.toNat

def ofWord (n : Nat) : Token where
  kind := UInt8.ofNat (n >>> 56)
  attempt := UInt8.ofNat (n >>> 48)
  generation := UInt16.ofNat (n >>> 32)
  slot := UInt32.ofNat n

end Token

end PartitionEngine
