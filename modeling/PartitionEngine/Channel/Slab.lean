/-!
# Slabs

Storage with slots that are used again.  A slot has a generation, which goes up
when its occupant leaves.  A key names a slot and a generation, so the key of an
occupant that left does not reach the next one.  Generations have 16 bits.
-/

namespace PartitionEngine

/-- The name of an occupant of a slab. -/
structure SlotKey where
  slot : UInt32
  generation : UInt16
  deriving DecidableEq, Inhabited

/-- A slot of a slab. -/
structure Slot (α : Type) where
  generation : UInt16 := 0
  occupant : Option α := none

/-- Slots, and the list of those that are empty. -/
structure Slab (α : Type) where
  slots : List (Slot α) := []
  /-- The empty slots, the one emptied last first. -/
  free : List UInt32 := []

namespace Slab

variable {α : Type}

def empty : Slab α := {}

/-- Puts a value into an empty slot, or into a new one.  A slot is named by 32 bits, so the
name of a new one wraps around if there are more. -/
def alloc (s : Slab α) (a : α) : SlotKey × Slab α :=
  let (slot, slots, free) := match s.free with
    | slot :: free => (slot, s.slots, free)
    | [] => (UInt32.ofNat s.slots.length, s.slots ++ [({} : Slot α)], [])
  let generation := ((slots[slot.toNat]?).map Slot.generation).getD 0
  (⟨slot, generation⟩, { slots := slots.set slot.toNat { generation, occupant := some a }, free })

/-- The occupant a key names. -/
def get? (s : Slab α) (key : SlotKey) : Option α :=
  match s.slots[key.slot.toNat]? with
  | some slot => if slot.generation = key.generation then slot.occupant else none
  | none => none

/-- Changes the occupant a key names. -/
def modify (s : Slab α) (key : SlotKey) (f : α → α) : Slab α :=
  match s.slots[key.slot.toNat]? with
  | some slot =>
    if slot.generation = key.generation then
      { s with slots := s.slots.set key.slot.toNat { slot with occupant := slot.occupant.map f } }
    else s
  | none => s

/-- Empties a slot.  Gives its occupant, if it had one. -/
def remove (s : Slab α) (slot : UInt32) : Option α × Slab α :=
  match s.slots[slot.toNat]? with
  | some { generation, occupant := some a } =>
    (some a, {
      slots := s.slots.set slot.toNat { generation := generation + 1, occupant := none }
      free := slot :: s.free })
  | _ => (none, s)

/-- The keys of the occupants from slot `i` on. -/
def keysFrom : (i : Nat) → List (Slot α) → List SlotKey
  | _, [] => []
  | i, slot :: rest =>
    if slot.occupant.isSome then ⟨UInt32.ofNat i, slot.generation⟩ :: keysFrom (i + 1) rest
    else keysFrom (i + 1) rest

/-- The keys of the occupants, in the order of their slots. -/
def keys (s : Slab α) : List SlotKey := keysFrom 0 s.slots

def size (s : Slab α) : Nat := s.slots.length - s.free.length

def isEmpty (s : Slab α) : Bool := s.size = 0

end Slab

end PartitionEngine
