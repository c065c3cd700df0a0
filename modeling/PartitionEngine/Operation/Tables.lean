import PartitionEngine.Assoc
import PartitionEngine.Failure

/-!
# Tables

The data of the partitions one reactor serves: a table from keys to values for
each partition.  A partition without entries has no table, so `Tables.isEmpty`
says that no partition has entries.
-/

namespace PartitionEngine

/-- A table for each partition that has entries. -/
structure Tables where
  tables : Assoc Partition (Assoc Bytes Bytes) := .empty

namespace Tables

def table (t : Tables) (p : Partition) : Assoc Bytes Bytes := (t.tables.get? p).getD .empty

def get? (t : Tables) (p : Partition) (key : Bytes) : Option Bytes := (t.table p).get? key

/-- Stores a value under a key.  Gives the value it replaces. -/
def upsert (t : Tables) (p : Partition) (key value : Bytes) : Option Bytes × Tables :=
  (t.get? p key, ⟨t.tables.insert p ((t.table p).insert key value)⟩)

/-- Removes a key.  Gives its value.  A table that becomes empty is dropped. -/
def evict (t : Tables) (p : Partition) (key : Bytes) : Option Bytes × Tables :=
  match t.tables.get? p with
  | none => (none, t)
  | some table =>
    let rest := table.erase key
    (table.get? key, ⟨if rest.isEmpty then t.tables.erase p else t.tables.insert p rest⟩)

def size (t : Tables) (p : Partition) : Nat := (t.table p).size

def isEmpty (t : Tables) : Bool := t.tables.isEmpty

end Tables

end PartitionEngine
