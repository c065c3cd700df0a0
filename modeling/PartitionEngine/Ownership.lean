import PartitionEngine.Assoc
import PartitionEngine.Failure

/-!
# Ownership

Which member of the cluster serves a partition, and which reactor of a member.
The reactor depends on the partition and on the number of reactors alone.
-/

namespace PartitionEngine

/-- The reactor that serves a partition, out of `count`: the absolute value of
the id modulo the count.  The least id has no absolute value among the ids, and
belongs to reactor 0. -/
def reactorIndex (p : Partition) (count : Nat) : Nat :=
  if p = Int32.minValue then 0 else p.toInt.natAbs % count

theorem reactorIndex_lt (p : Partition) {count : Nat} (h : 0 < count) :
    reactorIndex p count < count := by
  unfold reactorIndex
  split
  · exact h
  · exact Nat.mod_lt _ h

/-- The members that own partitions. -/
structure Ownership where
  assigned : Assoc Partition Address := .empty
  /-- The owner of every other partition. -/
  fallback : Option Address := none

namespace Ownership

def allTo (owner : Address) : Ownership := { fallback := some owner }

def owner? (o : Ownership) (p : Partition) : Option Address :=
  match o.assigned.get? p with
  | some owner => some owner
  | none => o.fallback

def assign (o : Ownership) (p : Partition) (owner : Address) : Ownership :=
  { o with assigned := o.assigned.insert p owner }

def unassign (o : Ownership) (p : Partition) : Ownership :=
  { o with assigned := o.assigned.erase p }

def setFallback (o : Ownership) (owner : Option Address) : Ownership :=
  { o with fallback := owner }

end Ownership

end PartitionEngine
