import PartitionEngine.Operation.Builtin

/-!
# Probes

Operations that fail, panic, or tell what they see, to try out whatever runs
operations.  The only one whose instances keep something is the counter.
-/

namespace PartitionEngine

/-- What an instance of the counter keeps. -/
structure Tally where
  runs : Nat := 0
  resets : Nat := 0
  /-- What an upsert among the probes keeps. -/
  item : Builtin.Item := {}
  deriving DecidableEq, Inhabited

instance : Builtin.HasItem Tally where
  item := Tally.item
  withItem tally item := { tally with item }
  item_withItem _ _ := rfl

namespace Probe

def boom : Operation Tally :=
  Builtin.stateless fun c => (c.input, [], c.tables, .panicked (some "boom"))

def boomString : Operation Tally :=
  Builtin.stateless fun c => (c.input, utf8 "torn", c.tables, .panicked (some
    ("boom " ++ toString c.partition.toInt ++ " " ++ toString c.correlationId.toNat)))

def boomOther : Operation Tally :=
  Builtin.stateless fun c => (c.input, [], c.tables, .panicked none)

def refuse : Operation Tally :=
  Builtin.stateless fun c => (c.input, utf8 "partial", c.tables, .failed (.failed "not today"))

/-- Finds fault with any request. -/
def badInput : Operation Tally :=
  Builtin.stateless fun c =>
    (c.input, [], c.tables, .failed (.malformed (toString c.input.length ++ " bytes")))

/-- Answers how often its instance ran and was reset.  A request that starts
with `ff` makes it panic then, and one that starts with `fe` makes it fail. -/
def counter : Operation Tally where
  fresh := {}
  run := fun tally c =>
    let state := { tally with runs := tally.runs + 1 }
    { state
      unread := c.input
      output := bigEndian 4 state.runs ++ bigEndian 4 state.resets
      tables := c.tables
      ending := match c.input with
        | 0xFF :: _ => .panicked (some "counter panics")
        | 0xFE :: _ => .failed (.failed "counter fails")
        | _ => .finished }
  reset := fun tally => { tally with resets := tally.resets + 1 }

/-- Answers what it sees: the partition, the correlation id, the length of the
request and the number of entries of the partition. -/
def info : Operation Tally :=
  Builtin.stateless fun c =>
    (c.input, bigEndian 4 c.partition.toUInt32.toNat ++ bigEndian 8 c.correlationId.toNat
      ++ bigEndian 4 c.input.length ++ bigEndian 4 (c.tables.size c.partition),
      c.tables, .finished)

def named? : String → Option (Operation Tally)
  | "ping" => some Builtin.ping
  | "echo" => some Builtin.echo
  | "upsert" => some Builtin.upsert
  | "select" => some Builtin.select
  | "evict" => some Builtin.evict
  | "boom" => some boom
  | "boom_string" => some boomString
  | "boom_other" => some boomOther
  | "refuse" => some refuse
  | "bad_input" => some badInput
  | "counter" => some counter
  | "info" => some info
  | _ => none

end Probe

end PartitionEngine
