import PartitionEngine.Operation.Registry

/-!
# Running requests

A dispatcher runs requests one by one on the tables of its reactor.  All runs
append to one output buffer, which is cleared before each.  An instance that
panicked is not used again.  Any other goes back to the pool.

A request whose opcode has no operation is answered with an error record, and
so is one whose run fails or panics.  An opcode without an answer gives no
response, however the run ends.
-/

namespace PartitionEngine

/-- What one reactor needs to run requests. -/
structure Dispatcher (σ : Type) where
  pool : Pool σ
  tables : Tables := {}
  /-- What the last run appended, unless it was taken as the answer. -/
  output : Bytes := []

namespace Dispatcher

variable {σ : Type}

def new (registry : Registry σ) (capacity : Nat) : Dispatcher σ :=
  { pool := { registry, capacity } }

def runInstance (d : Dispatcher σ) (i : Instance σ) (opcode : UInt8) (partition : Partition)
    (correlationId : UInt64) (input : Bytes) : Except ErrorRecord Bytes × Dispatcher σ :=
  let cleared : Bytes := []
  let run := i.run { partition, correlationId, input, tables := d.tables }
  let d := { d with tables := run.tables, output := cleared ++ run.output }
  let released := { d with pool := d.pool.release opcode (i.after run) }
  match run.ending with
  | .finished => (.ok d.output, { released with output := [] })
  | .failed e => (.error e.record, released)
  | .panicked text => (.error ⟨.operationPanicked, text.getD "operation panicked"⟩, d)

/-- Runs a request.  `none` if the opcode is one without an answer. -/
def dispatch (d : Dispatcher σ) (opcode : UInt8) (partition : Partition)
    (correlationId : UInt64) (input : Bytes) :
    Option (Except ErrorRecord Bytes) × Dispatcher σ :=
  match d.pool.acquire opcode with
  | (none, _) => (some (.error ⟨.unknownOpcode, "unknown opcode " ++ toString opcode.toNat⟩), d)
  | (some i, pool) =>
    let (result, d) := { d with pool }.runInstance i opcode partition correlationId input
    (if isFireAndForget opcode then none else some result, d)

end Dispatcher

end PartitionEngine
