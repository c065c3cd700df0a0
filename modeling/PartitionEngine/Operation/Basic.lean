import PartitionEngine.Operation.Tables

/-!
# Operations

What a member can be asked to do.  An operation runs on the tables of the
reactor that serves the partition.  It reads the request, appends to the
answer, and ends by finishing, by failing or by a panic.

Instances of an operation have a state of their own and are used again and
again.  Between two uses an instance is reset.  Only a run may panic: making an
instance and resetting one are taken to come to an end, since nobody catches a
panic of theirs.
-/

namespace PartitionEngine

/-- Why an operation says it failed. -/
inductive OpFailure where
  /-- The request does not have the form the operation takes. -/
  | malformed (text : String)
  | failed (text : String)
  deriving DecidableEq

namespace OpFailure

def message : OpFailure → String
  | malformed text => "malformed input: " ++ text
  | failed text => text

def record : OpFailure → ErrorRecord
  | malformed text => ⟨.malformedRequest, text⟩
  | failed text => ⟨.operationFailed, text⟩

end OpFailure

/-- How a run ended. -/
inductive Ending where
  | finished
  | failed (e : OpFailure)
  /-- A panic, with its text if it has one. -/
  | panicked (text : Option String)
  deriving DecidableEq

/-- What an operation sees when it runs. -/
structure Call where
  partition : Partition
  correlationId : UInt64
  input : Bytes
  tables : Tables

/-- What a run leaves behind. -/
structure Run (σ : Type) where
  state : σ
  /-- The part of the input that was not read. -/
  unread : Bytes
  output : Bytes
  tables : Tables
  ending : Ending

/-- An operation whose instances have a state of type `σ`. -/
structure Operation (σ : Type) where
  /-- The state of a new instance.  Making one does not panic. -/
  fresh : σ
  run : σ → Call → Run σ
  /-- Clears what a run left in an instance.  It does not panic. -/
  reset : σ → σ

/-- An instance of an operation. -/
structure Instance (σ : Type) where
  operation : Operation σ
  state : σ

namespace Instance

def new {σ : Type} (operation : Operation σ) : Instance σ := ⟨operation, operation.fresh⟩

def run {σ : Type} (i : Instance σ) (call : Call) : Run σ := i.operation.run i.state call

def after {σ : Type} (i : Instance σ) (run : Run σ) : Instance σ := { i with state := run.state }

def reset {σ : Type} (i : Instance σ) : Instance σ :=
  { i with state := i.operation.reset i.state }

end Instance

end PartitionEngine
