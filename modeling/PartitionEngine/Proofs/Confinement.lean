import PartitionEngine.Operation.Builtin
import PartitionEngine.Operation.Dispatcher

/-!
# Operations and partitions

An operation sees the tables of all partitions of its reactor.  Those that every member
serves keep to the partition they are called for (`Registry.confined_builtin`).  Then a
dispatcher that serves requests changes the tables of their partitions alone
(`Dispatcher.Confined.serve`).
-/

namespace PartitionEngine

variable {σ : Type}

/-- Every other partition has the table it had. -/
def Tables.SameBut (p : Partition) (t t' : Tables) : Prop :=
  ∀ q, q ≠ p → t'.tables.get? q = t.tables.get? q

/-- An operation keeps to the partition it is called for. -/
def Operation.Confined (op : Operation σ) : Prop :=
  ∀ (state : σ) (call : Call), call.tables.SameBut call.partition (op.run state call).tables

/-- The operations keep to the partitions they are called for. -/
def Registry.Confined (r : Registry σ) : Prop :=
  ∀ opcode op, r.operation? opcode = some op → op.Confined

/-! ## The operations of every member -/

namespace Tables

theorem SameBut.refl (p : Partition) (t : Tables) : t.SameBut p t := fun _ _ => rfl

theorem sameBut_upsert (t : Tables) (p : Partition) (key value : Bytes) :
    t.SameBut p (t.upsert p key value).2 := by
  intro q other
  exact (Assoc.get?_insert _ q p _).trans (if_neg other)

theorem sameBut_evict (t : Tables) (p : Partition) (key : Bytes) :
    t.SameBut p (t.evict p key).2 := by
  intro q other
  simp only [evict]
  split
  · rfl
  · simp only
    split
    · exact (Assoc.get?_erase _ q p).trans (if_neg other)
    · exact (Assoc.get?_insert _ q p _).trans (if_neg other)

end Tables

namespace Builtin

theorem confined_stateless [Inhabited σ] {run : Call → Bytes × Bytes × Tables × Ending}
    (keeps : ∀ call : Call, call.tables.SameBut call.partition (run call).2.2.1) :
    (stateless run : Operation σ).Confined := fun _ call => keeps call

theorem confined_upsert [HasItem σ] : (upsert : Operation σ).Confined := by
  intro state call
  simp only [upsert, runUpsert]
  split
  · exact .refl _ _
  · split
    · exact .refl _ _
    · exact Tables.sameBut_upsert _ _ _ _

end Builtin

theorem Registry.Confined.register {r : Registry σ} (h : r.Confined) {op : Operation σ}
    (confined : op.Confined) (opcode : UInt8) : (r.register opcode op).Confined := by
  intro b op' found
  simp only [Registry.register] at found
  split at found
  · cases found
    exact confined
  · exact h b op' found

theorem Registry.confined_empty : (empty : Registry σ).Confined := fun _ _ found => by cases found

theorem Registry.confined_builtin [Builtin.HasItem σ] : (builtin : Registry σ).Confined := by
  have read {run : Call → Bytes × Bytes × Tables × Ending}
      (keeps : ∀ call : Call, (run call).2.2.1 = call.tables) :
      (Builtin.stateless run : Operation σ).Confined :=
    Builtin.confined_stateless fun call => (keeps call).symm ▸ .refl _ _
  have ping : (Builtin.ping : Operation σ).Confined := read fun _ => rfl
  have echo : (Builtin.echo : Operation σ).Confined := read fun _ => rfl
  have select : (Builtin.select : Operation σ).Confined := read fun _ => rfl
  have evict : (Builtin.evict : Operation σ).Confined :=
    Builtin.confined_stateless fun call => Tables.sameBut_evict _ _ _
  have reads := (confined_empty.register ping Opcode.ping.byte).register echo Opcode.echo.byte
  have stores := reads.register Builtin.confined_upsert Opcode.tableUpsert.byte
  exact (stores.register select Opcode.tableSelectByKey.byte).register evict Opcode.tableEvict.byte

/-! ## Instances that are kept -/

namespace Pool

/-- Every instance that is kept for an opcode is as it is said to be. -/
def All (good : UInt8 → Instance σ → Prop) (p : Pool σ) : Prop :=
  ∀ opcode, ∀ i ∈ p.kept opcode, good opcode i

theorem kept_insert (p : Pool σ) (opcode b : UInt8) (is : List (Instance σ)) :
    kept { p with free := p.free.insert opcode is } b
      = if b = opcode then is else p.kept b := by
  simp only [kept, Assoc.get?_insert]
  split
  · rfl
  · rfl

theorem registry_acquire (p : Pool σ) (opcode : UInt8) :
    (p.acquire opcode).2.registry = p.registry := by
  simp only [acquire]
  split
  · rfl
  · split
    · rfl
    · rfl

theorem registry_release (p : Pool σ) (opcode : UInt8) (i : Instance σ) :
    (p.release opcode i).registry = p.registry := by
  simp only [release]
  split
  · rfl
  · rfl

variable {good : UInt8 → Instance σ → Prop} {p p' : Pool σ} {opcode : UInt8}

/-- If new instances are good, so is one that is taken.  Those that stay are as they were. -/
theorem All.acquire (h : p.All good)
    (new : ∀ op, p.registry.operation? opcode = some op → good opcode (.new op))
    {taken : Option (Instance σ)} (acquired : p.acquire opcode = (taken, p')) :
    p'.All good ∧ ∀ i, taken = some i → good opcode i := by
  simp only [Pool.acquire] at acquired
  split at acquired
  · rename_i first rest kept
    cases acquired
    have all := kept ▸ h opcode
    refine ⟨fun b j mem => ?_, fun j same => ?_⟩
    · rw [kept_insert] at mem
      split at mem
      · rename_i own
        exact own ▸ all j (List.mem_cons_of_mem _ mem)
      · exact h b j mem
    · cases same
      exact all _ List.mem_cons_self
  · split at acquired
    · rename_i op found
      cases acquired
      refine ⟨h, fun j same => ?_⟩
      cases same
      exact new op found
    · cases acquired
      exact ⟨h, fun _ same => by cases same⟩

/-- An instance is kept as its reset leaves it. -/
theorem All.release (h : p.All good) {i : Instance σ} (kept : good opcode i.reset) :
    (p.release opcode i).All good := by
  simp only [Pool.release]
  split
  · intro b j mem
    rw [kept_insert] at mem
    split at mem
    · rename_i own
      rcases List.mem_cons.mp mem with rfl | old
      · exact own ▸ kept
      · exact own ▸ h opcode j old
    · exact h b j mem
  · exact h

end Pool

/-! ## Serving -/

/-- A request as a dispatcher gets it. -/
structure Errand where
  opcode : UInt8
  partition : Partition
  correlationId : UInt64
  input : Bytes

namespace Dispatcher

variable {d : Dispatcher σ}

/-- What a dispatcher becomes that runs a request. -/
def serve (d : Dispatcher σ) (e : Errand) : Dispatcher σ :=
  (d.dispatch e.opcode e.partition e.correlationId e.input).2

/-- Running a request registers nothing. -/
theorem registry_dispatch (d : Dispatcher σ) (opcode : UInt8) (partition : Partition)
    (correlationId : UInt64) (input : Bytes) :
    (d.dispatch opcode partition correlationId input).2.pool.registry = d.pool.registry := by
  have acquired := d.pool.registry_acquire opcode
  simp only [dispatch]
  split
  · rfl
  · rename_i i pool taken
    rw [taken] at acquired
    simp only [runInstance]
    split
    · exact (Pool.registry_release ..).trans acquired
    · exact (Pool.registry_release ..).trans acquired
    · exact acquired

/-- The operations keep to the partitions they are called for, and so do the instances
that are kept. -/
structure Confined (d : Dispatcher σ) : Prop where
  registry : d.pool.registry.Confined
  kept : ∀ opcode, ∀ i ∈ d.pool.kept opcode, i.operation.Confined

theorem confined_new {registry : Registry σ} (h : registry.Confined) (capacity : Nat) :
    (new registry capacity).Confined := ⟨h, fun _ _ mem => by cases mem⟩

/-- An instance that is taken keeps to its partition, and so do those that stay. -/
theorem Confined.acquire (h : d.Confined) {opcode : UInt8} {i : Option (Instance σ)} {pool : Pool σ}
    (taken : d.pool.acquire opcode = (i, pool)) :
    Confined { d with pool } ∧ ∀ j, i = some j → j.operation.Confined := by
  obtain ⟨kept, own⟩ := Pool.All.acquire h.kept (h.registry opcode) taken
  have registry := d.pool.registry_acquire opcode
  rw [taken] at registry
  exact ⟨⟨registry ▸ h.registry, kept⟩, own⟩

theorem Confined.release (h : d.Confined) {i : Instance σ} (confined : i.operation.Confined)
    (opcode : UInt8) : Confined { d with pool := d.pool.release opcode i } := by
  refine ⟨?_, Pool.All.release h.kept confined⟩
  rw [Pool.registry_release]
  exact h.registry

/-- A request changes the table of its partition alone. -/
theorem Confined.serve (h : d.Confined) (e : Errand) :
    (d.serve e).Confined ∧ d.tables.SameBut e.partition (d.serve e).tables := by
  simp only [Dispatcher.serve, dispatch]
  split
  · exact ⟨h, .refl _ _⟩
  · rename_i i pool taken
    obtain ⟨rest, own⟩ := h.acquire taken
    have confined := own i rfl
    let call : Call := ⟨e.partition, e.correlationId, e.input, d.tables⟩
    have keeps : d.tables.SameBut e.partition (i.run call).tables := confined i.state call
    have released : Confined { d with pool := pool.release e.opcode (i.after (i.run call)) } :=
      rest.release (i := i.after (i.run call)) confined e.opcode
    simp only [runInstance]
    split
    · exact ⟨⟨released.registry, released.kept⟩, keeps⟩
    · exact ⟨⟨released.registry, released.kept⟩, keeps⟩
    · exact ⟨⟨rest.registry, rest.kept⟩, keeps⟩

/-- A dispatcher has tables for the partitions it ran requests for. -/
theorem isSome_table_serve (h : d.Confined) (log : List Errand) {p : Partition}
    (there : ((log.foldl serve d).tables.tables.get? p).isSome = true) :
    (d.tables.tables.get? p).isSome = true ∨ ∃ e ∈ log, e.partition = p := by
  induction log generalizing d with
  | nil => exact .inl there
  | cons e rest ih =>
    obtain ⟨confined, keeps⟩ := h.serve e
    rcases ih confined there with before | ⟨e', mem, same⟩
    · by_cases own : p = e.partition
      · exact .inr ⟨e, List.mem_cons_self, own.symm⟩
      · exact .inl (keeps p own ▸ before)
    · exact .inr ⟨e', List.mem_cons_of_mem _ mem, same⟩

end Dispatcher

end PartitionEngine
