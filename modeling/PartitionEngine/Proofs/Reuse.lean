import PartitionEngine.Proofs.Confinement

/-!
# Instances that are used again

A dispatcher keeps instances of operations, and one output buffer for all runs.  If every
operation can be reset (`Registry.Resettable`), none of this shows: the results and the
tables are those of running each request in a new instance with an empty buffer
(`Registry.serve`).

Whatever is kept has only ever been left by runs that did not panic, each followed by a
reset (`Instance.Serves`).  To tell which runs an instance went through, the operations
are made to write them down (`Operation.recorded`), which changes no result.
-/

namespace PartitionEngine

variable {σ : Type}

/-! ## Resetting -/

namespace Operation

/-- The states of instances that went through runs without a panic and were reset after
each. -/
inductive Used (op : Operation σ) : σ → Prop where
  | fresh : op.Used op.fresh
  | again {s : σ} (used : op.Used s) (call : Call)
    (calm : ∀ text, (op.run s call).ending ≠ .panicked text) :
    op.Used (op.reset (op.run s call).state)

/-- An instance in this state behaves as a new one. -/
def LikeNew (op : Operation σ) (s : σ) : Prop :=
  ∀ call, (op.run s call).output = (op.run op.fresh call).output
    ∧ (op.run s call).tables = (op.run op.fresh call).tables
    ∧ (op.run s call).ending = (op.run op.fresh call).ending

/-- An instance of upsert that is used again keeps nothing of the requests before. -/
theorem Used.item_upsert [Builtin.HasItem σ] {s : σ} (h : (Builtin.upsert : Operation σ).Used s) :
    Builtin.HasItem.item s = {} := by
  cases h <;> exact Builtin.HasItem.item_withItem _ _

theorem Used.likeNew_upsert [Builtin.HasItem σ] {s : σ}
    (h : (Builtin.upsert : Operation σ).Used s) : (Builtin.upsert : Operation σ).LikeNew s := by
  intro call
  have kept : Builtin.HasItem.item s = Builtin.HasItem.item (Builtin.upsert : Operation σ).fresh :=
    h.item_upsert.trans Used.fresh.item_upsert.symm
  simp only [Builtin.upsert] at kept ⊢
  rw [kept]
  exact ⟨rfl, rfl, rfl⟩

end Operation

/-- For every operation a reset after any run without a panic makes the instance behave as
a new one. -/
def Registry.Resettable (r : Registry σ) : Prop :=
  ∀ opcode op, r.operation? opcode = some op → ∀ s, op.Used s → op.LikeNew s

namespace Registry

theorem resettable_empty : (empty : Registry σ).Resettable := fun _ _ found => by cases found

theorem Resettable.register {r : Registry σ} (h : r.Resettable) {op : Operation σ}
    (new : ∀ s, op.Used s → op.LikeNew s) (opcode : UInt8) : (r.register opcode op).Resettable := by
  intro b op' found
  simp only [Registry.register] at found
  split at found
  · cases found
    exact new
  · exact h b op' found

/-- The operations of every member can be reset.  Only an upsert keeps anything. -/
theorem resettable_builtin [Builtin.HasItem σ] : (builtin : Registry σ).Resettable := by
  have new (op : Operation σ) (stateless : ∃ run, op = Builtin.stateless run) (s : σ)
      (_ : op.Used s) : op.LikeNew s := by
    obtain ⟨run, rfl⟩ := stateless
    exact fun _ => ⟨rfl, rfl, rfl⟩
  have ping := resettable_empty.register (new Builtin.ping ⟨_, rfl⟩) Opcode.ping.byte
  have echo := ping.register (new Builtin.echo ⟨_, rfl⟩) Opcode.echo.byte
  have upsert := echo.register (fun s used => used.likeNew_upsert) Opcode.tableUpsert.byte
  have select := upsert.register (new Builtin.select ⟨_, rfl⟩) Opcode.tableSelectByKey.byte
  exact select.register (new Builtin.evict ⟨_, rfl⟩) Opcode.tableEvict.byte

end Registry

/-! ## Running in new instances -/

/-- What a request is answered after a run. -/
def Run.result (run : Run σ) : Except ErrorRecord Bytes :=
  match run.ending with
  | .finished => .ok run.output
  | .failed e => .error e.record
  | .panicked text => .error ⟨.operationPanicked, text.getD "operation panicked"⟩

/-- Runs a request in a new instance, which is not kept. -/
def Registry.serve (r : Registry σ) (tables : Tables) (e : Errand) :
    Option (Except ErrorRecord Bytes) × Tables :=
  match r.operation? e.opcode with
  | none =>
    (some (.error ⟨.unknownOpcode, "unknown opcode " ++ toString e.opcode.toNat⟩), tables)
  | some op =>
    let run := op.run op.fresh ⟨e.partition, e.correlationId, e.input, tables⟩
    (if isFireAndForget e.opcode then none else some run.result, run.tables)

/-- The tables after requests that were each run in a new instance. -/
def Registry.serveAll (r : Registry σ) (tables : Tables) (log : List Errand) : Tables :=
  log.foldl (fun tables e => (r.serve tables e).2) tables

/-! ## What is kept -/

/-- An instance of the operation that is registered, used as instances are. -/
structure Instance.Serves (r : Registry σ) (opcode : UInt8) (i : Instance σ) : Prop where
  registered : r.operation? opcode = some i.operation
  used : i.operation.Used i.state

namespace Dispatcher

variable {r : Registry σ} {d : Dispatcher σ}

/-- What the dispatcher answers. -/
def answer (d : Dispatcher σ) (e : Errand) : Option (Except ErrorRecord Bytes) :=
  (d.dispatch e.opcode e.partition e.correlationId e.input).1

/-- The instances that are kept serve the registry. -/
structure Tidy (r : Registry σ) (d : Dispatcher σ) : Prop where
  registry : d.pool.registry = r
  kept : d.pool.All fun opcode i => i.Serves r opcode

theorem tidy_new (r : Registry σ) (capacity : Nat) : (new r capacity).Tidy r :=
  ⟨rfl, fun _ _ mem => by cases mem⟩

/-- An opcode without an operation has no instances, so nothing changes. -/
theorem Tidy.dispatch_of_none (h : d.Tidy r) {e : Errand} (unknown : r.operation? e.opcode = none) :
    d.dispatch e.opcode e.partition e.correlationId e.input
      = (some (.error ⟨.unknownOpcode, "unknown opcode " ++ toString e.opcode.toNat⟩), d) := by
  have nothing : d.pool.acquire e.opcode = (none, d.pool) := by
    simp only [Pool.acquire]
    cases kept : d.pool.kept e.opcode with
    | nil => simp only [h.registry, unknown]
    | cons i rest =>
      have served := h.kept e.opcode i (kept ▸ List.mem_cons_self)
      cases unknown.symm.trans served.registered
  simp only [dispatch, nothing]

theorem Tidy.serves_new (h : d.Tidy r) {opcode : UInt8} (op : Operation σ)
    (found : d.pool.registry.operation? opcode = some op) : (Instance.new op).Serves r opcode :=
  ⟨h.registry ▸ found, .fresh⟩

theorem Tidy.serves (h : d.Tidy r) {opcode : UInt8} {i : Instance σ} {pool : Pool σ}
    (taken : d.pool.acquire opcode = (some i, pool)) : i.Serves r opcode :=
  (h.kept.acquire h.serves_new taken).2 i rfl

/-- A run decides the answer and the tables.  Unless it panicked, its instance is given
back to the pool. -/
theorem runInstance_spec (d : Dispatcher σ) (i : Instance σ) (e : Errand) :
    let run := i.run ⟨e.partition, e.correlationId, e.input, d.tables⟩
    let served := d.runInstance i e.opcode e.partition e.correlationId e.input
    served.1 = run.result ∧ served.2.tables = run.tables
      ∧ (served.2.pool = d.pool.release e.opcode (i.after run)
          ∧ (∀ text, run.ending ≠ .panicked text)
        ∨ served.2.pool = d.pool ∧ ∃ text, run.ending = .panicked text) := by
  intro run served
  simp only [served, runInstance, Run.result]
  cases run.ending with
  | finished => exact ⟨rfl, rfl, .inl ⟨rfl, fun _ same => by cases same⟩⟩
  | failed f => exact ⟨rfl, rfl, .inl ⟨rfl, fun _ same => by cases same⟩⟩
  | panicked text => exact ⟨rfl, rfl, .inr ⟨rfl, text, rfl⟩⟩

/-- An opcode with an operation is run in an instance that serves it. -/
theorem Tidy.exists_run (h : d.Tidy r) {e : Errand} {op : Operation σ}
    (known : r.operation? e.opcode = some op) :
    ∃ s, op.Used s ∧
      let run := op.run s ⟨e.partition, e.correlationId, e.input, d.tables⟩
      d.answer e = (if isFireAndForget e.opcode then none else some run.result)
      ∧ (d.serve e).tables = run.tables ∧ (d.serve e).Tidy r := by
  have registry := (d.registry_dispatch e.opcode e.partition e.correlationId e.input).trans
    h.registry
  cases taken : d.pool.acquire e.opcode with
  | mk i pool =>
    obtain ⟨stay, own⟩ := h.kept.acquire h.serves_new taken
    cases i with
    | none =>
      simp only [Pool.acquire, h.registry, known] at taken
      split at taken
      · cases taken
      · cases taken
    | some i =>
      obtain ⟨registered, used⟩ := own i rfl
      obtain rfl : i.operation = op := Option.some.inj (registered.symm.trans known)
      obtain ⟨result, tables, pools⟩ := runInstance_spec { d with pool } i e
      simp only [answer, serve, dispatch, taken] at registry ⊢
      refine ⟨i.state, used, by rw [result]; rfl, tables, registry, ?_⟩
      rcases pools with ⟨back, calm⟩ | ⟨lost, -⟩
      · rw [back]
        exact stay.release ⟨registered, used.again _ calm⟩
      · rw [lost]
        exact stay

/-- If instances can be reset, a request is answered as in a new one, whatever is kept. -/
theorem Tidy.step (h : d.Tidy r) (resettable : r.Resettable) (e : Errand) :
    d.answer e = (r.serve d.tables e).1 ∧ (d.serve e).tables = (r.serve d.tables e).2
      ∧ (d.serve e).Tidy r := by
  simp only [Registry.serve]
  cases known : r.operation? e.opcode with
  | none =>
    rw [answer, serve, h.dispatch_of_none known]
    exact ⟨rfl, rfl, h⟩
  | some op =>
    obtain ⟨s, used, answer, tables, tidy⟩ := h.exists_run known
    obtain ⟨output, left, ending⟩ :=
      resettable _ op known s used ⟨e.partition, e.correlationId, e.input, d.tables⟩
    refine ⟨answer.trans ?_, tables.trans left, tidy⟩
    simp only [Run.result, output, ending]

theorem Tidy.run (h : d.Tidy r) (resettable : r.Resettable) (log : List Errand) :
    (log.foldl serve d).Tidy r ∧ (log.foldl serve d).tables = r.serveAll d.tables log := by
  induction log generalizing d with
  | nil => exact ⟨h, rfl⟩
  | cons e rest ih =>
    obtain ⟨-, tables, tidy⟩ := h.step resettable e
    obtain ⟨later, same⟩ := ih tidy
    exact ⟨later, same.trans (by rw [tables]; rfl)⟩

end Dispatcher

/-! ## Instances that write down how they ended -/

/-- The operation with instances that write down how each of their runs ended, the last one
first.  A reset does not touch that. -/
def Operation.recorded (op : Operation σ) : Operation (σ × List Ending) where
  fresh := (op.fresh, [])
  run := fun s call =>
    let run := op.run s.1 call
    { run with state := (run.state, run.ending :: s.2) }
  reset := fun s => (op.reset s.1, s.2)

def Registry.recorded (r : Registry σ) : Registry (σ × List Ending) :=
  ⟨fun opcode => (r.operation? opcode).map Operation.recorded⟩

/-- An instance that is used again has never panicked. -/
theorem Operation.used_recorded {op : Operation σ} {s : σ × List Ending}
    (h : op.recorded.Used s) :
    op.Used s.1 ∧ ∀ ending ∈ s.2, ∀ text, ending ≠ .panicked text := by
  induction h with
  | fresh => exact ⟨.fresh, fun _ mem => (List.not_mem_nil mem).elim⟩
  | again _ call calm ih => exact ⟨ih.1.again call calm, List.forall_mem_cons.mpr ⟨calm, ih.2⟩⟩

theorem Registry.Resettable.recorded {r : Registry σ} (h : r.Resettable) :
    r.recorded.Resettable := by
  intro opcode op found s used
  obtain ⟨plain, known, rfl⟩ := Option.map_eq_some_iff.mp found
  exact h opcode plain known s.1 (Operation.used_recorded used).1

theorem Registry.serve_recorded (r : Registry σ) (tables : Tables) (e : Errand) :
    r.recorded.serve tables e = r.serve tables e := by
  simp only [serve, recorded]
  cases r.operation? e.opcode with
  | none => rfl
  | some op => rfl

theorem Registry.serveAll_recorded (r : Registry σ) (tables : Tables) (log : List Errand) :
    r.recorded.serveAll tables log = r.serveAll tables log := by
  simp only [serveAll, serve_recorded]

/-! ## Refinement -/

/-- No response comes only of a registered opcode without an answer. -/
theorem Registry.serve_eq_none_iff (r : Registry σ) (tables : Tables) (e : Errand) :
    (r.serve tables e).1 = none
      ↔ (r.operation? e.opcode).isSome = true ∧ isFireAndForget e.opcode = true := by
  simp only [serve]
  cases r.operation? e.opcode with
  | none => simp
  | some op =>
    cases isFireAndForget e.opcode with
    | true => simp
    | false => simp

namespace Dispatcher

/-- With operations that can be reset, and any capacity, a dispatcher answers each request of
any sequence as if it ran in a new instance with an empty buffer, and has the tables that
come of this.  There is no response exactly to a registered opcode without an answer, and
an opcode that is not registered changes nothing.  If instances write down how their runs
ended, the answers are the same, and none that is taken for a run has ever panicked. -/
theorem answers_as_new {r : Registry σ} (resettable : r.Resettable) (capacity : Nat)
    (log : List Errand) (e : Errand) :
    let d := log.foldl serve (new r capacity)
    let watched := log.foldl serve (new r.recorded capacity)
    let tables := r.serveAll {} log
    d.tables = tables ∧ d.answer e = (r.serve tables e).1
    ∧ (d.answer e = none
      ↔ (r.operation? e.opcode).isSome = true ∧ isFireAndForget e.opcode = true)
    ∧ (r.operation? e.opcode = none → d.serve e = d)
    ∧ watched.tables = tables ∧ watched.answer e = (r.serve tables e).1
    ∧ ∀ i pool, watched.pool.acquire e.opcode = (some i, pool) →
      ∀ ending ∈ i.state.2, ∀ text, ending ≠ .panicked text := by
  intro d watched tables
  obtain ⟨tidy, same⟩ : d.Tidy r ∧ d.tables = tables := (tidy_new r capacity).run resettable log
  obtain ⟨tidy', same'⟩ : watched.Tidy r.recorded ∧ watched.tables = r.recorded.serveAll {} log :=
    (tidy_new r.recorded capacity).run resettable.recorded log
  rw [Registry.serveAll_recorded] at same'
  have answer := (tidy.step resettable e).1
  have answer' := (tidy'.step resettable.recorded e).1
  rw [same] at answer
  rw [same', Registry.serve_recorded] at answer'
  refine ⟨same, answer, ?_, fun unknown => ?_, same', answer', fun i pool taken => ?_⟩
  · rw [answer]
    exact r.serve_eq_none_iff tables e
  · rw [serve, tidy.dispatch_of_none unknown]
  · have served := tidy'.serves taken
    obtain ⟨op, -, recorded⟩ := Option.map_eq_some_iff.mp served.registered
    have used := served.used
    rw [← recorded] at used
    exact (Operation.used_recorded used).2

/-- An operation that keeps all it is given until it is reset, and answers all that it
keeps.  It fails on nothing, and panics if it is given `ff` first. -/
def hoard : Operation Bytes where
  fresh := []
  run := fun kept call =>
    { state := kept ++ call.input, unread := [], output := kept ++ call.input,
      tables := call.tables
      ending := match call.input with
        | [] => .failed (.failed "nothing to keep")
        | 0xFF :: _ => .panicked none
        | _ => .finished }
  reset := fun _ => []

theorem resettable_hoard : (Registry.empty.register 9 hoard).Resettable := by
  refine Registry.resettable_empty.register (fun s used => ?_) 9
  have empty : s = [] := by
    cases used with
    | fresh => rfl
    | again => rfl
  rw [empty]
  exact fun _ => ⟨rfl, rfl, rfl⟩

/-- Neither what an instance kept nor what a run had put out when it failed or panicked
comes up in a later answer. -/
theorem answer_hoard :
    (Registry.empty.register 9 hoard).Resettable
      ∧ ([⟨9, 0, 1, [7]⟩, ⟨9, 0, 2, [0xFF, 7]⟩, ⟨9, 0, 3, [8]⟩, ⟨9, 0, 4, []⟩].foldl serve
          (new (Registry.empty.register 9 hoard) 1)).answer ⟨9, 0, 5, [1, 2]⟩
        = some (.ok [1, 2]) :=
  ⟨resettable_hoard, (answers_as_new resettable_hoard 1 _ _).2.1.trans rfl⟩

end Dispatcher

end PartitionEngine
