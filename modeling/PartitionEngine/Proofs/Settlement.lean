import PartitionEngine.Proofs.Ledger
import Mathlib.Data.List.Induction

/-!
# Every invocation is settled once

A history is a list of operations on a table that starts out empty.  The ledger
of a history says, for each registration in it, which invocation was made and
what became of it: it has the outcome of the first later operation that matches
it.  The table after the history agrees with that ledger as long as the ids of a
peer do not run out (`records`), and what the operations answer is read off.
-/

namespace PartitionEngine

/-- An operation on the table of invocations. -/
inductive TableOp
  | addPeer (peer : Address)
  | nextId (peer : Address)
  | register (peer : Address) (partition : Partition) (reactor : Nat)
  | complete (peer : Address) (id : UInt64) (outcome : Outcome)
  | fail (peer : Address) (id : UInt64) (e : Failure)
  | failRouted (peer : Address) (reactor : Nat) (e : Failure)
  | failReactor (reactor : Nat) (e : Failure)
  | failAll (e : Failure)

namespace TableOp

def apply (t : InvocationTable) : TableOp → InvocationTable
  | addPeer peer => t.addPeer peer
  | nextId peer => (t.nextId peer).2
  | register peer partition reactor => (t.register peer partition reactor).2.2
  | complete peer id outcome => (t.complete peer id outcome).2
  | fail peer id e => (t.fail peer id e).2
  | failRouted peer reactor e => (t.failRouted peer reactor e).2
  | failReactor reactor e => (t.failReactor reactor e).2
  | failAll e => (t.failAll e).2

/-- The outcome that an operation has for an invocation of a peer, if it matches
the invocation. -/
def outcome? : TableOp → Address → Invocation → Option Outcome
  | complete k id outcome => InvocationTable.selected (· = k) (·.correlationId = id) outcome
  | fail k id e => InvocationTable.selected (· = k) (·.correlationId = id) (.error e)
  | failRouted k reactor e => InvocationTable.selected (· = k) (·.reactor = reactor) (.error e)
  | failReactor reactor e =>
    InvocationTable.selected (fun _ => true) (·.reactor = reactor) (.error e)
  | failAll e => InvocationTable.selected (fun _ => true) (fun _ => true) (.error e)
  | addPeer _ | nextId _ | register .. => fun _ _ => none

/-- Does the operation draw an id for the peer? -/
def draws (peer : Address) : TableOp → Bool
  | nextId k | register k _ _ => k = peer
  | _ => false

def isRegister : TableOp → Bool
  | register .. => true
  | _ => false

/-- The table after a history. -/
def table (ops : List TableOp) : InvocationTable := ops.foldl apply {}

/-- How many ids a history draws for a peer. -/
def drawn (peer : Address) (ops : List TableOp) : Nat := ops.countP (draws peer)

/-- The invocation that a registration makes after a history. -/
def call (before : List TableOp) (peer : Address) (partition : Partition) (reactor : Nat) :
    Invocation where
  correlationId := .ofNat (501 + drawn peer before)
  partition
  reactor
  future := before.countP isRegister

/-- The outcome of the first operation that matches the invocation. -/
def firstMatch (ops : List TableOp) (peer : Address) (i : Invocation) : Option Outcome :=
  ops.findSome? fun op => op.outcome? peer i

/-- What an operation between two parts of a history enters into the ledger. -/
def registered? (before : List TableOp) (op : TableOp) (later : List TableOp) : Option Entry :=
  match op with
  | register peer partition reactor =>
    let i := call before peer partition reactor
    some ⟨peer, i, firstMatch later peer i⟩
  | _ => none

/-- The ledger of what follows a history. -/
def ledgerFrom (before : List TableOp) : List TableOp → List Entry
  | [] => []
  | op :: later => (registered? before op later).toList ++ ledgerFrom (before ++ [op]) later

def ledger (ops : List TableOp) : List Entry := ledgerFrom [] ops

/-! ## The ledger of a history -/

theorem firstMatch_concat (ops : List TableOp) (op : TableOp) (peer : Address) (i : Invocation) :
    firstMatch (ops ++ [op]) peer i = (firstMatch ops peer i).or (op.outcome? peer i) := by
  simp [firstMatch, List.findSome?_append]

/-- A further operation settles what it matches, and a registration is entered. -/
theorem ledgerFrom_concat (before ops : List TableOp) (op : TableOp) :
    ledgerFrom before (ops ++ [op])
      = (ledgerFrom before ops).map (.settle op.outcome?)
        ++ (registered? (before ++ ops) op []).toList := by
  induction ops generalizing before with
  | nil => simp [ledgerFrom]
  | cons first rest ih =>
    have grown : (registered? before first (rest ++ [op])).toList
        = ((registered? before first rest).toList).map (.settle op.outcome?) := by
      cases first with
      | register peer partition reactor => simp [registered?, Entry.settle, firstMatch_concat]
      | _ => rfl
    simp only [List.cons_append, ledgerFrom, ih, grown, List.map_append, List.append_assoc,
      List.nil_append]

theorem mem_ledgerFrom {before ops : List TableOp} {e : Entry} :
    e ∈ ledgerFrom before ops
      ↔ ∃ b op l, ops = b ++ op :: l ∧ registered? (before ++ b) op l = some e := by
  induction ops generalizing before with
  | nil => simp [ledgerFrom]
  | cons first rest ih =>
    rw [ledgerFrom, List.mem_append, Option.mem_toList, ih]
    constructor
    · rintro (here | ⟨b, op, l, rfl, there⟩)
      · exact ⟨[], first, rest, rfl, by simpa using here⟩
      · exact ⟨first :: b, op, l, rfl, by simpa using there⟩
    · rintro ⟨b, op, l, split, entered⟩
      cases b with
      | nil =>
        cases split
        exact .inl (by simpa using entered)
      | cons first' b =>
        cases split
        exact .inr ⟨b, op, l, rfl, by simpa using entered⟩

/-- The entries of a ledger are its registrations. -/
theorem mem_ledger {ops : List TableOp} {e : Entry} :
    e ∈ ledger ops ↔ ∃ before partition reactor later,
      ops = before ++ .register e.peer partition reactor :: later ∧
      e.invocation = call before e.peer partition reactor ∧
      e.result = firstMatch later e.peer e.invocation := by
  rw [ledger, mem_ledgerFrom]
  constructor
  · rintro ⟨b, op, l, rfl, entered⟩
    cases op with
    | register peer partition reactor =>
      cases entered
      exact ⟨b, partition, reactor, l, rfl, rfl, rfl⟩
    | _ => cases entered
  · rintro ⟨b, partition, reactor, l, split, made, result⟩
    refine ⟨b, _, l, split, ?_⟩
    simp only [registered?, List.nil_append, ← made, ← result]

theorem length_ledger (ops : List TableOp) : (ledger ops).length = ops.countP isRegister := by
  induction ops using List.reverseRecOn with
  | nil => rfl
  | append_singleton ops op ih =>
    rw [ledger, ledgerFrom_concat, List.length_append, List.length_map, ← ledger, ih,
      List.countP_append]
    cases op with
    | register => rfl
    | _ => rfl

/-- A result in the ledger stays whatever comes later. -/
theorem result_stays {before : List TableOp} (later : List TableOp) {k : Nat} {outcome : Outcome}
    (found : (ledger before)[k]?.bind (·.result) = some outcome) :
    (ledger (before ++ later))[k]?.bind (·.result) = some outcome := by
  induction later using List.reverseRecOn with
  | nil => rwa [List.append_nil]
  | append_singleton later op ih =>
    obtain ⟨e, at_k, result⟩ := Option.bind_eq_some_iff.mp ih
    have inside := (List.getElem?_eq_some_iff.mp at_k).1
    rw [← List.append_assoc, ledger, ledgerFrom_concat, ← ledger,
      List.getElem?_append_left (by rwa [List.length_map]), List.getElem?_map, at_k]
    simp only [Option.map_some, Option.bind_some, Entry.settle, result, Option.some_or]

/-! ## The ids of a peer -/

theorem table_concat (ops : List TableOp) (op : TableOp) :
    table (ops ++ [op]) = op.apply (table ops) := by
  simp [table]

theorem lastId_apply (t : InvocationTable) (op : TableOp) (peer : Address) :
    (op.apply t).lastId peer = if op.draws peer then t.lastId peer + 1 else t.lastId peer := by
  cases op with
  | addPeer k => exact t.lastId_addPeer k peer
  | nextId k =>
    simp only [apply, t.lastId_nextId, draws, decide_eq_true_eq]
    split
    · rename_i same
      rw [if_pos same.symm, same]
    · rename_i other
      rw [if_neg (Ne.symm other)]
  | register k partition reactor =>
    simp only [apply, t.lastId_register, draws, decide_eq_true_eq]
    split
    · rename_i same
      rw [if_pos same.symm, same]
    · rename_i other
      rw [if_neg (Ne.symm other)]
  | complete k id outcome => exact t.lastId_complete k peer id outcome
  | fail k id e => exact t.lastId_complete k peer id (.error e)
  | failRouted k reactor e => exact t.lastId_failWhere k peer e _
  | failReactor reactor e => exact t.lastId_failAnywhere peer e _
  | failAll e => exact t.lastId_failAnywhere peer e _

/-- The ids of a peer are drawn upwards from 501. -/
theorem lastId_table (ops : List TableOp) (peer : Address) :
    (table ops).lastId peer = .ofNat (500 + drawn peer ops) := by
  induction ops using List.reverseRecOn with
  | nil => rfl
  | append_singleton ops op ih =>
    rw [table_concat, lastId_apply, ih, drawn, drawn, List.countP_append, List.countP_singleton]
    split
    · exact (UInt64.ofNat_add _ 1).symm
    · rfl

theorem drawn_append (peer : Address) (ops ops' : List TableOp) :
    drawn peer (ops ++ ops') = drawn peer ops + drawn peer ops' := List.countP_append

/-- The id that is drawn next. -/
theorem succ_lastId_table (ops : List TableOp) (peer : Address) :
    (table ops).lastId peer + 1 = .ofNat (501 + drawn peer ops) := by
  rw [lastId_table, show 501 + drawn peer ops = 500 + drawn peer ops + 1 by omega]
  exact (UInt64.ofNat_add _ 1).symm

theorem toNat_nextId {ops : List TableOp} {peer : Address}
    (few : drawn peer ops + 1 < 2 ^ 64 - 500) :
    ((table ops).lastId peer + 1).toNat = 501 + drawn peer ops := by
  rw [succ_lastId_table, UInt64.toNat_ofNat_of_lt']
  rw [UInt64.size]
  omega

/-! ## The table agrees with the ledger -/

/-- An id that was not drawn yet has nothing waiting under it. -/
theorem fresh_of_records {ops : List TableOp} (h : (table ops).Records (ledger ops))
    {peer : Address}
    (few : drawn peer ops + 1 < 2 ^ 64 - 500) (i : Invocation) :
    ¬ (table ops).Waits peer ((table ops).lastId peer + 1) i := by
  intro waits
  obtain ⟨mem, own⟩ := (h.waits _ _ i).mp waits
  obtain ⟨before, partition, reactor, later, rfl, made, -⟩ := mem_ledger.mp mem
  have new := toNat_nextId few
  simp only at made
  rw [← own, made, call, UInt64.toNat_ofNat_of_lt'] at new
  · rw [drawn_append, drawn, drawn, List.countP_cons_of_pos (by simp [draws])] at new
    omega
  · rw [drawn_append] at few
    rw [UInt64.size]
    omega

theorem records {ops : List TableOp} (few : ∀ peer, drawn peer ops < 2 ^ 64 - 500) :
    (table ops).Records (ledger ops) := by
  induction ops using List.reverseRecOn with
  | nil => exact .empty
  | append_singleton ops op ih =>
    have h := ih fun peer => Nat.lt_of_le_of_lt (by rw [drawn_append]; omega) (few peer)
    rw [table_concat, ledger, ledgerFrom_concat, ← ledger]
    cases op with
    | addPeer k =>
      simp only [registered?, outcome?, Option.toList_none, List.append_nil, Entry.map_settle_none]
      exact h.addPeer k
    | nextId k =>
      simp only [registered?, outcome?, Option.toList_none, List.append_nil, Entry.map_settle_none]
      exact h.nextId k
    | register k partition reactor =>
      have more : drawn k ops + 1 < 2 ^ 64 - 500 := by
        have := few k
        rw [drawn_append] at this
        simpa [drawn, draws] using this
      have made : call ops k partition reactor
          = ⟨(table ops).lastId k + 1, partition, reactor, (ledger ops).length⟩ := by
        rw [succ_lastId_table, length_ledger, call]
      simp only [registered?, outcome?, Option.toList_some, Entry.map_settle_none, List.nil_append,
        made]
      exact h.register k partition reactor (fresh_of_records h more)
    | complete k id outcome => exact (List.append_nil _).symm ▸ h.complete k id outcome
    | fail k id e => exact (List.append_nil _).symm ▸ h.complete k id (.error e)
    | failRouted k reactor e => exact (List.append_nil _).symm ▸ h.failWhere k e _
    | failReactor reactor e => exact (List.append_nil _).symm ▸ h.failAnywhere e _
    | failAll e => exact (List.append_nil _).symm ▸ h.failAnywhere e _

/-! ## What operations answer -/

/-- A completion answers whether it is the first to match an invocation that was
registered, and changes nothing if it is not. -/
def Completes (before : List TableOp) (peer : Address) (id : UInt64)
    (answer : Bool × InvocationTable) : Prop :=
  (answer.1 = true ↔ ∃ b partition reactor later,
    before = b ++ .register peer partition reactor :: later ∧
    (call b peer partition reactor).correlationId = id ∧
    firstMatch later peer (call b peer partition reactor) = none) ∧
  (answer.1 = false → answer.2 = table before) ∧
  ((table before).doneSince answer.2).length = answer.1.toNat

/-- A failure of many answers how many futures got done, and what it does not
match waits on. -/
def Fails (before : List TableOp) (op : TableOp) (answer : Nat × InvocationTable) : Prop :=
  answer.1 = ((table before).doneSince answer.2).length ∧
  ∀ peer id i, answer.2.Waits peer id i ↔
    (table before).Waits peer id i ∧ op.outcome? peer i = none

/-- An id that is drawn is the next one of its peer, and nothing waits under it. -/
def Draws (before : List TableOp) (peer : Address) (id : UInt64) : Prop :=
  id.toNat = 501 + drawn peer before ∧ ∀ i, ¬ (table before).Waits peer id i

/-- What an operation answers after a history. -/
def Answers (before : List TableOp) : TableOp → Prop
  | addPeer _ => True
  | nextId peer => Draws before peer ((table before).nextId peer).1
  | register peer partition reactor =>
    let answer := (table before).register peer partition reactor
    Draws before peer answer.1 ∧ answer.1 = (call before peer partition reactor).correlationId ∧
      answer.2.1 = (call before peer partition reactor).future
  | complete peer id outcome => Completes before peer id ((table before).complete peer id outcome)
  | fail peer id e => Completes before peer id ((table before).fail peer id e)
  | failRouted peer reactor e =>
    Fails before (failRouted peer reactor e) ((table before).failRouted peer reactor e)
  | failReactor reactor e =>
    Fails before (failReactor reactor e) ((table before).failReactor reactor e)
  | failAll e => Fails before (failAll e) ((table before).failAll e)

theorem completes {before : List TableOp} (h : (table before).Records (ledger before))
    (peer : Address) (id : UInt64) (outcome : Outcome) :
    Completes before peer id ((table before).complete peer id outcome) := by
  have count := InvocationTable.complete_count h peer id outcome
  have done := h.doneSince_length (h.complete peer id outcome)
  refine ⟨?_, ?_, by omega⟩
  · rw [InvocationTable.complete_first_iff]
    constructor
    · rintro ⟨i, waits⟩
      obtain ⟨mem, own⟩ := (h.waits peer id i).mp waits
      obtain ⟨b, partition, reactor, later, split, made, unmatched⟩ := mem_ledger.mp mem
      simp only at made unmatched
      exact ⟨b, partition, reactor, later, split, made ▸ own, made ▸ unmatched.symm⟩
    · rintro ⟨b, partition, reactor, later, split, own, unmatched⟩
      refine ⟨call b peer partition reactor, (h.waits peer id _).mpr ⟨?_, own⟩⟩
      exact mem_ledger.mpr ⟨b, partition, reactor, later, split, rfl, unmatched.symm⟩
  · intro late
    rcases (table before).complete_cases peer id outcome with ⟨same, -⟩ | ⟨p, i, -, -, same⟩
    · rw [same]
    · rw [same] at late
      cases late

theorem draws_of_records {ops : List TableOp} (h : (table ops).Records (ledger ops))
    {peer : Address}
    (few : drawn peer ops + 1 < 2 ^ 64 - 500) : Draws ops peer ((table ops).lastId peer + 1) :=
  ⟨toNat_nextId few, fresh_of_records h few⟩

theorem fails {before : List TableOp} {answer : Nat × InvocationTable} {op : TableOp}
    (h : (table before).Records (ledger before))
    (h' : answer.2.Records ((ledger before).map (.settle op.outcome?)))
    (count : answer.1 + answer.2.outstanding = (table before).outstanding) :
    Fails before op answer := by
  have done := h.doneSince_length h'
  refine ⟨by omega, fun peer id i => ?_⟩
  rw [h.waits, h'.waits, InvocationTable.mem_settle_none]
  exact and_right_comm

theorem answers {before : List TableOp} {op : TableOp} {later : List TableOp}
    (few : ∀ peer, drawn peer (before ++ op :: later) < 2 ^ 64 - 500) : op.Answers before := by
  have h : (table before).Records (ledger before) := records fun peer =>
    Nat.lt_of_le_of_lt (by rw [drawn_append]; omega) (few peer)
  have more (peer : Address) (drawing : op.draws peer = true) :
      drawn peer before + 1 < 2 ^ 64 - 500 := by
    have := few peer
    rw [drawn_append, drawn, drawn, List.countP_cons_of_pos drawing] at this
    rw [drawn]
    omega
  cases op with
  | addPeer peer => trivial
  | nextId peer => exact draws_of_records h (more peer (by simp [draws]))
  | register peer partition reactor =>
    refine ⟨draws_of_records h (more peer (by simp [draws])), succ_lastId_table before peer, ?_⟩
    exact h.length.trans (length_ledger before)
  | complete peer id outcome => exact completes h peer id outcome
  | fail peer id e => exact completes h peer id (.error e)
  | failRouted peer reactor e =>
    exact fails h (h.failWhere peer e _) (InvocationTable.failWhere_count h.keyed peer e _)
  | failReactor reactor e =>
    exact fails h (h.failAnywhere e _) (InvocationTable.failAnywhere_count h.keyed e _)
  | failAll e => exact fails h (h.failAnywhere e _) (InvocationTable.failAnywhere_count h.keyed e _)

/-- A history that draws too few ids to use up those of a peer leaves each
registered future with the outcome of the first later operation that matches its
invocation.  A result that is there stays.  Each operation of the history answers
as it should, and what is outstanding are the futures that are not done. -/
theorem settled_once (ops : List TableOp) (few : ∀ peer, drawn peer ops < 2 ^ 64 - 500) :
    (∀ before peer partition reactor later,
      ops = before ++ .register peer partition reactor :: later →
      ∃ f, (table ops).future? (call before peer partition reactor).future = some f ∧
        f.correlationId = (call before peer partition reactor).correlationId ∧
        f.completion.result = firstMatch later peer (call before peer partition reactor)) ∧
    (∀ before later, ops = before ++ later →
      ∀ k row, (table before).result? k = some row → (table ops).result? k = some row) ∧
    (∀ before op later, ops = before ++ op :: later → op.Answers before) ∧
    (table ops).futures.size = ops.countP isRegister ∧
    (table ops).outstanding = (table ops).futures.countP (!·.completion.isDone) := by
  have h := records few
  refine ⟨?results, ?stays, ?answers, h.length.trans (length_ledger ops),
    h.outstanding_eq.trans h.countP_futures.symm⟩
  case results =>
    intro before peer partition reactor later split
    exact h.future_of_mem (e := ⟨peer, _, _⟩)
      (mem_ledger.mpr ⟨before, partition, reactor, later, split, rfl, rfl⟩)
  case stays =>
    rintro before later rfl k row
    have h' : (table before).Records (ledger before) := records fun peer =>
      Nat.lt_of_le_of_lt (by rw [drawn_append]; omega) (few peer)
    rw [h.result?_eq, h'.result?_eq, Option.map_eq_some_iff, Option.map_eq_some_iff]
    rintro ⟨outcome, found, rfl⟩
    exact ⟨outcome, result_stays later found, rfl⟩
  case answers =>
    rintro before op later rfl
    exact answers few

/-- The first of two invocations is completed and the second fails with its
reactor.  Completing it afterwards comes too late. -/
theorem settled_once_late_completion :
    let peer : Address := .ofIp (.v4 0x7f000001) 9000
    let ops : List TableOp := [.register peer 7 0, .register peer 8 1, .complete peer 501 (.ok []),
      .failReactor 1 .notStarted, .complete peer 502 (.ok [])]
    (∀ peer, drawn peer ops < 2 ^ 64 - 500) ∧
    (∃ f, (table ops).future? 1 = some f ∧ f.completion.result = some (.error .notStarted)) ∧
    (table ops).outstanding = (table ops).futures.countP (!·.completion.isDone) := by
  intro peer ops
  have few : ∀ peer, drawn peer ops < 2 ^ 64 - 500 := fun _ =>
    Nat.lt_of_le_of_lt List.countP_le_length (by decide)
  obtain ⟨results, -, -, -, outstanding⟩ := settled_once ops few
  obtain ⟨f, found, -, result⟩ := results [.register peer 7 0] peer 8 1 _ rfl
  exact ⟨few, ⟨f, found, result.trans (by decide)⟩, outstanding⟩

end TableOp

end PartitionEngine
