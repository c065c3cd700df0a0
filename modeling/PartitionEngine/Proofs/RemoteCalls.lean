import PartitionEngine.Operation.Builtin
import PartitionEngine.Proofs.Messages
import PartitionEngine.Proofs.Utf8
import PartitionEngine.Reactor.Tasks

/-!
# A remote call is a local call

A request that is written by one engine, received by another in whatever pieces,
run there, and answered by bytes that come back in whatever pieces brings the
result that running it on the spot brings.  Writing and reading are inverse for
whole messages (`Channel.feedAll_encodeMessage`), and a response reads as the
result it was made from, error records included (`outcome_response`).  Running is
the same on both ways, because both ask the dispatcher the same
(`runLocal_eq`, `execute_eq`).
-/

namespace PartitionEngine

/-! ## Responses -/

theorem ErrorRecord.decode_encode (r : ErrorRecord) : decode r.encode = .ok r := by
  simp only [encode, decode, ErrorCode.ofByte?_byte, Text.decodeLenient_utf8]

/-- What the caller of an operation gets for its answer. -/
def outcomeOf (answer : Except ErrorRecord Bytes) : Outcome := answer.mapError .remote

theorem Frame.outcome_response (opcode : UInt8) (id : UInt64) (p : Partition)
    (answer : Except ErrorRecord Bytes) :
    (response opcode id p answer).outcome = outcomeOf answer := by
  cases answer with
  | ok bytes =>
    have plain : (Flag.response &&& Flag.error != 0) = false := by decide
    rw [outcome, isError, response, plain]
    rfl
  | error record =>
    have flagged : ((Flag.response ||| Flag.error) &&& Flag.error != 0) = true := by decide
    simp only [outcome, isError, response, flagged, if_true, ErrorRecord.decode_encode]
    rfl

theorem Frame.plain_request (opcode : UInt8) (id : UInt64) (p : Partition) (payload : Bytes) :
    (request opcode id p payload).Plain := by
  show (0 : UInt8) &&& _ = 0
  decide

theorem Frame.plain_response (opcode : UInt8) (id : UInt64) (p : Partition)
    (answer : Except ErrorRecord Bytes) : (response opcode id p answer).Plain := by
  cases answer with
  | ok bytes =>
    show Flag.response &&& _ = 0
    decide
  | error record =>
    show (Flag.response ||| Flag.error) &&& _ = 0
    decide

/-! ## Running -/

variable {σ : Type}

/-- An opcode that is not fire and forget is always answered. -/
theorem Dispatcher.exists_answer (d : Dispatcher σ) {opcode : UInt8}
    (answered : isFireAndForget opcode = false) (p : Partition) (id : UInt64) (input : Bytes) :
    ∃ answer, (d.dispatch opcode p id input).1 = some answer := by
  unfold dispatch
  split
  · exact ⟨_, rfl⟩
  · simp only [answered, Bool.false_eq_true, ↓reduceIte]
    exact ⟨_, rfl⟩

namespace Turn

/-- A request of our own completes its invocation with the answer. -/
theorem runLocal_eq {t : Turn σ} {r : Request} {id : UInt64} {answer : Except ErrorRecord Bytes}
    (answered : (t.reactor.dispatcher.dispatch r.opcode r.partition id r.payload).1 = some answer) :
    (t.runLocal r (some id)).reactor.dispatcher
      = (t.reactor.dispatcher.dispatch r.opcode r.partition id r.payload).2 ∧
    (t.runLocal r (some id)).shared.invocations
      = (t.shared.invocations.complete t.reactor.localAddress id (outcomeOf answer)).2 := by
  simp only [runLocal, Option.getD_some, answered, modifyInvocations]
  cases answer with
  | ok bytes => exact ⟨trivial, rfl⟩
  | error record => exact ⟨trivial, rfl⟩

/-- A request of a peer is answered with the bytes of a response. -/
theorem execute_eq {t : Turn σ} {f : Frame} {answer : Except ErrorRecord Bytes}
    (answered : (t.reactor.dispatcher.dispatch f.opcode f.partition f.correlationId f.payload).1
      = some answer) :
    (t.execute f).1
      = some ((Frame.response f.opcode f.correlationId f.partition answer).encodeMessage
      t.config.fragmentThreshold) ∧
    (t.execute f).2.reactor.dispatcher
      = (t.reactor.dispatcher.dispatch f.opcode f.partition f.correlationId f.payload).2 := by
  simp only [execute, answered]
  exact ⟨rfl, rfl⟩

end Turn

/-! ## Calls -/

/-- Nothing is received of a message that is not whole. -/
structure Channel.Idle (c : Channel) (maxMessage : Nat) : Prop where
  unread : c.unread = []
  assembler : c.assembler = { maxMessage }

/-- Between two engines whose limits suit each other, the owner receives exactly
the request, however its bytes are cut.  What it answers reads, however those bytes
are cut, as exactly one response, with the result that the request run on the spot
is completed with, and the dispatcher is left as it is then. -/
theorem Turn.remote_eq_local (caller : Shared σ) (owner : Turn σ) (r : Request) (id : UInt64)
    (there : caller.config.fragmentThreshold ≤ owner.config.maxFramePayload)
    (back : owner.config.fragmentThreshold ≤ caller.config.maxFramePayload)
    (thereSome : 0 < owner.config.maxFramePayload) (backSome : 0 < caller.config.maxFramePayload)
    (thereWidth : caller.config.fragmentThreshold < 2 ^ 32)
    (backWidth : owner.config.fragmentThreshold < 2 ^ 32)
    (answered : isFireAndForget r.opcode = false)
    (fits : r.payload.length ≤ owner.config.maxMessageSize) :
    let request := Frame.request r.opcode id r.partition r.payload
    (∀ (c : Channel) (pieces : List Bytes), c.Idle owner.config.maxMessageSize →
      pieces.flatten = caller.encodeRequest id r →
      c.feedAll owner.config.maxFramePayload pieces = { channel := c, messages := [.ok request] }) ∧
    ∃ answer bytes,
      (owner.reactor.dispatcher.dispatch r.opcode r.partition id r.payload).1 = some answer ∧
      (owner.execute request).1 = some bytes ∧
      (owner.execute request).2.reactor.dispatcher
        = (owner.runLocal r (some id)).reactor.dispatcher ∧
      (owner.runLocal r (some id)).shared.invocations
        = (owner.shared.invocations.complete owner.reactor.localAddress id (outcomeOf answer)).2 ∧
      let response := Frame.response r.opcode id r.partition answer
      response.outcome = outcomeOf answer ∧
      (response.payload.length ≤ caller.config.maxMessageSize →
        ∀ (c : Channel) (pieces : List Bytes), c.Idle caller.config.maxMessageSize →
          pieces.flatten = bytes →
          c.feedAll caller.config.maxFramePayload pieces
            = { channel := c, messages := [.ok response] }) := by
  intro request
  refine ⟨?_, ?_⟩
  · intro c pieces idle cut
    exact Channel.feedAll_encodeMessage idle.unread idle.assembler (Frame.plain_request _ _ _ _)
      (by omega) thereWidth fits cut
  · obtain ⟨answer, dispatched⟩ :=
      owner.reactor.dispatcher.exists_answer answered r.partition id r.payload
    obtain ⟨bytes, executed⟩ := Turn.execute_eq (f := request) dispatched
    obtain ⟨dispatcher, completed⟩ := Turn.runLocal_eq dispatched
    refine ⟨answer, _, dispatched, bytes, executed.trans dispatcher.symm, completed,
      Frame.outcome_response _ _ _ _, ?_⟩
    intro room c pieces idle cut
    exact Channel.feedAll_encodeMessage idle.unread idle.assembler (Frame.plain_response _ _ _ _)
      (by omega) backWidth room cut

/-- An echo of three bytes goes there and back between an engine that sends two
bytes a frame and one that sends one, with the bytes received one by one. -/
theorem Turn.remote_eq_local_echo :
    let caller : Shared Builtin.Item :=
      { config := { reactorCount := 1, fragmentThreshold := 2 }, registry := .empty, reactors := [],
        links := { reactorCount := 1 } }
    let owner : Turn Builtin.Item :=
      { host := {}
        shared := { caller with config := { reactorCount := 1, fragmentThreshold := 1 } }
        reactor :=
          { index := 0, listener := some 3, localAddress := .ofIp (.v4 0x7f000001) 24000,
            dispatcher := .new .builtin 64 } }
    let echo : Request := { opcode := 1, partition := 7, payload := [10, 20, 30] }
    isFireAndForget echo.opcode = false ∧
    (Channel.accepted none default owner.config.maxMessageSize).feedAll owner.config.maxFramePayload
        ((caller.encodeRequest 501 echo).map ([·]))
      = { channel := .accepted none default owner.config.maxMessageSize
          messages := [.ok (.request 1 501 7 [10, 20, 30])] } ∧
    ∃ bytes, (owner.execute (.request 1 501 7 [10, 20, 30])).1 = some bytes ∧
      (Channel.accepted none default caller.config.maxMessageSize).feedAll
          caller.config.maxFramePayload (bytes.map ([·]))
        = { channel := .accepted none default caller.config.maxMessageSize
            messages := [.ok (.response 1 501 7 (.ok [10, 20, 30]))] } := by
  intro caller owner echo
  have singly (bytes : Bytes) : (bytes.map ([·])).flatten = bytes := by
    induction bytes with
    | nil => rfl
    | cons b rest ih => rw [List.map_cons, List.flatten_cons, ih, List.singleton_append]
  obtain ⟨sent, answer, bytes, dispatched, executed, -, -, -, received⟩ :=
    remote_eq_local caller owner echo 501 (by decide) (by decide) (by decide) (by decide)
      (by decide) (by decide) rfl (by decide)
  obtain rfl : .ok [10, 20, 30] = answer := Option.some.inj dispatched
  exact ⟨rfl, sent _ _ ⟨rfl, rfl⟩ (singly _), bytes, executed,
    received (by decide) _ _ ⟨rfl, rfl⟩ (singly _)⟩

end PartitionEngine
