import PartitionEngine.Cluster
import PartitionEngine.Config.Environment
import PartitionEngine.Operation.Builtin
import PartitionEngine.Smoke.Report

/-!
# The smoke test

Two engines with the same settings are started on one host.  Calls are made
through one of them: to itself, to the other, and such as have to fail.  Then both
are shut down.
-/

namespace PartitionEngine

namespace Smoke

/-- A smoke test under way. -/
structure Session where
  cluster : Cluster Builtin.Item
  config : Config
  report : Report := {}

/-- The number of the engine that is called. -/
def caller : Nat := 1

/-- The number of the other engine. -/
def peer : Nat := 0

def localPartition : Partition := 3

def remotePartition : Partition := 7

/-- How long a call may take, in milliseconds. -/
def patience : Nat := 10000

def Session.note (s : Session) (f : Report → Report) : Session := { s with report := f s.report }

def Session.ensure (s : Session) (name : String) (holds : Bool) (reason : String) : Session :=
  s.note fun r => r.ensure name holds reason

def Session.engine? (s : Session) : Option (Engine Builtin.Item) := s.cluster.engine? caller

/-! ## Calls -/

def request (op : Opcode) (partition : Partition) (payload : Bytes) : Request :=
  { opcode := op.byte, partition, payload }

def Session.await (s : Session) (r : Request) : Option Outcome × Session :=
  let ((_, future), cluster) := s.cluster.invoke caller r
  let (result, cluster) := cluster.wait caller future patience
  (result, { s with cluster })

/-- Makes a call.  One that takes too long fails. -/
def Session.call (s : Session) (op : Opcode) (partition : Partition) (payload : Bytes) :
    Outcome × Session :=
  let (result, s) := s.await (request op partition payload)
  (result.getD (.error (.transport "timed out")), s)

/-- Makes calls together and waits for all.  Tells whether each had the result it
should have. -/
def Session.callAll (s : Session) (calls : List (Request × Outcome)) : Bool × Session :=
  let (cluster, waiting) := calls.foldl
    (fun ((cluster, waiting) : Cluster Builtin.Item × List (FutureId × Outcome)) (r, expected) =>
      let ((_, future), cluster) := cluster.invoke caller r
      (cluster, (future, expected) :: waiting))
    (s.cluster, [])
  let (ok, cluster) := waiting.reverse.foldl
    (fun ((ok, cluster) : Bool × Cluster Builtin.Item) (future, expected) =>
      if ok then
        let (result, cluster) := cluster.wait caller future patience
        (decide (result = some expected), cluster)
      else (false, cluster))
    (true, cluster)
  (ok, { s with cluster })

def showFailure : Failure → String
  | .remote r => "[" ++ r.code.name ++ "] " ++ r.message
  | e => "[" ++ e.describe ++ "]"

def showExpected : Outcome → String
  | .ok bytes => toString bytes.length ++ " bytes"
  | .error e => showFailure e

/-- What is wrong with a result, if anything is. -/
def complaint (got : Option Outcome) (expected : Outcome) : Option String :=
  match got with
  | none => some "timed out"
  | some got =>
    if got = expected then none
    else some ("got " ++ showExpected got ++ ", expected " ++ showExpected expected)

def Session.check (s : Session) (name : String) (r : Request) (expected : Outcome) : Session :=
  let (got, s) := s.await r
  s.note fun report => report.record name (complaint got expected)

/-- Makes a call and checks the value its answer holds. -/
def Session.checkLookup (s : Session) (name : String) (op : Opcode) (partition : Partition)
    (payload : Bytes) (expected : Option Bytes) (reason : String) : Session :=
  let (got, s) := s.call op partition payload
  s.ensure name (decide (got.map parseLookup? = .ok expected)) reason

/-! ## Part A -/

/-- Makes and starts the engines.  `none` for the session if that fails. -/
def start (s : Session) : Session × Bool :=
  let s := s.note fun r => r.startPart 'A' "Lifecycle"
  let s := s.ensure "config validates" s.config.validate.isOk "invalid TPC_* settings"
  let failed := fun (s : Session) (name : String) (e : Failure) =>
    (s.note fun r => r.record name (some (showFailure e)), false)
  match s.cluster.add s.config .builtin with
  | .error e => failed s "build peer engine" e
  | .ok cluster =>
    match cluster.add s.config .builtin with
    | .error e => failed s "build engine" e
    | .ok cluster =>
      let (got, s) := { s with cluster }.await (request .ping 0 [])
      let s := s.ensure "invoke before start → NotStarted" (decide (got = some (.error .notStarted)))
        "expected NotStarted"
      match s.cluster.start peer with
      | .error e => failed s "start peer engine" e
      | .ok cluster =>
        let s := { s with cluster }.ensure "start peer engine" true ""
        match s.cluster.start caller with
        | .error e => failed s "start engine" e
        | .ok cluster => ({ s with cluster }.ensure "start engine" true "", true)

def portDistance (a b : Address) : Nat :=
  max (a.port.toNat - b.port.toNat) (b.port.toNat - a.port.toNat)

/-- Checks the engines that were started, and says who owns what.  Gives the
address of the other engine. -/
def settle (s : Session) : Session × Option Address :=
  let s := s.ensure "second start rejected" (!(s.cluster.start caller).isOk) "start succeeded twice"
  match s.cluster.address? caller, s.cluster.address? peer with
  | some here, some there =>
    let count := s.config.reactorCount
    let s := s.note fun r => r.remark ("engine at " ++ here.text ++ " (" ++ toString count
      ++ " reactors), peer at " ++ there.text)
    let s := s.ensure "listener groups do not overlap" (decide (count ≤ portDistance here there))
      "port groups overlap"
    let cluster := s.cluster.modifyEngine caller fun e => e.modifyShared fun shared =>
      { shared with
        ownership := (shared.ownership.setFallback (some there)).assign localPartition here }
    ({ s with cluster }, some there)
  | _, _ =>
    (s.ensure "local addresses" false "engine did not record its address", none)

/-! ## Part B -/

/-- Whether no reactor of the called engine has a connection. -/
def Session.isIdle (s : Session) : Bool :=
  ((s.engine?.map fun e => e.shared.reactors).getD []).all fun r =>
    r.stats.accepted = 0 && r.stats.connects = 0

def checkLocal (s : Session) : Session :=
  let s := s.note fun r => r.startPart 'B' "Local invocations"
  let p := localPartition
  let k := utf8 "k"
  let v1 := utf8 "v1"
  let v2 := utf8 "v2"
  let s := s.check "echo on local partition" (request .echo p (utf8 "hello")) (.ok (utf8 "hello"))
    |>.checkLookup "upsert new key" .tableUpsert p (upsertPayload k v1) none
      "unexpected previous value"
    |>.checkLookup "upsert returns previous value" .tableUpsert p (upsertPayload k v2) (some v1)
      "previous value lost"
    |>.checkLookup "select by key" .tableSelectByKey p k (some v2) "wrong value"
    |>.check "evict (fire-and-forget)" (request .tableEvict p k) (.ok [])
    |>.checkLookup "evicted key gone" .tableSelectByKey p k none "key still present"
  s.ensure "no socket touched" s.isIdle "local path opened a connection"

/-! ## Part C -/

def Session.connections (s : Session) (there : Address) : Nat :=
  (s.engine?.map fun e => e.shared.links.connectRequests there).getD 0

def echo (payload : Bytes) : Request × Outcome := (request .echo remotePartition payload, .ok payload)

def checkRemote (s : Session) (there : Address) : Session :=
  let s := s.note fun r => r.startPart 'C' "Remote invocations"
  let p := remotePartition
  let r := utf8 "r"
  let one := utf8 "1"
  let echoes := (List.range 16).map fun i => echo (List.replicate 128 (UInt8.ofNat i))
  let (same, s) := s.callAll echoes
  let s := s.ensure "16 concurrent echoes on first use" same "echo mismatch"
  let connections := s.connections there
  let s := s.ensure "exactly one connection" (decide (connections = 1))
    (toString connections ++ " connections")
  let large := (List.range (1024 * 1024)).map fun i => UInt8.ofNat (i % 251)
  let (same, s) := s.callAll [echo large]
  let s := s.ensure "1 MiB fragmented echo" same "payload corrupted"
    |>.checkLookup "remote upsert" .tableUpsert p (upsertPayload r one) none
      "unexpected previous value"
    |>.checkLookup "remote select" .tableSelectByKey p r (some one) "wrong value"
  let pings := List.replicate 10000 (request .ping p [], .ok [])
  let (answered, s) := s.callAll pings
  s.ensure "10k pipelined pings" answered "ping failed"

/-! ## Part D -/

/-- Whether a result says that the operation is not known. -/
def isUnknownOpcode : Option Outcome → Bool
  | some (.error (.remote { code := .unknownOpcode, .. })) => true
  | _ => false

/-- A result as the report shows it where it is not expected. -/
def showResult : Option Outcome → String
  | none => "None"
  | some (.ok bytes) => "Some(Ok(" ++ Text.quoteBytes bytes ++ "))"
  | some (.error e) => "Some(Err(" ++ e.describe ++ "))"

def Session.checkUnknown (s : Session) (name : String) (partition : Partition) : Session :=
  let (got, s) := s.await { opcode := 250, partition, payload := [] }
  s.ensure name (isUnknownOpcode got) ("got " ++ showResult got)

def checkFailures (s : Session) : Session :=
  (s.note fun r => r.startPart 'D' "Failure reporting")
    |>.checkUnknown "unknown opcode (local)" localPartition
    |>.checkUnknown "unknown opcode (remote)" remotePartition
    |>.check "reactor survives unknown opcode" (request .ping remotePartition []) (.ok [])
    |>.check "negative partition rejected" (request .ping (-4) []) (.error (.invalidPartition (-4)))

/-! ## Part E -/

def checkShutdown (s : Session) : Session :=
  let s := s.note fun r => r.startPart 'E' "Shutdown"
  let cluster := s.cluster.modifyEngine caller fun e => e.shutdown.shutdown
  let s := { s with cluster }.ensure "shutdown twice" true ""
    |>.check "invoke after shutdown" (request .echo localPartition (utf8 "late"))
      (.error .shuttingDown)
  let (ended, cluster) := s.cluster.shutdown caller s.config.terminationTimeout
  let s := { s with cluster }.ensure "engine terminated" ended "reactors still running"
  let outstanding := (s.engine?.map fun e => e.shared.invocations.outstanding).getD 0
  let s := s.ensure "no invocation left" (decide (outstanding = 0)) "invocations leaked"
  let (ended, cluster) := s.cluster.shutdown peer s.config.terminationTimeout
  { s with cluster }.ensure "peer terminated" ended "reactors still running"

/-! ## The whole test -/

def title (c : Config) : List String := [
  "=== TPC End-to-End Smoke Test ===",
  "    reactors: " ++ toString c.reactorCount ++ "  driver: " ++ c.driver.text
    ++ "  scheduling: " ++ c.scheduling.text ++ "  ports: " ++ toString c.portStart.toNat ++ "..="
    ++ toString c.portEnd.toNat]

/-- Makes every check.  If the engines cannot be started, the rest is left out. -/
def checkAll (s : Session) : Session :=
  match start s with
  | (s, false) => s
  | (s, true) =>
    match settle s with
    | (s, none) => s
    | (s, some there) => checkShutdown (checkFailures (checkRemote (checkLocal s) there))

/-- Runs the smoke test on a host, with the settings of an environment. -/
def run (host : Host) (env : Environment) : Report :=
  let config := Config.ofEnvironment host env
  let s := checkAll { cluster := { host }, config, report := { lines := title config } }
  s.report.summarize

/-- What the command exits with. -/
def exitCode (r : Report) : UInt32 := if r.failed = 0 then 0 else 1

end Smoke

end PartitionEngine
