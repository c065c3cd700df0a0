import PartitionEngine.Smoke.Checks

/-!
# The command line

Runs the smoke test on a host with a network of its own, with the settings of the
process's environment.  Prints the report, and exits with 1 if a check failed.
-/

namespace PartitionEngine

/-- The environment variables that hold settings. -/
def settingNames : List String := [
  "TPC_REACTORS", "TPC_BIND_HOST", "TPC_PORT_START", "TPC_PORT_END", "TPC_LISTEN_BACKLOG",
  "TPC_TCP_NODELAY", "TPC_KEEP_ALIVE", "TPC_SO_SNDBUF", "TPC_SO_RCVBUF", "TPC_READ_BUFFER",
  "TPC_WRITE_COALESCE", "TPC_RING_ENTRIES", "TPC_COMPLETION_BATCH", "TPC_SCHEDULING",
  "TPC_IO_DRIVER", "TPC_FRAGMENT_THRESHOLD", "TPC_MAX_FRAME", "TPC_MAX_MESSAGE",
  "TPC_CONNECT_TIMEOUT_MS", "TPC_CONNECT_RETRIES", "TPC_CONNECT_BACKOFF_MS", "TPC_OP_POOL",
  "TPC_PIN_THREADS", "TPC_CPU_OFFSET", "TPC_TERMINATION_TIMEOUT_MS"]

/-- The settings in the environment of this process. -/
def readEnvironment : IO Environment :=
  settingNames.filterMapM fun name => do
    let value ← IO.getEnv name
    return value.map fun text => (name, utf8 text)

end PartitionEngine

def main : IO UInt32 := do
  let report := PartitionEngine.Smoke.run {} (← PartitionEngine.readEnvironment)
  report.lines.forM IO.println
  return PartitionEngine.Smoke.exitCode report
