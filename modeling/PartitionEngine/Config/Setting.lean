import PartitionEngine.Config
import PartitionEngine.Net.Reader

/-!
# Settings by name

The settings of an engine that are given one by one.  A name that is not known,
and a text that cannot be read, change nothing.
-/

namespace PartitionEngine

namespace Config

def withNumber (c : Config) (name : String) (value : Int) : Config :=
  let n := value.toNat
  match name with
  | "reactor_count" => { c with reactorCount := n }
  | "read_buffer_size" => { c with readBufferSize := n }
  | "write_coalesce_bytes" => { c with writeCoalesceBytes := n }
  | "ring_entries" => { c with ringEntries := UInt32.ofNat n }
  | "completion_batch" => { c with completionBatch := n }
  | "fragment_threshold" => { c with fragmentThreshold := n }
  | "max_frame_payload" => { c with maxFramePayload := n }
  | "max_message_size" => { c with maxMessageSize := n }
  | "connect_timeout_ms" => { c with connectTimeout := n }
  | "op_pool_capacity" => { c with opPoolCapacity := n }
  | "termination_timeout_ms" => { c with terminationTimeout := n }
  | "listen_backlog" => { c with listenBacklog := Int32.ofInt value }
  | _ => c

def withText (c : Config) (name text : String) : Config :=
  match name with
  | "bind_host" => { c with bindHost := (Ip.parse? text).getD c.bindHost }
  | "scheduling" => { c with scheduling := (Scheduling.parse text).toOption.getD c.scheduling }
  | "driver" => { c with driver := (DriverKind.parse text).toOption.getD c.driver }
  | _ => c

end Config

end PartitionEngine
