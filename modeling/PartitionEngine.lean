import PartitionEngine.Channel.Feed
import PartitionEngine.Config.Setting
import PartitionEngine.Engine.Rehearsal
import PartitionEngine.Invocation.Promise
import PartitionEngine.Io.PollBench
import PartitionEngine.Main
import PartitionEngine.Operation.Probe
import PartitionEngine.Proofs.Accounting
import PartitionEngine.Proofs.Acts
import PartitionEngine.Proofs.Affinity
import PartitionEngine.Proofs.Answers
import PartitionEngine.Proofs.Arming
import PartitionEngine.Proofs.Arrivals
import PartitionEngine.Proofs.Attempts
import PartitionEngine.Proofs.Backing
import PartitionEngine.Proofs.Budgets
import PartitionEngine.Proofs.Calls
import PartitionEngine.Proofs.Codec
import PartitionEngine.Proofs.Coherence
import PartitionEngine.Proofs.Confinement
import PartitionEngine.Proofs.Connections
import PartitionEngine.Proofs.Connects
import PartitionEngine.Proofs.Contents
import PartitionEngine.Proofs.Conveying
import PartitionEngine.Proofs.Courses
import PartitionEngine.Proofs.Decoding
import PartitionEngine.Proofs.Dispatching
import PartitionEngine.Proofs.Endpoints
import PartitionEngine.Proofs.Entries
import PartitionEngine.Proofs.Evolving
import PartitionEngine.Proofs.Exits
import PartitionEngine.Proofs.Framing
import PartitionEngine.Proofs.Futures
import PartitionEngine.Proofs.Generations
import PartitionEngine.Proofs.Handovers
import PartitionEngine.Proofs.Histories
import PartitionEngine.Proofs.Interleaving
import PartitionEngine.Proofs.Isolation
import PartitionEngine.Proofs.Issuing
import PartitionEngine.Proofs.Ledger
import PartitionEngine.Proofs.Lines
import PartitionEngine.Proofs.LinkOrder
import PartitionEngine.Proofs.LinkRecords
import PartitionEngine.Proofs.Lives
import PartitionEngine.Proofs.Messages
import PartitionEngine.Proofs.PeerTables
import PartitionEngine.Proofs.Polling
import PartitionEngine.Proofs.PortRanges
import PartitionEngine.Proofs.Posting
import PartitionEngine.Proofs.Promises
import PartitionEngine.Proofs.Reaching
import PartitionEngine.Proofs.Rearming
import PartitionEngine.Proofs.Reassembly
import PartitionEngine.Proofs.Reconnecting
import PartitionEngine.Proofs.RemoteCalls
import PartitionEngine.Proofs.Requests
import PartitionEngine.Proofs.Retries
import PartitionEngine.Proofs.Returns
import PartitionEngine.Proofs.Reuse
import PartitionEngine.Proofs.Routing
import PartitionEngine.Proofs.Runs
import PartitionEngine.Proofs.Segmentation
import PartitionEngine.Proofs.Sending
import PartitionEngine.Proofs.Settlement
import PartitionEngine.Proofs.Settling
import PartitionEngine.Proofs.Shutdown
import PartitionEngine.Proofs.Sizes
import PartitionEngine.Proofs.Starting
import PartitionEngine.Proofs.Steps
import PartitionEngine.Proofs.Streams
import PartitionEngine.Proofs.Tenants
import PartitionEngine.Proofs.Turns
import PartitionEngine.Proofs.Utf8
import PartitionEngine.Proofs.Waiting
import PartitionEngine.Proofs.Wakeups
import PartitionEngine.Proofs.WindingDown
import PartitionEngine.Proofs.Wires
import PartitionEngine.Proofs.Works
import PartitionEngine.Proofs.Worlds
import PartitionEngine.Proofs.WriteQueues
import PartitionEngine.System.Socket
import PartitionEngine.Text.Hex
import PartitionEngine.Wire.Stream
