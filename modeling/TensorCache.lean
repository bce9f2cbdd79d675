import TensorCache.Accounting
import TensorCache.BudgetRuns
import TensorCache.Checksum
import TensorCache.Cluster.Basic
import TensorCache.Cluster.Custody
import TensorCache.Cluster.FirstWriter
import TensorCache.Cluster.FrameLimit
import TensorCache.Cluster.Holdings
import TensorCache.Cluster.Node
import TensorCache.Cluster.Replicas
import TensorCache.Cluster.Serving
import TensorCache.Cluster.Store
import TensorCache.Compat
import TensorCache.Concurrency
import TensorCache.Coordinator.Basic
import TensorCache.Coordinator.History
import TensorCache.Coordinator.Limits
import TensorCache.Coordinator.Ownership
import TensorCache.Coordinator.Restart
import TensorCache.Coordinator.Snapshot
import TensorCache.Coordinator.Tokens
import TensorCache.Corruption
import TensorCache.CrashSafety
import TensorCache.Crc
import TensorCache.Deletion
import TensorCache.DeviceAccounting
import TensorCache.Devices
import TensorCache.ElementCounts
import TensorCache.Error
import TensorCache.Eviction
import TensorCache.EvictionOrder
import TensorCache.Fidelity
import TensorCache.Geometry
import TensorCache.Hash
import TensorCache.HashStream
import TensorCache.HostAccounting
import TensorCache.Lib.AssocMap
import TensorCache.Lib.Blocks
import TensorCache.Lib.Codec
import TensorCache.Lib.Command
import TensorCache.Lib.Journal
import TensorCache.Lib.MixedRadix
import TensorCache.Lib.Process
import TensorCache.Lib.ShiftRegister
import TensorCache.Lib.Trace
import TensorCache.Lib.Transport
import TensorCache.Lookup
import TensorCache.Movement
import TensorCache.ObjectLimit
import TensorCache.Persistence.Atomicity
import TensorCache.Persistence.Basic
import TensorCache.Persistence.Files
import TensorCache.Persistence.Properties
import TensorCache.Planning
import TensorCache.Policy
import TensorCache.Protocol.Frame
import TensorCache.Protocol.Message
import TensorCache.Recoverable
import TensorCache.RecoveryCounts
import TensorCache.Rejection
import TensorCache.Residency
import TensorCache.Runtime.Basic
import TensorCache.Runtime.Calls
import TensorCache.Runtime.Demand
import TensorCache.Runtime.Durable
import TensorCache.Runtime.DurableProperties
import TensorCache.Runtime.Faultless
import TensorCache.Runtime.Frame
import TensorCache.Runtime.Host
import TensorCache.Runtime.Interleaving
import TensorCache.Runtime.Moves
import TensorCache.Runtime.Reachable
import TensorCache.Runtime.Readable
import TensorCache.Runtime.Recovery
import TensorCache.Runtime.Rules
import TensorCache.Runtime.Runs
import TensorCache.Runtime.Safe
import TensorCache.Runtime.Sessions
import TensorCache.Runtime.Threads
import TensorCache.Server.Connection
import TensorCache.Server.Coordinator
import TensorCache.Server.Survival
import TensorCache.Storage.Arena
import TensorCache.Storage.Basic
import TensorCache.Storage.Counting
import TensorCache.Storage.Properties
import TensorCache.Storage.Tilings
import TensorCache.StorageAccounting
import TensorCache.Strides
import TensorCache.Tiers
import TensorCache.Wire
