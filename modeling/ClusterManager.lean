import ClusterManager.Lib.Program
import ClusterManager.Lib.Session
import ClusterManager.Lib.Runs
import ClusterManager.Lib.Pool
import ClusterManager.Lib.Drain
import ClusterManager.Lib.Text
import ClusterManager.Lib.Path
import ClusterManager.Lib.Pattern
import ClusterManager.Data.Types
import ClusterManager.Backend.Base
import ClusterManager.Model.Topology
import ClusterManager.Model.Planning
import ClusterManager.Model.SlotMigration
import ClusterManager.Config
import ClusterManager.Backend.Podman
import ClusterManager.Cache.SingleFlight
import ClusterManager.Cache.ConsistentHash
import ClusterManager.Cache.Registry
import ClusterManager.Cache.Forwarding
import ClusterManager.Data.Parse
import ClusterManager.Model.Redis
import ClusterManager.Model.Manager
import ClusterManager.Model.Execution
import ClusterManager.Lib.Table
import ClusterManager.Data.Store
import ClusterManager.Pipeline
import ClusterManager.Files
import ClusterManager.Ops.Base
import ClusterManager.Ops.Create
import ClusterManager.Ops.Delete
import ClusterManager.Ops.Scale
import ClusterManager.Ops.Frames
import ClusterManager.Ops.Rollback
import ClusterManager.Model.Nodes
import ClusterManager.Ops.Steps
import ClusterManager.Ops.Shards
import ClusterManager.Ops.History
import ClusterManager.Lib.Watch
import ClusterManager.Pipeline.Calls
import ClusterManager.Pipeline.Records
import ClusterManager.Pipeline.Interruption
import ClusterManager.Pipeline.Recovery
import ClusterManager.Cache.Membership
import ClusterManager.Cache.Lru
import ClusterManager.Cache.Protocol
import ClusterManager.Cache.Invalidation
import ClusterManager.Cache.SlotInvalidation
import ClusterManager.Backend.Leftovers
import ClusterManager.Ops.AllOrNothing
import ClusterManager.Model.PlannedTasks
import ClusterManager.Model.KeySafety
import ClusterManager.Lib.Crew
import ClusterManager.Model.Parallel
import ClusterManager.Cache.Peers
import ClusterManager.Model.Allocation
import ClusterManager.Backend.Containerd
import ClusterManager.Lib.Latest
import ClusterManager.Model.Addresses
import ClusterManager.Model.Hostnames
import ClusterManager.Ops.Gossip
import ClusterManager.Data.Format
import ClusterManager.Model.Reports
import ClusterManager.Model.Flags
import ClusterManager.Model.MeetSync
import ClusterManager.Model.OpenSlots
import ClusterManager.Model.Refresh
import ClusterManager.Ops.Surplus
import ClusterManager.Model.RoleCheck
import ClusterManager.Pipeline.Moments
import ClusterManager.Ops.Resume
import ClusterManager.Cache.LruCache
import ClusterManager.Cache.Settings
import ClusterManager.Cache.RingWalk
import ClusterManager.Cache.Group
import ClusterManager.Cache.Memo
import ClusterManager.Cache.Replication
import ClusterManager.Cache.HotReplication
import ClusterManager.Cache.Expiry
import ClusterManager.Cache.Staleness
import ClusterManager.Backend.FreshNames
import ClusterManager.Cache.Seeds
import ClusterManager.Pipeline.Keeping
import ClusterManager.Ops.Moments
import ClusterManager.Model.ClientReads
import ClusterManager.Model.Rebalance
import ClusterManager.Ops.SyncState
