import Gomq.Lib.Bytes
import Gomq.Lib.GoMap
import Gomq.Lib.Run
import Gomq.Lib.Spill
import Gomq.Lib.Dfs
import Gomq.Lib.Index
import Gomq.Lib.EraseFirst
import Gomq.Lib.Slice
import Gomq.Wire.Codec
import Gomq.Wire.Frame
import Gomq.Wire.Reads
import Gomq.Wire.Language
import Gomq.Wire.Framing
import Gomq.Wire.RoundTrip
import Gomq.Wire.Encoder
import Gomq.Wire.Contained
import Gomq.Broker.Message
import Gomq.Broker.Routing
import Gomq.Broker.Server
import Gomq.Broker.Store
import Gomq.Broker.Consumers
import Gomq.Broker.Publisher
import Gomq.Broker.Operations
import Gomq.Broker.Handlers
import Gomq.Broker.Effects
import Gomq.Broker.Transactions
import Gomq.Broker.Routed
import Gomq.Broker.Confirms
import Gomq.Broker.Settle
import Gomq.Broker.Isolation
import Gomq.Broker.PullConservation
import Gomq.Broker.PushDelivery
import Gomq.Broker.Wiring
import Gomq.Broker.Mediation
import Gomq.Broker.Observed
import Gomq.Broker.Shifted
import Gomq.Broker.Alignment
import Gomq.Broker.Connection
import Gomq.Broker.Stamps
import Gomq.Broker.Content
import Gomq.Broker.Metadata
import Gomq.Broker.Replies
import Gomq.Broker.Restart
import Gomq.Broker.Config
import Gomq.Broker.Modes
import Gomq.Broker.Lifecycle
import Gomq.Broker.Cascade
import Gomq.Broker.Cycles
import Gomq.Broker.Release
import Gomq.Broker.Visits
import Gomq.Broker.Copies
import Gomq.Broker.Expiration
import Gomq.Broker.QueueRuns
import Gomq.Broker.Priority
import Gomq.Broker.MaxLength
import Gomq.Broker.Independence
import Gomq.Broker.Staging
import Gomq.Broker.Mandatory
import Gomq.Broker.Reach
import Gomq.Broker.Snapshot
import Gomq.Broker.Etcd
import Gomq.Broker.EtcdRestart
import Gomq.Auth.Handshake
import Gomq.Auth.Soundness
import Gomq.Lib.Utf8
import Gomq.Auth.Plain
import Gomq.Lib.Quorum
import Gomq.Lib.Chronicle
import Gomq.Raft.Node
import Gomq.Raft.Cluster
import Gomq.Raft.Election
import Gomq.Raft.Replication
import Gomq.Store.Transparency
import Gomq.Store.Paging
import Gomq.Raft.Commitment
import Gomq.Queue.Quorum
import Gomq.Queue.Contents
import Gomq.Queue.Notify
import Gomq.Queue.Durability
import Gomq.Pipeline.Flow
import Gomq.Pipeline.Flush
import Gomq.Pipeline.Order
import Gomq.Broker.Declared
import Gomq.Broker.Expired
import Gomq.Broker.Handovers
import Gomq.Broker.PushLimits
import Gomq.Broker.Settlement
import Gomq.Broker.Topics
import Gomq.Broker.Registry
import Gomq.Broker.BindingIndex
import Gomq.Gossip.Membership
import Gomq.Web.Server
import Gomq.Web.Mediation
import Gomq.Broker.ChannelLimit
import Gomq.Auth.Limits
import Gomq.Raft.Votes
import Gomq.Raft.Merge
import Gomq.Raft.Matching
import Gomq.Raft.Placement
import Gomq.Raft.CommitBound
import Gomq.Broker.Termination
import Gomq.Broker.GroupDelivery
import Gomq.Broker.Exclusive
import Gomq.Broker.HeaderValues
import Gomq.Broker.TTL
import Gomq.Broker.DeliveryBatches
import Gomq.Broker.PublishBatch
import Gomq.Broker.PrefetchCounts
import Gomq.Broker.PurgeCount
import Gomq.Store.PageLoss
import Gomq.Store.PageCut
import Gomq.Broker.RestoreTwice
import Gomq.Lib.Decimal
import Gomq.Broker.Redeclare
import Gomq.Lib.KeyedMap
import Gomq.Broker.BindingKeys
import Gomq.Broker.EtcdNames
import Gomq.Lib.StableOrder
import Gomq.Broker.Discipline
import Gomq.Lib.BoundedLog
import Gomq.Broker.Logs
import Gomq.Lib.Newest
import Gomq.Broker.Retention
import Gomq.Reload.Reloader
import Gomq.Reload.Config
import Gomq.Reload.Apply
import Gomq.Pool.WorkerPool
import Gomq.Pool.Once
import Gomq.Lib.Turns
import Gomq.Broker.RoundRobin
import Gomq.Broker.ScanCallbacks
import Gomq.Lib.TokenBucket
import Gomq.Reload.RateLimiter
import Gomq.Serve.Lifecycle
import Gomq.Serve.Shutdown
import Gomq.Serve.Heartbeat
