import Ech0.Store.SnapshotSections
import Ech0.Store.AppendPipeline
import Ech0.Store.Cleanup
import Ech0.Store.SegmentWrites
import Ech0.Broker.Deadlines
import Ech0.Broker.StorageScope
import Ech0.Broker.TimestampSeek
import Ech0.Broker.CoalescedCommits
import Ech0.Broker.GroupCommits
import Ech0.Broker.ProducerWindow
import Ech0.Broker.ShardedSnapshot
import Ech0.Broker.RaftCodec
import Ech0.Broker.Batchers
import Ech0.Broker.PlannedProduce
import Ech0.Broker.RequestReply
import Ech0.Broker.DuePasses
import Ech0.Broker.Compaction
import Ech0.Broker.Sinks
import Ech0.Broker.Caches
import Ech0.Store.PointerReads
import Ech0.Store.PointerIndex
import Ech0.Broker.Authorizer
