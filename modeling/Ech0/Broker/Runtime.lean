/-
  The message runtimes: the queue over one log, the single and the sharded runtime of a broker,
  and the direct (point-to-point) runtime.

  A broker with one data shard keeps all messages in the log it was opened with. One with more
  shards keeps them in the shards' logs and asks the placement of a partition for the shard.
  The direct runtime is built over the log the broker was opened with in both cases.
-/
import Ech0.Broker.World

set_option autoImplicit false

namespace Ech0.Broker

open Ech0.Lib Ech0.Store

/-- A number in an error text. -/
def showNat (n : Nat) : String := Nat.repr n

def showUInt32 (n : UInt32) : String := Nat.repr n.toNat

/-- `errors.Join` of the errors that are there: the code found first is that of the first. -/
def joinErrors : List Error → Option Error
  | [] => none
  | err :: rest => some ⟨err.code, "\n".intercalate ((err :: rest).map Error.message)⟩

structure PollResult where
  records : List Record
  nextOffset : Nat
  highWatermark : Option Nat
  lowWatermark : Option Nat
  logStartOffset : Nat
  deriving DecidableEq

/-! ## `queue.Runtime`, over one log (`sharded_message_runtime.go`, `message_runtime.go`, `service_api.go`) -/

namespace QueueRuntime

/-- `CreateTopic`: the log first, then the metadata. -/
def createTopic (ref : LogRef) (topic : TopicConfig) : Handling Unit := do
  wrapBroker "create log topic" (onLog ref (.createTopic topic))
  wrapBroker "save topic config" (onMeta (.saveTopicConfig topic))

def publishRecord (ref : LogRef) (tp : TopicPartition) (record : RecordAppend) : Handling Record :=
  wrapBroker "append record" (appendRecord ref tp record)

def publishBatchRecords (ref : LogRef) (tp : TopicPartition) (records : List RecordAppend) :
    Handling (List Record) :=
  wrapBroker "append records" (onLog ref (.appendRecordsBatch tp records))

/-- The offset a fetch starts at. -/
def fetchStart (consumer : String) (tp : TopicPartition) (offset : Option Nat)
    (logStartOffset : Nat) : Handling Nat :=
  match offset with
  | some offset => pure (max offset logStartOffset)
  | none => do
    match ← wrapBroker "load consumer offset" (onMeta (.loadConsumerOffset consumer tp)) with
    | some committed => pure (max committed logStartOffset)
    | none => pure logStartOffset

def fetch (ref : LogRef) (consumer : String) (tp : TopicPartition) (offset : Option Nat)
    (maxRecords : Nat) : Handling PollResult := do
  let offsets ← wrapBroker "load partition offsets" (onLog ref (.partitionOffsets tp))
  let nextOffset ← fetchStart consumer tp offset offsets.logStartOffset
  let records ← wrapBroker "read records" (onLog ref (.readFrom tp nextOffset maxRecords))
  pure
    { records := records
      nextOffset := (records.getLast?.map fun record => record.offset + 1).getD nextOffset
      highWatermark := offsets.highWatermark
      lowWatermark := offsets.lowWatermark
      logStartOffset := offsets.logStartOffset }

def ack (consumer : String) (tp : TopicPartition) (nextOffset : Nat) : Handling Unit :=
  wrapBroker "save consumer offset" (saveConsumerOffset consumer tp nextOffset)

end QueueRuntime

/-! ## `brokerShardResolver` (`shard_resolver.go`, `data_shard_runtime.go`) -/

namespace ShardResolver

def shardForPartition (cfg : Config) (partition : UInt32) : UInt32 := partition % cfg.shardCount

def planTopic (cfg : Config) (topic : TopicConfig) : List ShardPlacement :=
  let partitions := if topic.partitions = 0 then 1 else topic.partitions
  ({ topic with partitions := partitions } : TopicConfig).partitionList.map fun tp =>
    ⟨topic.name, tp.partition, shardForPartition cfg tp.partition⟩

def cacheShardPlacement (placement : ShardPlacement) : Handling Unit :=
  Prog.perform (I := calls) (.cacheShardPlacement placement)

/-- `Resolve`: the cached placement, the stored one, or the default, which is then cached. -/
def resolve (cfg : Config) (tp : TopicPartition) : Handling ShardPlacement := do
  match ← Prog.perform (I := calls) (ε := Error) (.cachedPlacement tp) with
  | some placement => pure placement
  | none =>
    let stored ← wrapBroker "load shard placement" (onMeta (.loadShardPlacement tp))
    let placement := stored.getD ⟨tp.topic, tp.partition, shardForPartition cfg tp.partition⟩
    cacheShardPlacement placement
    pure placement

/-- The body of the loop of `EnsureTopic`. -/
def ensurePlacement (placement : ShardPlacement) : Handling Unit := do
  match ← wrapBroker "load shard placement"
      (onMeta (.loadShardPlacement placement.topicPartition)) with
  | some existing => cacheShardPlacement existing
  | none =>
    wrapBroker "save shard placement" (onMeta (.saveShardPlacement placement))
    cacheShardPlacement placement

/-- `EnsureTopic`, which is `ensureTopicShardPlacements`. -/
def ensureTopic (cfg : Config) (topic : TopicConfig) : Handling Unit :=
  Prog.forEach ensurePlacement (planTopic cfg topic)

end ShardResolver

/-! ## The runtime of a broker (`sharded_message_runtime.go`, `message_runtime.go`, `service_api.go`) -/

namespace MessageRuntime

def shardForTopicPartition (cfg : Config) (tp : TopicPartition) : Handling LogRef := do
  let placement ← ShardResolver.resolve cfg tp
  Prog.perform (I := calls) (.shardByID placement.shardID)
  pure (.shard placement.shardID)

/-- The log that holds a partition. -/
def logFor (cfg : Config) (tp : TopicPartition) : Handling LogRef :=
  if cfg.sharded then shardForTopicPartition cfg tp else pure .main

/-- The context a runtime adds to the errors of its queue. -/
def context (single sharded : String) : LogRef → String
  | .main => single
  | .shard id => sharded ++ showUInt32 id

/-- The loop over the shards of `TopicExists`. -/
def existsOnShard (topic : String) : List UInt32 → Handling Bool
  | [] => pure false
  | id :: rest => do
    if ← wrapBroker "check sharded topic" (onLog (.shard id) (.topicExists topic)) then pure true
    else existsOnShard topic rest

def topicExists (cfg : Config) (topic : String) : Handling Bool := do
  if cfg.sharded then
    match ← wrapBroker "load sharded topic config" (onMeta (.loadTopicConfig topic)) with
    | some _ => pure true
    | none => existsOnShard topic cfg.shardIDs
  else wrapBroker "check message topic" (onLog .main (.topicExists topic))

/-- One shard of `createTopicLogs`: the errors it adds. -/
def createTopicLog (topic : TopicConfig) (id : UInt32) : Handling (List Error) := do
  match ← Prog.attempt (onLog (.shard id) (.createTopic topic)) with
  | .ok () => pure []
  | .error err =>
    pure [err.wrap "create sharded topic log",
      brokerStoreError .unavailable
        ("create topic " ++ topic.name ++ " on message shard " ++ showUInt32 id)]

/-- `createTopicLogs`: on every shard, also after one has failed. -/
def createTopicLogs (cfg : Config) (topic : TopicConfig) : Handling Unit := do
  let errors ← Prog.collect (createTopicLog topic) cfg.shardIDs
  match joinErrors errors.flatten with
  | none => pure ()
  | some err => Prog.fail err

def createTopic (cfg : Config) (topic : TopicConfig) : Handling Unit :=
  if cfg.sharded then do
    if ← topicExists cfg topic.name then
      Prog.fail (brokerStoreError .topicExists ("topic " ++ topic.name ++ " already exists"))
    else
      createTopicLogs cfg topic
      wrapBroker "save sharded topic config" (onMeta (.saveTopicConfig topic))
  else
    wrapBroker ("create message topic " ++ topic.name) (QueueRuntime.createTopic .main topic)

def publishRecord (cfg : Config) (tp : TopicPartition) (record : RecordAppend) :
    Handling Record := do
  let ref ← logFor cfg tp
  wrapBroker (context "publish message record" "publish message on shard " ref)
    (QueueRuntime.publishRecord ref tp record)

def publishBatchRecords (cfg : Config) (tp : TopicPartition) (records : List RecordAppend) :
    Handling (List Record) := do
  let ref ← logFor cfg tp
  wrapBroker (context "publish message records" "publish message batch on shard " ref)
    (QueueRuntime.publishBatchRecords ref tp records)

def fetch (cfg : Config) (consumer : String) (tp : TopicPartition) (offset : Option Nat)
    (maxRecords : Nat) : Handling PollResult := do
  let ref ← logFor cfg tp
  wrapBroker (context "fetch messages" "fetch messages on shard " ref)
    (QueueRuntime.fetch ref consumer tp offset maxRecords)

def ack (cfg : Config) (consumer : String) (tp : TopicPartition) (nextOffset : Nat) :
    Handling Unit := do
  let ref ← logFor cfg tp
  wrapBroker (context "ack messages" "ack messages on shard " ref)
    (QueueRuntime.ack consumer tp nextOffset)

def readFrom (cfg : Config) (tp : TopicPartition) (offset maxRecords : Nat) :
    Handling (List Record) := do
  let ref ← logFor cfg tp
  wrapBroker (if cfg.sharded then "read sharded messages" else "read messages")
    (onLog ref (.readFrom tp offset maxRecords))

def partitionOffsets (cfg : Config) (tp : TopicPartition) :
    Handling StorxLogStore.PartitionOffsetState := do
  let ref ← logFor cfg tp
  wrapBroker (if cfg.sharded then "load sharded message partition offsets"
      else "load message partition offsets")
    (onLog ref (.partitionOffsets tp))

def movePartitionSnapshot (source target : UInt32) (tp : TopicPartition) : Handling Unit := do
  let snapshot ← wrapBroker "snapshot source partition for reassignment"
    (onLog (.shard source) (.snapshotPartition tp))
  wrapBroker "restore target partition for reassignment"
    (onLog (.shard target) (.replacePartition snapshot))

/-- `ReassignPartitionData`: copy to the target, commit the placement, clear the source. A
source that cannot be cleared is only logged. -/
def reassignPartitionData {α : Type} (cfg : Config) (tp : TopicPartition) (target : UInt32)
    (commit : Handling α) : Handling α := do
  let source ← ShardResolver.resolve cfg tp
  if source.shardID = target then wrapBroker "commit partition reassignment" commit
  else
    Prog.perform (I := calls) (.shardByID source.shardID)
    Prog.perform (I := calls) (.shardByID target)
    movePartitionSnapshot source.shardID target tp
    let result ← wrapBroker "commit partition reassignment" commit
    let _ ← Prog.attempt (onLog (.shard source.shardID) (.clearPartition tp))
    pure result

end MessageRuntime

end Ech0.Broker
