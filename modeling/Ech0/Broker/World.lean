/-
  What a broker's handlers act on, and the calls they make.

  A broker holds a metadata store, the log it was opened with, and, when it has more than one
  data shard, one further log per shard. Its handlers touch this state only through the calls
  of the store interfaces, so a handler is modelled as a program (`Prog`) over these calls: a
  metadata call, a call on one of the logs, or a look at something that belongs to the process
  and not to the replicated state: the clock, the counter of direct messages, the round-robin
  cursors, the random part of a retry backoff, the placement cache.

  `step` is what each call does. Everything later is proved about calls and lifted to handlers
  by the rules of `Ech0.Lib.Prog`, so a handler that changes in the source changes one program
  here and no proof about stores.

  The topic configuration cache is left out: its handlers read through to the metadata store,
  as a broker does whose `topic_cache_max_entries` is negative.
-/
import Ech0.Lib.Prog
import Ech0.Store.LogMaintenance
import Ech0.Store.Memory

set_option autoImplicit false

namespace Ech0.Broker

open Ech0.Lib Ech0.Store

/-! ## Configuration -/

/-- `GroupAssignmentStrategy`, after `normalizeGroupAssignmentStrategy`. -/
inductive GroupAssignmentStrategy where
  | roundRobin
  | range
  deriving DecidableEq

/-- The settings that handlers read. `sum64` is `xxhash.Sum64`, a library function; all that
matters of it is that it is a function. -/
structure Config where
  dataShardCount : UInt32 := 1
  maxBatchPayloadBytes : Nat := 8 * 1024 * 1024
  maxFetchRecords : Nat := 1000
  retryWorkerMaxRecords : Nat := 256
  delaySchedulerMaxRecords : Nat := 256
  groupAssignmentStrategy : GroupAssignmentStrategy := .roundRobin
  groupStickyAssignments : Bool := true
  sum64 : Bytes → Nat := fun _ => 0

/-- `shouldUseShardedMessageRuntime`, for a Storx log. -/
def Config.sharded (cfg : Config) : Bool := cfg.dataShardCount > 1

/-- The shard count of `newBrokerShardResolver`. -/
def Config.shardCount (cfg : Config) : UInt32 :=
  if cfg.dataShardCount = 0 then 1 else cfg.dataShardCount

/-- The shard ids of `buildDataShardSpecs`. -/
def Config.shardIDs (cfg : Config) : List UInt32 :=
  (List.range cfg.shardCount.toNat).map UInt32.ofNat

/-! ## State -/

/-- What belongs to the process. The streams are the readings still to come: every call takes
the next one. -/
structure Env where
  clock : Nat → Nat
  jitter : Nat → Nat
  directSequence : Nat := 0
  cursors : Map String UInt32 := ∅

def Env.dropClock (env : Env) (n : Nat) : Env :=
  { env with clock := fun i => env.clock (n + i) }

@[simp] lemma Env.dropClock_zero (env : Env) : env.dropClock 0 = env := by
  unfold dropClock
  simp

structure World where
  metadata : MemoryStore := {}
  log : StorxLogStore := {}
  shards : Map UInt32 StorxLogStore := ∅
  placementCache : Map TopicPartition ShardPlacement := ∅
  env : Env

/-- The log a call goes to: the one the broker was opened with, or a shard's. -/
inductive LogRef where
  | main
  | shard (id : UInt32)
  deriving DecidableEq

/-- The error `brokerStoreError` makes. -/
def brokerStoreError (code : Code) (message : String) : Error :=
  (E code message).wrap "broker store error"

/-- The error of `shardByID`. -/
def shardNotRegistered (id : UInt32) : Error :=
  brokerStoreError .invalidArgument ("message shard " ++ Nat.repr id.toNat ++ " is not registered")

def World.logAt (w : World) : LogRef → Except Error StorxLogStore
  | .main => .ok w.log
  | .shard id =>
    match w.shards[id]? with
    | some log => .ok log
    | none => .error (shardNotRegistered id)

def World.setLog (w : World) (log : StorxLogStore) : LogRef → World
  | .main => { w with log := log }
  | .shard id => { w with shards := w.shards.insert id log }

lemma World.logAt_shard {w : World} {id : UInt32} {log : StorxLogStore} :
    w.logAt (.shard id) = .ok log ↔ w.shards[id]? = some log := by
  cases hget : w.shards[id]? <;> simp [World.logAt, hget]

lemma World.setLog_self {w : World} {ref : LogRef} {log : StorxLogStore}
    (h : w.logAt ref = .ok log) : w.setLog log ref = w := by
  cases ref with
  | main =>
    cases h
    rfl
  | shard id => rw [World.setLog, Map.insert_eq_self _ _ _ (World.logAt_shard.mp h)]

/-- No log of the broker has a next offset behind the last `uint64`. -/
def World.OffsetsFit (w : World) : Prop :=
  w.log.OffsetsFit ∧ ∀ e ∈ w.shards.toList, e.2.OffsetsFit

instance (w : World) : Decidable w.OffsetsFit :=
  inferInstanceAs (Decidable (w.log.OffsetsFit ∧ ∀ e ∈ w.shards.toList, e.2.OffsetsFit))

/-! ## Metadata calls -/

inductive MetaOp where
  | saveTopicConfig (topic : TopicConfig)
  | loadTopicConfig (name : String)
  | listTopics
  | saveConsumerOffsetState (state : ConsumerOffsetState)
  | loadConsumerOffset (consumer : String) (tp : TopicPartition)
  | loadConsumerOffsetState (consumer : String) (tp : TopicPartition)
  | deleteConsumerOffsetState (consumer : String) (tp : TopicPartition)
  | saveConsumerPause (state : ConsumerPauseState)
  | loadConsumerPause (consumer : String) (tp : TopicPartition)
  | deleteConsumerPause (consumer : String) (tp : TopicPartition)
  | saveShardPlacement (placement : ShardPlacement)
  | loadShardPlacement (tp : TopicPartition)
  | saveGroupMember (member : ConsumerGroupMember)
  | loadGroupMember (group memberID : String)
  | listGroupMembers (group : String)
  | deleteExpiredGroupMembers (nowMS : Nat)
  | saveGroupAssignment (assignment : ConsumerGroupAssignment)
  | loadGroupAssignment (group : String)
  | allocateTransactionID
  | saveTransaction (state : TransactionState)
  | loadTransaction (txID : Nat)
  | listTransactions
  | saveProducerBatch (batch : ProducerPublishedBatch)
  | listProducerBatches (filter : MemoryStore.ProducerBatchFilter)
  | deleteProducerBatch (batch : ProducerPublishedBatch)
  | saveACLPolicy (policy : ACLPolicy)
  | deleteACLPolicy (policyID : String)
  | saveDLQIndex (entry : DLQIndexEntry)

namespace MetaOp

/-- The reply to a call. -/
abbrev Out : MetaOp → Type
  | loadTopicConfig _ => Option TopicConfig
  | listTopics => List TopicConfig
  | loadConsumerOffset _ _ => Option Nat
  | loadConsumerOffsetState _ _ => Option ConsumerOffsetState
  | loadConsumerPause _ _ => Option ConsumerPauseState
  | loadShardPlacement _ => Option ShardPlacement
  | loadGroupMember _ _ => Option ConsumerGroupMember
  | listGroupMembers _ => List ConsumerGroupMember
  | deleteExpiredGroupMembers _ => Nat
  | loadGroupAssignment _ => Option ConsumerGroupAssignment
  | allocateTransactionID => Nat
  | loadTransaction _ => Option TransactionState
  | listTransactions => List TransactionState
  | listProducerBatches _ => List ProducerPublishedBatch
  | _ => Unit

/-- A save that can be refused: the store stays as it was then. -/
def save (s : MemoryStore) : Except Error MemoryStore → Except Error Unit × MemoryStore
  | .ok s' => (.ok (), s')
  | .error err => (.error err, s)

def run : (op : MetaOp) → MemoryStore → Except Error op.Out × MemoryStore
  | saveTopicConfig topic, s => save s (s.saveTopicConfig topic)
  | loadTopicConfig name, s => (.ok (s.loadTopicConfig name), s)
  | listTopics, s => (.ok s.listTopics, s)
  | saveConsumerOffsetState state, s => save s (s.saveConsumerOffsetState state)
  | loadConsumerOffset consumer tp, s => (.ok (s.loadConsumerOffset consumer tp), s)
  | loadConsumerOffsetState consumer tp, s => (.ok (s.loadConsumerOffsetState consumer tp), s)
  | deleteConsumerOffsetState consumer tp, s => (.ok (), s.deleteConsumerOffsetState consumer tp)
  | saveConsumerPause state, s => save s (s.saveConsumerPause state)
  | loadConsumerPause consumer tp, s => (.ok (s.loadConsumerPause consumer tp), s)
  | deleteConsumerPause consumer tp, s => (.ok (), s.deleteConsumerPause consumer tp)
  | saveShardPlacement placement, s => save s (s.saveShardPlacement placement)
  | loadShardPlacement tp, s => (.ok (s.loadShardPlacement tp), s)
  | saveGroupMember member, s => save s (s.saveGroupMember member)
  | loadGroupMember group memberID, s => (.ok (s.loadGroupMember group memberID), s)
  | listGroupMembers group, s => (.ok (s.listGroupMembers group), s)
  | deleteExpiredGroupMembers nowMS, s =>
    (.ok (s.deleteExpiredGroupMembers nowMS).1, (s.deleteExpiredGroupMembers nowMS).2)
  | saveGroupAssignment assignment, s => save s (s.saveGroupAssignment assignment)
  | loadGroupAssignment group, s => (.ok (s.loadGroupAssignment group), s)
  | allocateTransactionID, s => (.ok s.allocateTransactionID.1, s.allocateTransactionID.2)
  | saveTransaction state, s => save s (s.saveTransaction state)
  | loadTransaction txID, s => (.ok (s.loadTransaction txID), s)
  | listTransactions, s => (.ok s.listTransactions, s)
  | saveProducerBatch batch, s => save s (s.saveProducerBatch batch)
  | listProducerBatches filter, s => (.ok (s.listProducerBatches filter), s)
  | deleteProducerBatch batch, s => (.ok (), s.deleteProducerBatch batch)
  | saveACLPolicy policy, s => save s (s.saveACLPolicy policy)
  | deleteACLPolicy policyID, s => save s (s.deleteACLPolicy policyID)
  | saveDLQIndex entry, s => save s (s.saveDLQIndex entry)

end MetaOp

/-! ## Log calls -/

inductive LogOp where
  | createTopic (topic : TopicConfig)
  | topicExists (topic : String)
  | appendRecordsBatch (tp : TopicPartition) (records : List RecordAppend)
  | readFrom (tp : TopicPartition) (offset maxRecords : Nat)
  | partitionOffsets (tp : TopicPartition)
  | snapshotPartition (tp : TopicPartition)
  | replacePartition (snapshot : StorxLogStore.PartitionSnapshot)
  | clearPartition (tp : TopicPartition)

namespace LogOp

abbrev Out : LogOp → Type
  | topicExists _ => Bool
  | appendRecordsBatch _ _ => List Record
  | readFrom _ _ _ => List Record
  | partitionOffsets _ => StorxLogStore.PartitionOffsetState
  | snapshotPartition _ => StorxLogStore.PartitionSnapshot
  | _ => Unit

/-- The number of clock readings a call takes. -/
def readings : LogOp → Nat
  | appendRecordsBatch _ records => records.length
  | _ => 0

def save (s : StorxLogStore) : Except Error StorxLogStore → Except Error Unit × StorxLogStore
  | .ok s' => (.ok (), s')
  | .error err => (.error err, s)

def run (clock : Nat → Nat) : (op : LogOp) → StorxLogStore → Except Error op.Out × StorxLogStore
  | createTopic topic, s => save s (s.createTopic topic)
  | topicExists topic, s => (.ok (s.topicExists topic), s)
  | appendRecordsBatch tp records, s =>
    match s.appendRecordsBatch clock tp records with
    | .ok (stored, s') => (.ok stored, s')
    | .error err => (.error err, s)
  | readFrom tp offset maxRecords, s => (s.readFrom tp offset maxRecords, s)
  | partitionOffsets tp, s => (s.partitionOffsets tp, s)
  | snapshotPartition tp, s => (s.snapshotPartition tp, s)
  | replacePartition snapshot, s => s.replacePartition snapshot
  | clearPartition tp, s => save s (s.clearPartition tp)

end LogOp

/-! ## All calls -/

inductive Op where
  | metadata (op : MetaOp)
  | log (ref : LogRef) (op : LogOp)
  /-- `shardByID`: fails when there is no such shard. -/
  | shardByID (id : UInt32)
  /-- `store.NowMS`. -/
  | nowMS
  /-- `directSequence.Add(1)`. -/
  | directSequence
  /-- `nextRoundRobin`. -/
  | nextRoundRobin (topic : TopicConfig)
  /-- `retryBackoffMS`: exponential, with a random part that the library draws. -/
  | retryBackoffMS (retryCount : UInt32) (policy : TopicRetryPolicy)
  | cachedPlacement (tp : TopicPartition)
  | cacheShardPlacement (placement : ShardPlacement)

abbrev Op.Out : Op → Type
  | .metadata op => op.Out
  | .log _ op => op.Out
  | .shardByID _ => Unit
  | .nowMS => Nat
  | .directSequence => Nat
  | .nextRoundRobin _ => UInt32
  | .retryBackoffMS _ _ => Nat
  | .cachedPlacement _ => Option ShardPlacement
  | .cacheShardPlacement _ => Unit

/-- The calls of a broker. -/
def calls : Interface := ⟨Op, Op.Out⟩

/-- A handler of the source. -/
abbrev Handling (α : Type) : Type := Prog calls Error α

/-- `nextRoundRobin`: the cursor before, and the cursors after. -/
def Env.nextRoundRobin (env : Env) (topic : TopicConfig) : UInt32 × Env :=
  let cursor := (env.cursors[topic.name]?).getD 0
  (cursor % topic.partitions,
    { env with cursors := env.cursors.insert topic.name ((cursor + 1) % topic.partitions) })

/-- What each call does. -/
def step : Handler calls Error World
  | .metadata op, w => ((op.run w.metadata).1, { w with metadata := (op.run w.metadata).2 })
  | .log ref op, w =>
    match w.logAt ref with
    | .error err => (.error err, w)
    | .ok log =>
      ((op.run w.env.clock log).1,
        { w.setLog (op.run w.env.clock log).2 ref with env := w.env.dropClock op.readings })
  | .shardByID id, w => ((w.logAt (.shard id)).map fun _ => (), w)
  | .nowMS, w => (.ok (w.env.clock 0), { w with env := w.env.dropClock 1 })
  | .directSequence, w =>
    (.ok (w.env.directSequence + 1),
      { w with env := { w.env with directSequence := w.env.directSequence + 1 } })
  | .nextRoundRobin topic, w =>
    (.ok (w.env.nextRoundRobin topic).1, { w with env := (w.env.nextRoundRobin topic).2 })
  | .retryBackoffMS _ _, w =>
    (.ok (w.env.jitter 0), { w with env := { w.env with jitter := fun i => w.env.jitter (i + 1) } })
  | .cachedPlacement tp, w => (.ok w.placementCache[tp]?, w)
  | .cacheShardPlacement placement, w =>
    (.ok (), { w with placementCache :=
      w.placementCache.insert placement.topicPartition placement })

/-- A log call that reads leaves the world as it was. -/
lemma step_log_read {ref : LogRef} {op : LogOp} (hreadings : op.readings = 0)
    (hsame : ∀ (clock : Nat → Nat) (s : StorxLogStore), (op.run clock s).2 = s) (w : World) :
    (step (.log ref op) w).2 = w := by
  simp only [step]
  cases hlog : w.logAt ref with
  | error err => rfl
  | ok log => simp only [hsame, hreadings, Env.dropClock_zero, World.setLog_self hlog]

/-- Run a handler. -/
def Handling.run {α : Type} (p : Handling α) (w : World) : Except Error α × World :=
  Prog.exec step p w

/-! ## The calls as programs -/

/-- `wrapBroker` and `wrapBrokerStore`. -/
def wrapBroker {α : Type} (context : String) (p : Handling α) : Handling α :=
  p.mapError (Error.wrap context)

lemma exec_wrapBroker {α : Type} (context : String) (p : Handling α) (w : World) :
    Prog.exec step (wrapBroker context p) w
      = ((Prog.exec step p w).1.mapError (Error.wrap context), (Prog.exec step p w).2) :=
  Prog.exec_mapError step _ p w

lemma exec_wrapBroker_ok {α : Type} {p : Handling α} {w w' : World} {a : α}
    (h : Prog.exec step p w = (.ok a, w')) (context : String) :
    Prog.exec step (wrapBroker context p) w = (.ok a, w') := by
  rw [exec_wrapBroker, h]
  rfl

/-- The program that makes one call. -/
abbrev ask (op : Op) : Handling (calls.Out op) := Prog.perform (I := calls) op

def onMeta (op : MetaOp) : Handling op.Out := Prog.perform (I := calls) (.metadata op)

def onLog (ref : LogRef) (op : LogOp) : Handling op.Out := Prog.perform (I := calls) (.log ref op)

def nowMS : Handling Nat := Prog.perform (I := calls) .nowMS

/-- `AppendRecord` on a log. -/
def appendRecord (ref : LogRef) (tp : TopicPartition) (record : RecordAppend) : Handling Record := do
  match ← onLog ref (.appendRecordsBatch tp [record]) with
  | [] => Prog.fail (E .codec "append record returned no records")
  | record :: _ => pure record

/-- `SaveConsumerOffset` of the metadata store. -/
def saveConsumerOffset (consumer : String) (tp : TopicPartition) (nextOffset : Nat) :
    Handling Unit := do
  let now ← nowMS
  onMeta (.saveConsumerOffsetState
    { consumer := consumer, topic := tp.topic, partition := tp.partition,
      nextOffset := nextOffset, updatedAtMS := now })

end Ech0.Broker
