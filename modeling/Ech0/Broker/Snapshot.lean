/-
  Snapshots of a whole broker, and what a state machine does with them.

  Every group's state machine shares the one broker, so the snapshot of any group is the
  snapshot of everything. A sharded broker visits its shards in map order, which can be any;
  that order is an argument.
-/
import Ech0.Broker.Command
import Ech0.Store.SnapshotJSON

set_option autoImplicit false

namespace Ech0.Broker

open Ech0.Lib Ech0.Store

namespace MessageRuntime

/-! ## Snapshot (`sharded_message_snapshot.go`) -/

/-- The entries of one map set in another. -/
def setAll {V : Type} (out entries : Map String V) : Map String V :=
  entries.toList.foldl (fun out e => out.insert e.1 e.2) out

/-- `mergeMessageSnapshot`: where two shards have a key, the later one wins. -/
def mergeMessageSnapshot (out shardSnapshot : Snapshot) : Snapshot :=
  { out with
    records := setAll out.records shardSnapshot.records
    logOffsets := setAll out.logOffsets shardSnapshot.logOffsets }

/-- The loop body of `Snapshot`. -/
def mergeShard (shards : Map UInt32 StorxLogStore) (out : Snapshot) (id : UInt32) : Snapshot :=
  match shards[id]? with
  | some log => mergeMessageSnapshot out log.snapshot
  | none => out

/-- `Snapshot` of the runtime, the shards taken in the given order. -/
def snapshot (cfg : Config) (order : List UInt32) (w : World) : Snapshot :=
  if cfg.sharded then order.foldl (mergeShard w.shards) { topics := w.metadata.listTopics }
  else w.log.snapshot

/-! ## Restore (`sharded_message_snapshot.go`, `snapshot.go`) -/

def snapshotPlacementMap (placements : List ShardPlacement) : Map TopicPartition UInt32 :=
  placements.foldl (fun out placement => out.insert placement.topicPartition placement.shardID) ∅

def snapshotShardID (placements : Map TopicPartition UInt32) (key : String) :
    Except Error UInt32 := do
  let tp ← (parsePartitionKey key).mapError (Error.wrap "parse snapshot partition key")
  match placements[tp]? with
  | some shardID => .ok shardID
  | none =>
    .error (brokerStoreError .invalidArgument
      ("snapshot missing shard placement for " ++ tp.topic ++ "/" ++ showUInt32 tp.partition))

def snapshotForShard (snapshots : Map UInt32 Snapshot) (shardID : UInt32) :
    Except Error Snapshot :=
  match snapshots[shardID]? with
  | some snapshot => .ok snapshot
  | none =>
    .error (brokerStoreError .invalidArgument
      ("snapshot references unregistered message shard " ++ showUInt32 shardID))

/-- The loop of `splitSnapshotRecords` and `splitSnapshotLogOffsets`: each entry is put into the
snapshot of the shard that its partition is placed on. -/
def splitEntries {V : Type} (set : Snapshot → String → V → Snapshot)
    (placements : Map TopicPartition UInt32) :
    List (String × V) → Map UInt32 Snapshot → Except Error (Map UInt32 Snapshot)
  | [], out => .ok out
  | (key, value) :: rest, out => do
    let shardID ← snapshotShardID placements key
    let snapshot ← snapshotForShard out shardID
    splitEntries set placements rest (out.insert shardID (set snapshot key value))

def splitSnapshotRecords (snapshot : Snapshot) (out : Map UInt32 Snapshot) :
    Except Error (Map UInt32 Snapshot) :=
  splitEntries (fun s key records => { s with records := s.records.insert key records })
    (snapshotPlacementMap snapshot.placements) snapshot.records.toList out

def splitSnapshotLogOffsets (snapshot : Snapshot) (out : Map UInt32 Snapshot) :
    Except Error (Map UInt32 Snapshot) :=
  splitEntries (fun s key offset => { s with logOffsets := s.logOffsets.insert key offset })
    (snapshotPlacementMap snapshot.placements) snapshot.logOffsets.toList out

def splitRestoreSnapshot (shards : Map UInt32 StorxLogStore) (snapshot : Snapshot) :
    Except Error (Map UInt32 Snapshot) := do
  let out := shards.map fun _ _ => ({ topics := snapshot.topics } : Snapshot)
  let out ← splitSnapshotRecords snapshot out
  splitSnapshotLogOffsets snapshot out

/-- What the restoration of one shard returns and leaves behind. -/
def restoreShard (topics : List TopicConfig) (snapshots : Map UInt32 Snapshot) (id : UInt32)
    (log : StorxLogStore) : Except Error Unit × StorxLogStore :=
  log.restore ((snapshots[id]?).getD { topics := topics })

/-- `Restore` of the runtime. Once the snapshot is split, every shard is restored, also after
one has failed. -/
def restore (cfg : Config) (snapshot : Snapshot) (w : World) : Except Error Unit × World :=
  if cfg.sharded then
    match splitRestoreSnapshot w.shards snapshot with
    | .error err => (.error err, w)
    | .ok snapshots =>
      let restored := w.shards.map (restoreShard snapshot.topics snapshots)
      let errors := restored.toList.filterMap fun e =>
        match e.2.1 with
        | .ok () => none
        | .error err => some (err.wrap ("restore message shard " ++ showUInt32 e.1))
      let w := { w with shards := restored.map fun _ e => e.2 }
      match joinErrors errors with
      | none => (.ok (), w)
      | some err => (.error err, w)
  else
    ((w.log.restore snapshot).1.mapError (Error.wrap "restore messages"),
      { w with log := (w.log.restore snapshot).2 })

end MessageRuntime

namespace World

/-- `Broker.snapshot`: the metadata's snapshot with the records and log offsets of the runtime.
The topics are the metadata's, unless it has none. -/
def snapshot (cfg : Config) (order : List UInt32) (w : World) : Snapshot :=
  let metaSnapshot := w.metadata.snapshot
  let logSnapshot := MessageRuntime.snapshot cfg order w
  { metaSnapshot with
    topics := if metaSnapshot.topics = [] then logSnapshot.topics else metaSnapshot.topics
    records := logSnapshot.records
    logOffsets := logSnapshot.logOffsets }

/-- `Broker.restore`: the messages first; the metadata only when they went through. -/
def restore (cfg : Config) (snapshot : Snapshot) (w : World) : Except Error Unit × World :=
  match MessageRuntime.restore cfg snapshot w with
  | (.error err, w) => (.error (err.wrap "restore log store"), w)
  | (.ok (), w) =>
    match w.metadata.restore snapshot with
    | .error err => (.error (err.wrap "restore metadata store"), w)
    | .ok metadata => (.ok (), { w with metadata := metadata })

/-! ## Starting and restarting a process (`service.go`) -/

/-- A broker with empty directories: `NewWithStores` over a fresh metadata store. -/
def fresh (cfg : Config) (env : Env) : World :=
  { shards :=
      if cfg.sharded then cfg.shardIDs.foldl (fun shards id => shards.insert id {}) ∅ else ∅
    env := { env with directSequence := 0, cursors := ∅ } }

/-- The process ends and a new one opens the same directories. The logs are read back from
their files; the metadata store, the caches and the counters are new. -/
def restart (w : World) (env : Env) : World :=
  { metadata := {}
    log := { w.log with keyRecords := ∅ }
    shards := w.shards.map fun _ log => { log with keyRecords := ∅ }
    placementCache := ∅
    env := { env with directSequence := 0, cursors := ∅ } }

end World

end Ech0.Broker
