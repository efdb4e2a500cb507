/-
  What changes a segment log other than an append: retention and compaction, the snapshot and
  its restoration, and the move of one partition between logs.

  A restore that fails does so half way, with the log already cleared, so it returns the store
  it leaves behind together with its outcome.
-/
import Ech0.Store.Log

set_option autoImplicit false

namespace Ech0.Store

open Ech0.Lib

/-! ## Retention and compaction (`cleanup.go`, `storx_log_cleanup.go`, `segment_memory_index.go`) -/

def recordStorageBytes (record : Record) : Nat :=
  record.payload.length + record.key.length + 24
    + (if record.expiresAtMS.isSome then 9 else 0)
    + (record.headers.map fun h => h.key.length + h.value.length + 8).sum

def recordExpired (record : Record) (retentionMS nowMS : Nat) : Bool :=
  if record.timestampMS > nowMS then false else nowMS - record.timestampMS ≥ retentionMS

def messageExpired (record : Record) (nowMS : Nat) : Bool :=
  match record.expiresAtMS with
  | some expiresAt => expiresAt ≤ nowMS
  | none => false

def retentionApplies (topic : TopicConfig) : Bool :=
  topic.cleanupPolicy = .delete ∨ topic.cleanupPolicy = .compactAndDelete

def compactionApplies (topic : TopicConfig) : Bool :=
  topic.compactionEnabled ∧
    (topic.cleanupPolicy = .compact ∨ topic.cleanupPolicy = .compactAndDelete)

/-- `markExpiredMessages`; the set of offsets to remove is a list. -/
def markExpiredMessages (records : List Record) (nowMS : Nat) : List Nat :=
  (records.filter fun record => messageExpired record nowMS).map Record.offset

def markExpiredRecords (topic : TopicConfig) (records : List Record) (nowMS : Nat)
    (remove : List Nat) : List Nat :=
  match topic.retentionMS with
  | none => remove
  | some retentionMS =>
    remove ++ (records.filter fun record => recordExpired record retentionMS nowMS).map
      Record.offset

/-- `removeOldestUntilWithinLimit` on the records in offset order. -/
def removeOldestUntilWithinLimit (retentionMaxBytes : Nat) :
    Nat → List Nat → List Record → List Nat
  | _, remove, [] => remove
  | totalBytes, remove, record :: rest =>
    if record.offset ∈ remove then
      removeOldestUntilWithinLimit retentionMaxBytes totalBytes remove rest
    else
      let totalBytes := totalBytes - recordStorageBytes record
      if totalBytes ≤ retentionMaxBytes then record.offset :: remove
      else removeOldestUntilWithinLimit retentionMaxBytes totalBytes (record.offset :: remove) rest

def markOversizedRecords (topic : TopicConfig) (records : List Record) (remove : List Nat) :
    List Nat :=
  if topic.retentionMaxBytes = 0 ∨ records = [] then remove
  else
    let totalBytes :=
      ((records.filter fun record => record.offset ∉ remove).map recordStorageBytes).sum
    if totalBytes ≤ topic.retentionMaxBytes then remove
    else removeOldestUntilWithinLimit topic.retentionMaxBytes totalBytes remove
      (sortedRecords records)

def retentionRemovableOffsets (topic : TopicConfig) (records : List Record) (nowMS : Nat) :
    List Nat :=
  let remove := markExpiredMessages records nowMS
  if retentionApplies topic then
    markOversizedRecords topic records (markExpiredRecords topic records nowMS remove)
  else remove

def compactedTombstoneExpired (topic : TopicConfig) (record : Record) (nowMS : Nat) : Bool :=
  if record.isTombstone then
    match topic.compactionTombstoneRetentionMS with
    | none => true
    | some retentionMS => recordExpired record retentionMS nowMS
  else false

def compactedRecordShouldRemove (topic : TopicConfig) (record : Record) (nowMS : Nat)
    (latestOffsetByKey : Map Bytes Nat) : Bool :=
  if record.key = [] then false
  else
    (latestOffsetByKey[record.key]?).getD record.offset ≠ record.offset ∨
      compactedTombstoneExpired topic record nowMS

def compactionRemovableOffsetsWithLatest (topic : TopicConfig) (records : List Record)
    (nowMS : Nat) (latestOffsetByKey : Map Bytes Nat) : List Nat :=
  if compactionApplies topic then
    (records.filter fun record =>
      compactedRecordShouldRemove topic record nowMS latestOffsetByKey).map Record.offset
  else []

namespace StorxLogStore

def removeKeyPointersLocked (s : StorxLogStore) (tp : TopicPartition) (remove : List Nat) :
    StorxLogStore :=
  match s.keyRecords[tp]? with
  | none => s
  | some keys =>
    { s with keyRecords := s.keyRecords.insert tp (keys.filter fun _ offset => offset ∉ remove) }

def removeRecordPointers (s : StorxLogStore) (tp : TopicPartition) (remove : List Nat) :
    StorxLogStore :=
  let existing := s.recordsAt tp
  let next := (s.nextOffsets[tp]?).getD (nextOffsetFromRecords existing)
  let kept := existing.filter fun record => record.offset ∉ remove
  let s := ({ s with records := s.records.insert tp kept }).removeKeyPointersLocked tp remove
  { s with nextOffsets := s.nextOffsets.insert tp (max next (nextOffsetFromRecords kept)) }

/-- `deleteRecordPointers`, for a set that may be empty. -/
def deleteRecordPointers (s : StorxLogStore) (tp : TopicPartition) (remove : List Nat) :
    StorxLogStore :=
  if remove = [] then s else s.removeRecordPointers tp remove

def enforcePartitionRetention (nowMS : Nat) (topic : TopicConfig) (s : StorxLogStore)
    (tp : TopicPartition) : StorxLogStore :=
  s.deleteRecordPointers tp (retentionRemovableOffsets topic (s.recordsAt tp) nowMS)

def listLogTopics (s : StorxLogStore) : List TopicConfig := s.topics.toList.map Prod.snd

def enforceRetention (s : StorxLogStore) (nowMS : Nat) : StorxLogStore :=
  s.listLogTopics.foldl
    (fun s topic => topic.partitionList.foldl (enforcePartitionRetention nowMS topic) s) s

/-- `latestOffsetsByKeyIndexOrRecords`: builds the key index if it is not there. -/
def latestOffsetsByKeyIndexOrRecords (s : StorxLogStore) (tp : TopicPartition) :
    Map Bytes Nat × StorxLogStore :=
  match s.keyRecords[tp]? with
  | some keys => (keys, s)
  | none =>
    let keys := (s.recordsAt tp).foldl appendKeyPointer ∅
    (keys, { s with keyRecords := s.keyRecords.insert tp keys })

def compactPartition (nowMS : Nat) (topic : TopicConfig) (s : StorxLogStore)
    (tp : TopicPartition) : StorxLogStore :=
  let (latest, s) := s.latestOffsetsByKeyIndexOrRecords tp
  s.deleteRecordPointers tp
    (compactionRemovableOffsetsWithLatest topic (s.recordsAt tp) nowMS latest)

def compact (s : StorxLogStore) (nowMS : Nat) : StorxLogStore :=
  s.listLogTopics.foldl
    (fun s topic => topic.partitionList.foldl (compactPartition nowMS topic) s) s

/-! ## Snapshot and restore (`storx_log_restore.go`, `storx_log_snapshot.go`, `segment_memory_index.go`) -/

def snapshotLogOffsets (s : StorxLogStore) : Map String Nat :=
  s.nextOffsets.toList.foldl (fun out e => out.insert (partitionKey e.1) e.2) ∅

/-- `snapshotPartitionRecords`: a partition without records leaves no entry. -/
def snapshotPartitionRecords (out : Map String (List Record))
    (e : TopicPartition × List Record) : Map String (List Record) :=
  if e.2 = [] then out
  else out.insert (partitionKey e.1) ((out[partitionKey e.1]?).getD [] ++ e.2)

def snapshotRecords (s : StorxLogStore) : Map String (List Record) :=
  (s.records.toList.foldl snapshotPartitionRecords ∅).map fun _ records => sortedRecords records

def snapshot (s : StorxLogStore) : Snapshot :=
  { topics := s.listLogTopics, records := s.snapshotRecords, logOffsets := s.snapshotLogOffsets }

/-- `appendSegmentPointerSorted`: into offset order, replacing a record of the same offset. -/
def appendRecordSorted (record : Record) : List Record → List Record
  | [] => [record]
  | r :: rest =>
    if r.offset < record.offset then r :: appendRecordSorted record rest
    else if r.offset = record.offset then record :: rest
    else record :: r :: rest

def recordAppendedPointer (s : StorxLogStore) (tp : TopicPartition) (record : Record) :
    StorxLogStore :=
  let s := ({ s with records := s.records.insert tp (appendRecordSorted record (s.recordsAt tp))
            }).recordAppendedKeyPointersLocked tp [record]
  if record.offset ≥ s.nextOffset tp then
    { s with nextOffsets := s.nextOffsets.insert tp (record.offset + 1) }
  else s

def appendRestoredRecord (s : StorxLogStore) (tp : TopicPartition) (record : Record) :
    Except Error StorxLogStore := do
  let _ ← s.loadTopicForPartition tp
  .ok (s.recordAppendedPointer tp record)

/-- The loop of `restoreLogPartitionRecords`. -/
def appendRestoredRecords (tp : TopicPartition) :
    StorxLogStore → List Record → Except Error Unit × StorxLogStore
  | s, [] => (.ok (), s)
  | s, record :: rest =>
    match s.appendRestoredRecord tp record with
    | .error err => (.error err, s)
    | .ok s => appendRestoredRecords tp s rest

/-- `restoreLogPartitionRecords`, the appends. -/
def restoreLogPartitionRecords (s : StorxLogStore) (key : String) (records : List Record) :
    Except Error Unit × StorxLogStore :=
  match parsePartitionKey key with
  | .error err => (.error err, s)
  | .ok tp => appendRestoredRecords tp s records

/-- `advanceRestoredNextOffset`, over the records of one key that were appended. -/
def advanceRestoredNextOffsets (next : Map TopicPartition Nat) (key : String)
    (records : List Record) : Map TopicPartition Nat :=
  match parsePartitionKey key with
  | .error _ => next
  | .ok tp =>
    records.foldl (fun next record =>
      if record.offset ≥ (next[tp]?).getD 0 then next.insert tp (record.offset + 1) else next) next

/-- `restoreLogRecordValues`: the entries of the record map one after the other. -/
def restoreLogRecordValues :
    StorxLogStore → List (String × List Record) → Except Error Unit × StorxLogStore
  | s, [] => (.ok (), s)
  | s, (key, records) :: rest =>
    match s.restoreLogPartitionRecords key records with
    | (.error err, s) => (.error err, s)
    | (.ok (), s) => restoreLogRecordValues s rest

/-- `restoreLogNextOffsetMap`: keys that do not parse are passed over. -/
def restoreLogNextOffsetMap (offsets : Map String Nat) : Map TopicPartition Nat :=
  offsets.toList.foldl (fun next e =>
    match parsePartitionKey e.1 with
    | .ok tp => next.insert tp e.2
    | .error _ => next) ∅

def restoreLogTopics : StorxLogStore → List TopicConfig → Except Error Unit × StorxLogStore
  | s, [] => (.ok (), s)
  | s, topic :: rest =>
    match s.createTopic topic with
    | .error err => (.error err, s)
    | .ok s => restoreLogTopics s rest

def restoreLogNextOffsets (s : StorxLogStore) (next : Map TopicPartition Nat) : StorxLogStore :=
  { s with nextOffsets := next.toList.foldl (fun out e => out.insert e.1 e.2) s.nextOffsets }

def restoreLogRecords (s : StorxLogStore) (snapshot : Snapshot) :
    Except Error Unit × StorxLogStore :=
  let next := restoreLogNextOffsetMap snapshot.logOffsets
  match restoreLogRecordValues s snapshot.records.toList with
  | (.error err, s) => (.error err, s)
  | (.ok (), s) =>
    let next :=
      if next.isEmpty then
        snapshot.records.toList.foldl (fun next e => advanceRestoredNextOffsets next e.1 e.2) next
      else next
    (.ok (), s.restoreLogNextOffsets next)

/-- `StorxLogStore.Restore`: `clearLogStorage` leaves nothing of what was there. -/
def restore (_ : StorxLogStore) (snapshot : Snapshot) : Except Error Unit × StorxLogStore :=
  match restoreLogTopics {} snapshot.topics with
  | (.error err, s) => (.error err, s)
  | (.ok (), s) => s.restoreLogRecords snapshot

/-! ## Moving one partition (`storx_log_partition_move.go`) -/

structure PartitionSnapshot where
  topic : TopicConfig
  topicPartition : TopicPartition
  records : List Record
  nextOffset : Nat

def snapshotPartition (s : StorxLogStore) (tp : TopicPartition) :
    Except Error PartitionSnapshot := do
  let topic ← s.loadTopicForPartition tp
  .ok { topic := topic, topicPartition := tp, records := s.recordsAt tp,
        nextOffset := (s.nextOffsets[tp]?).getD (nextOffsetFromRecords (s.recordsAt tp)) }

def clearPartitionLocked (s : StorxLogStore) (tp : TopicPartition) : StorxLogStore :=
  { s with
    records := s.records.insert tp []
    keyRecords := s.keyRecords.erase tp
    nextOffsets := s.nextOffsets.insert tp 0 }

def clearPartition (s : StorxLogStore) (tp : TopicPartition) : Except Error StorxLogStore := do
  let _ ← s.loadTopicForPartition tp
  .ok (s.clearPartitionLocked tp)

def ensurePartitionSnapshotTopic (s : StorxLogStore) (snapshot : PartitionSnapshot) :
    Except Error Unit × StorxLogStore :=
  let tp := snapshot.topicPartition
  if snapshot.topic.name ≠ "" ∧ snapshot.topic.name ≠ tp.topic then
    (.error (E .invalidArgument ("partition snapshot topic " ++ snapshot.topic.name
      ++ " does not match " ++ tp.topic)), s)
  else
    match s.loadTopicForPartition tp with
    | .ok _ => (.ok (), s)
    | .error err =>
      if err.code ≠ .topicNotFound then (.error err, s)
      else if snapshot.topic.name = "" then
        (.error (E .topicNotFound ("topic " ++ tp.topic ++ " not found")), s)
      else
        match s.createTopic snapshot.topic with
        | .ok s => ((s.loadTopicForPartition tp).map fun _ => (), s)
        | .error err =>
          if err.code ≠ .topicExists then (.error err, s)
          else ((s.loadTopicForPartition tp).map fun _ => (), s)

def replacePartition (s : StorxLogStore) (snapshot : PartitionSnapshot) :
    Except Error Unit × StorxLogStore :=
  let tp := snapshot.topicPartition
  match s.ensurePartitionSnapshotTopic snapshot with
  | (.error err, s) => (.error err, s)
  | (.ok (), s) =>
    match appendRestoredRecords tp (s.clearPartitionLocked tp) (sortedRecords snapshot.records) with
    | (.error err, s) => (.error err, s)
    | (.ok (), s) =>
      let next := max snapshot.nextOffset (nextOffsetFromRecords snapshot.records)
      (.ok (), { s with nextOffsets := s.nextOffsets.insert tp next })

end StorxLogStore

end Ech0.Store
