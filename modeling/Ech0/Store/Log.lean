/-
  The segment log (`StorxLogStore`), at the level of what its indexes hold.

  The store keeps, for each topic partition, the sorted list of its records, the next append
  offset, and, once it has been asked for, the latest offset of each record key. The segment
  files below are where the records' bytes live; a pointer of the index and the record it
  points to are one thing here. An append reads the local clock once for every record, so the
  readings are an argument. The append pipeline, which joins concurrent batches, is in
  `AppendPipeline`; the append here is the direct one.

  A state of this type need not be well formed: a restored snapshot can set a next offset
  below a record that exists. `LogInv` in the next module says what well formed means and
  which operations keep it.
-/
import Ech0.Store.Keys

set_option autoImplicit false

namespace Ech0.Store

open Ech0.Lib

structure StorxLogStore where
  topics : Map String TopicConfig := ∅
  records : Map TopicPartition (List Record) := ∅
  nextOffsets : Map TopicPartition Nat := ∅
  /-- The key index of a partition, present once built. -/
  keyRecords : Map TopicPartition (Map Bytes Nat) := ∅

/-- `for partition := range topic.Partitions`. -/
def TopicConfig.partitionList (topic : TopicConfig) : List TopicPartition :=
  (List.range topic.partitions.toNat).map fun partition => ⟨topic.name, UInt32.ofNat partition⟩

/-- `nextOffsetFromRecords`, and `nextOffsetFromPointers` on the pointers of the records. The source
adds on `uint64`, so that the next offset is 0 again behind the record of offset `2^64-1`; here it goes
on. The two agree up to that record (`uint64NextOffset_eq`), and what is said of logs that may come so
far asks for next offsets that have not passed it (`StorxLogStore.OffsetsFit`). -/
def nextOffsetFromRecords (records : List Record) : Nat :=
  records.foldl (fun next record => if record.offset ≥ next then record.offset + 1 else next) 0

/-- `nextOffsetFromRecords` on the `uint64` of the source. -/
def uint64NextOffset (records : List Record) : Nat :=
  records.foldl
    (fun next record => if record.offset ≥ next then (record.offset + 1) % 2 ^ 64 else next) 0

lemma uint64NextOffset_eq {records : List Record}
    (h : ∀ record ∈ records, record.offset < maxUint64) :
    uint64NextOffset records = nextOffsetFromRecords records := by
  refine List.foldl_ext _ _ 0 fun next record hrecord => ?_
  have hlt := h record hrecord
  unfold maxUint64 at hlt
  rw [Nat.mod_eq_of_lt (by omega)]

/-- `sortedRecords`, and `sortSegmentPointers`: by offset. -/
def sortedRecords (records : List Record) : List Record :=
  records.insertionSort (fun left right => left.offset ≤ right.offset)

/-- What both stores make of a partition, by the configuration of its topic. -/
def checkPartition (tp : TopicPartition) : Option TopicConfig → Except Error TopicConfig
  | none => .error (E .topicNotFound ("topic " ++ tp.topic ++ " not found"))
  | some topic =>
    if tp.partition ≥ topic.partitions then
      .error (E .partitionNotFound
        ("partition " ++ tp.topic ++ "/" ++ Nat.repr tp.partition.toNat ++ " not found"))
    else .ok topic

def payloadTooLarge (append : RecordAppend) (topic : TopicConfig) : Error :=
  E .invalidArgument ("payload size " ++ Nat.repr append.payload.length ++ " exceeds max_message_bytes "
    ++ Nat.repr topic.maxMessageBytes)

namespace StorxLogStore

/-- `s.records.GetOrDefault(tp, nil)`. -/
def recordsAt (s : StorxLogStore) (tp : TopicPartition) : List Record :=
  (s.records[tp]?).getD []

def nextOffset (s : StorxLogStore) (tp : TopicPartition) : Nat :=
  (s.nextOffsets[tp]?).getD 0

/-- No next offset has passed the last `uint64`: the log is still where the source's count and the one
here are the same. -/
def OffsetsFit (s : StorxLogStore) : Prop := ∀ e ∈ s.nextOffsets.toList, e.2 ≤ maxUint64

instance (s : StorxLogStore) : Decidable s.OffsetsFit :=
  inferInstanceAs (Decidable (∀ e ∈ s.nextOffsets.toList, e.2 ≤ maxUint64))

lemma OffsetsFit.nextOffset_le {s : StorxLogStore} (h : s.OffsetsFit) (tp : TopicPartition) :
    s.nextOffset tp ≤ maxUint64 := by
  unfold nextOffset
  cases hnext : s.nextOffsets[tp]? with
  | none => exact Nat.zero_le _
  | some next => exact h (tp, next) ((Map.mem_toList _ _ _).mpr hnext)

/-! ## Topics (`storx_log.go`) -/

def ensurePartition (s : StorxLogStore) (tp : TopicPartition) : StorxLogStore :=
  let records := if s.records.contains tp then s.records else s.records.insert tp []
  let nextOffsets :=
    if s.nextOffsets.contains tp then s.nextOffsets
    else s.nextOffsets.insert tp (nextOffsetFromRecords ((records[tp]?).getD []))
  { s with records := records, nextOffsets := nextOffsets }

def ensureTopicPartitionsLocked (s : StorxLogStore) (topic : TopicConfig) : StorxLogStore :=
  topic.partitionList.foldl ensurePartition s

def validateLogTopicForCreate (topic : TopicConfig) : Except Error TopicConfig :=
  if topic.name = "" then .error (E .invalidArgument "topic name is required")
  else if topic.partitions = 0 then
    .error (E .invalidArgument ("topic " ++ topic.name ++ " must have at least one partition"))
  else .ok (normalizeTopic topic)

/-- `CreateTopic`: validation, then `registerLogTopic`. -/
def createTopic (s : StorxLogStore) (topic : TopicConfig) : Except Error StorxLogStore := do
  let topic ← validateLogTopicForCreate topic
  if s.topics.contains topic.name then
    .error (E .topicExists ("topic " ++ topic.name ++ " already exists"))
  else
    .ok (({ s with topics := s.topics.insert topic.name topic }).ensureTopicPartitionsLocked topic)

def topicExists (s : StorxLogStore) (topic : String) : Bool := s.topics.contains topic

def loadTopicForPartition (s : StorxLogStore) (tp : TopicPartition) : Except Error TopicConfig :=
  checkPartition tp s.topics[tp.topic]?

/-! ## Appending (`storx_log_batch.go`, `segment_key_index.go`) -/

/-- `appendKeyPointers` on one record. -/
def appendKeyPointer (keys : Map Bytes Nat) (record : Record) : Map Bytes Nat :=
  if record.key = [] then keys else keys.insert record.key record.offset

/-- `recordAppendedKeyPointersLocked`: an index that exists is kept up to date. -/
def recordAppendedKeyPointersLocked (s : StorxLogStore) (tp : TopicPartition)
    (records : List Record) : StorxLogStore :=
  match s.keyRecords[tp]? with
  | none => s
  | some keys => { s with keyRecords := s.keyRecords.insert tp (records.foldl appendKeyPointer keys) }

/-- `offsetForBatchRecord`. The index is one of a slice, so it is below the greatest offset, and the
test is that of the sum. -/
def offsetForBatchRecord (baseOffset index : Nat) : Except Error Nat :=
  if baseOffset + index > maxUint64 then
    .error (E .invalidArgument
      ("batch offset overflows uint64: base=" ++ Nat.repr baseOffset ++ " index=" ++ Nat.repr index))
  else .ok (baseOffset + index)

/-- The loop of `prepareAppendBatch`, from position `index` on; `clock index` is the reading
taken for the record at that position. -/
def prepareAppendRecords (clock : Nat → Nat) (topic : TopicConfig) (baseOffset : Nat) :
    Nat → List RecordAppend → Except Error (List Record)
  | _, [] => .ok []
  | index, appendRecord :: rest => do
    if appendRecord.payload.length > topic.maxMessageBytes then
      .error (payloadTooLarge appendRecord topic)
    else
      let offset ← offsetForBatchRecord baseOffset index
      let record ← recordFromAppend (clock index) offset topic appendRecord
      let records ← prepareAppendRecords clock topic baseOffset (index + 1) rest
      .ok (record :: records)

def recordAppendedPointers (s : StorxLogStore) (tp : TopicPartition) (records : List Record) :
    StorxLogStore :=
  if records = [] then s
  else
    let existing := sortedRecords (s.recordsAt tp ++ records)
    let s := ({ s with records := s.records.insert tp existing }).recordAppendedKeyPointersLocked
      tp records
    { s with nextOffsets := s.nextOffsets.insert tp (nextOffsetFromRecords existing) }

def appendRecordsBatch (s : StorxLogStore) (clock : Nat → Nat) (tp : TopicPartition)
    (records : List RecordAppend) : Except Error (List Record × StorxLogStore) :=
  if records = [] then .ok ([], s)
  else do
    let topic ← s.loadTopicForPartition tp
    let stored ← prepareAppendRecords clock topic (s.nextOffset tp) 0 records
    .ok (stored, s.recordAppendedPointers tp stored)

def appendRecord (s : StorxLogStore) (clock : Nat → Nat) (tp : TopicPartition)
    (record : RecordAppend) : Except Error (Record × StorxLogStore) := do
  let (records, s) ← s.appendRecordsBatch clock tp [record]
  match records with
  | [] => .error (E .codec "append record returned no records")
  | record :: _ => .ok (record, s)

/-! ## Reading (`segment_memory_index.go`, `storx_log_read.go`, `offset_model.go`) -/

/-- `segmentPointerSearch`, on an index that is sorted. -/
def segmentPointerSearch (pointers : List Record) (offset : Nat) : Nat :=
  (pointers.takeWhile fun record => record.offset < offset).length

/-- The slice of `recordPointersFrom` panics: `start+maxRecords` is an `int`, and the end of the slice
is before its start where the sum overflows. -/
def readPanics (s : StorxLogStore) (tp : TopicPartition) (offset maxRecords : Nat) : Prop :=
  0 < maxRecords ∧ maxInt < segmentPointerSearch (s.recordsAt tp) offset + maxRecords

instance (s : StorxLogStore) (tp : TopicPartition) (offset maxRecords : Nat) :
    Decidable (s.readPanics tp offset maxRecords) :=
  inferInstanceAs (Decidable (_ ∧ _))

/-- `recordPointersFrom`, where it does not panic (`readPanics`): the index is sorted, so the binary
search finds the first record at or above `offset`. -/
def recordPointersFrom (s : StorxLogStore) (tp : TopicPartition) (offset maxRecords : Nat) :
    List Record :=
  ((s.recordsAt tp).dropWhile (fun record => record.offset < offset)).take maxRecords

def readFrom (s : StorxLogStore) (tp : TopicPartition) (offset maxRecords : Nat) :
    Except Error (List Record) :=
  if maxRecords = 0 then .ok []
  else do
    let _ ← s.loadTopicForPartition tp
    .ok (s.recordPointersFrom tp offset maxRecords)

structure PartitionOffsetState where
  topic : String
  partition : UInt32
  logStartOffset : Nat
  lowWatermark : Option Nat
  highWatermark : Option Nat
  nextOffset : Nat
  retainedRecords : Nat
  deriving DecidableEq

def partitionOffsetsFromRecordOffsets (tp : TopicPartition) (nextOffset : Nat)
    (offsets : List Nat) : PartitionOffsetState :=
  { topic := tp.topic
    partition := tp.partition
    logStartOffset := offsets.head?.getD nextOffset
    lowWatermark := offsets.head?
    highWatermark := if nextOffset > 0 then some (nextOffset - 1) else none
    nextOffset := nextOffset
    retainedRecords := offsets.length }

def partitionOffsets (s : StorxLogStore) (tp : TopicPartition) :
    Except Error PartitionOffsetState := do
  let _ ← s.loadTopicForPartition tp
  let next := (s.nextOffsets[tp]?).getD (nextOffsetFromRecords (s.recordsAt tp))
  .ok (partitionOffsetsFromRecordOffsets tp next ((s.recordsAt tp).map Record.offset))

end StorxLogStore

end Ech0.Store
