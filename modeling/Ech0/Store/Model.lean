/-
  The storage model of ech0: the records, topic configurations, consumer, group and
  transaction states that the stores keep and the commands carry.

  Partition numbers and shard ids are `UInt32`, as in the source; offsets, times and counters
  are natural numbers, with the bound written out where the source checks it. A Go
  pointer to a value is an `Option`, a nil slice and an empty slice are both `[]`, so the
  `clone*` helpers of the source (which copy, and turn empty slices into nil) are the
  identity here and are left out. A Go string is a sequence of bytes, written as the string
  of the characters with those codes, so that `string(b)` and `[]byte(s)` lose nothing.
  String enumerations are inductive types; where the wire can carry any string, the
  constructor `other` keeps it.
-/
import Ech0.Lib.Map

set_option autoImplicit false

namespace Ech0.Store

open Ech0.Lib

/-! ## Errors (`errors.go`) -/

/-- The error codes of the store package. An error that is not the store's own (of a library, of the
file system, of a context) has none of them, and is `other`. -/
inductive Code where
  | other
  | invalidArgument
  | topicExists
  | topicNotFound
  | partitionNotFound
  | codec
  | notLeader
  | unavailable
  deriving DecidableEq

structure Error where
  code : Code
  message : String
  deriving DecidableEq

/-- `E(code, format, args...)`. -/
def E (code : Code) (message : String) : Error := ⟨code, message⟩

/-- `fmt.Errorf("...: %w", err)` and `oops.Wrapf`: the text grows, the code stays. -/
def Error.wrap (context : String) (err : Error) : Error :=
  ⟨err.code, context ++ ": " ++ err.message⟩

/-! ## Topics and records (`model.go`, `memory_helpers.go`, `topic_priority.go`) -/

abbrev Bytes : Type := List UInt8

/-- `string(b)`. -/
def stringOfBytes (b : Bytes) : String :=
  String.ofList (b.map fun byte => Char.ofNat byte.toNat)

/-- `[]byte(s)`. -/
def bytesOfString (s : String) : Bytes :=
  s.toList.map fun c => UInt8.ofNat c.toNat

/-- `^uint64(0)`. -/
def maxUint64 : Nat := 18446744073709551615

/-- `math.MaxInt`. -/
def maxInt : Nat := 2 ^ 63 - 1

/-- `a + b` on `uint64`. Written out where client input can make the sum wrap around. -/
def addUint64 (a b : Nat) : Nat := (a + b) % 2 ^ 64

structure TopicPartition where
  topic : String
  partition : UInt32
  deriving DecidableEq

instance : Ord TopicPartition :=
  ⟨compareLex (compareOn TopicPartition.topic) (compareOn TopicPartition.partition)⟩

instance : Std.TransOrd TopicPartition :=
  inferInstanceAs (Std.TransCmp
    (compareLex (compareOn TopicPartition.topic) (compareOn TopicPartition.partition)))

instance : Std.LawfulEqOrd TopicPartition where
  eq_of_compare {a b} h := by
    have h' : compareLex (compareOn TopicPartition.topic)
        (compareOn TopicPartition.partition) a b = .eq := h
    rw [compareLex_eq_eq] at h'
    obtain ⟨ht, hp⟩ := h'
    cases a
    cases b
    simp only [compareOn] at ht hp
    rw [Std.LawfulEqOrd.eq_of_compare ht, Std.LawfulEqOrd.eq_of_compare hp]

inductive TopicCleanupPolicy where
  | unset
  | delete
  | compact
  | compactAndDelete
  | other (value : String)
  deriving DecidableEq

inductive MessageExpiryAction where
  | unset
  | delete
  | dlq
  | other (value : String)
  deriving DecidableEq

inductive TopicOrderingPolicy where
  | none
  | partition
  | key
  | routingKey
  | other (value : String)
  deriving DecidableEq

structure TopicPriorityPolicy where
  enabled : Bool := false
  min : Nat := 0
  max : Nat := 0
  default : Nat := 0
  deriving DecidableEq

/-- The jitter factor is a `float64`; it is only stored and handed to the backoff library,
so it is kept as its IEEE-754 bits. -/
structure TopicRetryPolicy where
  maxAttempts : Nat
  backoffInitialMS : Nat
  backoffMaxMS : Nat
  backoffJitterFactor : UInt64
  deriving DecidableEq

/-- `0x3FC999999999999A` is `0.2`. -/
def defaultTopicRetryPolicy : TopicRetryPolicy :=
  { maxAttempts := 16, backoffInitialMS := 100, backoffMaxMS := 30000,
    backoffJitterFactor := 0x3FC999999999999A }

structure TopicConfig where
  name : String
  partitions : UInt32
  segmentMaxBytes : Nat
  indexIntervalBytes : Nat
  retentionMaxBytes : Nat
  cleanupPolicy : TopicCleanupPolicy
  maxMessageBytes : Nat
  maxBatchBytes : Nat
  retentionMS : Option Nat
  retryPolicy : TopicRetryPolicy
  deadLetterTopic : Option String
  delayEnabled : Bool
  messageTTLMS : Option Nat
  messageExpiryAction : MessageExpiryAction
  compactionEnabled : Bool
  compactionTombstoneRetentionMS : Option Nat
  orderingPolicy : TopicOrderingPolicy
  priorityPolicy : TopicPriorityPolicy
  deriving DecidableEq

def newTopicConfig (name : String) : TopicConfig :=
  { name := name
    partitions := 1
    segmentMaxBytes := 16 * 1024 * 1024
    indexIntervalBytes := 4 * 1024
    retentionMaxBytes := 256 * 1024 * 1024
    cleanupPolicy := .delete
    maxMessageBytes := 1024 * 1024
    maxBatchBytes := 8 * 1024 * 1024
    retentionMS := none
    retryPolicy := defaultTopicRetryPolicy
    deadLetterTopic := none
    delayEnabled := false
    messageTTLMS := none
    messageExpiryAction := .unset
    compactionEnabled := false
    compactionTombstoneRetentionMS := none
    orderingPolicy := .none
    priorityPolicy := {} }

def defaultTopicPriorityMax : Nat := 9

def normalizeTopicPriorityPolicy (policy : TopicPriorityPolicy) : TopicPriorityPolicy :=
  if policy.enabled then
    if policy.max = 0 then { policy with max := defaultTopicPriorityMax } else policy
  else {}

/-- `normalizeTopic`: zero values become the defaults. -/
def normalizeTopic (topic : TopicConfig) : TopicConfig :=
  { topic with
    partitions := if topic.partitions = 0 then 1 else topic.partitions
    segmentMaxBytes :=
      if topic.segmentMaxBytes = 0 then 16 * 1024 * 1024 else topic.segmentMaxBytes
    indexIntervalBytes :=
      if topic.indexIntervalBytes = 0 then 4 * 1024 else topic.indexIntervalBytes
    retentionMaxBytes :=
      if topic.retentionMaxBytes = 0 then 256 * 1024 * 1024 else topic.retentionMaxBytes
    cleanupPolicy := if topic.cleanupPolicy = .unset then .delete else topic.cleanupPolicy
    maxMessageBytes := if topic.maxMessageBytes = 0 then 1024 * 1024 else topic.maxMessageBytes
    maxBatchBytes := if topic.maxBatchBytes = 0 then 8 * 1024 * 1024 else topic.maxBatchBytes
    retryPolicy :=
      if topic.retryPolicy.maxAttempts = 0 then defaultTopicRetryPolicy else topic.retryPolicy
    messageExpiryAction :=
      if topic.messageExpiryAction = .unset then .delete else topic.messageExpiryAction
    priorityPolicy := normalizeTopicPriorityPolicy topic.priorityPolicy }

lemma normalizeTopic_idem (topic : TopicConfig) :
    normalizeTopic (normalizeTopic topic) = normalizeTopic topic := by
  have hprio : normalizeTopicPriorityPolicy (normalizeTopicPriorityPolicy topic.priorityPolicy)
      = normalizeTopicPriorityPolicy topic.priorityPolicy := by
    unfold normalizeTopicPriorityPolicy
    split
    · split <;> simp_all [defaultTopicPriorityMax]
    · rfl
  unfold normalizeTopic
  simp only [hprio, TopicConfig.mk.injEq, true_and, and_true]
  refine ⟨?_, ?_, ?_, ?_, ?_, ?_, ?_, ?_, ?_⟩ <;> split <;> simp_all

structure RecordHeader where
  key : String
  value : Bytes
  deriving DecidableEq

inductive TransactionControlType where
  | none
  | commit
  | abort
  | other (value : String)
  deriving DecidableEq

/-- One of the three constants: the encoders have a code for it, and write any other as `none`. -/
def TransactionControlType.Declared (controlType : TransactionControlType) : Prop :=
  ∀ value, controlType ≠ .other value

/-- What the encoders keep of a control type. -/
def TransactionControlType.stored : TransactionControlType → TransactionControlType
  | other _ => none
  | controlType => controlType

lemma TransactionControlType.stored_eq_iff (controlType : TransactionControlType) :
    controlType.stored = controlType ↔ controlType.Declared := by
  cases controlType <;> simp [stored, Declared]

structure TransactionRecordMetadata where
  txID : Nat
  producerID : Nat
  producerEpoch : Nat
  sequence : Nat
  controlType : TransactionControlType := .none
  deriving DecidableEq

/-- What the encoders keep of the metadata of a record. -/
def TransactionRecordMetadata.stored (metadata : TransactionRecordMetadata) :
    TransactionRecordMetadata :=
  { metadata with controlType := metadata.controlType.stored }

lemma map_stored_eq_iff (transaction : Option TransactionRecordMetadata) :
    transaction.map TransactionRecordMetadata.stored = transaction ↔
      ∀ metadata ∈ transaction, metadata.controlType.Declared := by
  cases transaction with
  | none => simp
  | some metadata =>
    cases metadata
    simp [TransactionRecordMetadata.stored, TransactionControlType.stored_eq_iff]

structure RecordAppend where
  timestampMS : Option Nat := none
  key : Bytes := []
  headers : List RecordHeader := []
  attributes : Nat := 0
  transaction : Option TransactionRecordMetadata := none
  expiresAtMS : Option Nat := none
  payload : Bytes
  deriving DecidableEq

structure Record where
  offset : Nat
  timestampMS : Nat
  key : Bytes
  headers : List RecordHeader
  attributes : Nat
  transaction : Option TransactionRecordMetadata
  expiresAtMS : Option Nat
  payload : Bytes
  deriving DecidableEq

/-- What the command codec keeps of a record to append. -/
def RecordAppend.stored (record : RecordAppend) : RecordAppend :=
  { record with transaction := record.transaction.map TransactionRecordMetadata.stored }

/-- What a segment file keeps of a record. -/
def Record.stored (record : Record) : Record :=
  { record with transaction := record.transaction.map TransactionRecordMetadata.stored }

lemma RecordAppend.stored_eq_iff (record : RecordAppend) :
    record.stored = record ↔ ∀ metadata ∈ record.transaction, metadata.controlType.Declared := by
  rw [← map_stored_eq_iff]
  cases record
  simp [stored]

lemma Record.stored_eq_iff (record : Record) :
    record.stored = record ↔ ∀ metadata ∈ record.transaction, metadata.controlType.Declared := by
  rw [← map_stored_eq_iff]
  cases record
  simp [stored]

def Record.isTombstone (r : Record) : Bool := r.attributes.testBit 1

def appendRecordExpiresAt (timestamp : Nat) (topic : TopicConfig) (appendRecord : RecordAppend) :
    Except Error (Option Nat) :=
  match appendRecord.expiresAtMS with
  | some value => .ok (some value)
  | none =>
    match topic.messageTTLMS with
    | none => .ok none
    | some ttl =>
      if timestamp > maxUint64 - ttl then
        .error (E .invalidArgument "message ttl overflows expires_at_ms")
      else .ok (some (timestamp + ttl))

/-- `recordFromAppend`. The clock is read before the given timestamp is looked at; `nowMS`
is that reading. -/
def recordFromAppend (nowMS offset : Nat) (topic : TopicConfig) (appendRecord : RecordAppend) :
    Except Error Record := do
  let timestamp := appendRecord.timestampMS.getD nowMS
  let expiresAt ← appendRecordExpiresAt timestamp topic appendRecord
  return { offset := offset
           timestampMS := timestamp
           key := appendRecord.key
           headers := appendRecord.headers
           attributes := appendRecord.attributes
           transaction := appendRecord.transaction
           expiresAtMS := expiresAt
           payload := appendRecord.payload }

/-! ## Consumers, groups, producers and transactions (`model.go`, `offset_model.go`, `memory_pauses.go`) -/

structure ConsumerOffsetState where
  consumer : String
  topic : String
  partition : UInt32
  nextOffset : Nat
  pendingOffsets : List Nat := []
  metadata : String := ""
  updatedAtMS : Nat := 0
  deriving DecidableEq

def ConsumerOffsetState.topicPartition (s : ConsumerOffsetState) : TopicPartition :=
  ⟨s.topic, s.partition⟩

structure ConsumerPauseState where
  consumer : String
  topic : String
  partition : UInt32
  paused : Bool
  updatedAtMS : Nat
  deriving DecidableEq

def ConsumerPauseState.topicPartition (s : ConsumerPauseState) : TopicPartition :=
  ⟨s.topic, s.partition⟩

structure ShardPlacement where
  topic : String
  partition : UInt32
  shardID : UInt32
  deriving DecidableEq

def ShardPlacement.topicPartition (p : ShardPlacement) : TopicPartition :=
  ⟨p.topic, p.partition⟩

structure ConsumerGroupMember where
  group : String
  memberID : String
  topics : List String
  sessionTimeoutMS : Nat
  maxPollIntervalMS : Nat
  joinedAtMS : Nat
  lastHeartbeatMS : Nat
  lastPollMS : Nat
  deriving DecidableEq

namespace ConsumerGroupMember

def expiresAtMS (m : ConsumerGroupMember) : Nat :=
  addUint64 m.lastHeartbeatMS (if m.sessionTimeoutMS = 0 then 1 else m.sessionTimeoutMS)

/-- The method `lastPollMS`. -/
def effectiveLastPollMS (m : ConsumerGroupMember) : Nat :=
  if m.lastPollMS ≠ 0 then m.lastPollMS
  else if m.lastHeartbeatMS ≠ 0 then m.lastHeartbeatMS
  else m.joinedAtMS

def pollExpiresAtMS (m : ConsumerGroupMember) : Nat :=
  let timeout := if m.maxPollIntervalMS = 0 then m.sessionTimeoutMS else m.maxPollIntervalMS
  addUint64 m.effectiveLastPollMS (if timeout = 0 then 1 else timeout)

def expiredAt (m : ConsumerGroupMember) (nowMS : Nat) : Bool :=
  nowMS ≥ m.expiresAtMS ∨ nowMS ≥ m.pollExpiresAtMS

end ConsumerGroupMember

structure GroupPartitionAssignment where
  memberID : String
  topic : String
  partition : UInt32
  deriving DecidableEq

def GroupPartitionAssignment.topicPartition (a : GroupPartitionAssignment) : TopicPartition :=
  ⟨a.topic, a.partition⟩

structure ConsumerGroupAssignment where
  group : String
  generation : Nat
  assignments : List GroupPartitionAssignment
  updatedAtMS : Nat
  deriving DecidableEq

inductive TransactionStatus where
  | open
  | committed
  | aborted
  deriving DecidableEq

structure TransactionOffsetCommit where
  consumer : String := ""
  group : String := ""
  memberID : String := ""
  generation : Nat := 0
  topic : String
  partition : UInt32
  nextOffset : Nat
  metadata : String := ""
  deriving DecidableEq

structure TransactionPublishedBatch where
  topic : String
  partition : UInt32
  baseSequence : Nat
  recordCount : Nat
  baseOffset : Nat
  lastOffset : Nat
  nextOffset : Nat
  deriving DecidableEq

structure TransactionState where
  txID : Nat
  transactionalID : String
  producerID : Nat
  producerEpoch : Nat
  status : TransactionStatus
  timeoutMS : Nat
  createdAtMS : Nat
  updatedAtMS : Nat
  expiresAtMS : Nat
  nextSequence : Nat
  partitions : List TopicPartition := []
  publishedBatches : List TransactionPublishedBatch := []
  offsetCommits : List TransactionOffsetCommit := []
  deriving DecidableEq

structure ProducerPublishedBatch where
  producerID : Nat
  producerEpoch : Nat
  topic : String
  partition : UInt32
  baseSequence : Nat
  recordCount : Nat
  baseOffset : Nat
  lastOffset : Nat
  nextOffset : Nat
  updatedAtMS : Nat
  deriving DecidableEq

inductive ACLPolicyEffect where
  | allow
  | deny
  | other (value : String)
  deriving DecidableEq

structure ACLPolicy where
  policyID : String
  tenant : String
  namespace_ : String
  principal : String
  resourceType : String
  resourceName : String
  actions : List String
  effect : ACLPolicyEffect
  priority : Int
  updatedAtMS : Nat
  deriving DecidableEq

structure DLQIndexEntry where
  dlqTopic : String
  dlqPartition : UInt32
  dlqOffset : Nat
  timestampMS : Nat
  originalTopic : String
  originalPartition : UInt32
  originalOffset : Nat
  errorCode : String
  retryCount : Nat
  deriving DecidableEq

structure BrokerState where
  nodeID : String
  epoch : Nat
  deriving DecidableEq

/-! ## Snapshots -/

/-- `store.Snapshot`: what a snapshot of a broker holds. The two record maps are keyed by the
text of a topic partition, as on the wire. -/
structure Snapshot where
  topics : List TopicConfig := []
  records : Map String (List Record) := ∅
  logOffsets : Map String Nat := ∅
  offsets : Map String Nat := ∅
  offsetStates : List ConsumerOffsetState := []
  consumerPauses : List ConsumerPauseState := []
  placements : List ShardPlacement := []
  members : List ConsumerGroupMember := []
  assignments : List ConsumerGroupAssignment := []
  transactions : List TransactionState := []
  producerBatches : List ProducerPublishedBatch := []
  aclPolicies : List ACLPolicy := []
  dlqIndexes : List DLQIndexEntry := []
  nextTransactionID : Nat := 0
  brokerState : Option BrokerState := none

end Ech0.Store
