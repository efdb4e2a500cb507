/-
  The in-memory metadata store (`MemoryStore`), in the role the broker gives it: topic
  configurations, consumer offsets and pauses, shard placements, consumer groups,
  transactions, idempotent-producer batches, access policies and the dead-letter index.

  The type also implements a message log. The broker never reads messages from its metadata
  store, and its snapshot takes records and log offsets from the log, so the two message maps
  and the name set that serve that role are left out.
-/
import Ech0.Store.Keys

set_option autoImplicit false

namespace Ech0.Store

open Ech0.Lib

structure MemoryStore where
  topics : OrderedMap String TopicConfig := .empty
  offsets : Map String Nat := ∅
  offsetStates : Map String ConsumerOffsetState := ∅
  consumerPauses : Map String ConsumerPauseState := ∅
  placements : Map TopicPartition ShardPlacement := ∅
  members : Map String ConsumerGroupMember := ∅
  assignments : Map String ConsumerGroupAssignment := ∅
  transactions : Map Nat TransactionState := ∅
  producerBatches : Map String ProducerPublishedBatch := ∅
  aclPolicies : Map String ACLPolicy := ∅
  dlqIndexes : Map String DLQIndexEntry := ∅
  nextTxID : Nat := 1
  brokerState : Option BrokerState := none

/-- The UTF-8 encodings of the characters of `unicode.IsSpace`. -/
def spaceEncodings : List (List Nat) :=
  [[0x09], [0x0A], [0x0B], [0x0C], [0x0D], [0x20], [0xC2, 0x85], [0xC2, 0xA0],
   [0xE1, 0x9A, 0x80], [0xE2, 0x80, 0xA8], [0xE2, 0x80, 0xA9], [0xE2, 0x80, 0xAF],
   [0xE2, 0x81, 0x9F], [0xE3, 0x80, 0x80]]
    ++ (List.range 11).map fun i => [0xE2, 0x80, 0x80 + i]

/-- Drop the encodings that stand at the front of a text; `fuel` bounds their number. -/
def trimFront (encodings : List (List Nat)) : Nat → List Char → List Char
  | 0, text => text
  | fuel + 1, text =>
    match encodings.find? (fun encoding => encoding.isPrefixOf (text.map Char.toNat)) with
    | some encoding => trimFront encodings fuel (text.drop encoding.length)
    | none => text

def trimSpace (text : String) : String :=
  let front := trimFront spaceEncodings text.length text.toList
  let back := trimFront (spaceEncodings.map List.reverse) text.length front.reverse
  String.ofList back.reverse

def sortedStrings (values : List String) : List String :=
  values.insertionSort (fun left right => left ≤ right)

namespace MemoryStore

/-! ## Topics (`memory.go`) -/

def saveTopicConfig (s : MemoryStore) (topic : TopicConfig) : Except Error MemoryStore :=
  if topic.name = "" then .error (E .invalidArgument "topic name is required")
  else .ok { s with topics := s.topics.set topic.name (normalizeTopic topic) }

def loadTopicConfig (s : MemoryStore) (topic : String) : Option TopicConfig := s.topics.get? topic

def listTopics (s : MemoryStore) : List TopicConfig := s.topics.values

/-! ## Consumer offsets and pauses (`memory_offsets.go`, `memory_pauses.go`, `offset_pending.go`) -/

/-- The loop of `NormalizeConsumerOffsetState` over the sorted pending offsets. -/
def normalizePending (nextOffset : Nat) : Nat → Nat → List Nat → List Nat
  | _, _, [] => []
  | index, previous, offset :: rest =>
    if offset < nextOffset then normalizePending nextOffset (index + 1) previous rest
    else if index > 0 ∧ offset = previous then
      normalizePending nextOffset (index + 1) previous rest
    else offset :: normalizePending nextOffset (index + 1) offset rest

def normalizeConsumerOffsetState (state : ConsumerOffsetState) : ConsumerOffsetState :=
  if state.pendingOffsets = [] then state
  else
    { state with
      pendingOffsets := normalizePending state.nextOffset 0 0
        (state.pendingOffsets.insertionSort (· ≤ ·)) }

/-- `validateConsumerOffsetState` and `validateConsumerPauseState`. -/
def validateConsumerState (consumer topic : String) : Except Error Unit :=
  if consumer = "" then .error (E .invalidArgument "consumer is required")
  else if topic = "" then .error (E .invalidArgument "topic is required")
  else .ok ()

def saveConsumerOffsetState (s : MemoryStore) (state : ConsumerOffsetState) :
    Except Error MemoryStore := do
  let state := normalizeConsumerOffsetState state
  validateConsumerState state.consumer state.topic
  let key := offsetKey state.consumer state.topicPartition
  .ok { s with
        offsets := s.offsets.insert key state.nextOffset
        offsetStates := s.offsetStates.insert key state }

def loadConsumerOffset (s : MemoryStore) (consumer : String) (tp : TopicPartition) : Option Nat :=
  match s.offsetStates[offsetKey consumer tp]? with
  | some state => some state.nextOffset
  | none => s.offsets[offsetKey consumer tp]?

def loadConsumerOffsetState (s : MemoryStore) (consumer : String) (tp : TopicPartition) :
    Option ConsumerOffsetState :=
  match s.offsetStates[offsetKey consumer tp]? with
  | some state => some state
  | none =>
    (s.offsets[offsetKey consumer tp]?).map fun offset =>
      { consumer := consumer, topic := tp.topic, partition := tp.partition, nextOffset := offset }

def deleteConsumerOffsetState (s : MemoryStore) (consumer : String) (tp : TopicPartition) :
    MemoryStore :=
  { s with
    offsets := s.offsets.erase (offsetKey consumer tp)
    offsetStates := s.offsetStates.erase (offsetKey consumer tp) }

def saveConsumerPause (s : MemoryStore) (state : ConsumerPauseState) :
    Except Error MemoryStore := do
  validateConsumerState state.consumer state.topic
  .ok { s with consumerPauses :=
    s.consumerPauses.insert (consumerPauseKey state.consumer state.topicPartition) state }

def loadConsumerPause (s : MemoryStore) (consumer : String) (tp : TopicPartition) :
    Option ConsumerPauseState :=
  s.consumerPauses[consumerPauseKey consumer tp]?

def deleteConsumerPause (s : MemoryStore) (consumer : String) (tp : TopicPartition) :
    MemoryStore :=
  { s with consumerPauses := s.consumerPauses.erase (consumerPauseKey consumer tp) }

/-! ## Shard placements (`memory_shards.go`, `shards.go`) -/

def validateShardPlacement (placement : ShardPlacement) : Except Error Unit :=
  if placement.topic = "" then .error (E .invalidArgument "shard placement topic is required")
  else .ok ()

def saveShardPlacement (s : MemoryStore) (placement : ShardPlacement) :
    Except Error MemoryStore := do
  validateShardPlacement placement
  .ok { s with placements := s.placements.insert placement.topicPartition placement }

def loadShardPlacement (s : MemoryStore) (tp : TopicPartition) : Option ShardPlacement :=
  s.placements[tp]?

/-! ## Consumer groups (`memory_groups.go`, `segment_manifest.go`) -/

/-- `member.Topics = sortedStrings(member.Topics)`. -/
def sortTopics (member : ConsumerGroupMember) : ConsumerGroupMember :=
  { member with topics := sortedStrings member.topics }

def saveGroupMember (s : MemoryStore) (member : ConsumerGroupMember) :
    Except Error MemoryStore :=
  if member.group = "" ∨ member.memberID = "" then
    .error (E .invalidArgument "group and member_id are required")
  else
    let member := sortTopics member
    .ok { s with members := s.members.insert (groupMemberKey member.group member.memberID) member }

def loadGroupMember (s : MemoryStore) (group memberID : String) : Option ConsumerGroupMember :=
  s.members[groupMemberKey group memberID]?

/-- `ListGroupMembers`: sorted by member id. -/
def listGroupMembers (s : MemoryStore) (group : String) : List ConsumerGroupMember :=
  (((s.members.toList.map Prod.snd).filter fun member => member.group = group).map
    sortTopics).insertionSort (fun left right => left.memberID ≤ right.memberID)

/-- `DeleteExpiredGroupMembers`, over the members of all groups; the number deleted, and the
store. -/
def deleteExpiredGroupMembers (s : MemoryStore) (nowMS : Nat) : Nat × MemoryStore :=
  let expired := (s.members.toList.filter fun e => e.2.expiredAt nowMS)
  (expired.length, { s with members := s.members.filter fun _ member => !member.expiredAt nowMS })

def saveGroupAssignment (s : MemoryStore) (assignment : ConsumerGroupAssignment) :
    Except Error MemoryStore :=
  if assignment.group = "" then .error (E .invalidArgument "group is required")
  else .ok { s with assignments := s.assignments.insert assignment.group assignment }

def loadGroupAssignment (s : MemoryStore) (group : String) : Option ConsumerGroupAssignment :=
  s.assignments[group]?

/-! ## Transactions and producer batches (`memory_producer_batches.go`, `memory_transactions.go`) -/

def allocateTransactionID (s : MemoryStore) : Nat × MemoryStore :=
  let txID := if s.nextTxID = 0 then 1 else s.nextTxID
  (txID, { s with nextTxID := txID + 1 })

def saveTransaction (s : MemoryStore) (state : TransactionState) : Except Error MemoryStore :=
  if state.txID = 0 then .error (E .invalidArgument "transaction tx_id is required")
  else
    .ok { s with
          transactions := s.transactions.insert state.txID state
          nextTxID := if state.txID ≥ s.nextTxID then state.txID + 1 else s.nextTxID }

def loadTransaction (s : MemoryStore) (txID : Nat) : Option TransactionState :=
  s.transactions[txID]?

/-- `ListTransactions`: in the order of the ids. -/
def listTransactions (s : MemoryStore) : List TransactionState :=
  s.transactions.toList.map Prod.snd

def validateProducerBatch (batch : ProducerPublishedBatch) : Except Error Unit :=
  if batch.producerID = 0 then .error (E .invalidArgument "producer_id is required")
  else if batch.topic = "" then .error (E .invalidArgument "producer batch topic is required")
  else if batch.recordCount = 0 then
    .error (E .invalidArgument "producer batch record_count is required")
  else if batch.lastOffset < batch.baseOffset then
    .error (E .invalidArgument "producer batch offsets are invalid")
  else if batch.lastOffset = maxUint64 then
    .error (E .invalidArgument "producer batch last_offset overflows next_offset")
  else if batch.nextOffset ≠ batch.lastOffset + 1 then
    .error (E .invalidArgument "producer batch next_offset is invalid")
  else .ok ()

def saveProducerBatch (s : MemoryStore) (batch : ProducerPublishedBatch) :
    Except Error MemoryStore := do
  validateProducerBatch batch
  .ok { s with producerBatches := s.producerBatches.insert (producerBatchKey batch) batch }

structure ProducerBatchFilter where
  producerID : Nat := 0
  topic : String := ""
  producerEpoch : Option Nat := none
  partition : Option UInt32 := none

def producerBatchMatchesFilter (batch : ProducerPublishedBatch) (filter : ProducerBatchFilter) :
    Bool :=
  (filter.producerID = 0 ∨ batch.producerID = filter.producerID) ∧
    (filter.topic = "" ∨ batch.topic = filter.topic) ∧
    filter.producerEpoch.all (fun epoch => batch.producerEpoch = epoch) ∧
    filter.partition.all (fun partition => batch.partition = partition)

/-- The order of `sortProducerPublishedBatches`. -/
def producerBatchLE (left right : ProducerPublishedBatch) : Bool :=
  if left.producerID ≠ right.producerID then left.producerID < right.producerID
  else if left.topic ≠ right.topic then left.topic < right.topic
  else if left.partition ≠ right.partition then left.partition < right.partition
  else if left.producerEpoch ≠ right.producerEpoch then left.producerEpoch < right.producerEpoch
  else left.baseSequence ≤ right.baseSequence

def listProducerBatches (s : MemoryStore) (filter : ProducerBatchFilter) :
    List ProducerPublishedBatch :=
  ((s.producerBatches.toList.map Prod.snd).filter fun batch =>
    producerBatchMatchesFilter batch filter).insertionSort
      (fun left right => producerBatchLE left right)

def deleteProducerBatch (s : MemoryStore) (batch : ProducerPublishedBatch) : MemoryStore :=
  { s with producerBatches := s.producerBatches.erase (producerBatchKey batch) }

/-! ## Access policies and the dead-letter index (`memory_acl.go`, `memory_dlq_index.go`) -/

def validateACLPolicy (policy : ACLPolicy) : Except Error Unit :=
  if trimSpace policy.policyID = "" then .error (E .invalidArgument "policy_id is required")
  else
    match policy.effect with
    | .allow => .ok ()
    | .deny => .ok ()
    | .other effect =>
      .error (E .invalidArgument
        ("acl policy " ++ policy.policyID ++ " has invalid effect " ++ quote effect))

def saveACLPolicy (s : MemoryStore) (policy : ACLPolicy) : Except Error MemoryStore := do
  validateACLPolicy policy
  .ok { s with aclPolicies := s.aclPolicies.insert policy.policyID policy }

def deleteACLPolicy (s : MemoryStore) (policyID : String) : Except Error MemoryStore :=
  if trimSpace policyID = "" then .error (E .invalidArgument "policy_id is required")
  else .ok { s with aclPolicies := s.aclPolicies.erase (trimSpace policyID) }

def validateDLQIndexEntry (entry : DLQIndexEntry) : Except Error Unit :=
  if entry.dlqTopic = "" then .error (E .invalidArgument "dlq topic is required")
  else if entry.originalTopic = "" then .error (E .invalidArgument "original topic is required")
  else .ok ()

/-- The key of an entry of the dead-letter index. -/
def dlqEntryKey (entry : DLQIndexEntry) : String :=
  dlqIndexKey entry.dlqTopic entry.dlqPartition entry.dlqOffset

def saveDLQIndex (s : MemoryStore) (entry : DLQIndexEntry) : Except Error MemoryStore := do
  validateDLQIndexEntry entry
  .ok { s with dlqIndexes := s.dlqIndexes.insert (dlqEntryKey entry) entry }

/-! ## Snapshot and restore (`snapshot.go`) -/

/-- The order of `sortConsumerOffsetStates` and `sortConsumerPauses`. -/
def consumerStateLE (left right : String × TopicPartition) : Bool :=
  if left.1 ≠ right.1 then left.1 < right.1
  else if left.2.topic ≠ right.2.topic then left.2.topic < right.2.topic
  else left.2.partition ≤ right.2.partition

/-- The order of `sortACLPolicies`: higher priority first, then deny before allow. -/
def aclPolicyLE (left right : ACLPolicy) : Bool :=
  let rank (effect : ACLPolicyEffect) : Nat := if effect = .deny then 0 else 1
  if left.priority ≠ right.priority then left.priority > right.priority
  else if rank left.effect ≠ rank right.effect then rank left.effect < rank right.effect
  else left.policyID ≤ right.policyID

/-- The order of `sortDLQIndexes`. -/
def dlqIndexLE (left right : DLQIndexEntry) : Bool :=
  if left.dlqTopic ≠ right.dlqTopic then left.dlqTopic < right.dlqTopic
  else if left.dlqPartition ≠ right.dlqPartition then left.dlqPartition < right.dlqPartition
  else left.dlqOffset ≤ right.dlqOffset

/-- `MemoryStore.Snapshot`, without the message maps. -/
def snapshot (s : MemoryStore) : Snapshot :=
  { topics := s.topics.values
    offsets := s.offsets
    offsetStates := (s.offsetStates.toList.map Prod.snd).insertionSort fun left right =>
      consumerStateLE (left.consumer, left.topicPartition) (right.consumer, right.topicPartition)
    consumerPauses := (s.consumerPauses.toList.map Prod.snd).insertionSort fun left right =>
      consumerStateLE (left.consumer, left.topicPartition) (right.consumer, right.topicPartition)
    placements := s.placements.toList.map Prod.snd
    members := (s.members.toList.map Prod.snd).map sortTopics
    assignments := s.assignments.toList.map Prod.snd
    transactions := s.transactions.toList.map Prod.snd
    producerBatches := (s.producerBatches.toList.map Prod.snd).insertionSort fun left right =>
      producerBatchLE left right
    aclPolicies := (s.aclPolicies.toList.map Prod.snd).insertionSort fun left right =>
      aclPolicyLE left right
    dlqIndexes := (s.dlqIndexes.toList.map Prod.snd).insertionSort fun left right =>
      dlqIndexLE left right
    nextTransactionID := s.nextTxID
    brokerState := s.brokerState }

/-- A list of values put under their keys, later ones winning; values that fail `keep` are
passed over. All the `restoreMemory*` loops over lists have this shape. -/
def restoreTable {K V : Type} [Ord K] [Std.TransOrd K] (key : V → K) (keep : V → Bool) (values : List V) :
    Map K V :=
  values.foldl (fun table value => if keep value then table.insert (key value) value else table) ∅

def restoreMemoryTopics (topics : List TopicConfig) : OrderedMap String TopicConfig :=
  topics.foldl (fun out topic => out.set (normalizeTopic topic).name (normalizeTopic topic)) .empty

def restoreMemoryOffsetStates (states : List ConsumerOffsetState) (offsets : Map String Nat) :
    Map String ConsumerOffsetState :=
  let fromOffsets := offsets.toList.foldl (fun out e =>
    match consumerOffsetStateFromKey e.1 e.2 with
    | some state => out.insert e.1 state
    | none => out) ∅
  states.foldl (fun out state =>
    match validateConsumerState state.consumer state.topic with
    | .ok () => out.insert (offsetKey state.consumer state.topicPartition) state
    | .error _ => out) fromOffsets

def restoreMemoryNextTransactionID (snapshot : Snapshot) : Nat :=
  snapshot.transactions.foldl (fun next state => if state.txID ≥ next then state.txID + 1 else next)
    (if snapshot.nextTransactionID = 0 then 1 else snapshot.nextTransactionID)

/-- `restoreMemoryRecords`: the first record key that does not parse is an error. -/
def checkRecordKeys : List (String × List Record) → Except Error Unit
  | [] => .ok ()
  | (key, _) :: rest => do
    let _ ← parsePartitionKey key
    checkRecordKeys rest

def restore (_ : MemoryStore) (snapshot : Snapshot) : Except Error MemoryStore := do
  checkRecordKeys snapshot.records.toList
  .ok { topics := restoreMemoryTopics snapshot.topics
        offsets := snapshot.offsets
        offsetStates := restoreMemoryOffsetStates snapshot.offsetStates snapshot.offsets
        consumerPauses := restoreTable
          (fun state => consumerPauseKey state.consumer state.topicPartition)
          (fun state => (validateConsumerState state.consumer state.topic).isOk && state.paused)
          snapshot.consumerPauses
        placements := restoreTable ShardPlacement.topicPartition
          (fun placement => (validateShardPlacement placement).isOk) snapshot.placements
        members := restoreTable (fun member => groupMemberKey member.group member.memberID)
          (fun _ => true) (snapshot.members.map sortTopics)
        assignments := restoreTable ConsumerGroupAssignment.group (fun _ => true)
          snapshot.assignments
        transactions := restoreTable TransactionState.txID (fun state => state.txID ≠ 0)
          snapshot.transactions
        producerBatches := restoreTable producerBatchKey
          (fun batch => (validateProducerBatch batch).isOk) snapshot.producerBatches
        aclPolicies := restoreTable ACLPolicy.policyID
          (fun policy => (validateACLPolicy policy).isOk) snapshot.aclPolicies
        dlqIndexes := restoreTable dlqEntryKey
          (fun entry => (validateDLQIndexEntry entry).isOk) snapshot.dlqIndexes
        nextTxID := restoreMemoryNextTransactionID snapshot
        brokerState := snapshot.brokerState }

end MemoryStore

end Ech0.Store
