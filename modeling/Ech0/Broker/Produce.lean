/-
  Producing: message priorities, the choice of a partition, the duplicate window of idempotent
  producers, and the three produce commands.
-/
import Ech0.Broker.Topics

set_option autoImplicit false

namespace Ech0.Broker

open Ech0.Lib Ech0.Store

/-! ## Headers (`retry_delay.go`) -/

/-- `upsertHeader`: the first header of the key gets the value, or a new one is added. -/
def upsertHeader (headers : List RecordHeader) (key value : String) : List RecordHeader :=
  match headers with
  | [] => [header key value]
  | h :: rest => if h.key = key then header key value :: rest else h :: upsertHeader rest key value

def removeHeaders (headers : List RecordHeader) (keys : List String) : List RecordHeader :=
  headers.filter fun h => h.key ∉ keys

/-! ## Priorities (`priority.go`) -/

def priorityHeader : String := "x-ech0-priority"

def priorityFromHeaders : List RecordHeader → Except Error (Option Nat)
  | [] => .ok none
  | h :: rest =>
    if h.key = priorityHeader then
      match parseUint 8 (stringOfBytes h.value) with
      | .ok priority => .ok (some priority)
      | .error err =>
        .error (brokerStoreError .codec ("invalid priority header " ++ priorityHeader ++ ": " ++ err))
    else priorityFromHeaders rest

def normalizeRecordPriority (topic : TopicConfig) (record : RecordAppend) :
    Except Error RecordAppend := do
  let policy := normalizeTopicPriorityPolicy topic.priorityPolicy
  if policy.enabled then
    let given ← priorityFromHeaders record.headers
    let priority := given.getD policy.default
    if priority < policy.min ∨ priority > policy.max then
      .error (brokerStoreError .invalidArgument
        ("message priority " ++ showNat priority ++ " is outside topic " ++ topic.name ++ " range "
          ++ showNat policy.min ++ ".." ++ showNat policy.max))
    else
      .ok { record with headers := upsertHeader record.headers priorityHeader (showNat priority) }
  else .ok record

def normalizeRecordsPriority (topic : TopicConfig) (records : List RecordAppend) :
    Except Error (List RecordAppend) :=
  if (normalizeTopicPriorityPolicy topic.priorityPolicy).enabled then
    records.mapM (normalizeRecordPriority topic)
  else .ok records

def normalizeRecordPriorityForTopic (topicName : String) (record : RecordAppend) :
    Handling RecordAppend := do
  let topic ← loadTopicConfig topicName
  Prog.ofExcept (normalizeRecordPriority topic record)

def normalizeRecordsPriorityForTopic (topicName : String) (records : List RecordAppend) :
    Handling (List RecordAppend) := do
  let topic ← loadTopicConfig topicName
  Prog.ofExcept (normalizeRecordsPriority topic records)

/-! ## Choosing a partition (`service_helpers.go`, `router.go`, `routing_key.go`) -/

/-- The modes of `PublishPartitioning`; any other text means round robin. -/
inductive PartitionMode where
  | explicit
  | roundRobin
  | keyHash
  | routingKeyHash
  | other (mode : String)
  deriving DecidableEq

structure PublishPartitioning where
  mode : PartitionMode
  partition : UInt32 := 0
  routingKey : String := ""
  deriving DecidableEq

def routingKeyHeader : String := "x-ech0-routing-key"

def appendRoutingKey (record : RecordAppend) : String := headerString record.headers routingKeyHeader

def firstRecordKey (records : List RecordAppend) : Bytes :=
  ((records.find? fun record => record.key ≠ []).map RecordAppend.key).getD []

def partitionRoutingKey (partitioning : PublishPartitioning) (records : List RecordAppend) :
    String :=
  if partitioning.routingKey ≠ "" then partitioning.routingKey
  else ((records.map appendRoutingKey).find? fun key => key ≠ "").getD ""

def withResolvedRoutingKey (partitioning : PublishPartitioning) (records : List RecordAppend) :
    PublishPartitioning :=
  if partitioning.mode ≠ .routingKeyHash ∨ partitioning.routingKey ≠ "" then partitioning
  else { partitioning with routingKey := partitionRoutingKey partitioning records }

/-- `singleOrderingKey`: every record has the same, non-empty key. -/
def singleOrderingKey (records : List RecordAppend) : Bool :=
  let first := firstRecordKey records
  first ≠ [] ∧ ∀ record ∈ records, record.key = first

def singleOrderingRoutingKey (partitioning : PublishPartitioning) (records : List RecordAppend) :
    Option String :=
  let first := partitionRoutingKey partitioning records
  if first ≠ "" ∧ ∀ record ∈ records, appendRoutingKey record = "" ∨ appendRoutingKey record = first
  then some first
  else none

def resolveTopicOrderingPartitioning (topic : TopicConfig) (partitioning : PublishPartitioning)
    (records : List RecordAppend) : Except Error PublishPartitioning :=
  match topic.orderingPolicy with
  | .none => .ok (withResolvedRoutingKey partitioning records)
  | .partition => .ok (withResolvedRoutingKey partitioning records)
  | .key =>
    if singleOrderingKey records then .ok { partitioning with mode := .keyHash }
    else
      .error (brokerStoreError .invalidArgument
        ("topic " ++ topic.name ++ " requires one non-empty key per ordered batch"))
  | .routingKey =>
    match singleOrderingRoutingKey partitioning records with
    | some routingKey => .ok { partitioning with mode := .routingKeyHash, routingKey := routingKey }
    | none =>
      .error (brokerStoreError .invalidArgument
        ("topic " ++ topic.name ++ " requires one non-empty routing key per ordered batch"))
  | .other policy => .error (invalidOrderingPolicy topic policy)

/-- `selectPartition`. A remainder by a `uint32` fits one, so `safeUint64ToUint32` keeps it. -/
def selectPartition (cfg : Config) (topic : TopicConfig) (partitioning : PublishPartitioning)
    (key : Bytes) : Handling UInt32 :=
  if topic.partitions = 0 then
    Prog.fail (brokerStoreError .invalidArgument ("topic " ++ topic.name ++ " has zero partitions"))
  else
    match partitioning.mode with
    | .explicit =>
      if partitioning.partition ≥ topic.partitions then
        Prog.fail (brokerStoreError .partitionNotFound
          ("partition " ++ topic.name ++ "/" ++ showUInt32 partitioning.partition ++ " not found"))
      else pure partitioning.partition
    | .keyHash =>
      if key = [] then
        Prog.fail (brokerStoreError .invalidArgument
          "key_hash partitioning requires a non-empty key")
      else pure (UInt32.ofNat (cfg.sum64 key % topic.partitions.toNat))
    | .routingKeyHash =>
      if partitioning.routingKey = "" then
        Prog.fail (brokerStoreError .invalidArgument
          "routing_key_hash partitioning requires a non-empty routing key")
      else
        pure (UInt32.ofNat
          (cfg.sum64 (bytesOfString partitioning.routingKey) % topic.partitions.toNat))
    | _ => Prog.perform (I := calls) (.nextRoundRobin topic)

/-! ## Idempotent producers (`producer_idempotency.go`, `transaction_dedupe.go`) -/

structure ProduceIdempotency where
  producerID : Nat
  producerEpoch : Nat
  baseSequence : Nat
  deriving DecidableEq

def producerDedupeWindowBatches : Nat := 1024

def sequenceAfterCount (base count : Nat) : Except Error Nat :=
  if base > maxUint64 - count then
    .error (brokerStoreError .invalidArgument "transaction sequence overflows uint64")
  else .ok (base + count)

def producerRecordCount (records : Nat) : Except Error Nat :=
  if records = 0 then
    .error (brokerStoreError .invalidArgument "idempotent publish requires at least one record")
  else .ok records

def validateProduceIdempotency (id : ProduceIdempotency) (recordCount : Nat) : Except Error Unit :=
  if id.producerID = 0 then
    .error (brokerStoreError .invalidArgument "producer_id is required for idempotent publish")
  else do
    let _ ← sequenceAfterCount id.baseSequence recordCount
    .ok ()

def ensureProducerEpochWritable (id : ProduceIdempotency) :
    List ProducerPublishedBatch → Except Error Unit
  | [] => .ok ()
  | batch :: rest =>
    if batch.producerEpoch > id.producerEpoch then
      .error (brokerStoreError .invalidArgument
        ("producer " ++ showNat id.producerID ++ " epoch " ++ showNat id.producerEpoch
          ++ " is fenced by epoch " ++ showNat batch.producerEpoch))
    else ensureProducerEpochWritable id rest

def producerBatchOverlapsSequence (batch : ProducerPublishedBatch) (sequence : Nat) :
    Except Error Bool := do
  let next ← sequenceAfterCount batch.baseSequence batch.recordCount
  .ok (sequence ≥ batch.baseSequence ∧ sequence < next)

def findProducerPublishedBatch (id : ProduceIdempotency) (recordCount : Nat) :
    List ProducerPublishedBatch → Except Error (Option ProducerPublishedBatch)
  | [] => .ok none
  | batch :: rest => do
    if batch.producerEpoch ≠ id.producerEpoch then findProducerPublishedBatch id recordCount rest
    else if ← producerBatchOverlapsSequence batch id.baseSequence then
      if batch.baseSequence ≠ id.baseSequence ∨ batch.recordCount ≠ recordCount then
        .error (brokerStoreError .invalidArgument
          ("producer duplicate sequence " ++ showNat id.baseSequence
            ++ " does not match published batch"))
      else .ok (some batch)
    else findProducerPublishedBatch id recordCount rest

/-- The filter of `loadProducerDedupeBatches`. -/
def dedupeFilter (id : ProduceIdempotency) (tp : TopicPartition) :
    MemoryStore.ProducerBatchFilter :=
  { producerID := id.producerID, topic := tp.topic, partition := some tp.partition }

def loadProducerDedupeBatches (tp : TopicPartition) (id : ProduceIdempotency) (recordCount : Nat) :
    Handling (List ProducerPublishedBatch) := do
  Prog.ofExcept (validateProduceIdempotency id recordCount)
  let batches ← wrapBroker "list producer batches"
    (onMeta (.listProducerBatches (dedupeFilter id tp)))
  Prog.ofExcept (ensureProducerEpochWritable id batches)
  pure batches

def validateProducerPublishedRecords (batch : ProducerPublishedBatch) (records : List Record) :
    Except Error Unit :=
  if records.length ≠ batch.recordCount then
    .error (brokerStoreError .unavailable "published producer batch is not fully readable")
  else if records.head?.map Record.offset ≠ some batch.baseOffset ∨
      records.getLast?.map Record.offset ≠ some batch.lastOffset then
    .error (brokerStoreError .unavailable "published producer batch offsets changed")
  else .ok ()

def readProducerPublishedBatch (cfg : Config) (batch : ProducerPublishedBatch) :
    Handling (List Record) := do
  let records ← wrapBroker "read published producer batch"
    (MessageRuntime.readFrom cfg ⟨batch.topic, batch.partition⟩ batch.baseOffset batch.recordCount)
  Prog.ofExcept (validateProducerPublishedRecords batch records)
  pure records

/-- The loop of `validateProducerPublishedOffsets` and `validateContiguousPublishedOffsets`, from
position `index` on; the two differ in the texts of their errors. -/
def validateContiguousOffsets (overflow gap : String) (baseOffset : Nat) :
    Nat → List Record → Except Error Unit
  | _, [] => .ok ()
  | index, record :: rest =>
    if baseOffset > maxUint64 - index then .error (brokerStoreError .invalidArgument overflow)
    else if record.offset ≠ baseOffset + index then .error (brokerStoreError .codec gap)
    else validateContiguousOffsets overflow gap baseOffset (index + 1) rest

def validateProducerPublishedOffsets (baseOffset : Nat) (records : List Record) :
    Except Error Unit :=
  validateContiguousOffsets "producer offset overflows uint64"
    "idempotent publish returned non-contiguous offsets" baseOffset 0 records

/-- `newProducerPublishedBatch`, for the clock reading `nowMS`. -/
def newProducerPublishedBatch (nowMS : Nat) (id : ProduceIdempotency) (tp : TopicPartition)
    (records : List Record) : Except Error ProducerPublishedBatch :=
  match records.head?, records.getLast? with
  | some first, some last => do
    validateProducerPublishedOffsets first.offset records
    let count ← producerRecordCount records.length
    if last.offset = maxUint64 then
      .error (brokerStoreError .invalidArgument "producer offset overflows uint64")
    else
      .ok { producerID := id.producerID
            producerEpoch := id.producerEpoch
            topic := tp.topic
            partition := tp.partition
            baseSequence := id.baseSequence
            recordCount := count
            baseOffset := first.offset
            lastOffset := last.offset
            nextOffset := last.offset + 1
            updatedAtMS := nowMS }
  | _, _ => .error (brokerStoreError .codec "idempotent publish returned no records")

/-- The order in which `pruneProducerDedupeWindow` gives batches up: oldest first. -/
def dedupeAgeLE (left right : ProducerPublishedBatch) : Bool :=
  if left.updatedAtMS ≠ right.updatedAtMS then left.updatedAtMS < right.updatedAtMS
  else if left.producerEpoch ≠ right.producerEpoch then left.producerEpoch < right.producerEpoch
  else left.baseSequence ≤ right.baseSequence

def pruneProducerDedupeWindow (id : ProduceIdempotency) (tp : TopicPartition) : Handling Unit := do
  let batches ← wrapBroker "list producer batches for pruning"
    (onMeta (.listProducerBatches (dedupeFilter id tp)))
  if batches.length ≤ producerDedupeWindowBatches then pure ()
  else
    let ordered := batches.insertionSort fun left right => dedupeAgeLE left right
    Prog.forEach
      (fun batch => wrapBroker "delete producer batch" (onMeta (.deleteProducerBatch batch)))
      (ordered.take (batches.length - producerDedupeWindowBatches))

/-- `saveProducerDedupeBatch`. The clock is read only when a batch is made; an error before that
is the same whatever the reading. -/
def saveProducerDedupeBatch (id : ProduceIdempotency) (tp : TopicPartition)
    (records : List Record) : Handling Unit := do
  let now ← nowMS
  let batch ← Prog.ofExcept (newProducerPublishedBatch now id tp records)
  wrapBroker "save producer batch" (onMeta (.saveProducerBatch batch))
  pruneProducerDedupeWindow id tp

/-! ## Produce commands (`service_apply.go`, `service_commands.go`, `producer_idempotency.go`) -/

structure ProduceCommand where
  topic : String
  partitioning : PublishPartitioning
  record : RecordAppend
  idempotency : Option ProduceIdempotency := none

structure ProduceBatchCommand where
  topic : String
  partitioning : PublishPartitioning
  records : List RecordAppend
  idempotency : Option ProduceIdempotency := none

structure ProduceResult where
  partition : UInt32
  record : Record
  deriving DecidableEq

structure ProduceBatchResult where
  partition : UInt32 := 0
  records : List Record := []
  deriving DecidableEq

structure ProduceBatchItemResult where
  result : ProduceBatchResult := {}
  error : String := ""
  appended : Bool := false
  deriving DecidableEq

def validateBatchPayload (cfg : Config) (records : List RecordAppend) : Except Error Unit :=
  let totalBytes := (records.map fun record => record.payload.length).sum
  if totalBytes > cfg.maxBatchPayloadBytes then
    .error (brokerStoreError .invalidArgument
      ("batch payload size " ++ showNat totalBytes ++ " exceeds limit "
        ++ showNat cfg.maxBatchPayloadBytes))
  else .ok ()

/-- The end of `appendIdempotentProduceBatch`: a batch already in the window is read back. -/
def answerBatch (cfg : Config) (tp : TopicPartition) (id : ProduceIdempotency)
    (records : List RecordAppend) : Option ProducerPublishedBatch → Handling (List Record × Bool)
  | some batch => do
    let published ← readProducerPublishedBatch cfg batch
    pure (published, false)
  | none => do
    let appended ← wrapBroker "publish record batch" (MessageRuntime.publishBatchRecords cfg tp records)
    saveProducerDedupeBatch id tp appended
    pure (appended, true)

def appendIdempotentProduceBatch (cfg : Config) (tp : TopicPartition) (id : ProduceIdempotency)
    (records : List RecordAppend) : Handling (List Record × Bool) := do
  let recordCount ← Prog.ofExcept (producerRecordCount records.length)
  let batches ← loadProducerDedupeBatches tp id recordCount
  let found ← Prog.ofExcept (findProducerPublishedBatch id recordCount batches)
  answerBatch cfg tp id records found

def appendProduceBatch (cfg : Config) (tp : TopicPartition)
    (idempotency : Option ProduceIdempotency) (records : List RecordAppend) :
    Handling (List Record × Bool) :=
  match idempotency with
  | none => do
    let appended ← wrapBroker "publish record batch"
      (MessageRuntime.publishBatchRecords cfg tp records)
    pure (appended, true)
  | some id => appendIdempotentProduceBatch cfg tp id records

structure ProduceBatchPlan where
  index : Nat
  tp : TopicPartition
  request : ProduceBatchCommand

/-- `planProduceBatch`; `applyProduceBatchInternal` starts with the same steps. -/
def planProduceBatch (cfg : Config) (index : Nat) (req : ProduceBatchCommand) :
    Handling ProduceBatchPlan := do
  let topic ← loadTopicConfig req.topic
  Prog.ofExcept (validateBatchPayload cfg req.records)
  let records ← Prog.ofExcept (normalizeRecordsPriority topic req.records)
  let partitioning ← Prog.ofExcept
    (resolveTopicOrderingPartitioning topic req.partitioning records)
  let partition ← selectPartition cfg topic partitioning (firstRecordKey records)
  pure ⟨index, ⟨req.topic, partition⟩, { req with records := records, partitioning := partitioning }⟩

def applyProduceBatchInternal (cfg : Config) (req : ProduceBatchCommand) :
    Handling ProduceBatchItemResult := do
  let plan ← planProduceBatch cfg 0 req
  let (records, appended) ← appendProduceBatch cfg plan.tp req.idempotency plan.request.records
  pure { result := ⟨plan.tp.partition, records⟩, appended := appended }

def applyProduceBatch (cfg : Config) (req : ProduceBatchCommand) : Handling ProduceBatchResult := do
  let item ← applyProduceBatchInternal cfg req
  pure item.result

def applyProduce (cfg : Config) (req : ProduceCommand) : Handling ProduceResult := do
  match req.idempotency with
  | some id =>
    let batch ← applyProduceBatch cfg
      { topic := req.topic, partitioning := req.partitioning, records := [req.record],
        idempotency := some id }
    match batch.records with
    | [] => Prog.fail (brokerStoreError .codec "idempotent produce returned no records")
    | record :: _ => pure ⟨batch.partition, record⟩
  | none =>
    let topic ← loadTopicConfig req.topic
    let record ← Prog.ofExcept (normalizeRecordPriority topic req.record)
    let partitioning ← Prog.ofExcept
      (resolveTopicOrderingPartitioning topic req.partitioning [record])
    let partition ← selectPartition cfg topic partitioning record.key
    let appended ← wrapBroker "publish record"
      (MessageRuntime.publishRecord cfg ⟨req.topic, partition⟩ record)
    pure ⟨partition, appended⟩

/-! ## Coalesced batches (`service_apply_batches.go`) -/

structure ProduceBatchGroup where
  tp : TopicPartition
  indexes : List Nat

/-- `groupProduceBatchPlans`. The groups are visited in map order, which can be any; they are
listed here in the order of their first plan. -/
def groupProduceBatchPlans (plans : List ProduceBatchPlan) : List ProduceBatchGroup :=
  plans.foldl (fun groups plan =>
    if groups.any fun group => group.tp = plan.tp then
      groups.map fun group =>
        if group.tp = plan.tp then { group with indexes := group.indexes ++ [plan.index] } else group
    else groups ++ [⟨plan.tp, [plan.index]⟩]) []

/-- The first loop of `applyProduceBatches`: the plans, and the items with the errors of the
requests that have none. -/
def planProduceBatches (cfg : Config) :
    Nat → List ProduceBatchCommand → Handling (List ProduceBatchPlan × List ProduceBatchItemResult)
  | _, [] => pure ([], [])
  | index, req :: rest => do
    let planned ← Prog.attempt (planProduceBatch cfg index req)
    let (plans, items) ← planProduceBatches cfg (index + 1) rest
    match planned with
    | .ok plan => pure (plan :: plans, {} :: items)
    | .error err => pure (plans, { error := err.message } :: items)

def setProduceBatchGroupError (err : Error) (indexes : List Nat)
    (items : List ProduceBatchItemResult) : List ProduceBatchItemResult :=
  indexes.foldl (fun items index =>
    items.modify index fun item => { item with error := err.message }) items

/-- The planned requests of a group, with their positions. -/
def ProduceBatchGroup.requests (group : ProduceBatchGroup) (plans : List ProduceBatchPlan) :
    List (Nat × ProduceBatchCommand) :=
  group.indexes.filterMap fun index =>
    (plans.find? fun plan => plan.index = index).map fun plan => (index, plan.request)

/-- `splitProduceBatchGroupRecords`, given the records not yet handed out. -/
def splitProduceBatchGroupRecords (tp : TopicPartition) :
    List (Nat × ProduceBatchCommand) → List Record → List ProduceBatchItemResult →
      List ProduceBatchItemResult × Option Error
  | [], [], items => (items, none)
  | [], records, items =>
    (items, some (brokerStoreError .codec
      ("produce batch group returned " ++ showNat records.length ++ " unassigned records")))
  | (index, req) :: rest, records, items =>
    let count := req.records.length
    if count > records.length then
      (items, some (brokerStoreError .codec "produce batch group result length mismatch"))
    else
      splitProduceBatchGroupRecords tp rest (records.drop count)
        (items.set index { result := ⟨tp.partition, records.take count⟩, appended := true })

def applyProduceBatchGroupIndividually (cfg : Config) (tp : TopicPartition) :
    List (Nat × ProduceBatchCommand) → List ProduceBatchItemResult →
      Handling (List ProduceBatchItemResult)
  | [], items => pure items
  | (index, req) :: rest, items => do
    match ← Prog.attempt (applyProduceBatchInternal cfg
        { req with partitioning := ⟨.explicit, tp.partition, ""⟩ }) with
    | .ok item => applyProduceBatchGroupIndividually cfg tp rest (items.set index item)
    | .error err =>
      applyProduceBatchGroupIndividually cfg tp rest
        (items.modify index fun item => { item with error := err.message })

def applyProduceBatchGroup (cfg : Config) (plans : List ProduceBatchPlan)
    (group : ProduceBatchGroup) (items : List ProduceBatchItemResult) :
    Handling (List ProduceBatchItemResult) := do
  let requests := group.requests plans
  if requests.any fun e => e.2.idempotency.isSome then
    applyProduceBatchGroupIndividually cfg group.tp requests items
  else
    match ← Prog.attempt (MessageRuntime.publishBatchRecords cfg group.tp
        (requests.flatMap fun e => e.2.records)) with
    | .error err =>
      pure (setProduceBatchGroupError (err.wrap "publish record batch") group.indexes items)
    | .ok records =>
      match splitProduceBatchGroupRecords group.tp requests records items with
      | (items, none) => pure items
      | (items, some err) => pure (setProduceBatchGroupError err group.indexes items)

/-- The second loop of `applyProduceBatches`. -/
def applyProduceBatchGroups (cfg : Config) (plans : List ProduceBatchPlan) :
    List ProduceBatchGroup → List ProduceBatchItemResult → Handling (List ProduceBatchItemResult)
  | [], items => pure items
  | group :: rest, items => do
    let items ← applyProduceBatchGroup cfg plans group items
    applyProduceBatchGroups cfg plans rest items

def applyProduceBatches (cfg : Config) (requests : List ProduceBatchCommand) :
    Handling (List ProduceBatchItemResult) := do
  let (plans, items) ← planProduceBatches cfg 0 requests
  applyProduceBatchGroups cfg plans (groupProduceBatchPlans plans) items

end Ech0.Broker
