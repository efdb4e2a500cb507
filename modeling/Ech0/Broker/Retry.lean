/-
  Retries, delays and dead letters: the commands that move records through auxiliary topics,
  and the two paths that write dead letters outside a command (poison messages and message
  expiry).
-/
import Ech0.Broker.Transactions

set_option autoImplicit false

namespace Ech0.Broker

open Ech0.Lib Ech0.Store

/-! ## Headers (`retry_delay.go`) -/

def retryHeaderOriginalTopic : String := "x-retry-original-topic"
def retryHeaderOriginalPartition : String := "x-retry-original-partition"
def retryHeaderOriginalOffset : String := "x-retry-original-offset"
def retryHeaderRetryCount : String := "x-retry-count"
def retryHeaderDeliverAtMS : String := "x-retry-deliver-at-ms"
def retryHeaderLastError : String := "x-retry-last-error"
def retryHeaderFailedConsumer : String := "x-retry-failed-consumer"
def delayHeaderDeliverAtMS : String := "x-delay-deliver-at-ms"
def delayHeaderTargetTopic : String := "x-delay-target-topic"
def delayHeaderTargetPartition : String := "x-delay-target-partition"
def dlqHeaderOriginalTopic : String := "x-dlq-original-topic"
def dlqHeaderOriginalPartition : String := "x-dlq-original-partition"
def dlqHeaderOriginalOffset : String := "x-dlq-original-offset"
def dlqHeaderRetryCount : String := "x-dlq-retry-count"
def dlqHeaderErrorCode : String := "x-dlq-error-code"
def dlqHeaderErrorMessage : String := "x-dlq-error-message"
def dlqErrorCodeRetryExhausted : String := "retry_exhausted"
def dlqErrorCodeMessageExpired : String := "message_expired"
def dlqErrorCodePoisonMessage : String := "poison_message"

def internalDLQAndRetryHeaders : List String :=
  [retryHeaderOriginalTopic, retryHeaderOriginalPartition, retryHeaderOriginalOffset,
   retryHeaderRetryCount, retryHeaderDeliverAtMS, retryHeaderLastError, retryHeaderFailedConsumer,
   dlqHeaderOriginalTopic, dlqHeaderOriginalPartition, dlqHeaderOriginalOffset,
   dlqHeaderRetryCount, dlqHeaderErrorCode, dlqHeaderErrorMessage]

/-- `headerUint64` and `headerUint32`, for a width in bits. -/
def headerUint (bits : Nat) (headers : List RecordHeader) (key : String) :
    Except Error (Option Nat) :=
  let raw := headerString headers key
  if raw = "" then .ok none
  else
    match parseUint bits raw with
    | .ok value => .ok (some value)
    | .error err => .error (brokerStoreError .codec ("invalid header " ++ key ++ ": " ++ err))

def headerUint64 (headers : List RecordHeader) (key : String) : Except Error (Option Nat) :=
  headerUint 64 headers key

def headerUint32 (headers : List RecordHeader) (key : String) : Except Error (Option UInt32) :=
  (headerUint 32 headers key).map fun value => value.map UInt32.ofNat

/-- `requiredHeaderUint64` and `requiredHeaderUint32`, on the value of the header. -/
def requiredHeader {α : Type} (key : String) (value : Except Error (Option α)) : Except Error α := do
  match ← value with
  | some value => .ok value
  | none => .error (brokerStoreError .codec ("record missing " ++ key ++ " header"))

/-- `upsertHeader` for each of a list of keys and values, in order. -/
def upsertHeaders (headers : List RecordHeader) (values : List (String × String)) :
    List RecordHeader :=
  values.foldl (fun headers e => upsertHeader headers e.1 e.2) headers

def valueOr (value fallback : String) : String := if value = "" then fallback else value

/-- `cloneAsAppend`: the record without its transaction. -/
def cloneAsAppend (record : Record) : RecordAppend :=
  { timestampMS := some record.timestampMS
    expiresAtMS := record.expiresAtMS
    key := record.key
    headers := record.headers
    attributes := record.attributes
    payload := record.payload }

def readRecordAtOffset (cfg : Config) (tp : TopicPartition) (offset : Nat) : Handling Record := do
  match ← wrapBroker "read record by offset" (MessageRuntime.readFrom cfg tp offset 1) with
  | record :: _ =>
    if record.offset = offset then pure record
    else Prog.fail (recordNotFound tp offset)
  | [] => Prog.fail (recordNotFound tp offset)
where
  recordNotFound (tp : TopicPartition) (offset : Nat) : Error :=
    brokerStoreError .invalidArgument
      ("record " ++ tp.topic ++ "/" ++ showUInt32 tp.partition ++ "@" ++ showNat offset
        ++ " not found")

/-! ## The dead-letter index (`dlq_index.go`) -/

/-- `dlqIndexEntryFromStore`; the other fields of `dlqRecordFromStore` are copies. -/
def dlqIndexEntryFromStore (dlqTopic : String) (partition : UInt32) (record : Record) :
    Except Error DLQIndexEntry := do
  let originalPartition ← requiredHeader dlqHeaderOriginalPartition
    (headerUint32 record.headers dlqHeaderOriginalPartition)
  let originalOffset ← requiredHeader dlqHeaderOriginalOffset
    (headerUint64 record.headers dlqHeaderOriginalOffset)
  let retryCount ← requiredHeader dlqHeaderRetryCount
    (headerUint32 record.headers dlqHeaderRetryCount)
  .ok { dlqTopic := dlqTopic
        dlqPartition := partition
        dlqOffset := record.offset
        timestampMS := record.timestampMS
        originalTopic := headerString record.headers dlqHeaderOriginalTopic
        originalPartition := originalPartition
        originalOffset := originalOffset
        errorCode := headerString record.headers dlqHeaderErrorCode
        retryCount := retryCount.toNat }

def saveDLQIndexFromRecord (dlqTopic : String) (partition : UInt32) (record : Record) :
    Handling Unit := do
  let entry ← Prog.ofExcept (dlqIndexEntryFromStore dlqTopic partition record)
  wrapBroker "save dlq index" (onMeta (.saveDLQIndex entry))

/-- The dead-letter topic of a topic: its own, or the one named after it
(`expiredMessageDLQTopic`; `moveRetryRecord` and `isolatePoisonRecord` have it in line). -/
def deadLetterTopicFor (topic : TopicConfig) (name : String) : String :=
  match topic.deadLetterTopic with
  | some deadLetterTopic => if deadLetterTopic ≠ "" then deadLetterTopic else dlqTopicName name
  | none => dlqTopicName name

/-- What the three builders of dead letters share: the record under its key, without an expiry,
with the headers `keep` and the six headers of the index. -/
def deadLetterAppend (record : Record) (keep : List RecordHeader) (topic : String)
    (partition : UInt32) (offset : Nat) (retryCount errorCode errorMessage : String) :
    RecordAppend :=
  { timestampMS := some record.timestampMS
    key := record.key
    attributes := record.attributes
    headers := upsertHeaders keep
      [(dlqHeaderOriginalTopic, topic),
       (dlqHeaderOriginalPartition, showUInt32 partition),
       (dlqHeaderOriginalOffset, showNat offset),
       (dlqHeaderRetryCount, retryCount),
       (dlqHeaderErrorCode, errorCode),
       (dlqHeaderErrorMessage, errorMessage)]
    payload := record.payload }

/-! ## Retry (`retry_apply.go`, `retry_helpers.go`, `retry.go`) -/

structure NackCommand where
  consumer : String
  topic : String
  partition : UInt32
  offset : Nat
  lastError : Option String := none

structure ProcessRetryCommand where
  consumer : String
  sourceTopic : String
  partition : UInt32
  maxRecords : Nat := 0
  nowMS : Nat := 0

structure RetryOrigin where
  topic : String
  partition : UInt32
  offset : Nat
  retryCount : UInt32 := 0

structure RetryResult where
  retryTopic : String
  retryPartition : UInt32
  retryOffset : Nat
  retryNextOffset : Nat
  retryCount : UInt32
  deliverAtMS : Nat
  deriving DecidableEq

structure ProcessRetryResult where
  retryTopic : String
  partition : UInt32
  movedToOrigin : Nat := 0
  movedToDeadLetter : Nat := 0
  committedNextOffset : Option Nat := none
  deriving DecidableEq

def retryOriginFromRecord (record : Record) (topic : String) (partition : UInt32) :
    Except Error RetryOrigin := do
  let originPartition ← headerUint32 record.headers retryHeaderOriginalPartition
  let originOffset ← headerUint64 record.headers retryHeaderOriginalOffset
  let retryCount ← headerUint32 record.headers retryHeaderRetryCount
  .ok { topic := valueOr (headerString record.headers retryHeaderOriginalTopic) topic
        partition := originPartition.getD partition
        offset := originOffset.getD record.offset
        retryCount := retryCount.getD 0 }

def retryBackoffMS (retryCount : UInt32) (policy : TopicRetryPolicy) : Handling Nat :=
  Prog.perform (I := calls) (.retryBackoffMS retryCount policy)

def retryRecordAppend (req : NackCommand) (sourceRecord : Record) (origin : RetryOrigin)
    (nextRetryCount : UInt32) (deliverAtMS : Nat) : RecordAppend :=
  let retryRecord := cloneAsAppend sourceRecord
  { retryRecord with
    headers := upsertHeaders retryRecord.headers
      [(retryHeaderOriginalTopic, origin.topic),
       (retryHeaderOriginalPartition, showUInt32 origin.partition),
       (retryHeaderOriginalOffset, showNat origin.offset),
       (retryHeaderRetryCount, showUInt32 nextRetryCount),
       (retryHeaderDeliverAtMS, showNat deliverAtMS),
       (retryHeaderLastError, valueOr (req.lastError.getD "") "unknown"),
       (retryHeaderFailedConsumer, req.consumer)] }

def publishRetryRecord (cfg : Config) (req : NackCommand) (sourceRecord : Record)
    (origin : RetryOrigin) (sourceTopic : TopicConfig) (retryTopic : String) :
    Handling RetryResult := do
  let nextRetryCount := origin.retryCount + 1
  let now ← nowMS
  let backoff ← retryBackoffMS nextRetryCount sourceTopic.retryPolicy
  let deliverAtMS := addUint64 now backoff
  let appended ← wrapBroker "publish retry record"
    (MessageRuntime.publishRecord cfg ⟨retryTopic, origin.partition⟩
      (retryRecordAppend req sourceRecord origin nextRetryCount deliverAtMS))
  pure { retryTopic := retryTopic, retryPartition := origin.partition,
         retryOffset := appended.offset, retryNextOffset := appended.offset + 1,
         retryCount := nextRetryCount, deliverAtMS := deliverAtMS }

def applyNack (cfg : Config) (req : NackCommand) : Handling RetryResult := do
  if req.consumer = "" then
    Prog.fail (brokerStoreError .invalidArgument "consumer is required")
  else
    let sourceRecord ← readRecordAtOffset cfg ⟨req.topic, req.partition⟩ req.offset
    let origin ← Prog.ofExcept (retryOriginFromRecord sourceRecord req.topic req.partition)
    let sourceTopic ← loadTopicConfig origin.topic
    let retryTopic := retryTopicName origin.topic
    ensureAuxTopic cfg sourceTopic retryTopic
    publishRetryRecord cfg req sourceRecord origin sourceTopic retryTopic

def buildDLQAppend (retryRecord : Record) (origin : RetryOrigin) : RecordAppend :=
  deadLetterAppend retryRecord (removeHeaders retryRecord.headers [retryHeaderDeliverAtMS])
    origin.topic origin.partition origin.offset (showUInt32 origin.retryCount)
    dlqErrorCodeRetryExhausted
    (valueOr (headerString retryRecord.headers retryHeaderLastError) "unknown")

/-- `moveRetryRecord`: back to its topic, or, after the last attempt, to the dead letters;
whether it was dead-lettered. -/
def moveRetryRecord (cfg : Config) (retryRecord : Record) (origin : RetryOrigin)
    (originTopic : TopicConfig) : Handling Bool := do
  if origin.retryCount.toNat < originTopic.retryPolicy.maxAttempts then
    let record ← Prog.ofExcept (normalizeRecordPriority originTopic (cloneAsAppend retryRecord))
    let _ ← wrapBroker "publish retry record to origin topic"
      (MessageRuntime.publishRecord cfg ⟨origin.topic, origin.partition⟩ record)
    pure false
  else
    let deadLetterTopic := deadLetterTopicFor originTopic origin.topic
    ensureAuxTopic cfg originTopic deadLetterTopic
    let appended ← wrapBroker "publish retry record to dead letter topic"
      (MessageRuntime.publishRecord cfg ⟨deadLetterTopic, origin.partition⟩
        (buildDLQAppend retryRecord origin))
    saveDLQIndexFromRecord deadLetterTopic origin.partition appended
    pure true

def retryRecordReady (retryRecord : Record) (nowMS : Nat) : Except Error Bool := do
  match ← headerUint64 retryRecord.headers retryHeaderDeliverAtMS with
  | none => .ok true
  | some deliverAt => .ok (deliverAt ≤ nowMS)

def processDueRetryRecord (cfg : Config) (retryRecord : Record) (sourceTopic : String)
    (partition : UInt32) : Handling Bool := do
  let origin ← Prog.ofExcept (retryOriginFromRecord retryRecord sourceTopic partition)
  let originTopic ← loadTopicConfig origin.topic
  moveRetryRecord cfg retryRecord origin originTopic

def recordRetryMove (result : ProcessRetryResult) (deadLettered : Bool) : ProcessRetryResult :=
  if deadLettered then { result with movedToDeadLetter := result.movedToDeadLetter + 1 }
  else { result with movedToOrigin := result.movedToOrigin + 1 }

/-- The loop of `processFetchedRetryRecords`: it stops at the first record that is not due. The
offset after the last record moved is kept in the result. -/
def processFetchedRetryRecords (cfg : Config) (req : ProcessRetryCommand) (now : Nat) :
    ProcessRetryResult → List Record → Handling ProcessRetryResult
  | result, [] => pure result
  | result, retryRecord :: rest => do
    if ← Prog.ofExcept (retryRecordReady retryRecord now) then
      let deadLettered ← processDueRetryRecord cfg retryRecord req.sourceTopic req.partition
      processFetchedRetryRecords cfg req now
        { recordRetryMove result deadLettered with
          committedNextOffset := some (addUint64 retryRecord.offset 1) } rest
    else pure result

def applyProcessRetryBatch (cfg : Config) (req : ProcessRetryCommand) :
    Handling ProcessRetryResult := do
  if req.consumer = "" then
    Prog.fail (brokerStoreError .invalidArgument "consumer is required")
  else
    let maxRecords := if req.maxRecords = 0 then cfg.retryWorkerMaxRecords else req.maxRecords
    let retryTopic := retryTopicName req.sourceTopic
    let tp : TopicPartition := ⟨retryTopic, req.partition⟩
    let fetched ← wrapBroker "fetch retry records"
      (MessageRuntime.fetch cfg req.consumer tp none maxRecords)
    let now ← orNowMS req.nowMS
    let result ← processFetchedRetryRecords cfg req now
      { retryTopic := retryTopic, partition := req.partition } fetched.records
    match result.committedNextOffset with
    | none => pure result
    | some nextOffset =>
      wrapBroker "ack retry records" (MessageRuntime.ack cfg req.consumer tp nextOffset)
      pure result

/-! ## Delay (`delay.go`, `retry_delay.go`) -/

structure ScheduleDelayCommand where
  topic : String
  partition : UInt32
  payload : Bytes
  deliverAtMS : Nat

structure ProcessDelayCommand where
  consumer : String
  delayTopic : String
  defaultTargetTopic : String
  partition : UInt32
  maxRecords : Nat := 0
  nowMS : Nat := 0

structure DelayScheduleResult where
  delayTopic : String
  partition : UInt32
  offset : Nat
  nextOffset : Nat
  deliverAtMS : Nat
  deriving DecidableEq

def applyScheduleDelay (cfg : Config) (req : ScheduleDelayCommand) :
    Handling DelayScheduleResult := do
  let target ← loadTopicConfig req.topic
  if req.partition ≥ target.partitions then
    Prog.fail (brokerStoreError .partitionNotFound
      ("partition " ++ req.topic ++ "/" ++ showUInt32 req.partition ++ " not found"))
  else
    let delayTopic := delayTopicName req.topic
    ensureAuxTopic cfg target delayTopic
    let appended ← wrapBroker "publish delayed record"
      (MessageRuntime.publishRecord cfg ⟨delayTopic, req.partition⟩
        { headers :=
            [header delayHeaderDeliverAtMS (showNat req.deliverAtMS),
             header delayHeaderTargetTopic req.topic,
             header delayHeaderTargetPartition (showUInt32 req.partition)]
          payload := req.payload })
    pure { delayTopic := delayTopic, partition := req.partition, offset := appended.offset,
           nextOffset := appended.offset + 1, deliverAtMS := req.deliverAtMS }

def delayedRecordReady (record : Record) (nowMS : Nat) : Except Error Bool := do
  match ← headerUint64 record.headers delayHeaderDeliverAtMS with
  | some deliverAt => .ok (deliverAt ≤ nowMS)
  | none =>
    .error (brokerStoreError .codec ("delay record missing " ++ delayHeaderDeliverAtMS ++ " header"))

def forwardDelayedRecord (cfg : Config) (req : ProcessDelayCommand) (record : Record) :
    Handling Unit := do
  let targetTopic :=
    valueOr (headerString record.headers delayHeaderTargetTopic) req.defaultTargetTopic
  let parsed ← Prog.ofExcept (headerUint32 record.headers delayHeaderTargetPartition)
  let forwarded ← normalizeRecordPriorityForTopic targetTopic
    { cloneAsAppend record with
      headers := removeHeaders record.headers
        [delayHeaderDeliverAtMS, delayHeaderTargetTopic, delayHeaderTargetPartition] }
  let _ ← wrapBroker "forward delayed record"
    (MessageRuntime.publishRecord cfg ⟨targetTopic, parsed.getD req.partition⟩ forwarded)
  pure ()

/-- The loop of `forwardDueDelayedRecords`: the number moved and the offset after the last. -/
def forwardDueDelayedRecords (cfg : Config) (req : ProcessDelayCommand) (now : Nat) :
    Nat → Option Nat → List Record → Handling (Nat × Option Nat)
  | moved, commitNext, [] => pure (moved, commitNext)
  | moved, commitNext, record :: rest => do
    if ← Prog.ofExcept (delayedRecordReady record now) then
      forwardDelayedRecord cfg req record
      forwardDueDelayedRecords cfg req now (moved + 1) (some (addUint64 record.offset 1)) rest
    else pure (moved, commitNext)

/-- `applyProcessDelayPartition`: the number moved. -/
def applyProcessDelayPartition (cfg : Config) (req : ProcessDelayCommand) : Handling Nat := do
  let maxRecords := if req.maxRecords = 0 then cfg.delaySchedulerMaxRecords else req.maxRecords
  let delayTP : TopicPartition := ⟨req.delayTopic, req.partition⟩
  let committed ← wrapBroker "load delay consumer offset"
    (onMeta (.loadConsumerOffset req.consumer delayTP))
  let records ← wrapBroker "read delayed records"
    (MessageRuntime.readFrom cfg delayTP (committed.getD 0) maxRecords)
  let now ← orNowMS req.nowMS
  let (moved, commitNext) ← forwardDueDelayedRecords cfg req now 0 none records
  match commitNext with
  | none => pure moved
  | some nextOffset =>
    wrapBroker "save delay consumer offset" (saveConsumerOffset req.consumer delayTP nextOffset)
    pure moved

/-! ## Dead letters outside a command (`message_expiry.go`, `poison.go`) -/

def buildPoisonDLQAppend (record : Record) (sourceTopic : String) (partition : UInt32)
    (reason : String) : RecordAppend :=
  deadLetterAppend record (removeHeaders record.headers internalDLQAndRetryHeaders) sourceTopic
    partition record.offset "0" dlqErrorCodePoisonMessage (valueOr reason "poison message isolated")

/-- `isolatePoisonRecord`; the record it returns is the one it indexes. -/
def isolatePoisonRecord (cfg : Config) (scopedTopic : String) (partition : UInt32)
    (record : Record) (reason : String) : Handling DLQIndexEntry := do
  let sourceTopic ← loadTopicConfig scopedTopic
  let deadLetterTopic := deadLetterTopicFor sourceTopic scopedTopic
  ensureAuxTopic cfg sourceTopic deadLetterTopic
  let appended ← wrapBroker "publish poison message to dead letter topic"
    (MessageRuntime.publishRecord cfg ⟨deadLetterTopic, partition⟩
      (buildPoisonDLQAppend record scopedTopic partition reason))
  saveDLQIndexFromRecord deadLetterTopic partition appended
  Prog.ofExcept (dlqIndexEntryFromStore deadLetterTopic partition appended)

def messageExpiryScanBatch : Nat := 1024

def expiredMessageError (record : Record) : String :=
  match record.expiresAtMS with
  | none => "message expired"
  | some expiresAt => "message expired at " ++ showNat expiresAt

def buildExpiredMessageDLQAppend (record : Record) (sourceTopic : String) (partition : UInt32) :
    RecordAppend :=
  deadLetterAppend record (removeHeaders record.headers internalDLQAndRetryHeaders) sourceTopic
    partition record.offset "0" dlqErrorCodeMessageExpired (expiredMessageError record)

/-- `deadLetterExpiredRecords`: the number moved. -/
def deadLetterExpiredRecords (cfg : Config) (sourceTopic deadLetterTopic : String)
    (partition : UInt32) (nowMS : Nat) : List Record → Handling Nat
  | [] => pure 0
  | record :: rest => do
    if messageExpired record nowMS then
      let appended ← wrapBroker "publish expired message to dead letter topic"
        (MessageRuntime.publishRecord cfg ⟨deadLetterTopic, partition⟩
          (buildExpiredMessageDLQAppend record sourceTopic partition))
      saveDLQIndexFromRecord deadLetterTopic partition appended
      let moved ← deadLetterExpiredRecords cfg sourceTopic deadLetterTopic partition nowMS rest
      pure (moved + 1)
    else deadLetterExpiredRecords cfg sourceTopic deadLetterTopic partition nowMS rest

/-- The loop of `deadLetterExpiredPartitionMessages`, batch by batch. A topic that is its own
dead-letter topic grows while it is scanned, so the loop need not end; `fuel` bounds the number
of batches. -/
def deadLetterExpiredPartitionMessages (cfg : Config) (sourceTopic deadLetterTopic : String)
    (partition : UInt32) (nowMS : Nat) : Nat → Nat → Handling Nat
  | 0, _ => pure 0
  | fuel + 1, cursor => do
    let records ← wrapBroker "read records for message expiry"
      (MessageRuntime.readFrom cfg ⟨sourceTopic, partition⟩ cursor messageExpiryScanBatch)
    match records.getLast? with
    | none => pure 0
    | some last =>
      let moved ← deadLetterExpiredRecords cfg sourceTopic deadLetterTopic partition nowMS records
      if records.length < messageExpiryScanBatch then pure moved
      else
        let rest ← deadLetterExpiredPartitionMessages cfg sourceTopic deadLetterTopic partition
          nowMS fuel (last.offset + 1)
        pure (moved + rest)

/-- `deadLetterExpiredTopicMessages`. The dead-letter topic is made sure of before any record
has been looked at. -/
def deadLetterExpiredTopicMessages (cfg : Config) (fuel : Nat) (nowMS : Nat)
    (topic : TopicConfig) : Handling Nat := do
  if topic.messageExpiryAction ≠ .dlq ∨ isInternalTopicName topic.name then pure 0
  else
    let deadLetterTopic := deadLetterTopicFor topic topic.name
    ensureAuxTopic cfg topic deadLetterTopic
    let moved ← Prog.collect (fun tp => deadLetterExpiredPartitionMessages cfg topic.name
      deadLetterTopic tp.partition nowMS fuel 0) topic.partitionList
    pure moved.sum

def deadLetterExpiredMessages (cfg : Config) (fuel : Nat) (nowMS : Nat) : Handling Nat := do
  let topics ← wrapBroker "list topics for message expiry" (onMeta .listTopics)
  let moved ← Prog.collect (deadLetterExpiredTopicMessages cfg fuel nowMS) topics
  pure moved.sum

end Ech0.Broker
