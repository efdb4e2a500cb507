/-
  Transactions: begin, publish, offset commits, commit, abort and expiry.

  A transactional record is appended to its partition at once and carries the identity of its
  transaction; the outcome is a control marker in every partition the transaction wrote, and
  the status in the metadata.
-/
import Ech0.Broker.Consumers

set_option autoImplicit false

namespace Ech0.Broker

open Ech0.Lib Ech0.Store

def defaultTransactionTimeoutMS : Nat := 60000

structure TransactionIdentity where
  txID : Nat
  producerID : Nat
  producerEpoch : Nat
  deriving DecidableEq

structure TxBeginCommand where
  transactionalID : String
  timeoutMS : Nat := 0

structure TxPublishCommand where
  identity : TransactionIdentity
  sequence : Nat
  topic : String
  partition : UInt32
  record : RecordAppend

structure TxPublishBatchCommand where
  identity : TransactionIdentity
  baseSequence : Nat
  topic : String
  partition : UInt32
  records : List RecordAppend

structure TxCommitOffsetCommand where
  identity : TransactionIdentity
  offset : TransactionOffsetCommit

structure TransactionBeginResult where
  identity : TransactionIdentity
  expiresAtMS : Nat
  status : TransactionStatus
  deriving DecidableEq

structure TransactionPublishBatchResult where
  txID : Nat
  partition : UInt32
  records : List Record
  baseOffset : Nat
  lastOffset : Nat
  nextOffset : Nat
  deriving DecidableEq

structure TransactionPublishResult where
  txID : Nat
  partition : UInt32
  record : Record
  nextOffset : Nat
  deriving DecidableEq

structure TransactionBoundaryResult where
  txID : Nat
  status : TransactionStatus
  deriving DecidableEq

def transactionIdentityFromState (state : TransactionState) : TransactionIdentity :=
  ⟨state.txID, state.producerID, state.producerEpoch⟩

def transactionRecordMetadata (identity : TransactionIdentity) (sequence : Nat)
    (controlType : TransactionControlType) : TransactionRecordMetadata :=
  { txID := identity.txID
    producerID := identity.producerID
    producerEpoch := identity.producerEpoch
    sequence := sequence
    controlType := controlType }

/-- The text of a status. -/
def statusText : TransactionStatus → String
  | .open => "open"
  | .committed => "committed"
  | .aborted => "aborted"

/-! ## Control markers (`transaction_marker.go`, `transaction_helpers.go`) -/

/-- `appendTransactionControlMarker`. The marker has no timestamp, so the log reads the clock. -/
def appendTransactionControlMarker (cfg : Config) (identity : TransactionIdentity)
    (tp : TopicPartition) (sequence : Nat) (controlType : TransactionControlType) :
    Handling Record :=
  wrapBroker "append transaction control marker"
    (MessageRuntime.publishRecord cfg tp
      { transaction := some (transactionRecordMetadata identity sequence controlType),
        payload := [] })

def incrementTransactionSequence (sequence : Nat) : Except Error Nat :=
  if sequence = maxUint64 then
    .error (brokerStoreError .invalidArgument "transaction sequence overflows uint64")
  else .ok (sequence + 1)

/-- The loop of `appendTransactionControlMarkers`: the sequence after the last marker. -/
def appendControlMarkers (cfg : Config) (identity : TransactionIdentity)
    (controlType : TransactionControlType) : Nat → List TopicPartition → Handling Nat
  | sequence, [] => pure sequence
  | sequence, tp :: rest => do
    let _ ← appendTransactionControlMarker cfg identity tp sequence controlType
    let next ← Prog.ofExcept (incrementTransactionSequence sequence)
    appendControlMarkers cfg identity controlType next rest

/-- `appendTransactionControlMarkers`: the state with its sequence moved on. -/
def appendTransactionControlMarkers (cfg : Config) (state : TransactionState)
    (controlType : TransactionControlType) : Handling TransactionState :=
  if controlType = .none then
    Prog.fail (brokerStoreError .invalidArgument "transaction control marker type is required")
  else do
    let sequence ← appendControlMarkers cfg (transactionIdentityFromState state) controlType
      state.nextSequence state.partitions
    pure { state with nextSequence := sequence }

def abortTransactionState (cfg : Config) (state : TransactionState) (nowMS : Nat)
    (operation : String) : Handling Unit :=
  if state.status ≠ .open then pure ()
  else do
    let state ← appendTransactionControlMarkers cfg state .abort
    wrapBroker operation
      (onMeta (.saveTransaction { state with status := .aborted, updatedAtMS := nowMS }))

/-! ## Begin (`transaction_helpers.go`, `transaction_apply.go`) -/

def transactionsForID (transactionalID : String) : Handling (List TransactionState) := do
  let transactions ← wrapBroker "list transactions" (onMeta .listTransactions)
  pure (transactions.filter fun state => state.transactionalID = transactionalID)

/-- `nextTransactionProducerIdentity`: the producer id and the epoch. -/
def nextTransactionProducerIdentity (txID : Nat) (history : List TransactionState) :
    Except Error (Nat × Nat) :=
  if history = [] then .ok (txID, 0)
  else
    let producerID := ((history.map TransactionState.producerID).find? (· ≠ 0)).getD txID
    let maxEpoch := (history.map TransactionState.producerEpoch).foldl max 0
    if maxEpoch = maxUint64 then
      .error (brokerStoreError .invalidArgument "transaction producer epoch overflows uint64")
    else .ok (producerID, maxEpoch + 1)

def fenceOpenTransactions (cfg : Config) (history : List TransactionState) (nowMS : Nat) :
    Handling Unit :=
  Prog.forEach (fun state => abortTransactionState cfg state nowMS "fence transaction") history

def applyTxBegin (cfg : Config) (req : TxBeginCommand) : Handling TransactionBeginResult := do
  if req.transactionalID = "" then
    Prog.fail (brokerStoreError .invalidArgument "transactional_id is required")
  else
    let history ← transactionsForID req.transactionalID
    let timeoutMS := if req.timeoutMS = 0 then defaultTransactionTimeoutMS else req.timeoutMS
    let txID ← wrapBroker "allocate transaction id" (onMeta .allocateTransactionID)
    let now ← nowMS
    let (producerID, producerEpoch) ← Prog.ofExcept (nextTransactionProducerIdentity txID history)
    fenceOpenTransactions cfg history now
    let state : TransactionState :=
      { txID := txID
        transactionalID := req.transactionalID
        producerID := producerID
        producerEpoch := producerEpoch
        status := .open
        timeoutMS := timeoutMS
        createdAtMS := now
        updatedAtMS := now
        expiresAtMS := addUint64 now timeoutMS
        nextSequence := 0 }
    wrapBroker "save transaction" (onMeta (.saveTransaction state))
    pure ⟨transactionIdentityFromState state, state.expiresAtMS, state.status⟩

/-! ## Publish (`transaction_helpers.go`, `transaction_dedupe.go`, `transaction_apply.go`) -/

def transactionExpired (state : TransactionState) (nowMS : Nat) : Bool :=
  state.status = .open ∧ state.expiresAtMS > 0 ∧ nowMS ≥ state.expiresAtMS

/-- `loadOpenTransaction`: an open transaction found expired is aborted on the spot. -/
def loadOpenTransaction (cfg : Config) (identity : TransactionIdentity) :
    Handling TransactionState := do
  match ← wrapBroker "load transaction" (onMeta (.loadTransaction identity.txID)) with
  | none =>
    Prog.fail (brokerStoreError .invalidArgument
      ("transaction " ++ showNat identity.txID ++ " not found"))
  | some state =>
    if state.producerID ≠ identity.producerID ∨ state.producerEpoch ≠ identity.producerEpoch then
      Prog.fail (brokerStoreError .invalidArgument "transaction identity mismatch")
    else if state.status ≠ .open then
      Prog.fail (brokerStoreError .invalidArgument
        ("transaction " ++ showNat state.txID ++ " is " ++ statusText state.status))
    else
      let now ← nowMS
      if transactionExpired state now then
        abortTransactionState cfg state now "expire transaction"
        Prog.fail (brokerStoreError .unavailable ("transaction " ++ showNat state.txID ++ " expired"))
      else pure state

def transactionRecordCount (records : Nat) : Except Error Nat :=
  if records = 0 then
    .error (brokerStoreError .invalidArgument
      "transactional publish requires at least one record")
  else .ok records

def validatePublishedBatchMatch (batch : TransactionPublishedBatch) (tp : TopicPartition)
    (recordCount : Nat) : Except Error Unit :=
  if batch.topic ≠ tp.topic ∨ batch.partition ≠ tp.partition ∨ batch.recordCount ≠ recordCount then
    .error (brokerStoreError .invalidArgument
      ("transaction duplicate sequence " ++ showNat batch.baseSequence
        ++ " does not match published batch"))
  else .ok ()

def findPublishedBatch (tp : TopicPartition) (baseSequence recordCount : Nat) :
    List TransactionPublishedBatch → Except Error (Option TransactionPublishedBatch)
  | [] => .ok none
  | batch :: rest => do
    let next ← sequenceAfterCount batch.baseSequence batch.recordCount
    if baseSequence ≥ batch.baseSequence ∧ baseSequence < next then
      if batch.baseSequence ≠ baseSequence then
        .error (brokerStoreError .invalidArgument
          ("transaction sequence " ++ showNat baseSequence ++ " starts inside published batch "
            ++ showNat batch.baseSequence))
      else do
        validatePublishedBatchMatch batch tp recordCount
        .ok (some batch)
    else findPublishedBatch tp baseSequence recordCount rest

/-- `loadWritableTransaction`: the state, and the batch that this publish repeats, if any. -/
def loadWritableTransaction (cfg : Config) (identity : TransactionIdentity) (tp : TopicPartition)
    (sequence records : Nat) :
    Handling (TransactionState × Option TransactionPublishedBatch) := do
  let state ← loadOpenTransaction cfg identity
  let recordCount ← Prog.ofExcept (transactionRecordCount records)
  match ← Prog.ofExcept (findPublishedBatch tp sequence recordCount state.publishedBatches) with
  | some batch => pure (state, some batch)
  | none =>
    if sequence ≠ state.nextSequence then
      Prog.fail (brokerStoreError .invalidArgument
        ("transaction sequence " ++ showNat sequence ++ " does not match expected "
          ++ showNat state.nextSequence))
    else pure (state, none)

def sequenceForBatchRecord (base index : Nat) : Except Error Nat :=
  if base > maxUint64 - index then
    .error (brokerStoreError .invalidArgument "transaction sequence overflows uint64")
  else .ok (base + index)

/-- `validatePublishedBatchRecordMetadata`, from position `index` on. -/
def validatePublishedBatchRecordMetadata (identity : TransactionIdentity) (baseSequence : Nat) :
    Nat → List Record → Except Error Unit
  | _, [] => .ok ()
  | index, record :: rest =>
    match record.transaction with
    | none =>
      .error (brokerStoreError .unavailable "published transaction batch metadata is missing")
    | some metadata => do
      let sequence ← sequenceForBatchRecord baseSequence index
      if metadata ≠ transactionRecordMetadata identity sequence .none then
        .error (brokerStoreError .unavailable "published transaction batch metadata changed")
      else validatePublishedBatchRecordMetadata identity baseSequence (index + 1) rest

def validatePublishedBatchRecords (identity : TransactionIdentity)
    (batch : TransactionPublishedBatch) (records : List Record) : Except Error Unit :=
  if records.length ≠ batch.recordCount then
    .error (brokerStoreError .unavailable "published transaction batch is not fully readable")
  else if records.head?.map Record.offset ≠ some batch.baseOffset ∨
      records.getLast?.map Record.offset ≠ some batch.lastOffset then
    .error (brokerStoreError .unavailable "published transaction batch offsets changed")
  else validatePublishedBatchRecordMetadata identity batch.baseSequence 0 records

def readPublishedBatch (cfg : Config) (identity : TransactionIdentity)
    (batch : TransactionPublishedBatch) : Handling (List Record) := do
  let records ← wrapBroker "read published transaction batch"
    (MessageRuntime.readFrom cfg ⟨batch.topic, batch.partition⟩ batch.baseOffset batch.recordCount)
  Prog.ofExcept (validatePublishedBatchRecords identity batch records)
  pure records

def newPublishedBatch (tp : TopicPartition) (baseSequence : Nat) (records : List Record) :
    Except Error TransactionPublishedBatch :=
  match records.head?, records.getLast? with
  | some first, some last => do
    validateContiguousOffsets "transaction offset overflows uint64"
      "transactional publish returned non-contiguous offsets" first.offset 0 records
    let count ← transactionRecordCount records.length
    if last.offset = maxUint64 then
      .error (brokerStoreError .invalidArgument "transaction offset overflows uint64")
    else
      .ok { topic := tp.topic
            partition := tp.partition
            baseSequence := baseSequence
            recordCount := count
            baseOffset := first.offset
            lastOffset := last.offset
            nextOffset := last.offset + 1 }
  | _, _ => .error (brokerStoreError .codec "transactional publish returned no records")

def appendTransactionPartition (partitions : List TopicPartition) (tp : TopicPartition) :
    List TopicPartition :=
  if tp ∈ partitions then partitions else partitions ++ [tp]

def advanceTransactionAfterPublish (state : TransactionState) (batch : TransactionPublishedBatch) :
    Handling Unit := do
  let nextSequence ← Prog.ofExcept (sequenceAfterCount batch.baseSequence batch.recordCount)
  let now ← nowMS
  wrapBroker "save transaction" (onMeta (.saveTransaction
    { state with
      nextSequence := nextSequence
      partitions := appendTransactionPartition state.partitions ⟨batch.topic, batch.partition⟩
      publishedBatches := state.publishedBatches ++ [batch]
      updatedAtMS := now }))

def transactionPublishResult (txID : Nat) (partition : UInt32) (record : Record) :
    TransactionPublishResult :=
  ⟨txID, partition, record, record.offset + 1⟩

def applyTxPublish (cfg : Config) (req : TxPublishCommand) : Handling TransactionPublishResult := do
  let tp : TopicPartition := ⟨req.topic, req.partition⟩
  let (state, duplicate) ← loadWritableTransaction cfg req.identity tp req.sequence 1
  match duplicate with
  | some batch =>
    match ← readPublishedBatch cfg req.identity batch with
    -- not reached: a batch that was read back has as many records as it had, one here
    | [] => Prog.fail (brokerStoreError .codec "published transaction batch is empty")
    | record :: _ => pure (transactionPublishResult req.identity.txID req.partition record)
  | none =>
    let record ← normalizeRecordPriorityForTopic req.topic req.record
    let appended ← wrapBroker "publish transactional record"
      (MessageRuntime.publishRecord cfg tp
        { record with
          transaction := some (transactionRecordMetadata req.identity req.sequence .none) })
    let batch ← Prog.ofExcept (newPublishedBatch tp req.sequence [appended])
    advanceTransactionAfterPublish state batch
    pure (transactionPublishResult req.identity.txID req.partition appended)

/-- `transactionalRecordBatch`, from position `index` on. -/
def transactionalRecordBatch (identity : TransactionIdentity) (baseSequence : Nat) :
    Nat → List RecordAppend → Except Error (List RecordAppend)
  | _, [] => .ok []
  | index, record :: rest => do
    let sequence ← sequenceForBatchRecord baseSequence index
    let records ← transactionalRecordBatch identity baseSequence (index + 1) rest
    .ok ({ record with transaction := some (transactionRecordMetadata identity sequence .none) }
      :: records)

def transactionPublishBatchResult (txID : Nat) (partition : UInt32) (records : List Record) :
    Except Error TransactionPublishBatchResult :=
  match records.head?, records.getLast? with
  | some first, some last =>
    .ok ⟨txID, partition, records, first.offset, last.offset, last.offset + 1⟩
  | _, _ => .error (brokerStoreError .codec "transactional publish batch returned no records")

def applyTxPublishBatch (cfg : Config) (req : TxPublishBatchCommand) :
    Handling TransactionPublishBatchResult := do
  if req.records = [] then
    Prog.fail (brokerStoreError .invalidArgument
      "transactional batch requires at least one record")
  else
    Prog.ofExcept (validateBatchPayload cfg req.records)
    let tp : TopicPartition := ⟨req.topic, req.partition⟩
    let (state, duplicate) ← loadWritableTransaction cfg req.identity tp req.baseSequence
      req.records.length
    match duplicate with
    | some batch =>
      let records ← readPublishedBatch cfg req.identity batch
      Prog.ofExcept (transactionPublishBatchResult req.identity.txID req.partition records)
    | none =>
      let normalized ← normalizeRecordsPriorityForTopic req.topic req.records
      let records ← Prog.ofExcept
        (transactionalRecordBatch req.identity req.baseSequence 0 normalized)
      let appended ← wrapBroker "publish transactional record batch"
        (MessageRuntime.publishBatchRecords cfg tp records)
      let batch ← Prog.ofExcept (newPublishedBatch tp req.baseSequence appended)
      advanceTransactionAfterPublish state batch
      Prog.ofExcept (transactionPublishBatchResult req.identity.txID req.partition appended)

/-! ## Offsets, commit, abort, expiry (`transaction_apply.go`, `transaction_helpers.go`) -/

def groupConsumer (group : String) : String := "__group_offset/" ++ group

def transactionOffsetConsumer (offset : TransactionOffsetCommit) : String :=
  if offset.group ≠ "" then groupConsumer offset.group else offset.consumer

/-- `compactTransactionOffsetCommits`: one commit per consumer and partition, in the order of
first appearance (the source's map has no order of its own). -/
def compactTransactionOffsetCommits (offsets : List TransactionOffsetCommit) :
    List TransactionOffsetCommit :=
  offsets.foldl (compactInsert
    (fun offset => (transactionOffsetConsumer offset, offset.topic, offset.partition))
    TransactionOffsetCommit.nextOffset) []

def applyTxCommitOffset (cfg : Config) (req : TxCommitOffsetCommand) :
    Handling (Nat × TransactionOffsetCommit) := do
  let state ← loadOpenTransaction cfg req.identity
  if transactionOffsetConsumer req.offset = "" then
    Prog.fail (brokerStoreError .invalidArgument
      "transactional offset commit requires consumer or group")
  else
    let now ← nowMS
    wrapBroker "save transaction offset commit" (onMeta (.saveTransaction
      { state with
        offsetCommits := compactTransactionOffsetCommits (state.offsetCommits ++ [req.offset])
        updatedAtMS := now }))
    pure (req.identity.txID, req.offset)

/-- The body of the loop of `applyTxCommit` over the transaction's offsets. -/
def commitTransactionOffset (offset : TransactionOffsetCommit) : Handling Unit := do
  let now ← nowMS
  wrapBroker "commit transactional offset" (onMeta (.saveConsumerOffsetState
    { consumer := transactionOffsetConsumer offset, topic := offset.topic,
      partition := offset.partition, nextOffset := offset.nextOffset, metadata := offset.metadata,
      updatedAtMS := now }))

/-- The end of `applyTxCommit` and `applyTxAbort`: markers, and the save that closes the transaction.
The two differ in what stands between. -/
def closeTransaction (cfg : Config) (controlType : TransactionControlType) (status : TransactionStatus)
    (context : String) (between : TransactionState → Handling Unit) (state : TransactionState) :
    Handling TransactionBoundaryResult := do
  let state ← appendTransactionControlMarkers cfg state controlType
  between state
  let now ← nowMS
  wrapBroker context (onMeta (.saveTransaction { state with status := status, updatedAtMS := now }))
  pure ⟨state.txID, status⟩

def applyTxCommit (cfg : Config) (identity : TransactionIdentity) :
    Handling TransactionBoundaryResult := do
  let state ← loadOpenTransaction cfg identity
  closeTransaction cfg .commit .committed "commit transaction"
    (fun state => Prog.forEach commitTransactionOffset state.offsetCommits) state

def applyTxAbort (cfg : Config) (identity : TransactionIdentity) :
    Handling TransactionBoundaryResult := do
  let state ← loadOpenTransaction cfg identity
  closeTransaction cfg .abort .aborted "abort transaction" (fun _ => pure ()) state

/-- `applyTxExpire`: the number of transactions expired. -/
def applyTxExpire (cfg : Config) (nowMS : Nat) : Handling Nat := do
  let now ← orNowMS nowMS
  let transactions ← wrapBroker "list transactions" (onMeta .listTransactions)
  let expired := transactions.filter fun state => transactionExpired state now
  Prog.forEach (fun state => abortTransactionState cfg state now "expire transaction") expired
  pure expired.length

end Ech0.Broker
