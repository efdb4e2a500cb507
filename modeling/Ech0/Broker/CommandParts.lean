/-
  The parts of the transaction handlers, of retries, delays and dead letters, and of every
  command.

  `Command.mem_of_regular` collects the handlers: a closed class that has the calls a command
  can make has the command. The calls are told apart as far as some property needs it, which is
  why a pause is saved only when it is on, and a log is replaced or cleared only on a shard.
-/
import Ech0.Broker.Parts

set_option autoImplicit false

namespace Ech0.Broker

open Ech0.Lib Ech0.Store Prog MessageRuntime

variable {op : Op}

namespace Parts

variable {C : (α : Type) → Handling α → Prop} (hC : Prog.Closed C) {cfg : Config}

/-! ## Transactions -/

/-- The parts of the transaction commands that write no data. -/
structure Transactions (C : (α : Type) → Handling α → Prop) (cfg : Config) : Prop where
  now : C _ nowMS
  allocate : C _ (onMeta .allocateTransactionID)
  list : C _ (onMeta .listTransactions)
  load : ∀ txID, C _ (onMeta (.loadTransaction txID))
  save : ∀ state, C _ (onMeta (.saveTransaction state))
  abort : ∀ tp identity sequence, C _ (MessageRuntime.publishRecord cfg tp
    { transaction := some (transactionRecordMetadata identity sequence .abort), payload := [] })

/-- What a transactional publish needs besides. -/
structure TransactionData (C : (α : Type) → Handling α → Prop) (cfg : Config) : Prop where
  topic : ∀ name, C _ (onMeta (.loadTopicConfig name))
  data : ∀ tp (record : RecordAppend) identity sequence, C _ (MessageRuntime.publishRecord cfg tp
    { record with transaction := some (transactionRecordMetadata identity sequence .none) })
  batch : ∀ tp (records : List RecordAppend), (∀ record ∈ records, ∃ identity sequence,
      record.transaction = some (transactionRecordMetadata identity sequence .none)) →
    C _ (MessageRuntime.publishBatchRecords cfg tp records)
  read : ∀ tp offset maxRecords, C _ (MessageRuntime.readFrom cfg tp offset maxRecords)

/-- The records of a transactional batch are data records of the transaction. -/
lemma transactionalRecordBatch_data {identity : TransactionIdentity} {baseSequence : Nat}
    {appends : List RecordAppend} {index : Nat} {records : List RecordAppend}
    (h : transactionalRecordBatch identity baseSequence index appends = .ok records) :
    ∀ record ∈ records, ∃ sequence,
      record.transaction = some (transactionRecordMetadata identity sequence .none) := by
  induction appends generalizing index records with
  | nil =>
    cases h
    intro record hrecord
    cases hrecord
  | cons append rest ih =>
    obtain ⟨sequence, -, h⟩ := Except.bind_eq_ok.mp h
    obtain ⟨tail, htail, h⟩ := Except.bind_eq_ok.mp h
    cases h
    exact List.forall_mem_cons.mpr ⟨⟨sequence, rfl⟩, ih htail⟩

section
include hC

/-- The markers go to the transaction's partitions and carry its identity. -/
lemma appendTransactionControlMarkers {state : TransactionState}
    {controlType : TransactionControlType}
    (hrecord : ∀ tp ∈ state.partitions, ∀ sequence, C _ (MessageRuntime.publishRecord cfg tp
      { transaction := some (transactionRecordMetadata (transactionIdentityFromState state) sequence
          controlType),
        payload := [] })) :
    C _ (Broker.appendTransactionControlMarkers cfg state controlType) := by
  have hloop : ∀ (tps : List TopicPartition), (∀ tp ∈ tps, tp ∈ state.partitions) →
      ∀ sequence, C _ (appendControlMarkers cfg (transactionIdentityFromState state) controlType
        sequence tps) := by
    intro tps
    induction tps with
    | nil => intro _ sequence; exact hC.pure _
    | cons tp rest ih =>
      intro hmem sequence
      refine hC.bind (hC.mapError _ (hrecord tp (hmem tp List.mem_cons_self) sequence)) fun _ =>
        hC.bind (hC.ofExcept _) fun _ => ih (fun a ha => hmem a (List.mem_cons_of_mem tp ha)) _
  exact hC.ite (hC.fail _) (hC.bind (hloop _ (fun _ h => h) _) fun _ => hC.pure _)

lemma readPublishedBatch (hdata : TransactionData C cfg) (identity : TransactionIdentity)
    (batch : TransactionPublishedBatch) : C _ (Broker.readPublishedBatch cfg identity batch) :=
  hC.bind (hC.mapError _ (hdata.read _ _ _)) fun _ => hC.bind (hC.ofExcept _) fun _ => hC.pure _

variable (htx : Transactions C cfg)

include htx

lemma abortTransactionState (state : TransactionState) (nowMS : Nat) (operation : String) :
    C _ (Broker.abortTransactionState cfg state nowMS operation) :=
  hC.ite (hC.pure _) (hC.bind (appendTransactionControlMarkers hC fun _ _ _ => htx.abort _ _ _) fun _ =>
    hC.mapError _ (htx.save _))

lemma applyTxBegin (req : TxBeginCommand) : C _ (Broker.applyTxBegin cfg req) :=
  hC.ite (hC.fail _) (hC.bind (hC.bind (hC.mapError _ htx.list) fun _ => hC.pure _) fun _ =>
    hC.bind (hC.mapError _ htx.allocate) fun _ => hC.bind htx.now fun _ =>
    hC.bind (hC.ofExcept _) fun _ =>
    hC.bind (hC.forEach _ fun _ _ => abortTransactionState hC htx _ _ _) fun _ =>
    hC.bind (hC.mapError _ (htx.save _)) fun _ => hC.pure _)

lemma loadOpenTransaction (identity : TransactionIdentity) :
    C _ (Broker.loadOpenTransaction cfg identity) := by
  refine hC.bind (hC.mapError _ (htx.load _)) fun found => ?_
  cases found with
  | none => exact hC.fail _
  | some state =>
    exact hC.ite (hC.fail _) (hC.ite (hC.fail _) (hC.bind htx.now fun _ =>
      hC.ite (hC.bind (abortTransactionState hC htx _ _ _) fun _ => hC.fail _) (hC.pure _)))

lemma loadWritableTransaction (identity : TransactionIdentity) (tp : TopicPartition)
    (sequence records : Nat) :
    C _ (Broker.loadWritableTransaction cfg identity tp sequence records) := by
  refine hC.bind (loadOpenTransaction hC htx identity) fun state =>
    hC.bind (hC.ofExcept _) fun _ => hC.bind (hC.ofExcept _) fun found => ?_
  cases found with
  | some batch => exact hC.pure _
  | none => exact hC.ite (hC.fail _) (hC.pure _)

lemma advanceTransactionAfterPublish (state : TransactionState)
    (batch : TransactionPublishedBatch) : C _ (Broker.advanceTransactionAfterPublish state batch) :=
  hC.bind (hC.ofExcept _) fun _ => hC.bind htx.now fun _ => hC.mapError _ (htx.save _)

lemma applyTxPublish (hdata : TransactionData C cfg) (req : TxPublishCommand) :
    C _ (Broker.applyTxPublish cfg req) := by
  refine hC.bind (loadWritableTransaction hC htx _ _ _ _) fun e => ?_
  obtain ⟨state, duplicate⟩ := e
  cases duplicate with
  | some batch =>
    refine hC.bind (readPublishedBatch hC hdata _ _) fun records => ?_
    cases records with
    | nil => exact hC.fail _
    | cons record rest => exact hC.pure _
  | none =>
    exact hC.bind (normalizeRecordPriorityForTopic hC (hdata.topic _)) fun record =>
      hC.bind (hC.mapError _ (hdata.data _ _ _ _)) fun _ => hC.bind (hC.ofExcept _) fun _ =>
      hC.bind (advanceTransactionAfterPublish hC htx _ _) fun _ => hC.pure _

lemma applyTxPublishBatch (hdata : TransactionData C cfg) (req : TxPublishBatchCommand) :
    C _ (Broker.applyTxPublishBatch cfg req) := by
  refine hC.ite (hC.fail _) (hC.bind (hC.ofExcept _) fun _ =>
    hC.bind (loadWritableTransaction hC htx _ _ _ _) fun e => ?_)
  obtain ⟨state, duplicate⟩ := e
  cases duplicate with
  | some batch => exact hC.bind (readPublishedBatch hC hdata _ _) fun _ => hC.ofExcept _
  | none =>
    refine hC.bind (normalizeRecordsPriorityForTopic hC (hdata.topic _)) fun normalized =>
      hC.sequence (hC.ofExcept _) fun records hrecords => ?_
    have hrecord := transactionalRecordBatch_data (returns_ofExcept hrecords)
    exact hC.bind (hC.mapError _ (hdata.batch _ _ fun record hmem =>
        ⟨req.identity, hrecord record hmem⟩)) fun _ => hC.bind (hC.ofExcept _) fun _ =>
      hC.bind (advanceTransactionAfterPublish hC htx _ _) fun _ => hC.ofExcept _

lemma applyTxCommitOffset (req : TxCommitOffsetCommand) :
    C _ (Broker.applyTxCommitOffset cfg req) :=
  hC.bind (loadOpenTransaction hC htx _) fun _ => hC.ite (hC.fail _)
    (hC.bind htx.now fun _ => hC.bind (hC.mapError _ (htx.save _)) fun _ => hC.pure _)

lemma applyTxCommit (hoffset : ∀ state, C _ (onMeta (.saveConsumerOffsetState state)))
    (hcommit : ∀ tp identity sequence, C _ (MessageRuntime.publishRecord cfg tp
      { transaction := some (transactionRecordMetadata identity sequence .commit), payload := [] }))
    (identity : TransactionIdentity) : C _ (Broker.applyTxCommit cfg identity) := by
  refine hC.bind (loadOpenTransaction hC htx _) fun _ =>
    hC.bind (appendTransactionControlMarkers hC fun _ _ _ => hcommit _ _ _) fun state =>
    hC.bind ?_ fun _ =>
    hC.bind htx.now fun _ => hC.bind (hC.mapError _ (htx.save _)) fun _ => hC.pure _
  exact hC.forEach _ fun offset _ => hC.bind htx.now fun _ => hC.mapError _ (hoffset _)

lemma applyTxAbort (identity : TransactionIdentity) : C _ (Broker.applyTxAbort cfg identity) :=
  hC.bind (loadOpenTransaction hC htx _) fun _ =>
    hC.bind (appendTransactionControlMarkers hC fun _ _ _ => htx.abort _ _ _) fun _ =>
    hC.bind (hC.pure ()) fun _ => hC.bind htx.now fun _ => hC.bind (hC.mapError _ (htx.save _)) fun _ => hC.pure _

lemma applyTxExpire (nowMS : Nat) : C _ (Broker.applyTxExpire cfg nowMS) := by
  refine hC.bind (orNowMS hC fun _ => htx.now) fun now =>
    hC.bind (hC.mapError _ htx.list) fun transactions => hC.bind ?_ fun _ => hC.pure _
  exact hC.forEach _ fun state _ => abortTransactionState hC htx _ _ _

end

/-! ## Retries, delays and dead letters -/

/-- The parts of the commands that move records through auxiliary topics. -/
structure Retries (C : (α : Type) → Handling α → Prop) (cfg : Config) : Prop where
  now : C _ nowMS
  backoff : ∀ retryCount policy, C _ (Broker.retryBackoffMS retryCount policy)
  topic : ∀ name, C _ (onMeta (.loadTopicConfig name))
  loadOffset : ∀ consumer tp, C _ (onMeta (.loadConsumerOffset consumer tp))
  saveOffset : ∀ consumer tp nextOffset, C _ (Broker.saveConsumerOffset consumer tp nextOffset)
  aux : ∀ source auxTopic, C _ (Broker.ensureAuxTopic cfg source auxTopic)
  record : ∀ tp record, C _ (MessageRuntime.publishRecord cfg tp record)
  read : ∀ tp offset maxRecords, C _ (MessageRuntime.readFrom cfg tp offset maxRecords)
  fetch : ∀ consumer tp offset maxRecords,
    C _ (MessageRuntime.fetch cfg consumer tp offset maxRecords)
  ack : ∀ consumer tp nextOffset, C _ (MessageRuntime.ack cfg consumer tp nextOffset)
  index : ∀ entry, C _ (onMeta (.saveDLQIndex entry))

section
include hC

variable (hretry : Retries C cfg)

include hretry

lemma readRecordAtOffset (tp : TopicPartition) (offset : Nat) :
    C _ (Broker.readRecordAtOffset cfg tp offset) := by
  refine hC.bind (hC.mapError _ (hretry.read _ _ _)) fun records => ?_
  cases records with
  | nil => exact hC.fail _
  | cons record rest => exact hC.ite (hC.pure _) (hC.fail _)

lemma saveDLQIndexFromRecord (dlqTopic : String) (partition : UInt32) (record : Record) :
    C _ (Broker.saveDLQIndexFromRecord dlqTopic partition record) :=
  hC.bind (hC.ofExcept _) fun _ => hC.mapError _ (hretry.index _)

lemma applyNack (req : NackCommand) : C _ (Broker.applyNack cfg req) :=
  hC.ite (hC.fail _) (hC.bind (readRecordAtOffset hC hretry _ _) fun _ =>
    hC.bind (hC.ofExcept _) fun _ => hC.bind (loadTopicConfig hC (hretry.topic _)) fun _ =>
    hC.bind (hretry.aux _ _) fun _ => hC.bind hretry.now fun _ => hC.bind (hretry.backoff _ _) fun _ =>
    hC.bind (hC.mapError _ (hretry.record _ _)) fun _ => hC.pure _)

lemma moveRetryRecord (retryRecord : Record) (origin : RetryOrigin) (originTopic : TopicConfig) :
    C _ (Broker.moveRetryRecord cfg retryRecord origin originTopic) :=
  hC.ite (hC.bind (hC.ofExcept _) fun _ => hC.bind (hC.mapError _ (hretry.record _ _)) fun _ =>
      hC.pure _)
    (hC.bind (hretry.aux _ _) fun _ => hC.bind (hC.mapError _ (hretry.record _ _)) fun _ =>
      hC.bind (saveDLQIndexFromRecord hC hretry _ _ _) fun _ => hC.pure _)

lemma applyProcessRetryBatch (req : ProcessRetryCommand) :
    C _ (Broker.applyProcessRetryBatch cfg req) := by
  have hloop : ∀ (now : Nat) (records : List Record) (result : ProcessRetryResult),
      C _ (processFetchedRetryRecords cfg req now result records) := by
    intro now records
    induction records with
    | nil => intro result; exact hC.pure _
    | cons record rest ih =>
      intro result
      exact hC.bind (hC.ofExcept _) fun _ => hC.ite (hC.bind (hC.bind (hC.ofExcept _) fun _ =>
        hC.bind (loadTopicConfig hC (hretry.topic _)) fun _ => moveRetryRecord hC hretry _ _ _)
        fun _ => ih _) (hC.pure _)
  refine hC.ite (hC.fail _) (hC.bind (hC.mapError _ (hretry.fetch _ _ _ _)) fun fetched =>
    hC.bind (orNowMS hC fun _ => hretry.now) fun now => hC.bind (hloop _ _ _) fun result => ?_)
  cases result.committedNextOffset with
  | none => exact hC.pure _
  | some nextOffset => exact hC.bind (hC.mapError _ (hretry.ack _ _ _)) fun _ => hC.pure _

lemma applyScheduleDelay (req : ScheduleDelayCommand) : C _ (Broker.applyScheduleDelay cfg req) :=
  hC.bind (loadTopicConfig hC (hretry.topic _)) fun _ => hC.ite (hC.fail _)
    (hC.bind (hretry.aux _ _) fun _ => hC.bind (hC.mapError _ (hretry.record _ _)) fun _ => hC.pure _)

lemma applyProcessDelayPartition (req : ProcessDelayCommand) :
    C _ (Broker.applyProcessDelayPartition cfg req) := by
  have hloop : ∀ (now : Nat) (records : List Record) (moved : Nat) (next : Option Nat),
      C _ (forwardDueDelayedRecords cfg req now moved next records) := by
    intro now records
    induction records with
    | nil => intro moved next; exact hC.pure _
    | cons record rest ih =>
      intro moved next
      exact hC.bind (hC.ofExcept _) fun _ => hC.ite (hC.bind (hC.bind (hC.ofExcept _) fun _ =>
        hC.bind (normalizeRecordPriorityForTopic hC (hretry.topic _)) fun _ =>
        hC.bind (hC.mapError _ (hretry.record _ _)) fun _ => hC.pure _) fun _ => ih _ _) (hC.pure _)
  refine hC.bind (hC.mapError _ (hretry.loadOffset _ _)) fun committed =>
    hC.bind (hC.mapError _ (hretry.read _ _ _)) fun records =>
    hC.bind (orNowMS hC fun _ => hretry.now) fun now => hC.bind (hloop _ _ _ _) fun e => ?_
  obtain ⟨moved, next⟩ := e
  cases next with
  | none => exact hC.pure _
  | some nextOffset => exact hC.bind (hC.mapError _ (hretry.saveOffset _ _ _)) fun _ => hC.pure _

lemma isolatePoisonRecord (scopedTopic : String) (partition : UInt32) (record : Record)
    (reason : String) : C _ (Broker.isolatePoisonRecord cfg scopedTopic partition record reason) :=
  hC.bind (loadTopicConfig hC (hretry.topic _)) fun _ => hC.bind (hretry.aux _ _) fun _ =>
    hC.bind (hC.mapError _ (hretry.record _ _)) fun _ =>
    hC.bind (saveDLQIndexFromRecord hC hretry _ _ _) fun _ => hC.ofExcept _

lemma deadLetterExpiredRecords (sourceTopic deadLetterTopic : String) (partition : UInt32)
    (nowMS : Nat) (records : List Record) :
    C _ (Broker.deadLetterExpiredRecords cfg sourceTopic deadLetterTopic partition nowMS records) := by
  induction records with
  | nil => exact hC.pure _
  | cons record rest ih =>
    exact hC.ite (hC.bind (hC.mapError _ (hretry.record _ _)) fun _ =>
      hC.bind (saveDLQIndexFromRecord hC hretry _ _ _) fun _ => hC.bind ih fun _ => hC.pure _) ih

lemma deadLetterExpiredPartitionMessages (sourceTopic deadLetterTopic : String)
    (partition : UInt32) (nowMS fuel cursor : Nat) :
    C _ (Broker.deadLetterExpiredPartitionMessages cfg sourceTopic deadLetterTopic partition nowMS
      fuel cursor) := by
  induction fuel generalizing cursor with
  | zero => exact hC.pure _
  | succ fuel ih =>
    refine hC.bind (hC.mapError _ (hretry.read _ _ _)) fun records => ?_
    split
    · exact hC.pure _
    · exact hC.bind (deadLetterExpiredRecords hC hretry _ _ _ _ _) fun _ =>
        hC.ite (hC.pure _) (hC.bind (ih _) fun _ => hC.pure _)

lemma deadLetterExpiredTopicMessages (fuel nowMS : Nat) (topic : TopicConfig) :
    C _ (Broker.deadLetterExpiredTopicMessages cfg fuel nowMS topic) :=
  hC.ite (hC.pure _) (hC.bind (hretry.aux _ _) fun _ => hC.bind (hC.collect _ fun _ _ =>
    deadLetterExpiredPartitionMessages hC hretry _ _ _ _ _ _) fun _ => hC.pure _)

lemma deadLetterExpiredMessages (htopics : C _ (onMeta .listTopics)) (fuel nowMS : Nat) :
    C _ (Broker.deadLetterExpiredMessages cfg fuel nowMS) :=
  hC.bind (hC.mapError _ htopics) fun _ => hC.bind (hC.collect _ fun topic _ =>
    deadLetterExpiredTopicMessages hC hretry fuel nowMS topic) fun _ => hC.pure _

end

end Parts

/-! ## The calls of a command -/

/-- The log calls that take nothing away. -/
def LogOp.plain : LogOp → Prop
  | .replacePartition _ => False
  | .clearPartition _ => False
  | _ => True

/-- A pause is saved only when it is on. -/
def MetaOp.regular : MetaOp → Prop
  | .saveConsumerPause state => state.paused = true
  | _ => True

/-- What every call of a command satisfies: the metadata calls are regular, and only the log of a
shard is replaced or cleared. -/
def Op.regular : Op → Prop
  | .metadata op => op.regular
  | .log .main op => op.plain
  | _ => True

/-- The log calls that add no record. -/
def LogOp.quiet : LogOp → Prop
  | .appendRecordsBatch _ _ => False
  | op => op.plain

/-- The calls of the message runtime. -/
def Op.runtime : Op → Prop
  | .metadata (.loadTopicConfig _) => True
  | .metadata (.saveTopicConfig _) => True
  | .metadata (.loadShardPlacement _) => True
  | .metadata (.saveShardPlacement _) => True
  | .metadata _ => False
  | .log _ op => op.plain
  | .shardByID _ => True
  | .cachedPlacement _ => True
  | .cacheShardPlacement _ => True
  | _ => False

/-- Those of them that add no record. -/
def Op.quiet : Op → Prop
  | .log _ op => op.quiet
  | op => op.runtime

lemma Op.runtime_of_quiet (h : op.quiet) : op.runtime := by
  cases op with
  | log ref op =>
    cases op with
    | appendRecordsBatch tp records => exact h.elim
    | _ => exact h
  | _ => exact h

lemma Op.regular_of_runtime (h : op.runtime) : op.regular := by
  cases op with
  | metadata op =>
    cases op with
    | saveConsumerPause state => exact h.elim
    | _ => trivial
  | log ref op =>
    cases ref with
    | main => exact h
    | shard id => trivial
  | _ => trivial

/-! ## The tables a call writes -/

/-- The tables of the metadata store. -/
inductive Table where
  | topics
  | offsets
  | consumerPauses
  | placements
  | members
  | assignments
  | transactions
  | producerBatches
  | aclPolicies
  | dlqIndexes
  deriving DecidableEq

def MetaOp.writes : MetaOp → Option Table
  | saveTopicConfig _ => some .topics
  | saveConsumerOffsetState _ => some .offsets
  | deleteConsumerOffsetState _ _ => some .offsets
  | saveConsumerPause _ => some .consumerPauses
  | deleteConsumerPause _ _ => some .consumerPauses
  | saveShardPlacement _ => some .placements
  | saveGroupMember _ => some .members
  | deleteExpiredGroupMembers _ => some .members
  | saveGroupAssignment _ => some .assignments
  | allocateTransactionID => some .transactions
  | saveTransaction _ => some .transactions
  | saveProducerBatch _ => some .producerBatches
  | deleteProducerBatch _ => some .producerBatches
  | saveACLPolicy _ => some .aclPolicies
  | deleteACLPolicy _ => some .aclPolicies
  | saveDLQIndex _ => some .dlqIndexes
  | _ => none

def Op.writes : Op → Option Table
  | .metadata op => op.writes
  | _ => none

/-- A call that moves records between logs, or takes them away. -/
def Op.moves : Op → Bool
  | .log _ (.replacePartition _) => true
  | .log _ (.clearPartition _) => true
  | _ => false

/-- What a command may do to a broker: the tables it writes, topics and placements apart, and whether
it moves records between logs. -/
structure Footprint where
  tables : List Table
  moves : Bool := false

/-- A regular call with that footprint. -/
structure Op.Within (footprint : Footprint) (op : Op) : Prop where
  regular : op.regular
  table : ∀ t, op.writes = some t → t = .topics ∨ t = .placements ∨ t ∈ footprint.tables
  moves : op.moves = true → footprint.moves = true

lemma Op.within_of_reads {footprint : Footprint} (hregular : op.regular)
    (hwrites : op.writes = none) (hmoves : op.moves = false) : op.Within footprint :=
  ⟨hregular, fun t ht => (by rw [hwrites] at ht; cases ht),
    fun h => (by rw [hmoves] at h; cases h)⟩

lemma MetaOp.within_of_writes {footprint : Footprint} {op : MetaOp} {t : Table}
    (hregular : op.regular) (hwrites : op.writes = some t) (ht : t ∈ footprint.tables) :
    (Op.metadata op).Within footprint := by
  refine ⟨hregular, fun t' ht' => ?_, nofun⟩
  have heq : t = t' := Option.some.inj (hwrites.symm.trans ht')
  exact .inr (.inr (heq ▸ ht))

/-- The runtime writes topics and placements only. -/
lemma Op.within_of_runtime {footprint : Footprint} (h : op.runtime) : op.Within footprint := by
  refine ⟨regular_of_runtime h, fun t ht => ?_, fun hmoves => ?_⟩
  · cases op with
    | metadata op =>
      cases op with
      | saveTopicConfig topic => exact .inl (Option.some.inj ht).symm
      | saveShardPlacement placement => exact .inr (.inl (Option.some.inj ht).symm)
      | loadTopicConfig name => simp [writes, MetaOp.writes] at ht
      | loadShardPlacement tp => simp [writes, MetaOp.writes] at ht
      | _ => exact h.elim
    | _ => simp [writes] at ht
  · cases op with
    | log ref op =>
      cases op with
      | replacePartition snapshot => exact h.elim
      | clearPartition tp => exact h.elim
      | _ => cases hmoves
    | _ => cases hmoves

namespace Runtime

variable {C : (α : Type) → Handling α → Prop} {cfg : Config}
  (hop : ∀ op : Op, op.quiet → C _ (ask op))

include hop

lemma onLog (ref : LogRef) (op : LogOp) (h : op.quiet) : C _ (Broker.onLog ref op) :=
  hop (.log ref op) h

variable (hC : Prog.Closed C)

include hC

lemma resolve (tp : TopicPartition) : C _ (ShardResolver.resolve cfg tp) := by
  refine hC.bind (hop (.cachedPlacement tp) trivial) fun cached => ?_
  cases cached with
  | some placement => exact hC.pure _
  | none =>
    exact hC.bind (hC.mapError _ (hop (.metadata (.loadShardPlacement tp)) trivial)) fun stored =>
      hC.bind (hop (.cacheShardPlacement _) trivial) fun _ => hC.pure _

lemma logFor (tp : TopicPartition) : C _ (logFor cfg tp) :=
  Parts.logFor hC tp fun _ => hC.bind (resolve hop hC tp) fun placement =>
    hC.bind (hop (.shardByID placement.shardID) trivial) fun _ => hC.pure _

lemma publishRecord {tp : TopicPartition} {record : RecordAppend}
    (happend : ∀ ref, C _ (Broker.onLog ref (.appendRecordsBatch tp [record]))) :
    C _ (publishRecord cfg tp record) :=
  Parts.publishRecord hC (logFor hop hC tp) happend

lemma publishBatchRecords {tp : TopicPartition} {records : List RecordAppend}
    (happend : ∀ ref, C _ (Broker.onLog ref (.appendRecordsBatch tp records))) :
    C _ (publishBatchRecords cfg tp records) :=
  Parts.publishBatchRecords hC (logFor hop hC tp) happend

lemma readFrom (tp : TopicPartition) (offset maxRecords : Nat) :
    C _ (readFrom cfg tp offset maxRecords) :=
  Parts.readFrom hC (logFor hop hC tp) fun ref => onLog hop ref _ trivial

lemma topicExists (topic : String) : C _ (topicExists cfg topic) :=
  Parts.topicExists hC (hop (.metadata (.loadTopicConfig topic)) trivial) fun ref =>
    onLog hop ref _ trivial

lemma createTopic (topic : TopicConfig) : C _ (createTopic cfg topic) :=
  Parts.createTopic hC (topicExists hop hC topic.name) (fun ref => onLog hop ref _ trivial)
    (hop (.metadata (.saveTopicConfig topic)) trivial)

lemma ensureTopic (topic : TopicConfig) : C _ (ShardResolver.ensureTopic cfg topic) := by
  refine Parts.ensureTopic hC fun placement _ =>
    hC.bind (hC.mapError _ (hop (.metadata (.loadShardPlacement _)) trivial)) fun found => ?_
  cases found with
  | some existing => exact hop (.cacheShardPlacement existing) trivial
  | none =>
    exact hC.bind (hC.mapError _ (hop (.metadata (.saveShardPlacement placement)) trivial))
      fun _ => hop (.cacheShardPlacement placement) trivial

lemma ensureAuxTopic (source : TopicConfig) (auxTopic : String) :
    C _ (Broker.ensureAuxTopic cfg source auxTopic) :=
  Parts.ensureAuxTopic hC (topicExists hop hC auxTopic)
    (hop (.metadata (.saveTopicConfig _)) trivial) (createTopic hop hC _) (ensureTopic hop hC _)

lemma saveReassignedPartitionPlacement (req : ReassignPartitionCommand) :
    C _ (Broker.saveReassignedPartitionPlacement req) :=
  hC.bind (hC.mapError _ (hop (.metadata (.saveShardPlacement _)) trivial)) fun _ =>
    hC.bind (hop (.cacheShardPlacement _) trivial) fun _ => hC.pure _

end Runtime

/-! ## The parts that write given tables -/

namespace Within

variable {C : (α : Type) → Handling α → Prop} {cfg : Config} {footprint : Footprint}
  (hop : ∀ op : Op, op.Within footprint → C _ (ask op))

include hop

lemma quiet (op : Op) (h : op.quiet) : C _ (ask op) :=
  hop op (Op.within_of_runtime (Op.runtime_of_quiet h))

lemma appends (ref : LogRef) (tp : TopicPartition) (records : List RecordAppend) :
    C _ (onLog ref (.appendRecordsBatch tp records)) :=
  hop (.log ref (.appendRecordsBatch tp records)) (Op.within_of_runtime trivial)

lemma nowMS : C _ Broker.nowMS := hop .nowMS (Op.within_of_reads trivial rfl rfl)

lemma reads (op : MetaOp) (hregular : op.regular) (hwrites : op.writes = none) : C _ (onMeta op) :=
  hop (.metadata op) (Op.within_of_reads hregular hwrites rfl)

lemma writes (op : MetaOp) (hregular : op.regular) {t : Table} (hwrites : op.writes = some t)
    (ht : t ∈ footprint.tables) : C _ (onMeta op) :=
  hop (.metadata op) (MetaOp.within_of_writes hregular hwrites ht)

variable (hC : Prog.Closed C)

include hC

lemma saveConsumerOffset (hoffsets : .offsets ∈ footprint.tables) (consumer : String) (tp : TopicPartition)
    (nextOffset : Nat) : C _ (Broker.saveConsumerOffset consumer tp nextOffset) :=
  Parts.saveConsumerOffset hC (nowMS hop) fun _ =>
    writes hop (.saveConsumerOffsetState _) trivial rfl hoffsets

lemma publishRecord (tp : TopicPartition) (record : RecordAppend) :
    C _ (publishRecord cfg tp record) :=
  Runtime.publishRecord (quiet hop) hC fun ref => appends hop ref tp [record]

lemma publishBatchRecords (tp : TopicPartition) (records : List RecordAppend) :
    C _ (publishBatchRecords cfg tp records) :=
  Runtime.publishBatchRecords (quiet hop) hC fun ref => appends hop ref tp records

lemma reassignPartitionData (hmoves : footprint.moves = true) {α : Type} (tp : TopicPartition)
    (target : UInt32) {commit : Handling α} (hcommit : C _ commit) :
    C _ (reassignPartitionData cfg tp target commit) := by
  have hshard : ∀ id op, C _ (ask (.log (.shard id) op)) :=
    fun id op => hop (.log (.shard id) op)
      ⟨trivial, fun t ht => (by simp [Op.writes] at ht), fun _ => hmoves⟩
  have hbyID : ∀ id, C _ (ask (.shardByID id)) :=
    fun id => quiet hop (.shardByID id) trivial
  exact hC.bind (Runtime.resolve (quiet hop) hC tp) fun _ => hC.ite (hC.mapError _ hcommit)
    (hC.bind (hbyID _) fun _ => hC.bind (hbyID _) fun _ =>
      hC.bind (hC.bind (hC.mapError _ (hshard _ (.snapshotPartition tp)))
        fun snapshot => hC.mapError _ (hshard _ (.replacePartition snapshot))) fun _ =>
      hC.bind (hC.mapError _ hcommit) fun _ =>
      hC.bind (hC.attempt (hshard _ (.clearPartition tp))) fun _ => hC.pure _)

lemma publish (topic : String) : Parts.Publish C cfg (fun _ => True) topic where
  load := reads hop (.loadTopicConfig topic) trivial rfl
  record partition record _ := publishRecord hop hC ⟨topic, partition⟩ record
  batch partition records _ := publishBatchRecords hop hC ⟨topic, partition⟩ records

lemma dedupe (hbatches : .producerBatches ∈ footprint.tables) : Parts.Dedupe C cfg where
  now := nowMS hop
  list filter := reads hop (.listProducerBatches filter) trivial rfl
  save batch := writes hop (.saveProducerBatch batch) trivial rfl hbatches
  delete batch := writes hop (.deleteProducerBatch batch) trivial rfl hbatches
  read := Runtime.readFrom (quiet hop) hC

lemma commitOffset (hoffsets : .offsets ∈ footprint.tables) (req : CommitOffsetCommand) :
    Parts.CommitOffset C cfg req where
  now _ := nowMS hop
  offsets _ := Parts.partitionOffsets hC (Runtime.logFor (quiet hop) hC _) fun ref =>
    Runtime.onLog (quiet hop) ref _ trivial
  load _ := reads hop (.loadConsumerOffsetState _ _) trivial rfl
  save state _ _ := writes hop (.saveConsumerOffsetState state) trivial rfl hoffsets

omit hC in
lemma members (hmembers : .members ∈ footprint.tables) : Parts.Members C where
  now := nowMS hop
  load group memberID := reads hop (.loadGroupMember group memberID) trivial rfl
  save member := writes hop (.saveGroupMember member) trivial rfl hmembers

omit hC in
lemma groups (hmembers : .members ∈ footprint.tables) (hassignments : .assignments ∈ footprint.tables) :
    Parts.Groups C where
  toMembers := members hop hmembers
  list group := reads hop (.listGroupMembers group) trivial rfl
  deleteExpired now := writes hop (.deleteExpiredGroupMembers now) trivial rfl hmembers
  loadAssignment group := reads hop (.loadGroupAssignment group) trivial rfl
  saveAssignment assignment := writes hop (.saveGroupAssignment assignment) trivial rfl hassignments
  topics := reads hop .listTopics trivial rfl

lemma transactions (htransactions : .transactions ∈ footprint.tables) : Parts.Transactions C cfg where
  now := nowMS hop
  allocate := writes hop .allocateTransactionID trivial rfl htransactions
  list := reads hop .listTransactions trivial rfl
  load txID := reads hop (.loadTransaction txID) trivial rfl
  save state := writes hop (.saveTransaction state) trivial rfl htransactions
  abort tp _ _ := publishRecord hop hC tp _

lemma transactionData : Parts.TransactionData C cfg where
  topic name := reads hop (.loadTopicConfig name) trivial rfl
  data tp _ _ _ := publishRecord hop hC tp _
  batch tp records _ := publishBatchRecords hop hC tp records
  read := Runtime.readFrom (quiet hop) hC

lemma retries (hoffsets : .offsets ∈ footprint.tables) (hindexes : .dlqIndexes ∈ footprint.tables) :
    Parts.Retries C cfg where
  now := nowMS hop
  backoff retryCount policy :=
    hop (.retryBackoffMS retryCount policy) (Op.within_of_reads trivial rfl rfl)
  topic name := reads hop (.loadTopicConfig name) trivial rfl
  loadOffset consumer tp := reads hop (.loadConsumerOffset consumer tp) trivial rfl
  saveOffset := saveConsumerOffset hop hC hoffsets
  aux := Runtime.ensureAuxTopic (quiet hop) hC
  record := publishRecord hop hC
  read := Runtime.readFrom (quiet hop) hC
  fetch consumer tp _ _ := Parts.fetch hC (Runtime.logFor (quiet hop) hC tp)
    (fun ref => Runtime.onLog (quiet hop) ref _ trivial)
    (reads hop (.loadConsumerOffset consumer tp) trivial rfl) fun ref _ =>
      Runtime.onLog (quiet hop) ref _ trivial
  ack consumer tp nextOffset := Parts.ack hC (Runtime.logFor (quiet hop) hC tp)
    (saveConsumerOffset hop hC hoffsets consumer tp nextOffset)
  index entry := writes hop (.saveDLQIndex entry) trivial rfl hindexes

end Within

/-! ## Every command -/

def Command.footprint : Command → Footprint
  | createTopic _ => { tables := [] }
  | produce _ => { tables := [.producerBatches] }
  | produceBatch _ => { tables := [.producerBatches] }
  | produceBatches _ => { tables := [.producerBatches] }
  | commitOffset _ => { tables := [.offsets] }
  | commitOffsets _ => { tables := [.offsets] }
  | deleteConsumerOffsets _ => { tables := [.offsets] }
  | consumerPause _ => { tables := [.consumerPauses] }
  | reassignPartition _ => { tables := [], moves := true }
  | txCommit _ => { tables := [.transactions, .offsets] }
  | txBegin _ => { tables := [.transactions] }
  | txPublish _ => { tables := [.transactions] }
  | txPublishBatch _ => { tables := [.transactions] }
  | txCommitOffset _ => { tables := [.transactions] }
  | txAbort _ => { tables := [.transactions] }
  | txExpire _ => { tables := [.transactions] }
  | directSend _ => { tables := [] }
  | directAck _ => { tables := [.offsets] }
  | joinGroup _ => { tables := [.members] }
  | heartbeatGroup _ => { tables := [.members] }
  | pollGroup _ => { tables := [.members] }
  | rebalanceGroup _ => { tables := [.members, .assignments] }
  | upsertACLPolicy _ => { tables := [.aclPolicies] }
  | deleteACLPolicy _ => { tables := [.aclPolicies] }
  | nack _ => { tables := [.offsets, .dlqIndexes] }
  | processRetry _ => { tables := [.offsets, .dlqIndexes] }
  | scheduleDelay _ => { tables := [.offsets, .dlqIndexes] }
  | processDelay _ => { tables := [.offsets, .dlqIndexes] }

/-- A closed class with the regular calls of a command's footprint has the command. -/
lemma Command.mem_of_within {C : (α : Type) → Handling α → Prop} (hC : Closed C)
    {cfg : Config} (cmd : Command) (hop : ∀ op : Op, op.Within cmd.footprint → C _ (ask op)) :
    C _ (cmd.apply cfg) := by
  have hreply : ∀ {α : Type} (reply : α → Reply) (p : Handling α), C _ p → C _ (replyWith reply p) :=
    fun reply p hp => hC.bind hp fun _ => hC.pure _
  have hcursor : ∀ topic : TopicConfig, C _ (ask (.nextRoundRobin topic)) :=
    fun topic => hop (.nextRoundRobin topic) (Op.within_of_reads trivial rfl rfl)
  have hruntime : ∀ op : Op, op.runtime → C _ (ask op) :=
    fun op h => hop op (Op.within_of_runtime h)
  have hquiet : ∀ op : Op, op.quiet → C _ (ask op) := Within.quiet hop
  cases cmd
  all_goals apply hreply
  case createTopic topic =>
    exact Parts.applyCreateTopic hC (Runtime.createTopic hquiet hC _)
      (Runtime.ensureTopic hquiet hC _)
  case produce req =>
    exact Parts.applyProduce hC (Within.publish hop hC req.topic) trivial
      (fun _ => Within.dedupe hop hC (.head _)) fun _ => hcursor
  case produceBatch req =>
    exact Parts.applyProduceBatch hC (Within.publish hop hC req.topic)
      (fun _ _ => trivial) (fun _ => Within.dedupe hop hC (.head _)) fun _ => hcursor
  case produceBatches requests =>
    exact Parts.applyProduceBatches hC
      (fun req _ => Within.publish hop hC req.topic) (fun _ _ _ _ => trivial)
      (fun _ _ _ => Within.dedupe hop hC (.head _)) fun _ _ _ => hcursor
  case commitOffset req =>
    exact Parts.applyCommitOffset hC (Within.commitOffset hop hC (.head _) req)
  case commitOffsets requests =>
    exact Parts.applyCommitOffsets hC fun req _ =>
      Within.commitOffset hop hC (.head _) req
  case deleteConsumerOffsets requests =>
    exact Parts.applyDeleteConsumerOffsets hC fun _ _ =>
      Within.writes hop (.deleteConsumerOffsetState _ _) trivial rfl (.head _)
  case consumerPause req =>
    exact Parts.applyConsumerPause hC
      (fun hpaused => Within.writes hop (.saveConsumerPause req) hpaused rfl (.head _))
      (Within.writes hop (.deleteConsumerPause _ _) trivial rfl (.head _))
  case reassignPartition req =>
    have hcommit := Runtime.saveReassignedPartitionPlacement hquiet hC req
    exact Parts.applyReassignPartition hC
      (Within.reads hop (.loadTopicConfig _) trivial rfl)
      (fun _ => Within.reassignPartitionData hop hC rfl _ _ hcommit) hcommit
  case txBegin req =>
    exact Parts.applyTxBegin hC (Within.transactions hop hC (.head _)) req
  case txPublish req =>
    exact Parts.applyTxPublish hC (Within.transactions hop hC (.head _))
      (Within.transactionData hop hC) req
  case txPublishBatch req =>
    exact Parts.applyTxPublishBatch hC (Within.transactions hop hC (.head _))
      (Within.transactionData hop hC) req
  case txCommitOffset req =>
    exact Parts.applyTxCommitOffset hC (Within.transactions hop hC (.head _)) req
  case txCommit identity =>
    exact Parts.applyTxCommit hC (Within.transactions hop hC (.head _))
      (fun _ => Within.writes hop (.saveConsumerOffsetState _) trivial rfl (.tail _ (.head _)))
      (fun tp _ _ => Within.publishRecord hop hC tp _) identity
  case txAbort identity =>
    exact Parts.applyTxAbort hC (Within.transactions hop hC (.head _)) identity
  case txExpire nowMS =>
    exact Parts.applyTxExpire hC (Within.transactions hop hC (.head _)) nowMS
  case directSend req =>
    exact Parts.applyDirectSend hC
      (Parts.ensureInbox hC (hruntime (.log .main (.topicExists _)) trivial)
        (hruntime (.log .main (.createTopic _)) trivial)
        (hruntime (.metadata (.saveTopicConfig _)) trivial))
      (Within.nowMS hop) (hop .directSequence (Op.within_of_reads trivial rfl rfl)) fun _ =>
        hruntime (.log .main (.appendRecordsBatch _ _)) trivial
  case directAck req =>
    exact Parts.applyDirectAck hC fun consumer =>
      Within.saveConsumerOffset hop hC (.head _) consumer _ _
  case joinGroup req =>
    exact Parts.applyJoinGroup hC (Within.members hop (.head _)) req
  case heartbeatGroup req =>
    exact Parts.applyHeartbeatGroup hC (Within.members hop (.head _)) req
  case pollGroup req =>
    exact Parts.applyPollGroup hC (Within.members hop (.head _)) req
  case rebalanceGroup group =>
    exact Parts.applyRebalanceGroup hC (Within.groups hop (.head _) (.tail _ (.head _))) group
  case upsertACLPolicy policy =>
    exact Parts.applyUpsertACLPolicy hC
      (Within.writes hop (.saveACLPolicy policy) trivial rfl (.head _))
  case deleteACLPolicy policyID =>
    exact Parts.applyDeleteACLPolicy hC
      (Within.writes hop (.deleteACLPolicy _) trivial rfl (.head _))
  case nack req =>
    exact Parts.applyNack hC (Within.retries hop hC (.head _) (.tail _ (.head _))) req
  case processRetry req =>
    exact Parts.applyProcessRetryBatch hC
      (Within.retries hop hC (.head _) (.tail _ (.head _))) req
  case scheduleDelay req =>
    exact Parts.applyScheduleDelay hC (Within.retries hop hC (.head _) (.tail _ (.head _))) req
  case processDelay req =>
    exact Parts.applyProcessDelayPartition hC
      (Within.retries hop hC (.head _) (.tail _ (.head _))) req

/-- A closed class with the regular calls has every command. -/
lemma Command.mem_of_regular {C : (α : Type) → Handling α → Prop} (hC : Closed C)
    {cfg : Config} (hop : ∀ op : Op, op.regular → C _ (ask op))
    (cmd : Command) : C _ (cmd.apply cfg) :=
  cmd.mem_of_within hC fun op h => hop op h.regular

end Ech0.Broker
