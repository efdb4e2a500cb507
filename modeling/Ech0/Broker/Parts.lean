/-
  The parts of which the handlers are made.

  For every handler there is one lemma here: the handler belongs to any class of programs that
  is closed under the ways of putting programs together (`Prog.Closed`) and has the handler's
  parts, which are the calls of the message runtime and of the metadata store that it makes.
  What a handler may do is thus said once. A property of handlers is then proved by showing
  that its class is closed and has the parts.
-/
import Ech0.Broker.Command

set_option autoImplicit false

namespace Ech0.Broker

open Ech0.Lib Ech0.Store Prog List MessageRuntime

variable {partitioning : PublishPartitioning} {maxRecords : Nat} {record : RecordAppend}

/-! ## What planning keeps of a request -/

/-- The modes that choose a partition from the request alone. -/
def PartitionMode.determined : PartitionMode → Bool
  | .explicit => true
  | .keyHash => true
  | .routingKeyHash => true
  | _ => false

variable {topic : TopicConfig} {records : List RecordAppend}

/-- A topic's ordering policy never brings the round-robin cursor in. -/
lemma determined_of_resolve {resolved : PublishPartitioning}
    (h : resolveTopicOrderingPartitioning topic partitioning records = .ok resolved)
    (hdet : partitioning.mode.determined = true) : resolved.mode.determined = true := by
  have hsame : (withResolvedRoutingKey partitioning records).mode = partitioning.mode := by
    unfold withResolvedRoutingKey
    split
    · rfl
    · rfl
  unfold resolveTopicOrderingPartitioning at h
  split at h
  · cases h
    rw [hsame]
    exact hdet
  · cases h
    rw [hsame]
    exact hdet
  · split at h
    · cases h
      rfl
    · cases h
  · split at h
    · cases h
      rfl
    · cases h
  · cases h

/-- A record's priority is a header; everything else of it stays. -/
def SameButHeaders (record normalized : RecordAppend) : Prop :=
  normalized = { record with headers := normalized.headers }

lemma SameButHeaders.timestampMS {normalized : RecordAppend}
    (h : SameButHeaders record normalized) : normalized.timestampMS = record.timestampMS := by
  rw [h]

lemma sameButHeaders_normalizeRecordPriority {normalized : RecordAppend}
    (h : normalizeRecordPriority topic record = .ok normalized) :
    SameButHeaders record normalized := by
  unfold normalizeRecordPriority at h
  dsimp only at h
  split at h
  · obtain ⟨_, -, h⟩ := Except.bind_eq_ok.mp h
    split at h
    · cases h
    · cases h
      rfl
  · cases h
    rfl

/-- Records that were normalized, each of them by itself. -/
lemma forall₂_of_normalizeRecordsPriority {records normalized : List RecordAppend}
    (h : normalizeRecordsPriority topic records = .ok normalized) :
    List.Forall₂ (fun record normalized => normalizeRecordPriority topic record = .ok normalized)
      records normalized := by
  unfold normalizeRecordsPriority at h
  split at h
  · induction records generalizing normalized with
    | nil =>
      cases h
      exact .nil
    | cons record rest ih =>
      rw [mapM_cons] at h
      obtain ⟨first, hfirst, h⟩ := Except.bind_eq_ok.mp h
      obtain ⟨others, hothers, h⟩ := Except.bind_eq_ok.mp h
      cases h
      exact .cons hfirst (ih hothers)
  · next hdisabled =>
    cases h
    refine List.forall₂_same.mpr fun record _ => ?_
    unfold normalizeRecordPriority
    dsimp only
    rw [if_neg hdisabled]

lemma sameButHeaders_normalizeRecordsPriority {records normalized : List RecordAppend}
    (h : normalizeRecordsPriority topic records = .ok normalized) :
    List.Forall₂ SameButHeaders records normalized :=
  (forall₂_of_normalizeRecordsPriority h).imp fun _ _ => sameButHeaders_normalizeRecordPriority

/-- What holds of the timestamps of a batch holds of them after normalization. -/
lemma timestamps_of_sameButHeaders {records normalized : List RecordAppend}
    {Q : Option Nat → Prop} (h : List.Forall₂ SameButHeaders records normalized)
    (hQ : ∀ r ∈ records, Q r.timestampMS) : ∀ r ∈ normalized, Q r.timestampMS := by
  induction h with
  | nil => exact hQ
  | @cons record first rest others hfirst _ ih =>
    intro r hr
    rcases mem_cons.mp hr with rfl | hr
    · rw [hfirst.timestampMS]
      exact hQ record mem_cons_self
    · exact ih (fun r hr => hQ r (mem_cons_of_mem record hr)) r hr

variable {req : ProduceBatchCommand}

/-- A plan is for the request's topic, and keeps what matters of its records. -/
lemma planProduceBatch_returns {cfg : Config} {index : Nat} {plan : ProduceBatchPlan}
    {Q : Option Nat → Prop} (hQ : ∀ r ∈ req.records, Q r.timestampMS)
    (h : (planProduceBatch cfg index req).Returns plan) :
    plan.tp.topic = req.topic ∧ plan.request.topic = req.topic ∧
      plan.request.idempotency = req.idempotency ∧ ∀ r ∈ plan.request.records, Q r.timestampMS := by
  unfold planProduceBatch at h
  obtain ⟨topic, _, h⟩ := returns_bind h
  obtain ⟨_, _, h⟩ := returns_bind h
  obtain ⟨records, hrecords, h⟩ := returns_bind h
  obtain ⟨partitioning, _, h⟩ := returns_bind h
  obtain ⟨partition, _, h⟩ := returns_bind h
  cases returns_pure h
  exact ⟨rfl, rfl, rfl, timestamps_of_sameButHeaders
    (sameButHeaders_normalizeRecordsPriority (returns_ofExcept hrecords)) hQ⟩

namespace Parts

variable {C : (α : Type) → Handling α → Prop} (hC : Prog.Closed C) {cfg : Config}

include hC

/-! ## The message runtime -/

lemma logFor (tp : TopicPartition)
    (hshard : cfg.sharded = true → C _ (shardForTopicPartition cfg tp)) : C _ (logFor cfg tp) := by
  unfold MessageRuntime.logFor
  split
  · next h => exact hshard h
  · exact hC.pure _

variable {tp : TopicPartition}

lemma appendRecord {ref : LogRef} (happend : C _ (onLog ref (.appendRecordsBatch tp [record]))) :
    C _ (Broker.appendRecord ref tp record) := by
  refine hC.bind happend fun records => ?_
  cases records with
  | nil => exact hC.fail _
  | cons record rest => exact hC.pure _

section
variable {tp : TopicPartition} (hlog : C _ (MessageRuntime.logFor cfg tp))

include hlog

lemma publishRecord (happend : ∀ ref, C _ (onLog ref (.appendRecordsBatch tp [record]))) :
    C _ (publishRecord cfg tp record) :=
  hC.bind hlog fun ref => hC.mapError _ (hC.mapError _ (appendRecord hC (happend ref)))

lemma publishBatchRecords (happend : ∀ ref, C _ (onLog ref (.appendRecordsBatch tp records))) :
    C _ (publishBatchRecords cfg tp records) :=
  hC.bind hlog fun ref => hC.mapError _ (hC.mapError _ (happend ref))

lemma readFrom {offset : Nat} (hread : ∀ ref, C _ (onLog ref (.readFrom tp offset maxRecords))) :
    C _ (readFrom cfg tp offset maxRecords) :=
  hC.bind hlog fun ref => hC.mapError _ (hread ref)

lemma partitionOffsets (hoffsets : ∀ ref, C _ (onLog ref (.partitionOffsets tp))) :
    C _ (partitionOffsets cfg tp) :=
  hC.bind hlog fun ref => hC.mapError _ (hoffsets ref)

end

variable {consumer : String}

lemma saveConsumerOffset {nextOffset : Nat} (hnow : C _ nowMS)
    (hsave : ∀ now, C _ (onMeta (.saveConsumerOffsetState
      { consumer := consumer, topic := tp.topic, partition := tp.partition,
        nextOffset := nextOffset, updatedAtMS := now }))) :
    C _ (Broker.saveConsumerOffset consumer tp nextOffset) :=
  hC.bind hnow fun now => hsave now

lemma queueFetch {ref : LogRef} {offset : Option Nat}
    (hoffsets : C _ (onLog ref (.partitionOffsets tp)))
    (hload : C _ (onMeta (.loadConsumerOffset consumer tp)))
    (hread : ∀ start, C _ (onLog ref (.readFrom tp start maxRecords))) :
    C _ (QueueRuntime.fetch ref consumer tp offset maxRecords) := by
  refine hC.bind (hC.mapError _ hoffsets) fun offsets => hC.bind ?_ fun start =>
    hC.bind (hC.mapError _ (hread start)) fun records => hC.pure _
  unfold QueueRuntime.fetchStart
  cases offset with
  | some offset => exact hC.pure _
  | none =>
    refine hC.bind (hC.mapError _ hload) fun committed => ?_
    cases committed with
    | some committed => exact hC.pure _
    | none => exact hC.pure _

lemma fetch {offset : Option Nat} (hlog : C _ (MessageRuntime.logFor cfg tp))
    (hoffsets : ∀ ref, C _ (onLog ref (.partitionOffsets tp)))
    (hload : C _ (onMeta (.loadConsumerOffset consumer tp)))
    (hread : ∀ ref start, C _ (onLog ref (.readFrom tp start maxRecords))) :
    C _ (fetch cfg consumer tp offset maxRecords) :=
  hC.bind hlog fun ref => hC.mapError _ (queueFetch hC (hoffsets ref) hload (hread ref))

lemma ack {nextOffset : Nat} (hlog : C _ (MessageRuntime.logFor cfg tp))
    (hsave : C _ (Broker.saveConsumerOffset consumer tp nextOffset)) :
    C _ (ack cfg consumer tp nextOffset) :=
  hC.bind hlog fun _ => hC.mapError _ (hC.mapError _ hsave)

lemma topicExists {topic : String} (hload : C _ (onMeta (.loadTopicConfig topic)))
    (hexists : ∀ ref, C _ (onLog ref (.topicExists topic))) : C _ (topicExists cfg topic) := by
  have hshards : ∀ ids, C _ (existsOnShard topic ids) := by
    intro ids
    induction ids with
    | nil => exact hC.pure _
    | cons id rest ih =>
      exact hC.bind (hC.mapError _ (hexists _)) fun found => hC.ite (hC.pure _) ih
  unfold MessageRuntime.topicExists
  split
  · refine hC.bind (hC.mapError _ hload) fun found => ?_
    cases found with
    | some topic => exact hC.pure _
    | none => exact hshards _
  · exact hC.mapError _ (hexists _)

lemma createTopic (hexists : C _ (MessageRuntime.topicExists cfg topic.name))
    (hcreate : ∀ ref, C _ (onLog ref (.createTopic topic)))
    (hsave : C _ (onMeta (.saveTopicConfig topic))) : C _ (createTopic cfg topic) := by
  unfold MessageRuntime.createTopic
  split
  · refine hC.bind hexists fun found => ?_
    refine hC.ite (hC.fail _) (hC.bind (hC.bind (hC.collect _ fun id _ =>
      hC.bind (hC.attempt (hcreate _)) fun result => ?_) fun errors => ?_) fun _ =>
      hC.mapError _ hsave)
    · cases result with
      | ok _ => exact hC.pure _
      | error err => exact hC.pure _
    · split
      · exact hC.pure _
      · exact hC.fail _
  · exact hC.mapError _ (hC.bind (hC.mapError _ (hcreate _)) fun _ => hC.mapError _ hsave)

lemma ensureTopic (hensure : ∀ placement ∈ ShardResolver.planTopic cfg topic,
      C _ (ShardResolver.ensurePlacement placement)) : C _ (ShardResolver.ensureTopic cfg topic) :=
  hC.forEach _ hensure

/-! ## Topics -/

lemma topicConfig {name : String} (hload : C _ (onMeta (.loadTopicConfig name))) :
    C _ (Broker.topicConfig name) :=
  hC.mapError _ hload

lemma loadTopicConfig {name : String} (hload : C _ (onMeta (.loadTopicConfig name))) :
    C _ (Broker.loadTopicConfig name) := by
  refine hC.bind (topicConfig hC hload) fun found => ?_
  cases found with
  | some topic => exact hC.pure _
  | none => exact hC.fail _

lemma applyCreateTopic
    (hcreate : C _ (MessageRuntime.createTopic cfg (normalizeTopicPolicies topic)))
    (hplace : C _ (ShardResolver.ensureTopic cfg (normalizeTopicPolicies topic))) :
    C _ (Broker.applyCreateTopic cfg topic) :=
  hC.bind (hC.ofExcept _) fun _ => hC.ite (hC.fail _) (hC.bind (hC.mapError _ hcreate) fun _ =>
    hC.bind (hC.mapError _ hplace) fun _ => hC.pure _)

/-- The parts of `ensureAuxTopic`, for a given source. -/
lemma ensureAuxTopic {source : TopicConfig} {auxTopic : String}
    (hexists : C _ (MessageRuntime.topicExists cfg auxTopic))
    (hsave : C _ (onMeta (.saveTopicConfig (auxTopicConfig source auxTopic))))
    (hcreate : C _ (MessageRuntime.createTopic cfg (auxTopicConfig source auxTopic)))
    (hplace : C _ (ShardResolver.ensureTopic cfg (auxTopicConfig source auxTopic))) :
    C _ (Broker.ensureAuxTopic cfg source auxTopic) := by
  refine hC.bind (hC.mapError _ hexists) fun found =>
    hC.ite (hC.bind (hC.mapError _ hsave) fun _ => hC.mapError _ hplace)
      (hC.bind (hC.attempt hcreate) fun result => ?_)
  cases result with
  | ok _ => exact hC.mapError _ hplace
  | error err => exact hC.ite (hC.mapError _ hplace) (hC.fail _)

lemma applyReassignPartition {req : ReassignPartitionCommand}
    (hload : C _ (onMeta (.loadTopicConfig req.topic)))
    (hmove : cfg.sharded = true → C _ (reassignPartitionData cfg
      ⟨req.topic, req.partition⟩ req.shardID (saveReassignedPartitionPlacement req)))
    (hcommit : C _ (saveReassignedPartitionPlacement req)) :
    C _ (Broker.applyReassignPartition cfg req) := by
  refine hC.bind (hC.ite (hC.fail _) (hC.bind (loadTopicConfig hC hload) fun topic =>
    hC.ite (hC.fail _) (hC.pure _))) fun _ => ?_
  split
  · next h => exact hC.mapError _ (hmove h)
  · exact hcommit

lemma applyUpsertACLPolicy {policy : ACLPolicy} (hsave : C _ (onMeta (.saveACLPolicy policy))) :
    C _ (Broker.applyUpsertACLPolicy policy) :=
  hC.bind (hC.mapError _ hsave) fun _ => hC.pure _

lemma applyDeleteACLPolicy {policyID : String}
    (hdelete : C _ (onMeta (.deleteACLPolicy (trimSpace policyID)))) :
    C _ (Broker.applyDeleteACLPolicy policyID) :=
  hC.ite (hC.fail _) (hC.bind (hC.mapError _ hdelete) fun _ => hC.pure _)

/-! ## Direct messages -/

lemma ensureInbox {recipient : String}
    (hexists : C _ (onLog .main (.topicExists (Direct.inboxTopic recipient))))
    (hcreate : C _ (onLog .main
      (.createTopic (Direct.inboxTopicConfig (Direct.inboxTopic recipient))))) (hsave : C _ (onMeta
      (.saveTopicConfig (Direct.inboxTopicConfig (Direct.inboxTopic recipient))))) :
    C _ (Direct.ensureInbox recipient) := by
  refine hC.bind (hC.mapError _ hexists) fun found => hC.ite (hC.mapError _ hsave)
    (hC.bind (hC.attempt (hC.bind (hC.mapError _ hcreate) fun _ => hC.mapError _ hsave))
      fun result => ?_)
  cases result with
  | ok _ => exact hC.pure _
  | error err => exact hC.ite (hC.pure _) (hC.fail _)

lemma applyDirectSend {req : DirectCommand} (hensure : C _ (Direct.ensureInbox req.recipient))
    (hnow : C _ nowMS) (hsequence : C _ (ask .directSequence)) (happend : ∀ record, C _ (onLog .main
      (.appendRecordsBatch (Direct.inboxPartition req.recipient) [record]))) :
    C _ (Broker.applyDirectSend req) :=
  hC.mapError _ (hC.ite (hC.fail _) (hC.bind (hC.mapError _ hensure) fun _ =>
    hC.bind (hC.bind hnow fun _ => hC.bind hsequence fun _ => hC.pure _) fun _ => hC.bind hnow fun _ =>
    hC.bind (hC.mapError _ (hC.mapError _ (appendRecord hC (happend _)))) fun _ => hC.pure _))

lemma applyDirectAck {req : AckDirectCommand}
    (hsave : ∀ consumer, C _ (Broker.saveConsumerOffset consumer
      (Direct.inboxPartition req.recipient) req.nextOffset)) : C _ (Broker.applyDirectAck req) := by
  have hack : ∀ consumer,
      C _ (Direct.ackInboxForConsumer consumer req.recipient req.nextOffset) :=
    fun consumer => hC.mapError _ (hC.mapError _ (hsave consumer))
  exact hC.bind (hC.attempt (hack _)) fun result => hC.ite
    (hC.bind (hC.attempt (hack _)) fun _ => hC.mapError _ (hC.ofExcept _))
    (hC.bind (hC.pure _) fun _ => hC.mapError _ (hC.ofExcept _))

/-! ## Produce -/

lemma normalizeRecordPriorityForTopic {topic : String}
    (hload : C _ (onMeta (.loadTopicConfig topic))) :
    C _ (Broker.normalizeRecordPriorityForTopic topic record) :=
  hC.bind (loadTopicConfig hC hload) fun _ => hC.ofExcept _

lemma normalizeRecordsPriorityForTopic {topic : String}
    (hload : C _ (onMeta (.loadTopicConfig topic))) :
    C _ (Broker.normalizeRecordsPriorityForTopic topic records) :=
  hC.bind (loadTopicConfig hC hload) fun _ => hC.ofExcept _

/-- A partition is chosen without the round-robin cursor, unless the mode asks for it. -/
lemma selectPartition {key : Bytes}
    (hcursor : partitioning.mode.determined = false → C _ (ask (.nextRoundRobin topic))) :
    C _ (Broker.selectPartition cfg topic partitioning key) := by
  refine hC.ite (hC.fail _) ?_
  cases hmode : partitioning.mode with
  | explicit | keyHash | routingKeyHash => exact hC.ite (hC.fail _) (hC.pure _)
  | roundRobin | other mode => exact hcursor (by rw [hmode]; rfl)

/-- The same for a partitioning that the topic's ordering policy was applied to. -/
lemma selectResolvedPartition {resolved : PublishPartitioning} {key : Bytes}
    (hres : resolveTopicOrderingPartitioning topic partitioning records = .ok resolved)
    (hcursor : partitioning.mode.determined = false → C _ (ask (.nextRoundRobin topic))) :
    C _ (Broker.selectPartition cfg topic resolved key) := by
  refine selectPartition hC fun hmode => hcursor ?_
  by_contra hdet
  rw [Bool.not_eq_false] at hdet
  rw [determined_of_resolve hres hdet] at hmode
  cases hmode

lemma planProduceBatch {index : Nat} (hload : C _ (onMeta (.loadTopicConfig req.topic)))
    (hcursor : req.partitioning.mode.determined = false →
      ∀ topic, C _ (ask (.nextRoundRobin topic))) :
    C _ (Broker.planProduceBatch cfg index req) := by
  refine hC.bind (loadTopicConfig hC hload) fun topic => hC.bind (hC.ofExcept _) fun _ =>
    hC.bind (hC.ofExcept _) fun records => hC.sequence (hC.ofExcept _) fun partitioning hres =>
    hC.bind ?_ fun partition => hC.pure _
  exact selectResolvedPartition hC (returns_ofExcept hres) fun hdet => hcursor hdet topic

omit hC in
/-- The parts of a publish to a topic; `Q` restricts the timestamps of its records. -/
structure Publish (C : (α : Type) → Handling α → Prop) (cfg : Config) (Q : Option Nat → Prop)
    (topic : String) : Prop where
  load : C _ (onMeta (.loadTopicConfig topic))
  record : ∀ partition record, Q record.timestampMS →
    C _ (MessageRuntime.publishRecord cfg ⟨topic, partition⟩ record)
  batch : ∀ partition records, (∀ r ∈ records, Q r.timestampMS) →
    C _ (MessageRuntime.publishBatchRecords cfg ⟨topic, partition⟩ records)

omit hC in
/-- The parts of the idempotence window. -/
structure Dedupe (C : (α : Type) → Handling α → Prop) (cfg : Config) : Prop where
  now : C _ nowMS
  list : ∀ filter, C _ (onMeta (.listProducerBatches filter))
  save : ∀ batch, C _ (onMeta (.saveProducerBatch batch))
  delete : ∀ batch, C _ (onMeta (.deleteProducerBatch batch))
  read : ∀ tp offset maxRecords, C _ (MessageRuntime.readFrom cfg tp offset maxRecords)

lemma saveProducerDedupeBatch {id : ProduceIdempotency} {records : List Record}
    (hdedupe : Dedupe C cfg) : C _ (Broker.saveProducerDedupeBatch id tp records) :=
  hC.bind hdedupe.now fun _ => hC.bind (hC.ofExcept _) fun batch =>
    hC.bind (hC.mapError _ (hdedupe.save batch)) fun _ =>
    hC.bind (hC.mapError _ (hdedupe.list _)) fun _ => hC.ite (hC.pure _)
      (hC.forEach _ fun batch _ => hC.mapError _ (hdedupe.delete batch))

lemma readProducerPublishedBatch {batch : ProducerPublishedBatch}
    (hread : ∀ tp offset maxRecords, C _ (MessageRuntime.readFrom cfg tp offset maxRecords)) :
    C _ (Broker.readProducerPublishedBatch cfg batch) :=
  hC.bind (hC.mapError _ (hread _ _ _)) fun _ => hC.bind (hC.ofExcept _) fun _ => hC.pure _

lemma appendProduceBatch {idempotency : Option ProduceIdempotency}
    (hpublish : C _ (MessageRuntime.publishBatchRecords cfg tp records))
    (hdedupe : idempotency.isSome = true → Dedupe C cfg) :
    C _ (Broker.appendProduceBatch cfg tp idempotency records) := by
  unfold Broker.appendProduceBatch
  cases idempotency with
  | none => exact hC.bind (hC.mapError _ hpublish) fun _ => hC.pure _
  | some id =>
    have hparts := hdedupe rfl
    refine hC.bind (hC.ofExcept _) fun count => hC.bind ?_ fun batches =>
      hC.bind (hC.ofExcept _) fun found => ?_
    · exact hC.bind (hC.ofExcept _) fun _ => hC.bind (hC.mapError _ (hparts.list _)) fun _ =>
        hC.bind (hC.ofExcept _) fun _ => hC.pure _
    · cases found with
      | some batch => exact hC.bind (readProducerPublishedBatch hC hparts.read) fun _ => hC.pure _
      | none =>
        exact hC.bind (hC.mapError _ hpublish) fun _ =>
          hC.bind (saveProducerDedupeBatch hC hparts) fun _ => hC.pure _

section
variable {Q : Option Nat → Prop}

section
variable (hpublish : Publish C cfg Q req.topic) (hQ : ∀ r ∈ req.records, Q r.timestampMS)
  (hdedupe : req.idempotency.isSome = true → Dedupe C cfg)
  (hcursor : req.partitioning.mode.determined = false → ∀ topic, C _ (ask (.nextRoundRobin topic)))

include hpublish hQ hdedupe hcursor

lemma applyProduceBatchInternal : C _ (Broker.applyProduceBatchInternal cfg req) := by
  refine hC.sequence (planProduceBatch hC hpublish.load hcursor) fun plan hplan => ?_
  obtain ⟨htopic, _, _, hQ'⟩ := planProduceBatch_returns hQ hplan
  have htp : plan.tp = ⟨req.topic, plan.tp.partition⟩ := by rw [← htopic]
  refine hC.bind (appendProduceBatch hC ?_ hdedupe) fun _ => hC.pure _
  rw [htp]
  exact hpublish.batch _ _ hQ'

lemma applyProduceBatch : C _ (Broker.applyProduceBatch cfg req) :=
  hC.bind (applyProduceBatchInternal hC hpublish hQ hdedupe hcursor) fun _ => hC.pure _

end

lemma applyProduce {req : ProduceCommand}
    (hpublish : Publish C cfg Q req.topic) (hQ : Q req.record.timestampMS)
    (hdedupe : req.idempotency.isSome = true → Dedupe C cfg)
    (hcursor : req.partitioning.mode.determined = false →
      ∀ topic, C _ (ask (.nextRoundRobin topic))) : C _ (Broker.applyProduce cfg req) := by
  unfold Broker.applyProduce
  cases hid : req.idempotency with
  | some id =>
    refine hC.bind (applyProduceBatch hC hpublish ?_ (fun _ => hdedupe (by rw [hid]; rfl)) hcursor)
      fun batch => ?_
    · intro r hr
      rw [mem_singleton.mp hr]
      exact hQ
    · split
      · exact hC.fail _
      · exact hC.pure _
  | none =>
    refine hC.bind (loadTopicConfig hC hpublish.load) fun topic =>
      hC.sequence (hC.ofExcept _) fun record hrecord =>
      hC.sequence (hC.ofExcept _) fun partitioning hres => hC.bind ?_ fun partition =>
      hC.bind (hC.mapError _ (hpublish.record _ _ ?_)) fun _ => hC.pure _
    · exact selectResolvedPartition hC (returns_ofExcept hres) fun hdet => hcursor hdet topic
    · rw [(sameButHeaders_normalizeRecordPriority (returns_ofExcept hrecord)).timestampMS]
      exact hQ

variable {requests : List ProduceBatchCommand}

lemma planProduceBatches (hload : ∀ req ∈ requests, C _ (onMeta (.loadTopicConfig req.topic)))
    (hcursor : ∀ req ∈ requests, req.partitioning.mode.determined = false →
      ∀ topic, C _ (ask (.nextRoundRobin topic))) (index : Nat) :
    C _ (Broker.planProduceBatches cfg index requests) := by
  induction requests generalizing index with
  | nil => exact hC.pure _
  | cons req rest ih =>
    refine hC.bind (hC.attempt (planProduceBatch hC (hload req mem_cons_self)
      (hcursor req mem_cons_self))) fun planned => hC.bind ?_ fun e => ?_
    · exact ih (fun r hr => hload r (mem_cons_of_mem req hr))
        (fun r hr => hcursor r (mem_cons_of_mem req hr)) (index + 1)
    · cases planned with
      | ok plan => exact hC.pure _
      | error err => exact hC.pure _

omit hC in
/-- Every plan is the plan of one of the requests. -/
lemma planProduceBatches_returns (hQ : ∀ req ∈ requests, ∀ r ∈ req.records, Q r.timestampMS)
    {index : Nat} {plans : List ProduceBatchPlan} {items : List ProduceBatchItemResult}
    (h : (Broker.planProduceBatches cfg index requests).Returns (plans, items)) :
    ∀ plan ∈ plans, ∃ req ∈ requests, plan.tp.topic = req.topic ∧ plan.request.topic = req.topic ∧
      plan.request.idempotency = req.idempotency ∧ ∀ r ∈ plan.request.records, Q r.timestampMS := by
  induction requests generalizing index plans items with
  | nil =>
    cases returns_pure h
    intro plan hplan
    cases hplan
  | cons req rest ih =>
    have hrest : ∀ r ∈ rest, ∀ a ∈ r.records, Q a.timestampMS := fun r hr =>
      hQ r (mem_cons_of_mem req hr)
    unfold Broker.planProduceBatches at h
    obtain ⟨planned, hplanned, h⟩ := returns_bind h
    obtain ⟨⟨plans', items'⟩, hplans', h⟩ := returns_bind h
    have hothers : ∀ plan ∈ plans', ∃ r ∈ req :: rest, plan.tp.topic = r.topic ∧
        plan.request.topic = r.topic ∧ plan.request.idempotency = r.idempotency ∧
        ∀ a ∈ plan.request.records, Q a.timestampMS := by
      intro plan hplan
      obtain ⟨r, hr, hfacts⟩ := ih hrest hplans' plan hplan
      exact ⟨r, mem_cons_of_mem req hr, hfacts⟩
    cases planned with
    | error err =>
      cases returns_pure h
      exact hothers
    | ok plan =>
      cases returns_pure h
      intro plan' hplan'
      rcases mem_cons.mp hplan' with rfl | hplan'
      · exact ⟨req, mem_cons_self, planProduceBatch_returns (hQ req mem_cons_self)
          (returns_attempt hplanned)⟩
      · exact hothers plan' hplan'

omit hC in
/-- A group's partition is that of one of its plans. -/
lemma groupProduceBatchPlans_tp (plans : List ProduceBatchPlan) :
    ∀ group ∈ groupProduceBatchPlans plans, ∃ plan ∈ plans, group.tp = plan.tp := by
  have hloop : ∀ (rest : List ProduceBatchPlan) (groups : List ProduceBatchGroup),
      (∀ group ∈ groups, ∃ plan ∈ plans, group.tp = plan.tp) → (∀ plan ∈ rest, plan ∈ plans) →
      ∀ group ∈ rest.foldl (fun groups plan =>
        if groups.any fun group => group.tp = plan.tp then
          groups.map fun group =>
            if group.tp = plan.tp then { group with indexes := group.indexes ++ [plan.index] }
            else group
        else groups ++ [⟨plan.tp, [plan.index]⟩]) groups, ∃ plan ∈ plans, group.tp = plan.tp := by
    intro rest
    induction rest with
    | nil => intro groups hgroups _; exact hgroups
    | cons plan rest ih =>
      intro groups hgroups hrest
      rw [foldl_cons]
      refine ih _ ?_ fun p hp => hrest p (mem_cons_of_mem plan hp)
      split
      · intro group hgroup
        obtain ⟨old, hold, rfl⟩ := mem_map.mp hgroup
        obtain ⟨p, hp, heq⟩ := hgroups old hold
        refine ⟨p, hp, ?_⟩
        split
        · exact heq
        · exact heq
      · exact forall_mem_append.mpr ⟨hgroups,
          forall_mem_singleton.mpr ⟨plan, hrest plan mem_cons_self, rfl⟩⟩
  exact hloop plans [] nofun fun _ h => h

lemma applyProduceBatches (hpublish : ∀ req ∈ requests, Publish C cfg Q req.topic)
    (hQ : ∀ req ∈ requests, ∀ r ∈ req.records, Q r.timestampMS)
    (hdedupe : ∀ req ∈ requests, req.idempotency.isSome = true → Dedupe C cfg)
    (hcursor : ∀ req ∈ requests, req.partitioning.mode.determined = false →
      ∀ topic, C _ (ask (.nextRoundRobin topic))) :
    C _ (Broker.applyProduceBatches cfg requests) := by
  refine hC.sequence (planProduceBatches hC (fun req hreq => (hpublish req hreq).load) hcursor 0)
    fun ⟨plans, items⟩ hplans => ?_
  have hplan := planProduceBatches_returns hQ hplans
  -- the requests of a group are requests of plans, with what these keep
  have hrequests : ∀ (group : ProduceBatchGroup), ∀ e ∈ group.requests plans,
      ∃ req ∈ requests, e.2.topic = req.topic ∧ e.2.idempotency = req.idempotency ∧
        ∀ r ∈ e.2.records, Q r.timestampMS := by
    intro group e he
    obtain ⟨index, _, hfound⟩ := mem_filterMap.mp he
    obtain ⟨plan, hfind, rfl⟩ := Option.map_eq_some_iff.mp hfound
    obtain ⟨req, hreq, _, htopic, hid, hQ'⟩ := hplan plan (mem_of_find?_eq_some hfind)
    exact ⟨req, hreq, htopic, hid, hQ'⟩
  have hindividually : ∀ (tp : TopicPartition) (es : List (Nat × ProduceBatchCommand))
      (items : List ProduceBatchItemResult),
      (∀ e ∈ es, ∃ req ∈ requests, e.2.topic = req.topic ∧ e.2.idempotency = req.idempotency ∧
        ∀ r ∈ e.2.records, Q r.timestampMS) →
      C _ (Broker.applyProduceBatchGroupIndividually cfg tp es items) := by
    intro tp es
    induction es with
    | nil => intro items _; exact hC.pure _
    | cons e rest ih =>
      intro items hes
      obtain ⟨index, planned⟩ := e
      obtain ⟨req, hreq, htopic, hid, hQ'⟩ := hes (index, planned) mem_cons_self
      dsimp only at htopic hid hQ'
      refine hC.bind (hC.attempt (applyProduceBatchInternal hC (Q := Q) ?_ hQ' ?_ ?_))
        fun result => ?_
      · dsimp only
        rw [htopic]
        exact hpublish req hreq
      · intro hsome
        dsimp only at hsome
        rw [hid] at hsome
        exact hdedupe req hreq hsome
      · intro hdet
        cases hdet
      · cases result with
        | ok _ | error _ => exact ih _ fun e he => hes e (mem_cons_of_mem _ he)
  have hgroup : ∀ group ∈ groupProduceBatchPlans plans, ∀ items,
      C _ (Broker.applyProduceBatchGroup cfg plans group items) := by
    intro group hmem items
    unfold Broker.applyProduceBatchGroup
    dsimp only
    split
    · exact hindividually _ _ _ (hrequests group)
    · obtain ⟨plan, hplanmem, htp⟩ := groupProduceBatchPlans_tp plans group hmem
      obtain ⟨req, hreq, htopic, _⟩ := hplan plan hplanmem
      have htp' : group.tp = ⟨req.topic, group.tp.partition⟩ := by
        rw [← htopic, ← htp]
      refine hC.bind (hC.attempt ?_) fun result => ?_
      · rw [htp']
        refine (hpublish req hreq).batch _ _ fun r hr => ?_
        obtain ⟨e, he, hr⟩ := mem_flatMap.mp hr
        obtain ⟨_, _, _, _, hQ'⟩ := hrequests group e he
        exact hQ' r hr
      · cases result with
        | error err => exact hC.pure _
        | ok records =>
          dsimp only
          split
          · exact hC.pure _
          · exact hC.pure _
  have hgroups : ∀ (groups : List ProduceBatchGroup) (items : List ProduceBatchItemResult),
      (∀ group ∈ groups, group ∈ groupProduceBatchPlans plans) →
      C _ (Broker.applyProduceBatchGroups cfg plans groups items) := by
    intro groups
    induction groups with
    | nil => intro items _; exact hC.pure _
    | cons group rest ih =>
      intro items hmem
      exact hC.bind (hgroup group (hmem group mem_cons_self) items) fun items =>
        ih items fun g hg => hmem g (mem_cons_of_mem group hg)
  exact hgroups _ items fun _ h => h

end

/-! ## Consumers -/

lemma orNowMS {updatedAtMS : Nat} (hnow : updatedAtMS = 0 → C _ nowMS) :
    C _ (Broker.orNowMS updatedAtMS) := by
  unfold Broker.orNowMS
  split
  · next h => exact hnow h
  · exact hC.pure _

omit hC in
/-- The parts of an offset commit. -/
structure CommitOffset (C : (α : Type) → Handling α → Prop) (cfg : Config)
    (req : CommitOffsetCommand) : Prop where
  now : req.updatedAtMS = 0 → C _ nowMS
  offsets : req.ackOffset.isSome = true →
    C _ (MessageRuntime.partitionOffsets cfg req.topicPartition)
  load : req.ackOffset.isSome = true →
    C _ (onMeta (.loadConsumerOffsetState req.consumer req.topicPartition))
  save : ∀ state : ConsumerOffsetState, state.consumer = req.consumer →
    state.topicPartition = req.topicPartition → C _ (onMeta (.saveConsumerOffsetState state))

lemma applyCommitOffset {req : CommitOffsetCommand} (hparts : CommitOffset C cfg req) :
    C _ (Broker.applyCommitOffset cfg req) := by
  unfold Broker.applyCommitOffset
  cases hack : req.ackOffset with
  | none =>
    exact hC.bind (orNowMS hC hparts.now) fun _ => hC.mapError _ (hparts.save _ rfl rfl)
  | some ackOffset =>
    have hsome : req.ackOffset.isSome = true := by rw [hack]; rfl
    refine hC.bind ?_ fun e => hC.bind (orNowMS hC hparts.now) fun _ =>
      hC.mapError _ (hparts.save _ rfl rfl)
    refine hC.bind (hC.mapError _ (hparts.offsets hsome)) fun offsets =>
      hC.bind (hC.mapError _ (hparts.load hsome)) fun state => ?_
    exact hC.ite (hC.pure _) (hC.pure _)

omit hC in
/-- A command that `compactInsert` leaves is one of the given ones. -/
lemma mem_compactInsert {K V : Type} [DecidableEq K] (key : V → K) (nextOffset : V → Nat)
    (entries : List V) (entry v : V) (h : v ∈ compactInsert key nextOffset entries entry) :
    v = entry ∨ v ∈ entries := by
  induction entries with
  | nil => exact Or.inl (mem_singleton.mp h)
  | cons existing rest ih =>
    unfold compactInsert at h
    split at h
    · rcases mem_cons.mp h with h | h
      · split at h
        · exact Or.inl h
        · exact Or.inr (h ▸ mem_cons_self)
      · exact Or.inr (mem_cons_of_mem _ h)
    · rcases mem_cons.mp h with h | h
      · exact Or.inr (h ▸ mem_cons_self)
      · exact (ih h).imp_right fun hmem => mem_cons_of_mem _ hmem

omit hC in
lemma mem_compacted {K V : Type} [DecidableEq K] (key : V → K) (nextOffset : V → Nat)
    (requests : List V) (v : V) (h : v ∈ requests.foldl (compactInsert key nextOffset) []) :
    v ∈ requests := by
  have hloop : ∀ (rest entries : List V), v ∈ rest.foldl (compactInsert key nextOffset) entries →
      v ∈ entries ∨ v ∈ rest := by
    intro rest
    induction rest with
    | nil => intro entries hmem; exact Or.inl hmem
    | cons entry rest ih =>
      intro entries hmem
      rcases ih _ hmem with hmem | hmem
      · rcases mem_compactInsert key nextOffset entries entry v hmem with rfl | hmem
        · exact Or.inr mem_cons_self
        · exact Or.inl hmem
      · exact Or.inr (mem_cons_of_mem _ hmem)
  rcases hloop requests [] h with hnil | hmem
  · cases hnil
  · exact hmem

lemma applyCommitOffsets {requests : List CommitOffsetCommand}
    (hparts : ∀ req ∈ requests, CommitOffset C cfg req) :
    C _ (Broker.applyCommitOffsets cfg requests) := by
  have heach : ∀ rs : List CommitOffsetCommand, (∀ req ∈ rs, req ∈ requests) →
      C _ (applyEachCommitOffset cfg rs) := by
    intro rs hrs
    refine hC.collect rs fun req hreq => ?_
    exact hC.bind (hC.attempt (applyCommitOffset hC (hparts req (hrs req hreq)))) fun _ => hC.pure _
  exact hC.ite (heach requests fun _ h => h)
    (hC.bind (heach _ fun req hreq => mem_compacted _ _ requests req hreq) fun _ => hC.pure _)

lemma applyDeleteConsumerOffsets {requests : List DeleteConsumerOffsetCommand}
    (hdelete : ∀ req ∈ requests,
      C _ (onMeta (.deleteConsumerOffsetState req.consumer ⟨req.topic, req.partition⟩))) :
    C _ (Broker.applyDeleteConsumerOffsets requests) :=
  hC.bind (hC.forEach _ fun req hreq => hC.mapError _ (hdelete req hreq)) fun _ => hC.pure _

/-- Only a pause that is on is saved. -/
lemma applyConsumerPause {req : ConsumerPauseState}
    (hsave : req.paused = true → C _ (onMeta (.saveConsumerPause req)))
    (hdelete : C _ (onMeta (.deleteConsumerPause req.consumer req.topicPartition))) :
    C _ (Broker.applyConsumerPause req) := by
  unfold Broker.applyConsumerPause
  split
  · next h => exact hC.bind (hC.mapError _ (hsave h)) fun _ => hC.pure _
  · exact hC.bind (hC.mapError _ hdelete) fun _ => hC.pure _

omit hC in
/-- The parts of the commands of one group member. -/
structure Members (C : (α : Type) → Handling α → Prop) : Prop where
  now : C _ nowMS
  load : ∀ group memberID, C _ (onMeta (.loadGroupMember group memberID))
  save : ∀ member, C _ (onMeta (.saveGroupMember member))

omit hC in
/-- The parts of the group commands. -/
structure Groups (C : (α : Type) → Handling α → Prop) : Prop extends Members C where
  list : ∀ group, C _ (onMeta (.listGroupMembers group))
  deleteExpired : ∀ now, C _ (onMeta (.deleteExpiredGroupMembers now))
  loadAssignment : ∀ group, C _ (onMeta (.loadGroupAssignment group))
  saveAssignment : ∀ assignment, C _ (onMeta (.saveGroupAssignment assignment))
  topics : C _ (onMeta .listTopics)

section
variable (hmembers : Members C)

include hmembers

lemma applyJoinGroup (req : JoinGroupCommand) : C _ (Broker.applyJoinGroup req) :=
  hC.ite (hC.fail _) (hC.bind hmembers.now fun _ =>
    hC.bind (hC.mapError _ (hmembers.save _)) fun _ => hC.pure _)

lemma loadUnexpiredGroupMember (group memberID : String) (now : Nat) :
    C _ (Broker.loadUnexpiredGroupMember group memberID now) := by
  refine hC.bind (hC.mapError _ (hmembers.load group memberID)) fun found => ?_
  cases found with
  | none => exact hC.fail _
  | some member => exact hC.ite (hC.fail _) (hC.pure _)

lemma applyHeartbeatGroup (req : HeartbeatGroupCommand) : C _ (Broker.applyHeartbeatGroup req) :=
  hC.bind hmembers.now fun _ => hC.bind (loadUnexpiredGroupMember hC hmembers _ _ _) fun _ =>
    hC.bind (hC.mapError _ (hmembers.save _)) fun _ => hC.pure _

lemma applyPollGroup (req : PollGroupCommand) : C _ (Broker.applyPollGroup req) :=
  hC.bind hmembers.now fun _ => hC.bind (loadUnexpiredGroupMember hC hmembers _ _ _) fun _ =>
    hC.bind (hC.mapError _ (hmembers.save _)) fun _ => hC.pure _

end

lemma applyRebalanceGroup (hgroups : Groups C) (group : String) :
    C _ (Broker.applyRebalanceGroup cfg group) :=
  hC.bind hgroups.now fun now => hC.bind (hC.mapError _ (hgroups.deleteExpired now)) fun _ =>
    hC.bind (hC.bind (hC.mapError _ (hgroups.list group)) fun _ => hC.pure _) fun _ =>
    hC.bind (hC.mapError _ (hgroups.loadAssignment group)) fun _ => hC.ite
      (hC.bind (hC.pure _) fun _ =>
        hC.bind (hC.mapError _ (hgroups.saveAssignment _)) fun _ => hC.pure _)
      (hC.bind (hC.mapError _ hgroups.topics) fun _ =>
        hC.bind (hC.mapError _ (hgroups.saveAssignment _)) fun _ => hC.pure _)

end Parts

end Ech0.Broker
