/-
  Topics: creation, the auxiliary topics the broker makes for itself, the move of a partition
  to another shard, and the access policies.
-/
import Ech0.Broker.Direct

set_option autoImplicit false

namespace Ech0.Broker

open Ech0.Lib Ech0.Store

/-! ## Internal names (`retry_delay.go`) -/

def internalRetryTopicPrefix : String := "__retry"
def internalDelayTopicPrefix : String := "__delay"
def internalDLQTopicPrefix : String := "__dlq"

def retryTopicName (sourceTopic : String) : String := internalRetryTopicPrefix ++ "." ++ sourceTopic
def delayTopicName (targetTopic : String) : String := internalDelayTopicPrefix ++ "." ++ targetTopic
def dlqTopicName (sourceTopic : String) : String := internalDLQTopicPrefix ++ "." ++ sourceTopic

def hasInternalPrefix (topic start : String) : Bool :=
  topic = start ∨ hasPrefix topic (start ++ ".") ∨ hasPrefix topic (start ++ "/")

def isRetryTopicName (topic : String) : Bool := hasInternalPrefix topic internalRetryTopicPrefix
def isDelayTopicName (topic : String) : Bool := hasInternalPrefix topic internalDelayTopicPrefix
def isDLQTopicName (topic : String) : Bool := hasInternalPrefix topic internalDLQTopicPrefix

def isInternalTopicName (topic : String) : Bool :=
  Direct.isInternalTopicName topic || isRetryTopicName topic || isDelayTopicName topic
    || isDLQTopicName topic

/-! ## Policies (`service_helpers.go`) -/

/-- `normalizeTopicPolicies`: a topic without a name is left alone, and, unlike the store's
`normalizeTopic`, the message expiry action is not filled in. -/
def normalizeTopicPolicies (topic : TopicConfig) : TopicConfig :=
  if topic.name = "" then topic
  else
    let defaults := newTopicConfig topic.name
    { topic with
      partitions := if topic.partitions = 0 then defaults.partitions else topic.partitions
      segmentMaxBytes :=
        if topic.segmentMaxBytes = 0 then defaults.segmentMaxBytes else topic.segmentMaxBytes
      indexIntervalBytes :=
        if topic.indexIntervalBytes = 0 then defaults.indexIntervalBytes
        else topic.indexIntervalBytes
      retentionMaxBytes :=
        if topic.retentionMaxBytes = 0 then defaults.retentionMaxBytes else topic.retentionMaxBytes
      cleanupPolicy :=
        if topic.cleanupPolicy = .unset then defaults.cleanupPolicy else topic.cleanupPolicy
      maxMessageBytes :=
        if topic.maxMessageBytes = 0 then defaults.maxMessageBytes else topic.maxMessageBytes
      maxBatchBytes :=
        if topic.maxBatchBytes = 0 then defaults.maxBatchBytes else topic.maxBatchBytes
      retryPolicy :=
        if topic.retryPolicy.maxAttempts = 0 then defaults.retryPolicy else topic.retryPolicy
      priorityPolicy := normalizeTopicPriorityPolicy topic.priorityPolicy }

def validateTopicPriorityPolicy (topic : TopicConfig) : Except Error Unit :=
  let policy := normalizeTopicPriorityPolicy topic.priorityPolicy
  if policy.enabled then
    if policy.min > policy.max then
      .error (brokerStoreError .invalidArgument
        ("topic " ++ topic.name ++ " priority min " ++ showNat policy.min ++ " exceeds max "
          ++ showNat policy.max))
    else if policy.default < policy.min ∨ policy.default > policy.max then
      .error (brokerStoreError .invalidArgument
        ("topic " ++ topic.name ++ " priority default " ++ showNat policy.default
          ++ " is outside range " ++ showNat policy.min ++ ".." ++ showNat policy.max))
    else .ok ()
  else .ok ()

/-- The error for an ordering policy that is none of the four. -/
def invalidOrderingPolicy (topic : TopicConfig) (policy : String) : Error :=
  brokerStoreError .invalidArgument
    ("topic " ++ topic.name ++ " has invalid ordering policy " ++ quote policy)

def validateTopicPolicies (topic : TopicConfig) : Except Error Unit :=
  match topic.orderingPolicy with
  | .other policy => .error (invalidOrderingPolicy topic policy)
  | _ => validateTopicPriorityPolicy topic

/-! ## Handlers (`retry_delay.go`, `partition_reassignment.go`) -/

/-- `Broker.topicConfig` (`topic_cache.go`) without its cache, which is in `CachedWorld.topicConfig`
with all that fills it and drops from it: what is stored. -/
def topicConfig (name : String) : Handling (Option TopicConfig) :=
  wrapBroker "load topic config" (onMeta (.loadTopicConfig name))

/-- The error for a topic that is not there. -/
def topicNotFound (topic : String) : Error :=
  brokerStoreError .topicNotFound ("topic " ++ topic ++ " not found")

def loadTopicConfig (topic : String) : Handling TopicConfig := do
  match ← topicConfig topic with
  | some cfg => pure cfg
  | none => Prog.fail (topicNotFound topic)

/-- `applyCreateTopic`. `ensureTopicDataShards` does nothing in either kind of data shard. -/
def applyCreateTopic (cfg : Config) (topic : TopicConfig) : Handling TopicConfig := do
  let topic := normalizeTopicPolicies topic
  Prog.ofExcept (validateTopicPolicies topic)
  if isInternalTopicName topic.name then
    Prog.fail (brokerStoreError .invalidArgument
      ("topic name " ++ topic.name ++ " is reserved for internal broker use"))
  else
    wrapBroker "create topic" (MessageRuntime.createTopic cfg topic)
    wrapBroker "ensure topic shard placement" (ShardResolver.ensureTopic cfg topic)
    pure topic

/-- The configuration `ensureAuxTopic` gives an auxiliary topic. -/
def auxTopicConfig (source : TopicConfig) (auxTopic : String) : TopicConfig :=
  { newTopicConfig auxTopic with
    partitions := source.partitions
    segmentMaxBytes := source.segmentMaxBytes
    indexIntervalBytes := source.indexIntervalBytes
    retentionMaxBytes := source.retentionMaxBytes
    retentionMS := source.retentionMS
    maxMessageBytes := source.maxMessageBytes
    maxBatchBytes := source.maxBatchBytes
    retryPolicy := source.retryPolicy
    deadLetterTopic := source.deadLetterTopic
    delayEnabled := source.delayEnabled
    messageTTLMS := none
    messageExpiryAction := .delete
    compactionEnabled := false }

/-- `ensureAuxTopic`: a topic that exists has its configuration overwritten. -/
def ensureAuxTopic (cfg : Config) (source : TopicConfig) (auxTopic : String) : Handling Unit := do
  let topic := auxTopicConfig source auxTopic
  let found ← wrapBroker "check auxiliary topic" (MessageRuntime.topicExists cfg auxTopic)
  if found then
    wrapBroker "save auxiliary topic config" (onMeta (.saveTopicConfig topic))
    wrapBroker "ensure auxiliary topic shard placement" (ShardResolver.ensureTopic cfg topic)
  else
    match ← Prog.attempt (MessageRuntime.createTopic cfg topic) with
    | .error err =>
      if err.code = .topicExists then
        wrapBroker "ensure auxiliary topic shard placement" (ShardResolver.ensureTopic cfg topic)
      else Prog.fail (err.wrap "create auxiliary topic")
    | .ok () =>
      wrapBroker "ensure auxiliary topic shard placement" (ShardResolver.ensureTopic cfg topic)

structure ReassignPartitionCommand where
  topic : String
  partition : UInt32
  shardID : UInt32

def validatePartitionReassignment (cfg : Config) (topic : String) (partition target : UInt32) :
    Handling Unit := do
  if target ≥ cfg.shardCount then
    Prog.fail (brokerStoreError .invalidArgument
      ("target shard " ++ showUInt32 target ++ " is outside configured shard count "
        ++ showUInt32 cfg.shardCount))
  else
    let topicConfig ← loadTopicConfig topic
    if partition ≥ topicConfig.partitions then
      Prog.fail (brokerStoreError .invalidArgument
        ("partition " ++ showUInt32 partition ++ " is outside topic " ++ topic
          ++ " partition count " ++ showUInt32 topicConfig.partitions))
    else pure ()

def saveReassignedPartitionPlacement (req : ReassignPartitionCommand) :
    Handling ShardPlacement := do
  let placement : ShardPlacement := ⟨req.topic, req.partition, req.shardID⟩
  wrapBroker "save reassigned shard placement" (onMeta (.saveShardPlacement placement))
  ShardResolver.cacheShardPlacement placement
  pure placement

def applyReassignPartition (cfg : Config) (req : ReassignPartitionCommand) :
    Handling ShardPlacement := do
  validatePartitionReassignment cfg req.topic req.partition req.shardID
  if cfg.sharded then
    wrapBroker "reassign partition data"
      (MessageRuntime.reassignPartitionData cfg ⟨req.topic, req.partition⟩ req.shardID
        (saveReassignedPartitionPlacement req))
  else saveReassignedPartitionPlacement req

/-! ## Access policies (`governance_acl.go`) -/

def applyUpsertACLPolicy (policy : ACLPolicy) : Handling ACLPolicy := do
  wrapBroker ("save acl policy " ++ policy.policyID) (onMeta (.saveACLPolicy policy))
  pure policy

/-- `applyDeleteACLPolicy`: the id deleted. -/
def applyDeleteACLPolicy (policyID : String) : Handling String := do
  let policyID := trimSpace policyID
  if policyID = "" then
    Prog.fail (brokerStoreError .invalidArgument "policy_id is required")
  else
    wrapBroker ("delete acl policy " ++ policyID) (onMeta (.deleteACLPolicy policyID))
    pure policyID

end Ech0.Broker
