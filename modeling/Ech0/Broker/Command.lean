/-
  The replicated commands: what each does when it is applied (`service_raft_commands.go`, and
  `Update` in `raft_state_machine.go`).
-/
import Ech0.Broker.Retry

set_option autoImplicit false

namespace Ech0.Broker

open Ech0.Lib Ech0.Store

/-- The commands of `raft_commands.go` and `retry_delay.go`, decoded. -/
inductive Command where
  | createTopic (topic : TopicConfig)
  | produce (req : ProduceCommand)
  | produceBatch (req : ProduceBatchCommand)
  | produceBatches (requests : List ProduceBatchCommand)
  | commitOffset (req : CommitOffsetCommand)
  | commitOffsets (requests : List CommitOffsetCommand)
  | deleteConsumerOffsets (requests : List DeleteConsumerOffsetCommand)
  | consumerPause (req : ConsumerPauseState)
  | reassignPartition (req : ReassignPartitionCommand)
  | txBegin (req : TxBeginCommand)
  | txPublish (req : TxPublishCommand)
  | txPublishBatch (req : TxPublishBatchCommand)
  | txCommitOffset (req : TxCommitOffsetCommand)
  | txCommit (identity : TransactionIdentity)
  | txAbort (identity : TransactionIdentity)
  | txExpire (nowMS : Nat)
  | directSend (req : DirectCommand)
  | directAck (req : AckDirectCommand)
  | joinGroup (req : JoinGroupCommand)
  | heartbeatGroup (req : HeartbeatGroupCommand)
  | pollGroup (req : PollGroupCommand)
  | rebalanceGroup (group : String)
  | upsertACLPolicy (policy : ACLPolicy)
  | deleteACLPolicy (policyID : String)
  | nack (req : NackCommand)
  | processRetry (req : ProcessRetryCommand)
  | scheduleDelay (req : ScheduleDelayCommand)
  | processDelay (req : ProcessDelayCommand)

/-- What a command returns. -/
inductive Reply where
  | topic (topic : TopicConfig)
  | produced (result : ProduceResult)
  | producedBatch (result : ProduceBatchResult)
  | producedBatches (items : List ProduceBatchItemResult)
  | done
  | errors (texts : List String)
  | count (n : Nat)
  | pause (state : ConsumerPauseState)
  | placement (placement : ShardPlacement)
  | begun (result : TransactionBeginResult)
  | txPublished (result : TransactionPublishResult)
  | txPublishedBatch (result : TransactionPublishBatchResult)
  | txOffset (txID : Nat) (offset : TransactionOffsetCommit)
  | boundary (result : TransactionBoundaryResult)
  | sent (result : Direct.SendResult)
  | member (member : ConsumerGroupMember)
  | assignment (assignment : ConsumerGroupAssignment)
  | policy (policy : ACLPolicy)
  | policyID (policyID : String)
  | retry (result : RetryResult)
  | retried (result : ProcessRetryResult)
  | delayed (result : DelayScheduleResult)
  deriving DecidableEq

/-- The reply of a handler. -/
def replyWith {α : Type} (reply : α → Reply) (p : Handling α) : Handling Reply := do
  let value ← p
  pure (reply value)

/-- The handlers of `raftCommandHandlers`. -/
def Command.apply (cfg : Config) : Command → Handling Reply
  | createTopic topic => replyWith .topic (applyCreateTopic cfg topic)
  | produce req => replyWith .produced (applyProduce cfg req)
  | produceBatch req => replyWith .producedBatch (applyProduceBatch cfg req)
  | produceBatches requests => replyWith .producedBatches (applyProduceBatches cfg requests)
  | commitOffset req => replyWith (fun _ => .done) (applyCommitOffset cfg req)
  | commitOffsets requests => replyWith .errors (applyCommitOffsets cfg requests)
  | deleteConsumerOffsets requests => replyWith .count (applyDeleteConsumerOffsets requests)
  | consumerPause req => replyWith .pause (applyConsumerPause req)
  | reassignPartition req => replyWith .placement (applyReassignPartition cfg req)
  | txBegin req => replyWith .begun (applyTxBegin cfg req)
  | txPublish req => replyWith .txPublished (applyTxPublish cfg req)
  | txPublishBatch req => replyWith .txPublishedBatch (applyTxPublishBatch cfg req)
  | txCommitOffset req => replyWith (fun e => .txOffset e.1 e.2) (applyTxCommitOffset cfg req)
  | txCommit identity => replyWith .boundary (applyTxCommit cfg identity)
  | txAbort identity => replyWith .boundary (applyTxAbort cfg identity)
  | txExpire nowMS => replyWith .count (applyTxExpire cfg nowMS)
  | directSend req => replyWith .sent (applyDirectSend req)
  | directAck req => replyWith (fun _ => .done) (applyDirectAck req)
  | joinGroup req => replyWith .member (applyJoinGroup req)
  | heartbeatGroup req => replyWith .member (applyHeartbeatGroup req)
  | pollGroup req => replyWith .member (applyPollGroup req)
  | rebalanceGroup group => replyWith .assignment (applyRebalanceGroup cfg group)
  | upsertACLPolicy policy => replyWith .policy (applyUpsertACLPolicy policy)
  | deleteACLPolicy policyID => replyWith .policyID (applyDeleteACLPolicy policyID)
  | nack req => replyWith .retry (applyNack cfg req)
  | processRetry req => replyWith .retried (applyProcessRetryBatch cfg req)
  | scheduleDelay req => replyWith .delayed (applyScheduleDelay cfg req)
  | processDelay req => replyWith .count (applyProcessDelayPartition cfg req)

/-- Apply a command (`raftStateMachine.Update`, and the local application of a router). -/
def applyCommand (cfg : Config) (cmd : Command) (w : World) : Except Error Reply × World :=
  (cmd.apply cfg).run w

/-- Apply commands one after the other; an error of one does not stop the next. -/
def applyCommands (cfg : Config) (cmds : List Command) (w : World) : World :=
  cmds.foldl (fun w cmd => (applyCommand cfg cmd w).2) w

/-- The placement `Resolve` returns. -/
def resolvedShard (cfg : Config) (w : World) (tp : TopicPartition) : UInt32 :=
  match w.placementCache[tp]? with
  | some placement => placement.shardID
  | none =>
    match w.metadata.loadShardPlacement tp with
    | some placement => placement.shardID
    | none => ShardResolver.shardForPartition cfg tp.partition

end Ech0.Broker
