/-
  Consumers: committed and acknowledged offsets, pauses, and the consumer groups with their
  leases and partition assignments.
-/
import Ech0.Broker.Produce

set_option autoImplicit false

namespace Ech0.Broker

open Ech0.Lib Ech0.Store

/-! ## Offsets (`service_apply.go`, `ack_offsets.go`, `service_commands.go`) -/

structure CommitOffsetCommand where
  consumer : String
  topic : String
  partition : UInt32
  nextOffset : Nat := 0
  ackOffset : Option Nat := none
  metadata : String := ""
  updatedAtMS : Nat := 0
  deriving DecidableEq

def CommitOffsetCommand.topicPartition (req : CommitOffsetCommand) : TopicPartition :=
  ⟨req.topic, req.partition⟩

/-- The loop of `drainAckedOffsets`: acknowledged offsets next in line move the offset on. -/
def drainPending : Nat → List Nat → Nat × List Nat
  | nextOffset, [] => (nextOffset, [])
  | nextOffset, offset :: rest =>
    if offset = nextOffset then drainPending (nextOffset + 1) rest else (nextOffset, offset :: rest)

/-- `NormalizeConsumerOffsetState` on an offset and its pending offsets. -/
def normalizePendingOffsets (nextOffset : Nat) (pending : List Nat) : List Nat :=
  (MemoryStore.normalizeConsumerOffsetState
    { consumer := "", topic := "", partition := 0, nextOffset := nextOffset,
      pendingOffsets := pending }).pendingOffsets

def drainAckedOffsets (nextOffset : Nat) (pending : List Nat) : Nat × List Nat :=
  let (nextOffset, pending) := drainPending nextOffset (normalizePendingOffsets nextOffset pending)
  (nextOffset, normalizePendingOffsets nextOffset pending)

def advanceAckedOffsets (cfg : Config) (consumer : String) (tp : TopicPartition) (ackOffset : Nat) :
    Handling (Nat × List Nat) := do
  let offsets ← wrapBroker "load partition offsets for ack" (MessageRuntime.partitionOffsets cfg tp)
  let state ← wrapBroker "load consumer offset for ack"
    (onMeta (.loadConsumerOffsetState consumer tp))
  let nextOffset :=
    match state with
    | some state => max state.nextOffset offsets.logStartOffset
    | none => offsets.logStartOffset
  let pending := (state.map ConsumerOffsetState.pendingOffsets).getD []
  if ackOffset < nextOffset then pure (nextOffset, pending)
  else pure (drainAckedOffsets nextOffset (pending ++ [ackOffset]))

/-- `if state.UpdatedAtMS == 0 { state.UpdatedAtMS = store.NowMS() }`. -/
def orNowMS (updatedAtMS : Nat) : Handling Nat :=
  if updatedAtMS = 0 then nowMS else pure updatedAtMS

def applyAckOffset (cfg : Config) (req : CommitOffsetCommand) (ackOffset : Nat) :
    Handling Unit := do
  let (nextOffset, pending) ← advanceAckedOffsets cfg req.consumer req.topicPartition ackOffset
  let updatedAtMS ← orNowMS req.updatedAtMS
  wrapBroker "ack record offset" (onMeta (.saveConsumerOffsetState
    { consumer := req.consumer, topic := req.topic, partition := req.partition,
      nextOffset := nextOffset, pendingOffsets := pending, metadata := req.metadata,
      updatedAtMS := updatedAtMS }))

def applyCommitOffset (cfg : Config) (req : CommitOffsetCommand) : Handling Unit :=
  match req.ackOffset with
  | some ackOffset => applyAckOffset cfg req ackOffset
  | none => do
    let updatedAtMS ← orNowMS req.updatedAtMS
    wrapBroker "commit offset" (onMeta (.saveConsumerOffsetState
      { consumer := req.consumer, topic := req.topic, partition := req.partition,
        nextOffset := req.nextOffset, metadata := req.metadata, updatedAtMS := updatedAtMS }))

def commitOffsetKey (req : CommitOffsetCommand) : String × TopicPartition :=
  (req.consumer, req.topicPartition)

/-- The entry of a key in a list kept in the order of first insertion, or its replacement. -/
def compactInsert {K V : Type} [DecidableEq K] (key : V → K) (nextOffset : V → Nat) (entries : List V)
    (entry : V) : List V :=
  match entries with
  | [] => [entry]
  | existing :: rest =>
    if key existing = key entry then
      (if nextOffset entry ≥ nextOffset existing then entry else existing) :: rest
    else existing :: compactInsert key nextOffset rest entry

/-- `compactCommitOffsetCommands`: one command per consumer and partition. The map is visited in
any order; the commands are listed in the order of their keys' first appearance. -/
def compactCommitOffsetCommands (requests : List CommitOffsetCommand) : List CommitOffsetCommand :=
  requests.foldl (compactInsert commitOffsetKey CommitOffsetCommand.nextOffset) []

/-- A command's outcome as the text of its error. -/
def errorMessage {α : Type} : Except Error α → String
  | .ok _ => ""
  | .error err => err.message

/-- `applyCommitOffsetsInOrder`, and the loop over the compacted commands: every command is
tried, and the texts of the errors are collected. -/
def applyEachCommitOffset (cfg : Config) (requests : List CommitOffsetCommand) :
    Handling (List String) :=
  Prog.collect (fun req => do
    let result ← Prog.attempt (applyCommitOffset cfg req)
    pure (errorMessage result)) requests

/-- `applyCommitOffsets`: the error texts of the requests. -/
def applyCommitOffsets (cfg : Config) (requests : List CommitOffsetCommand) :
    Handling (List String) := do
  if requests.any fun req => req.ackOffset.isSome then applyEachCommitOffset cfg requests
  else
    let compacted := compactCommitOffsetCommands requests
    let errors ← applyEachCommitOffset cfg compacted
    let byKey := (compacted.map commitOffsetKey).zip errors
    pure (requests.map fun req =>
      ((byKey.find? fun e => e.1 = commitOffsetKey req).map Prod.snd).getD "")

structure DeleteConsumerOffsetCommand where
  consumer : String
  topic : String
  partition : UInt32

/-- `applyDeleteConsumerOffsets`: the number deleted. -/
def applyDeleteConsumerOffsets (requests : List DeleteConsumerOffsetCommand) : Handling Nat := do
  Prog.forEach (fun req => wrapBroker "delete consumer offset"
    (onMeta (.deleteConsumerOffsetState req.consumer ⟨req.topic, req.partition⟩))) requests
  pure requests.length

/-- `applyConsumerPause`. The command and the stored state are one type in the source too. -/
def applyConsumerPause (req : ConsumerPauseState) : Handling ConsumerPauseState := do
  if req.paused then
    wrapBroker "save consumer pause" (onMeta (.saveConsumerPause req))
    pure req
  else
    wrapBroker "delete consumer pause"
      (onMeta (.deleteConsumerPause req.consumer req.topicPartition))
    pure req

/-! ## Group membership (`service_apply_groups.go`, `service_commands.go`) -/

def defaultGroupSessionTimeoutMS : Nat := 30000
def defaultGroupMaxPollIntervalMS : Nat := 300000
def minGroupLeaseRefreshTimestampMS : Nat := 1

structure JoinGroupCommand where
  group : String
  memberID : String
  topics : List String
  sessionTimeoutMS : Nat := 0
  maxPollIntervalMS : Nat := 0

structure HeartbeatGroupCommand where
  group : String
  memberID : String
  sessionTimeoutMS : Option Nat := none
  maxPollIntervalMS : Option Nat := none

structure PollGroupCommand where
  group : String
  memberID : String

def groupMemberFromCommand (now : Nat) (req : JoinGroupCommand) : ConsumerGroupMember :=
  { group := req.group
    memberID := req.memberID
    topics := req.topics
    sessionTimeoutMS :=
      if req.sessionTimeoutMS = 0 then defaultGroupSessionTimeoutMS else req.sessionTimeoutMS
    maxPollIntervalMS :=
      if req.maxPollIntervalMS = 0 then defaultGroupMaxPollIntervalMS else req.maxPollIntervalMS
    joinedAtMS := now
    lastHeartbeatMS := now
    lastPollMS := now }

def applyJoinGroup (req : JoinGroupCommand) : Handling ConsumerGroupMember := do
  if req.group = "" ∨ req.memberID = "" then
    Prog.fail (brokerStoreError .invalidArgument "group and member_id are required")
  else
    let now ← nowMS
    let member := groupMemberFromCommand now req
    wrapBroker "save group member" (onMeta (.saveGroupMember member))
    pure member

def loadUnexpiredGroupMember (group memberID : String) (now : Nat) :
    Handling ConsumerGroupMember := do
  match ← wrapBroker "load group member" (onMeta (.loadGroupMember group memberID)) with
  | none =>
    Prog.fail (brokerStoreError .invalidArgument
      ("group member " ++ group ++ "/" ++ memberID ++ " not found"))
  | some member =>
    if member.expiredAt now then
      Prog.fail (brokerStoreError .invalidArgument
        ("group member " ++ group ++ "/" ++ memberID ++ " lease expired"))
    else pure member

/-- A timeout given and not zero replaces the one there. -/
def replaceTimeout (given : Option Nat) (current : Nat) : Nat :=
  match given with
  | some timeout => if timeout > 0 then timeout else current
  | none => current

def applyHeartbeatGroup (req : HeartbeatGroupCommand) : Handling ConsumerGroupMember := do
  let now ← nowMS
  let loaded ← loadUnexpiredGroupMember req.group req.memberID now
  let member : ConsumerGroupMember :=
    { loaded with
      sessionTimeoutMS := replaceTimeout req.sessionTimeoutMS loaded.sessionTimeoutMS
      maxPollIntervalMS := replaceTimeout req.maxPollIntervalMS loaded.maxPollIntervalMS
      lastHeartbeatMS := now }
  wrapBroker "save group member heartbeat" (onMeta (.saveGroupMember member))
  pure member

def applyPollGroup (req : PollGroupCommand) : Handling ConsumerGroupMember := do
  let now ← nowMS
  let loaded ← loadUnexpiredGroupMember req.group req.memberID now
  let member : ConsumerGroupMember :=
    { loaded with lastPollMS := if now = 0 then minGroupLeaseRefreshTimestampMS else now }
  wrapBroker "save group member poll" (onMeta (.saveGroupMember member))
  pure member

/-! ## Assignments (`groups_cooperative.go`, `groups.go`, `groups_helpers.go`) -/

/-- `compareGroupPartitionAssignment`. -/
def groupPartitionAssignmentLE (left right : GroupPartitionAssignment) : Bool :=
  if left.topic = right.topic then
    if left.partition = right.partition then left.memberID ≤ right.memberID
    else left.partition < right.partition
  else left.topic < right.topic

def sortGroupAssignments (assignments : List GroupPartitionAssignment) :
    List GroupPartitionAssignment :=
  assignments.insertionSort fun left right => groupPartitionAssignmentLE left right

/-- `compareTopicPartitions`. -/
def topicPartitionLE (left right : TopicPartition) : Bool :=
  if left.topic = right.topic then left.partition ≤ right.partition else left.topic < right.topic

/-- `groupPartitions`, on the topics of the metadata. -/
def groupPartitions (members : List ConsumerGroupMember) (topics : List TopicConfig) :
    List TopicPartition :=
  let wanted := members.flatMap ConsumerGroupMember.topics
  ((topics.filter fun topic => topic.name ∈ wanted).flatMap
    TopicConfig.partitionList).insertionSort fun left right => topicPartitionLE left right

def memberWantsTopic (member : ConsumerGroupMember) (topic : String) : Bool := topic ∈ member.topics

/-- `buildRoundRobinAssignments`, from position `index` on. -/
def buildRoundRobinAssignments (active : List ConsumerGroupMember) :
    Nat → List TopicPartition → List GroupPartitionAssignment
  | _, [] => []
  | index, tp :: rest =>
    ((active[index % active.length]?).map fun owner =>
      (⟨owner.memberID, tp.topic, tp.partition⟩ : GroupPartitionAssignment)).toList
      ++ buildRoundRobinAssignments active (index + 1) rest

/-- The loop of `appendRangeAssignments`: the first `extra` owners take one partition more. -/
def appendRangeAssignments (base extra : Nat) :
    Nat → List ConsumerGroupMember → List TopicPartition → List GroupPartitionAssignment
  | _, [], _ => []
  | index, owner :: owners, partitions =>
    let size := if index < extra then base + 1 else base
    (partitions.take size).map (fun tp => ⟨owner.memberID, tp.topic, tp.partition⟩)
      ++ appendRangeAssignments base extra (index + 1) owners (partitions.drop size)

/-- `buildRangeAssignments`: topic by topic, over the members that want it. -/
def buildRangeAssignments (active : List ConsumerGroupMember) (partitions : List TopicPartition) :
    List GroupPartitionAssignment :=
  let topics := sortedStrings (partitions.map TopicPartition.topic).dedup
  topics.flatMap fun topic =>
    let owners := active.filter fun member => memberWantsTopic member topic
    let own := (partitions.filter fun tp => tp.topic = topic).insertionSort
      fun left right => left.partition ≤ right.partition
    appendRangeAssignments (own.length / owners.length) (own.length % owners.length) 0 owners own

/-- The number of partitions a member has. -/
def memberLoad (assignments : List GroupPartitionAssignment) (memberID : String) : Nat :=
  (assignments.filter fun assignment => assignment.memberID = memberID).length

/-- Members by load, then by id: the order of `leastLoadedEligibleMember` and
`underloadedMembers`. -/
def memberLoadLE (assignments : List GroupPartitionAssignment)
    (left right : ConsumerGroupMember) : Bool :=
  let leftLoad := memberLoad assignments left.memberID
  let rightLoad := memberLoad assignments right.memberID
  if leftLoad = rightLoad then left.memberID ≤ right.memberID else leftLoad < rightLoad

/-- The loop of `retainedStickyAssignments`, given the partitions already seen. -/
def retainedStickyAssignments (active : List ConsumerGroupMember)
    (partitions : List TopicPartition) :
    List TopicPartition → List GroupPartitionAssignment → List GroupPartitionAssignment
  | _, [] => []
  | seen, assignment :: rest =>
    let tp := assignment.topicPartition
    if tp ∈ seen ∨ tp ∉ partitions then retainedStickyAssignments active partitions seen rest
    else if active.any fun member =>
        member.memberID = assignment.memberID ∧ memberWantsTopic member assignment.topic then
      assignment :: retainedStickyAssignments active partitions (tp :: seen) rest
    else retainedStickyAssignments active partitions seen rest

def leastLoadedEligibleMember (assignments : List GroupPartitionAssignment)
    (active : List ConsumerGroupMember) (topic : String) : Option ConsumerGroupMember :=
  ((active.filter fun member => memberWantsTopic member topic).insertionSort
    fun left right => memberLoadLE assignments left right).head?

def assignMissingPartitions (active : List ConsumerGroupMember) :
    List GroupPartitionAssignment → List TopicPartition → List GroupPartitionAssignment
  | assignments, [] => assignments
  | assignments, tp :: rest =>
    if tp ∈ assignments.map GroupPartitionAssignment.topicPartition then
      assignMissingPartitions active assignments rest
    else
      match leastLoadedEligibleMember assignments active tp.topic with
      | none => assignMissingPartitions active assignments rest
      | some owner =>
        assignMissingPartitions active (assignments ++ [⟨owner.memberID, tp.topic, tp.partition⟩])
          rest

def underloadedMembers (assignments : List GroupPartitionAssignment)
    (active : List ConsumerGroupMember) (minLoad : Nat) : List ConsumerGroupMember :=
  (active.filter fun member => memberLoad assignments member.memberID < minLoad).insertionSort
    fun left right => memberLoadLE assignments left right

/-- `movableAssignmentIndex`: from the most loaded member, the last assignment in order. -/
def movableAssignmentIndex (assignments : List GroupPartitionAssignment)
    (target : ConsumerGroupMember) (maxLoad : Nat) : Option Nat :=
  let movable := assignments.zipIdx.filter fun e =>
    e.1.memberID ≠ target.memberID ∧ memberLoad assignments e.1.memberID > maxLoad
      ∧ memberWantsTopic target e.1.topic
  let sorted := movable.insertionSort fun left right =>
    let leftLoad := memberLoad assignments left.1.memberID
    let rightLoad := memberLoad assignments right.1.memberID
    if leftLoad ≠ rightLoad then leftLoad > rightLoad
    else groupPartitionAssignmentLE right.1 left.1
  sorted.head?.map Prod.snd

/-- `moveOneStickyAssignment`: the first target that can be given an assignment. -/
def moveOneStickyAssignment (assignments : List GroupPartitionAssignment) (maxLoad : Nat) :
    List ConsumerGroupMember → Option (List GroupPartitionAssignment)
  | [] => none
  | target :: rest =>
    match movableAssignmentIndex assignments target maxLoad with
    | none => moveOneStickyAssignment assignments maxLoad rest
    | some index =>
      some (assignments.modify index fun assignment => { assignment with memberID := target.memberID })

/-- The loop of `balanceStickyAssignments`. Every move brings an underloaded member one nearer
to the least load, so the number of assignments bounds the number of moves. -/
def balanceStickyLoop (active : List ConsumerGroupMember) (minLoad maxLoad : Nat) :
    Nat → List GroupPartitionAssignment → List GroupPartitionAssignment
  | 0, assignments => assignments
  | fuel + 1, assignments =>
    match moveOneStickyAssignment assignments maxLoad
        (underloadedMembers assignments active minLoad) with
    | none => assignments
    | some moved => balanceStickyLoop active minLoad maxLoad fuel moved

def balanceStickyAssignments (active : List ConsumerGroupMember)
    (assignments : List GroupPartitionAssignment) : List GroupPartitionAssignment :=
  if assignments = [] ∨ active = [] then assignments
  else
    let minLoad := assignments.length / active.length
    let maxLoad := if assignments.length % active.length ≠ 0 then minLoad + 1 else minLoad
    balanceStickyLoop active minLoad maxLoad assignments.length assignments

/-- `buildCooperativeStickyAssignments`, the assignments. -/
def buildCooperativeStickyAssignments (previous : List GroupPartitionAssignment)
    (active : List ConsumerGroupMember) (partitions : List TopicPartition) :
    List GroupPartitionAssignment :=
  let retained := retainedStickyAssignments active partitions [] (sortGroupAssignments previous)
  sortGroupAssignments
    (balanceStickyAssignments active (assignMissingPartitions active retained partitions))

def buildGroupAssignments (cfg : Config) (previous : Option ConsumerGroupAssignment)
    (active : List ConsumerGroupMember) (topics : List TopicConfig) :
    List GroupPartitionAssignment :=
  if active = [] then []
  else
    let partitions := groupPartitions active topics
    match cfg.groupStickyAssignments, previous with
    | true, some previous =>
      buildCooperativeStickyAssignments previous.assignments active partitions
    | _, _ =>
      match cfg.groupAssignmentStrategy with
      | .roundRobin => buildRoundRobinAssignments active 0 partitions
      | .range => buildRangeAssignments active partitions

def assignmentMembersMatchActive (assignments : List GroupPartitionAssignment)
    (active : List ConsumerGroupMember) : Bool :=
  let members := (assignments.map GroupPartitionAssignment.memberID).dedup
  members.length = active.length ∧ ∀ member ∈ active, member.memberID ∈ members

def groupAssignmentStable (previous next : List GroupPartitionAssignment)
    (active : List ConsumerGroupMember) : Bool :=
  sortGroupAssignments previous = sortGroupAssignments next ∧
    assignmentMembersMatchActive previous active ∧ assignmentMembersMatchActive next active

/-- `buildGroupRebalancePlan`, the assignment: an unchanged one keeps its generation. -/
def buildGroupRebalancePlan (cfg : Config) (group : String) (now : Nat)
    (previous : Option ConsumerGroupAssignment) (active : List ConsumerGroupMember)
    (topics : List TopicConfig) : ConsumerGroupAssignment :=
  let assignments := sortGroupAssignments (buildGroupAssignments cfg previous active topics)
  match previous with
  | none => ⟨group, 1, assignments, now⟩
  | some previous =>
    if groupAssignmentStable previous.assignments assignments active then
      ⟨group, previous.generation, assignments, previous.updatedAtMS⟩
    else ⟨group, previous.generation + 1, assignments, now⟩

def activeGroupMembers (group : String) (now : Nat) : Handling (List ConsumerGroupMember) := do
  let members ← wrapBroker "list group members" (onMeta (.listGroupMembers group))
  pure ((members.filter fun member => !member.expiredAt now).insertionSort
    fun left right => left.memberID ≤ right.memberID)

/-- `applyRebalanceGroup`. The topics are listed only when a member is active. -/
def applyRebalanceGroup (cfg : Config) (group : String) : Handling ConsumerGroupAssignment := do
  let now ← nowMS
  let _ ← wrapBroker "delete expired group members" (onMeta (.deleteExpiredGroupMembers now))
  let active ← activeGroupMembers group now
  let previous ← wrapBroker "load group assignment" (onMeta (.loadGroupAssignment group))
  let topics ←
    if active = [] then pure []
    else wrapBroker "list topics for group partitions" (onMeta .listTopics)
  let assignment := buildGroupRebalancePlan cfg group now previous active topics
  wrapBroker "save group assignment" (onMeta (.saveGroupAssignment assignment))
  pure assignment

end Ech0.Broker
