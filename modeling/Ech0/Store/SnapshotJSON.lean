/-
  The JSON form of a snapshot (`snapshot_json.go`).

  The encoder and the decoder are two field lists. Each collection brings its own
  `MarshalJSON` and `UnmarshalJSON`, and the record that holds the encoded fields is
  written and read by the JSON library; neither is part of this repository, so both are
  taken as a `SnapshotCodec`, with their round trip on the snapshot at hand as the named
  hypothesis `SnapshotCodec.Lawful`. What is proved is what the two field lists do with it: every
  field survives except the dead-letter index, which neither list names.
-/
import Ech0.Store.Model

set_option autoImplicit false

namespace Ech0.Store

open Ech0.Lib

/-! ## The external codecs (`snapshot_json.go`) -/

/-- A `MarshalJSON`/`UnmarshalJSON` pair over JSON texts of type `Text`. -/
structure Codec (Text α : Type) where
  marshal : α → Except Error Text
  unmarshal : Text → Except Error α

/-- `snapshotJSON`: the wire record, each collection already a raw JSON text. -/
structure SnapshotJSON (Text : Type) where
  topics : Text
  records : Text
  logOffsets : Text
  offsets : Text
  offsetStates : Text
  consumerPauses : Text
  placements : Text
  members : Text
  assignments : Text
  transactions : Text
  producerBatches : Text
  aclPolicies : Text
  nextTransactionID : Nat
  brokerState : Option BrokerState

/-- The encoders in use: one per collection type, and the one of the wire record. `isNull`
is the decoder's test for an empty text or the text `null`. -/
structure SnapshotCodec (Text : Type) where
  isNull : Text → Bool
  topics : Codec Text (List TopicConfig)
  records : Codec Text (Map String (List Record))
  offsets : Codec Text (Map String Nat)
  offsetStates : Codec Text (List ConsumerOffsetState)
  consumerPauses : Codec Text (List ConsumerPauseState)
  placements : Codec Text (List ShardPlacement)
  members : Codec Text (List ConsumerGroupMember)
  assignments : Codec Text (List ConsumerGroupAssignment)
  transactions : Codec Text (List TransactionState)
  producerBatches : Codec Text (List ProducerPublishedBatch)
  aclPolicies : Codec Text (List ACLPolicy)
  wire : Codec Text (SnapshotJSON Text)

variable {Text : Type}

/-! ## The encoder and the decoder (`snapshot_json.go`) -/

def marshalSnapshotCollection {α : Type} (c : Codec Text α) (value : α) (field : String) :
    Except Error Text :=
  (c.marshal value).mapError (Error.wrap ("marshal snapshot " ++ field))

/-- The target is a fresh, empty collection; a missing or null text leaves it empty. -/
def unmarshalSnapshotCollection {α : Type} (isNull : Text → Bool) (c : Codec Text α)
    (empty : α) (data : Text) (field : String) : Except Error α :=
  if isNull data then .ok empty
  else (c.unmarshal data).mapError (Error.wrap ("unmarshal snapshot " ++ field))

def Snapshot.snapshotJSON (c : SnapshotCodec Text) (s : Snapshot) :
    Except Error (SnapshotJSON Text) := do
  let topics ← marshalSnapshotCollection c.topics s.topics "topics"
  let records ← marshalSnapshotCollection c.records s.records "records"
  let logOffsets ← marshalSnapshotCollection c.offsets s.logOffsets "log_offsets"
  let offsets ← marshalSnapshotCollection c.offsets s.offsets "offsets"
  let offsetStates ← marshalSnapshotCollection c.offsetStates s.offsetStates "offset states"
  let consumerPauses ←
    marshalSnapshotCollection c.consumerPauses s.consumerPauses "consumer pauses"
  let placements ← marshalSnapshotCollection c.placements s.placements "shard placements"
  let members ← marshalSnapshotCollection c.members s.members "members"
  let assignments ← marshalSnapshotCollection c.assignments s.assignments "assignments"
  let transactions ← marshalSnapshotCollection c.transactions s.transactions "transactions"
  let producerBatches ←
    marshalSnapshotCollection c.producerBatches s.producerBatches "producer batches"
  let aclPolicies ← marshalSnapshotCollection c.aclPolicies s.aclPolicies "acl policies"
  return { topics, records, logOffsets, offsets, offsetStates, consumerPauses, placements,
           members, assignments, transactions, producerBatches, aclPolicies,
           nextTransactionID := s.nextTransactionID, brokerState := s.brokerState }

def Snapshot.marshalJSON (c : SnapshotCodec Text) (s : Snapshot) : Except Error Text := do
  let wire ← s.snapshotJSON c
  (c.wire.marshal wire).mapError (Error.wrap "marshal snapshot json")

/-- `unmarshalSnapshotCollections`, and the literal of `UnmarshalJSON` that collects the
fields. -/
def unmarshalSnapshotCollections (c : SnapshotCodec Text) (wire : SnapshotJSON Text) :
    Except Error Snapshot := do
  let topics ← unmarshalSnapshotCollection c.isNull c.topics [] wire.topics "topics"
  let records ← unmarshalSnapshotCollection c.isNull c.records ∅ wire.records "records"
  let logOffsets ←
    unmarshalSnapshotCollection c.isNull c.offsets ∅ wire.logOffsets "log_offsets"
  let offsets ← unmarshalSnapshotCollection c.isNull c.offsets ∅ wire.offsets "offsets"
  let offsetStates ←
    unmarshalSnapshotCollection c.isNull c.offsetStates [] wire.offsetStates "offset states"
  let consumerPauses ←
    unmarshalSnapshotCollection c.isNull c.consumerPauses [] wire.consumerPauses
      "consumer pauses"
  let placements ←
    unmarshalSnapshotCollection c.isNull c.placements [] wire.placements "shard placements"
  let members ← unmarshalSnapshotCollection c.isNull c.members [] wire.members "members"
  let assignments ←
    unmarshalSnapshotCollection c.isNull c.assignments [] wire.assignments "assignments"
  let transactions ←
    unmarshalSnapshotCollection c.isNull c.transactions [] wire.transactions "transactions"
  let producerBatches ←
    unmarshalSnapshotCollection c.isNull c.producerBatches [] wire.producerBatches
      "producer batches"
  let aclPolicies ←
    unmarshalSnapshotCollection c.isNull c.aclPolicies [] wire.aclPolicies "acl policies"
  return { topics, records, logOffsets, offsets, offsetStates, consumerPauses, placements,
           members, assignments, transactions, producerBatches, aclPolicies,
           nextTransactionID := wire.nextTransactionID, brokerState := wire.brokerState }

/-- `Snapshot.UnmarshalJSON` on a receiver that is not nil. -/
def Snapshot.unmarshalJSON (c : SnapshotCodec Text) (data : Text) : Except Error Snapshot := do
  let wire ← (c.wire.unmarshal data).mapError (Error.wrap "unmarshal snapshot json")
  unmarshalSnapshotCollections c wire

/-! ## The round trip -/

/-- A collection's own JSON round trip: it encodes, and what the decoder makes of the text
(a null text being the empty collection) is the value again. -/
def Codec.RoundTrips {α : Type} (isNull : Text → Bool) (c : Codec Text α) (empty value : α) :
    Prop :=
  ∃ raw : Text, c.marshal value = .ok raw ∧
    (if isNull raw then value = empty else c.unmarshal raw = .ok value)

/-- What is assumed of the encoders outside this repository: every collection of the snapshot
round-trips, and the JSON library reads back the wire record that the encoder assembled from
it. (Not of all snapshots: a text that is not valid UTF-8 does not come back.) -/
structure SnapshotCodec.Lawful (c : SnapshotCodec Text) (s : Snapshot) : Prop where
  topics : c.topics.RoundTrips c.isNull [] s.topics
  records : c.records.RoundTrips c.isNull ∅ s.records
  logOffsets : c.offsets.RoundTrips c.isNull ∅ s.logOffsets
  offsets : c.offsets.RoundTrips c.isNull ∅ s.offsets
  offsetStates : c.offsetStates.RoundTrips c.isNull [] s.offsetStates
  consumerPauses : c.consumerPauses.RoundTrips c.isNull [] s.consumerPauses
  placements : c.placements.RoundTrips c.isNull [] s.placements
  members : c.members.RoundTrips c.isNull [] s.members
  assignments : c.assignments.RoundTrips c.isNull [] s.assignments
  transactions : c.transactions.RoundTrips c.isNull [] s.transactions
  producerBatches : c.producerBatches.RoundTrips c.isNull [] s.producerBatches
  aclPolicies : c.aclPolicies.RoundTrips c.isNull [] s.aclPolicies
  wire : ∀ w : SnapshotJSON Text, s.snapshotJSON c = .ok w →
    ∃ data : Text, c.wire.marshal w = .ok data ∧ c.wire.unmarshal data = .ok w

/-- One collection through both field lists. -/
lemma Codec.RoundTrips.collection {α : Type} {isNull : Text → Bool} {c : Codec Text α}
    {empty value : α} (h : c.RoundTrips isNull empty value) (field : String) :
    ∃ raw : Text, marshalSnapshotCollection c value field = .ok raw ∧
      unmarshalSnapshotCollection isNull c empty raw field = .ok value := by
  obtain ⟨raw, hm, hu⟩ := h
  refine ⟨raw, ?_, ?_⟩
  · rw [marshalSnapshotCollection, hm]
    rfl
  · by_cases hn : isNull raw = true
    · rw [if_pos hn] at hu
      rw [unmarshalSnapshotCollection, if_pos hn, hu]
    · rw [if_neg hn] at hu
      rw [unmarshalSnapshotCollection, if_neg hn, hu]
      rfl

/-- The two field lists on the wire record: everything but the dead-letter index comes
back. -/
lemma Snapshot.snapshotJSON_spec {c : SnapshotCodec Text} {s : Snapshot} (hc : c.Lawful s) :
    ∃ w : SnapshotJSON Text, s.snapshotJSON c = .ok w ∧
      unmarshalSnapshotCollections c w = .ok { s with dlqIndexes := [] } := by
  obtain ⟨topics, topicsTo, topicsOf⟩ := hc.topics.collection "topics"
  obtain ⟨records, recordsTo, recordsOf⟩ := hc.records.collection "records"
  obtain ⟨logOffsets, logOffsetsTo, logOffsetsOf⟩ := hc.logOffsets.collection "log_offsets"
  obtain ⟨offsets, offsetsTo, offsetsOf⟩ := hc.offsets.collection "offsets"
  obtain ⟨states, statesTo, statesOf⟩ := hc.offsetStates.collection "offset states"
  obtain ⟨pauses, pausesTo, pausesOf⟩ := hc.consumerPauses.collection "consumer pauses"
  obtain ⟨placements, placementsTo, placementsOf⟩ := hc.placements.collection "shard placements"
  obtain ⟨members, membersTo, membersOf⟩ := hc.members.collection "members"
  obtain ⟨assignments, assignmentsTo, assignmentsOf⟩ := hc.assignments.collection "assignments"
  obtain ⟨transactions, transactionsTo, transactionsOf⟩ :=
    hc.transactions.collection "transactions"
  obtain ⟨batches, batchesTo, batchesOf⟩ := hc.producerBatches.collection "producer batches"
  obtain ⟨policies, policiesTo, policiesOf⟩ := hc.aclPolicies.collection "acl policies"
  refine ⟨⟨topics, records, logOffsets, offsets, states, pauses, placements, members, assignments,
    transactions, batches, policies, s.nextTransactionID, s.brokerState⟩, ?_, ?_⟩
  · rw [snapshotJSON, topicsTo, recordsTo, logOffsetsTo, offsetsTo, statesTo, pausesTo,
      placementsTo, membersTo, assignmentsTo, transactionsTo, batchesTo, policiesTo]
    rfl
  · rw [unmarshalSnapshotCollections, topicsOf, recordsOf, logOffsetsOf, offsetsOf, statesOf,
      pausesOf, placementsOf, membersOf, assignmentsOf, transactionsOf, batchesOf, policiesOf]
    rfl

/-- **What a snapshot is after its JSON form.** Decoding the encoded snapshot succeeds and
gives the snapshot with an empty dead-letter index. -/
theorem Snapshot.unmarshalJSON_marshalJSON {c : SnapshotCodec Text} {s : Snapshot}
    (hc : c.Lawful s) :
    ∃ data : Text, s.marshalJSON c = .ok data ∧
      Snapshot.unmarshalJSON c data = .ok { s with dlqIndexes := [] } := by
  obtain ⟨w, hw, hs⟩ := Snapshot.snapshotJSON_spec hc
  obtain ⟨data, hm, hu⟩ := hc.wire w hw
  refine ⟨data, ?_, ?_⟩
  · rw [marshalJSON, hw]
    change (c.wire.marshal w).mapError _ = _
    rw [hm]
    rfl
  · rw [unmarshalJSON, hu]
    exact hs

/-! ## A codec that keeps its input

The text is the encoded value itself. It is the smallest behaviour that meets
`SnapshotCodec.Lawful`, and fixed inputs are evaluated over it. -/

inductive PlainText where
  | topics (value : List TopicConfig)
  | records (value : Map String (List Record))
  | offsets (value : Map String Nat)
  | offsetStates (value : List ConsumerOffsetState)
  | consumerPauses (value : List ConsumerPauseState)
  | placements (value : List ShardPlacement)
  | members (value : List ConsumerGroupMember)
  | assignments (value : List ConsumerGroupAssignment)
  | transactions (value : List TransactionState)
  | producerBatches (value : List ProducerPublishedBatch)
  | aclPolicies (value : List ACLPolicy)
  | wire (value : SnapshotJSON PlainText)

/-- The codec of one constructor of `PlainText`. -/
def plainCollection {α : Type} (make : α → PlainText) (read : PlainText → Option α) :
    Codec PlainText α where
  marshal value := .ok (make value)
  unmarshal data :=
    match read data with
    | some value => .ok value
    | none => .error (E .codec "unexpected json value")

def plainCodec : SnapshotCodec PlainText where
  isNull _ := false
  topics := plainCollection .topics fun | .topics v => some v | _ => none
  records := plainCollection .records fun | .records v => some v | _ => none
  offsets := plainCollection .offsets fun | .offsets v => some v | _ => none
  offsetStates := plainCollection .offsetStates fun | .offsetStates v => some v | _ => none
  consumerPauses := plainCollection .consumerPauses fun | .consumerPauses v => some v | _ => none
  placements := plainCollection .placements fun | .placements v => some v | _ => none
  members := plainCollection .members fun | .members v => some v | _ => none
  assignments := plainCollection .assignments fun | .assignments v => some v | _ => none
  transactions := plainCollection .transactions fun | .transactions v => some v | _ => none
  producerBatches :=
    plainCollection .producerBatches fun | .producerBatches v => some v | _ => none
  aclPolicies := plainCollection .aclPolicies fun | .aclPolicies v => some v | _ => none
  wire := plainCollection .wire fun | .wire v => some v | _ => none

lemma plainCodec_lawful (s : Snapshot) : plainCodec.Lawful s where
  topics := ⟨_, rfl, rfl⟩
  records := ⟨_, rfl, rfl⟩
  logOffsets := ⟨_, rfl, rfl⟩
  offsets := ⟨_, rfl, rfl⟩
  offsetStates := ⟨_, rfl, rfl⟩
  consumerPauses := ⟨_, rfl, rfl⟩
  placements := ⟨_, rfl, rfl⟩
  members := ⟨_, rfl, rfl⟩
  assignments := ⟨_, rfl, rfl⟩
  transactions := ⟨_, rfl, rfl⟩
  producerBatches := ⟨_, rfl, rfl⟩
  aclPolicies := ⟨_, rfl, rfl⟩
  wire w _ := ⟨.wire w, rfl, rfl⟩

/-- **The round trip.** A snapshot is its own JSON round trip exactly when its dead-letter
index is empty. -/
theorem snapshot_json_roundtrip_iff {c : SnapshotCodec Text} {s : Snapshot} (hc : c.Lawful s) :
    (∃ data : Text, s.marshalJSON c = .ok data ∧ Snapshot.unmarshalJSON c data = .ok s)
      ↔ s.dlqIndexes = [] := by
  obtain ⟨data, hm, hu⟩ := Snapshot.unmarshalJSON_marshalJSON hc
  constructor
  · rintro ⟨data', hm', hu'⟩
    have hd : data' = data := Except.ok.inj (hm'.symm.trans hm)
    have hs : s = { s with dlqIndexes := [] } := Except.ok.inj (hu'.symm.trans (hd ▸ hu))
    rw [hs]
  · intro h
    refine ⟨data, hm, ?_⟩
    rw [hu, ← h]

/-- A snapshot with something in every collection but the dead-letter index. -/
def snapshotOfOrders : Snapshot :=
  { topics := [newTopicConfig "orders"]
    records := (∅ : Map String (List Record)).insert "orders\x000"
      [{ offset := 0, timestampMS := 1000, key := [107], headers := [], attributes := 0,
         transaction := none, expiresAtMS := none, payload := [1] }]
    logOffsets := (∅ : Map String Nat).insert "orders\x000" 1
    offsets := (∅ : Map String Nat).insert "audit\x00orders\x000" 1
    offsetStates := [{ consumer := "audit", topic := "orders", partition := 0, nextOffset := 1 }]
    consumerPauses :=
      [{ consumer := "audit", topic := "orders", partition := 0, paused := true, updatedAtMS := 1000 }]
    placements := [{ topic := "orders", partition := 0, shardID := 1 }]
    members :=
      [{ group := "g", memberID := "m", topics := ["orders"], sessionTimeoutMS := 30000,
         maxPollIntervalMS := 60000, joinedAtMS := 1000, lastHeartbeatMS := 1000, lastPollMS := 1000 }]
    assignments :=
      [{ group := "g", generation := 1, updatedAtMS := 1000
         assignments := [{ memberID := "m", topic := "orders", partition := 0 }] }]
    transactions :=
      [{ txID := 1, transactionalID := "pay", producerID := 7, producerEpoch := 0, status := .open,
         timeoutMS := 60000, createdAtMS := 1000, updatedAtMS := 1000, expiresAtMS := 61000,
         nextSequence := 0 }]
    producerBatches :=
      [{ producerID := 7, producerEpoch := 0, topic := "orders", partition := 0, baseSequence := 0,
         recordCount := 1, baseOffset := 0, lastOffset := 0, nextOffset := 1, updatedAtMS := 1000 }]
    aclPolicies :=
      [{ policyID := "p", tenant := "default", namespace_ := "default", principal := "anonymous",
         resourceType := "topic", resourceName := "orders", actions := ["produce"], effect := .allow,
         priority := 0, updatedAtMS := 1000 }]
    nextTransactionID := 2
    brokerState := some { nodeID := "n1", epoch := 1 } }

/-- It comes back through the codec above. -/
theorem snapshot_json_roundtrip_orders :
    ∃ data : PlainText, snapshotOfOrders.marshalJSON plainCodec = .ok data ∧
      Snapshot.unmarshalJSON plainCodec data = .ok snapshotOfOrders :=
  (snapshot_json_roundtrip_iff (plainCodec_lawful snapshotOfOrders)).mpr rfl

/-- A snapshot with one dead-lettered record: offset 7 of `orders/0`, now at offset 0 of
`orders.dlq/0`. -/
def snapshotWithDeadLetter : Snapshot :=
  { dlqIndexes :=
      [{ dlqTopic := "orders.dlq", dlqPartition := 0, dlqOffset := 0, timestampMS := 1000,
         originalTopic := "orders", originalPartition := 0, originalOffset := 7,
         errorCode := "poison_message", retryCount := 3 }] }

/-- Its decoded form has lost the entry. -/
theorem snapshot_json_drops_dlq_index :
    ¬ ∃ data : PlainText, snapshotWithDeadLetter.marshalJSON plainCodec = .ok data ∧
      Snapshot.unmarshalJSON plainCodec data = .ok snapshotWithDeadLetter := by
  rintro ⟨data, hm, hu⟩
  obtain ⟨data', hm', hu'⟩ :=
    Snapshot.unmarshalJSON_marshalJSON (plainCodec_lawful snapshotWithDeadLetter)
  have hd : data' = data := Except.ok.inj (hm'.symm.trans hm)
  have hs := Except.ok.inj (hu.symm.trans (hd ▸ hu'))
  exact absurd (congrArg Snapshot.dlqIndexes hs) (by decide)

end Ech0.Store
